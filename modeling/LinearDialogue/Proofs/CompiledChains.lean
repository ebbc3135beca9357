import LinearDialogue.Proofs.CompiledPlayback
import LinearDialogue.Proofs.ValidGraphs
import Mathlib.Data.List.Sort

/-!
# The shape of a compiled graph

A compiled graph holds one record for each line of the authored graph, in order, and refers to
nothing but these records.  Entries and exits have left no trace: no id in it is the number of one.
From every record on the successors come to an end.  The records of a valid graph fall into chains
that share nothing, and the entry is the first record of its chain.
-/

namespace LinearDialogue

/-- What a compiled graph refers to: its entry and the successors of its records. -/
def CompiledGraph.references (compiled : CompiledGraph) : List Int :=
  compiled.entry :: compiled.records.map Record.successor

/-- Records each of which leads to the one after it, and the last to the end. -/
inductive Succession : List Record → Prop
  | last {record : Record} (hend : record.successor = noId) : Succession [record]
  | cons {record next : Record} {rest : List Record} (hnext : record.successor = next.id)
      (hrest : Succession (next :: rest)) : Succession (record :: next :: rest)

/-- The records of a compiled graph are chains that share nothing: nothing is referred to twice, and
every record stands in one chain, the one that is the entry at its head. -/
structure CompiledGraph.IsChained (compiled : CompiledGraph) : Prop where
  single : (compiled.references.filter (· ≠ noId)).Nodup
  chains : ∃ chains : List (List Record), chains.flatten.Perm compiled.records ∧
    (∀ chain ∈ chains, Succession chain) ∧
    ∀ record ∈ compiled.records, record.id = compiled.entry → ∃ rest, record :: rest ∈ chains

/-- The shape of what a graph compiles to. -/
structure Graph.Shapes (g : Graph) (compiled : CompiledGraph) : Prop where
  records : List.Forall₂ g.Lowers (g.nodesOfKind .line) compiled.records
  increasing : (compiled.records.map Record.id).Pairwise (· < ·)
  range : ∀ record ∈ compiled.records, 0 ≤ record.id ∧ record.id < g.nodes.length
  boundary : ∀ node ∈ g.nodes, node.isBoundary = true → ∃ number, g.numberOf node.id = .ok number ∧
    number ∉ compiled.records.map Record.id ∧ number ∉ compiled.references
  closed : ∀ id ∈ compiled.references, id = noId ∨ id ∈ compiled.records.map Record.id
  ends : ∀ record ∈ compiled.records,
    ∃ n, (SuccessorTable.ofRecords compiled.records).after n record.id = some noId

/-! ## Chains -/

namespace Succession

variable {record : Record} {chain records : List Record}

/-- A record of a chain stands at its head, or after another one that leads to it. -/
theorem eq_head_or_exists_before (h : Succession chain) (hrecord : record ∈ chain) :
    (∃ rest, chain = record :: rest) ∨ ∃ before ∈ chain, before.successor = record.id := by
  induction h with
  | last hend => exact Or.inl ⟨[], by rw [List.mem_singleton.mp hrecord]⟩
  | @cons first next rest hnext hrest ih =>
      rcases List.mem_cons.mp hrecord with rfl | hrecord
      · exact Or.inl ⟨_, rfl⟩
      · rcases ih hrecord with ⟨_, heq⟩ | ⟨before, hbefore, hleads⟩
        · obtain ⟨rfl, -⟩ := List.cons.inj heq
          exact Or.inr ⟨first, List.mem_cons_self, hnext⟩
        · exact Or.inr ⟨before, List.mem_cons_of_mem _ hbefore, hleads⟩

/-- Records that refer to nothing but themselves fall into chains, if none of them is referred to
twice, by itself or by a later one. -/
theorem exists_chains
    (hclosed : ∀ r ∈ records, r.successor = noId ∨ ∃ s ∈ records, r.successor = s.id)
    (hself : ∀ r ∈ records, r.successor ≠ r.id)
    (hlater : records.Pairwise fun r s ↦
      s.successor ≠ r.id ∧ (r.successor = s.successor → r.successor = noId)) :
    ∃ chains : List (List Record), chains.flatten.Perm records ∧
      ∀ chain ∈ chains, Succession chain := by
  induction records with
  | nil => exact ⟨[], .nil, by simp⟩
  | cons record records ih =>
      obtain ⟨hfirst, hlater⟩ := List.pairwise_cons.mp hlater
      obtain ⟨chains, hperm, hchains⟩ := ih (fun r hr ↦ by
        rcases hclosed r (List.mem_cons_of_mem _ hr) with hend | ⟨s, hs, hleads⟩
        · exact Or.inl hend
        · rcases List.mem_cons.mp hs with rfl | hs
          · exact absurd hleads (hfirst r hr).1
          · exact Or.inr ⟨s, hs, hleads⟩)
        (fun r hr ↦ hself r (List.mem_cons_of_mem _ hr)) hlater
      by_cases hend : record.successor = noId
      · refine ⟨[record] :: chains, hperm.cons record, ?_⟩
        exact List.forall_mem_cons.mpr ⟨.last hend, hchains⟩
      obtain ⟨next, hnext, hleads⟩ := (hclosed record List.mem_cons_self).resolve_left hend
      have hnext : next ∈ records := by
        rcases List.mem_cons.mp hnext with rfl | hnext
        · exact absurd hleads (hself _ List.mem_cons_self)
        · exact hnext
      -- the record comes before the chain that its successor is the head of
      obtain ⟨chain, hchain, hmem⟩ := List.mem_flatten.mp (hperm.mem_iff.mpr hnext)
      rcases (hchains chain hchain).eq_head_or_exists_before hmem with
        ⟨rest, rfl⟩ | ⟨before, hbefore, hsame⟩
      · obtain ⟨some, others, rfl⟩ := List.append_of_mem hchain
        refine ⟨some ++ (record :: next :: rest) :: others, ?_, ?_⟩
        · have hplace : ((some ++ (record :: next :: rest) :: others).flatten).Perm
              (record :: (some ++ (next :: rest) :: others).flatten) := by
            simp
          exact hplace.trans (hperm.cons record)
        · intro chain hchain
          simp only [List.mem_append, List.mem_cons] at hchain hchains
          rcases hchain with hchain | rfl | hchain
          · exact hchains chain (Or.inl hchain)
          · exact .cons hleads (hchains _ (Or.inr (Or.inl rfl)))
          · exact hchains chain (Or.inr (Or.inr hchain))
      · have hbefore : before ∈ records :=
          hperm.mem_iff.mp (List.mem_flatten.mpr ⟨chain, hchain, hbefore⟩)
        exact absurd ((hfirst before hbefore).2 (hleads.trans hsame.symm)) hend

end Succession

namespace Graph

variable {g : Graph} {node a b : Node} {out out' : Option Node} {record : Record}
  {records : List Record} {compiled : CompiledGraph} {id : Int}

/-! ## Records and places -/

/-- Only lines have records. -/
theorem contentNodes_eq_nodesOfKind_line (hlowers : List.Forall₂ g.Lowers g.contentNodes records) :
    g.contentNodes = g.nodesOfKind .line := by
  refine List.filter_congr fun node hnode ↦ ?_
  by_cases hcontent : node ∈ g.contentNodes
  · obtain ⟨_, _, hlower⟩ := exists_mem_of_forall₂ hlowers hcontent
    obtain ⟨_, _, hbody, _⟩ := hlower.line
    simp [Node.isBoundary, Node.kind, hbody]
  · have hboundary : node.isBoundary = true := by
      by_contra hother
      exact hcontent (List.mem_filter.mpr ⟨hnode, by simpa using hother⟩)
    rcases (by simpa [Node.isBoundary] using hboundary : node.kind = .entry ∨ node.kind = .exit)
      with hkind | hkind <;> simp [Node.isBoundary, hkind]

/-- Of two members the one that comes first has the smaller place. -/
theorem pairwise_places (hnodup : g.nodes.Nodup) :
    g.nodes.Pairwise fun a b ↦
      ∀ m n : ℕ, g.nodes[m]? = some a → g.nodes[n]? = some b → m < n := by
  refine List.pairwise_iff_getElem.mpr fun i j hi hj hij m n hm hn ↦ ?_
  obtain ⟨hm', hm⟩ := List.getElem?_eq_some_iff.mp hm
  obtain ⟨hn', hn⟩ := List.getElem?_eq_some_iff.mp hn
  rwa [hnodup.getElem_inj_iff.mp hm, hnodup.getElem_inj_iff.mp hn]

theorem increasing_ids (hg : g.WellMade)
    (hlowers : List.Forall₂ g.Lowers g.contentNodes records) :
    (records.map Record.id).Pairwise (· < ·) := by
  refine List.pairwise_map.mpr (pairwise_of_forall₂ ?_
    ((pairwise_places (hg.nodup.of_map _)).filter _) hlowers)
  intro a b record record' hlower hlower' hplaces
  obtain ⟨m, hm, hid⟩ := hlower.place
  obtain ⟨n, hn, hid'⟩ := hlower'.place
  have hlt := hplaces m n hm hn
  omega

theorem range_ids (hlowers : List.Forall₂ g.Lowers g.contentNodes records)
    (hrecord : record ∈ records) : 0 ≤ record.id ∧ record.id < g.nodes.length := by
  obtain ⟨_, _, hlower⟩ := exists_mem_of_forall₂ hlowers.flip hrecord
  obtain ⟨n, hn, hid⟩ := hlower.place
  obtain ⟨hlt, _⟩ := List.getElem?_eq_some_iff.mp hn
  omega

/-- The number of an entry or of an exit is the id of no record. -/
theorem numberOf_notMem_ids (hg : g.WellMade) (hids : g.HasTextIds)
    (hlowers : List.Forall₂ g.Lowers g.contentNodes records) (hnode : node ∈ g.nodes)
    (hboundary : node.isBoundary = true) (hnumber : g.numberOf node.id = .ok id) :
    id ∉ records.map Record.id := by
  intro hmem
  obtain ⟨record, hrecord, rfl⟩ := List.mem_map.mp hmem
  obtain ⟨line, hline, hlower⟩ := exists_mem_of_forall₂ hlowers.flip hrecord
  obtain ⟨n, hn, hid⟩ := hlower.place
  have hsame := hg.eq_of_numberOf hids hnode (List.mem_of_getElem? hn) hnumber
    (hid ▸ hg.numberOf_eq_ok hids hn)
  have hcontent := List.of_mem_filter hline
  simp [← hsame, hboundary] at hcontent

/-! ## References -/

/-- What is referred to is a record. -/
theorem eq_noId_or_mem_ids (hg : g.WellMade) (hids : g.HasTextIds)
    (hlowers : List.Forall₂ g.Lowers g.contentNodes records) (hout : g.firstOutput node = .ok out)
    (htarget : g.targetNumber out = .ok id) : id = noId ∨ id ∈ records.map Record.id := by
  rcases eq_noId_or_of_targetNumber htarget with hnone | ⟨next, rfl, hexit, hnumber⟩
  · exact Or.inl hnone
  · obtain ⟨hnext, hentry⟩ := hg.of_firstOutput hids hout
    obtain ⟨record, hfind, _⟩ := exists_lowers_of_numberOf hg hids hlowers
      (mem_contentNodes_iff.mpr ⟨hnext, hentry, hexit⟩) hnumber
    obtain rfl : record.id = id := by simpa using List.find?_some hfind
    exact Or.inr (List.mem_map_of_mem (List.mem_of_find?_eq_some hfind))

/-- The entry of a graph refers to what the first output of its first entry node stands for. -/
theorem entryNumber_eq_ok (h : g.entryNumber = .ok id) :
    id = noId ∨ ∃ entry out, entry ∈ g.nodes ∧ entry.kind = .entry ∧
      g.firstOutput entry = .ok out ∧ g.targetNumber out = .ok id := by
  obtain ⟨_, _, h⟩ := bind_eq_ok_iff.mp h
  cases hentries : g.nodesOfKind .entry with
  | nil =>
      rw [hentries] at h
      exact Or.inl (Except.ok.inj h).symm
  | cons entry others =>
      rw [hentries] at h
      obtain ⟨out, hout, htarget⟩ := bind_eq_ok_iff.mp h
      obtain ⟨hentry, hkind⟩ := mem_of_nodesOfKind_eq_cons hentries
      exact Or.inr ⟨entry, out, hentry, hkind, hout, htarget⟩

theorem closed_references (hg : g.WellMade) (hids : g.HasTextIds)
    (hlowers : List.Forall₂ g.Lowers g.contentNodes compiled.records)
    (hentry : g.entryNumber = .ok compiled.entry) (hid : id ∈ compiled.references) :
    id = noId ∨ id ∈ compiled.records.map Record.id := by
  rcases List.mem_cons.mp hid with rfl | hid
  · rcases entryNumber_eq_ok hentry with hnone | ⟨_, _, _, _, hout, htarget⟩
    · exact Or.inl hnone
    · exact eq_noId_or_mem_ids hg hids hlowers hout htarget
  · obtain ⟨record, hrecord, rfl⟩ := List.mem_map.mp hid
    obtain ⟨_, _, hlower⟩ := exists_mem_of_forall₂ hlowers.flip hrecord
    obtain ⟨_, hout, htarget⟩ := hlower.follows
    exact eq_noId_or_mem_ids hg hids hlowers hout htarget

theorem next?_id (hg : g.WellMade) (hlowers : List.Forall₂ g.Lowers g.contentNodes records)
    (hrecord : record ∈ records) :
    (SuccessorTable.ofRecords records).next? record.id = some record.successor := by
  have hnodup := nodup_ids_of_forall₂ ((hg.nodup.of_map _).filter _) hlowers
  rw [ofRecords_eq_map_link hg hlowers, SuccessorTable.next?_map_link,
    find?_eq_some_of_nodup hnodup hrecord fun _ _ ↦ beq_iff_eq]
  rfl

/-- Where the chain of a record is over, it has come to `noId`. -/
theorem exists_after_eq_noId (hg : g.WellMade)
    (hlowers : List.Forall₂ g.Lowers g.contentNodes records)
    (hclosed : ∀ record ∈ records,
      record.successor = noId ∨ record.successor ∈ records.map Record.id)
    (hrecord : record ∈ records) {n : ℕ}
    (h : (SuccessorTable.ofRecords records).after n record.id = none) :
    ∃ m, (SuccessorTable.ofRecords records).after m record.id = some noId := by
  induction n generalizing record with
  | zero => simp at h
  | succ n ih =>
      have hnext := next?_id hg hlowers hrecord
      rcases hclosed record hrecord with hend | hmem
      · exact ⟨1, by rw [SuccessorTable.after_one, hnext, hend]⟩
      · obtain ⟨next, hmem, hid⟩ := List.mem_map.mp hmem
        rw [SuccessorTable.after_succ, hnext, Option.bind_some, ← hid] at h
        obtain ⟨m, hm⟩ := ih hmem h
        exact ⟨m + 1, by rw [SuccessorTable.after_succ, hnext, Option.bind_some, ← hid, hm]⟩

/-! ## Valid graphs -/

/-- Where the rules are kept, members that refer to the same record are one. -/
theorem KeepsRules.eq_of_targetNumber (hrules : g.KeepsRules) (hg : g.WellMade)
    (hids : g.HasTextIds) (ha : a ∈ g.nodes) (hb : b ∈ g.nodes) (hout : g.firstOutput a = .ok out)
    (hout' : g.firstOutput b = .ok out') (htarget : g.targetNumber out = .ok id)
    (htarget' : g.targetNumber out' = .ok id) (hid : id ≠ noId) : a = b := by
  obtain ⟨next, rfl, _, hnumber⟩ := (eq_noId_or_of_targetNumber htarget).resolve_left hid
  obtain ⟨next', rfl, _, hnumber'⟩ := (eq_noId_or_of_targetNumber htarget').resolve_left hid
  have hleads := leads_of_firstOutput hout
  have hleads' := leads_of_firstOutput hout'
  obtain rfl := hg.eq_of_numberOf hids (hleads.isTarget hg hids).1 (hleads'.isTarget hg hids).1
    hnumber hnumber'
  exact hrules.eq_of_leads hg hids ha hb hleads hleads'

theorem KeepsRules.eq_of_successor_eq (hrules : g.KeepsRules) (hg : g.WellMade)
    (hids : g.HasTextIds) (hlowers : List.Forall₂ g.Lowers g.contentNodes records) {r s : Record}
    (hr : r ∈ records) (hs : s ∈ records) (hsame : r.successor = s.successor)
    (hne : r.successor ≠ noId) : r.id = s.id := by
  obtain ⟨a, ha, hlower⟩ := exists_mem_of_forall₂ hlowers.flip hr
  obtain ⟨b, hb, hlower'⟩ := exists_mem_of_forall₂ hlowers.flip hs
  obtain ⟨_, hout, htarget⟩ := hlower.follows
  obtain ⟨_, hout', htarget'⟩ := hlower'.follows
  obtain rfl := hrules.eq_of_targetNumber hg hids (mem_contentNodes_iff.mp ha).1
    (mem_contentNodes_iff.mp hb).1 hout hout' htarget (hsame ▸ htarget') hne
  obtain ⟨m, hm, hid⟩ := hlower.place
  obtain ⟨n, hn, hid'⟩ := hlower'.place
  have hmn := Except.ok.inj ((hg.numberOf_eq_ok hids hm).symm.trans (hg.numberOf_eq_ok hids hn))
  rw [hid, hid', hmn]

theorem KeepsRules.entry_ne_successor (hrules : g.KeepsRules) (hg : g.WellMade)
    (hids : g.HasTextIds) (hlowers : List.Forall₂ g.Lowers g.contentNodes records)
    (hentry : g.entryNumber = .ok id) (hne : id ≠ noId) (hrecord : record ∈ records) :
    id ≠ record.successor := by
  intro hsame
  obtain ⟨entry, out, hmember, hkind, hout, htarget⟩ :=
    (entryNumber_eq_ok hentry).resolve_left hne
  obtain ⟨line, hline, hlower⟩ := exists_mem_of_forall₂ hlowers.flip hrecord
  obtain ⟨_, hout', htarget'⟩ := hlower.follows
  obtain ⟨hmember', hother, _⟩ := mem_contentNodes_iff.mp hline
  obtain rfl := hrules.eq_of_targetNumber hg hids hmember hmember' hout hout' htarget
    (hsame ▸ htarget') hne
  exact hother hkind

theorem KeepsRules.nodup_references (hrules : g.KeepsRules) (hg : g.WellMade)
    (hids : g.HasTextIds) (hlowers : List.Forall₂ g.Lowers g.contentNodes compiled.records)
    (hentry : g.entryNumber = .ok compiled.entry) :
    (compiled.references.filter (· ≠ noId)).Nodup := by
  have hnodup := nodup_ids_of_forall₂ ((hg.nodup.of_map _).filter _) hlowers
  refine List.pairwise_filter.mpr (List.pairwise_cons.mpr ⟨?_, List.pairwise_map.mpr ?_⟩)
  · intro successor hsuccessor hne _
    obtain ⟨record, hrecord, rfl⟩ := List.mem_map.mp hsuccessor
    exact hrules.entry_ne_successor hg hids hlowers hentry (by simpa using hne) hrecord
  · refine (List.pairwise_map.mp hnodup).imp_of_mem fun hr hs hother hne _ hsame ↦ hother ?_
    exact hrules.eq_of_successor_eq hg hids hlowers hr hs hsame (by simpa using hne)

theorem exists_perm_pairwise_le {α : Type} (f : α → ℕ) (xs : List α) :
    ∃ sorted : List α, sorted.Perm xs ∧ sorted.Pairwise fun a b ↦ f b ≤ f a := by
  have htotal : Std.Total fun a b ↦ f b ≤ f a := ⟨fun a b ↦ le_total _ _⟩
  have htrans : IsTrans α fun a b ↦ f b ≤ f a := ⟨fun a b c hab hbc ↦ hbc.trans hab⟩
  exact ⟨_, List.perm_insertionSort _ xs, List.pairwise_insertionSort _ xs⟩

/-- The records of a valid graph that compiles fall into chains. -/
theorem KeepsRules.exists_chains (hrules : g.KeepsRules) (hg : g.WellMade) (hids : g.HasTextIds)
    (hlowers : List.Forall₂ g.Lowers g.contentNodes records) (hcycle : findCycle records = [])
    (hclosed : ∀ record ∈ records,
      record.successor = noId ∨ record.successor ∈ records.map Record.id) :
    ∃ chains : List (List Record), chains.flatten.Perm records ∧
      ∀ chain ∈ chains, Succession chain := by
  have hnodup := nodup_ids_of_forall₂ ((hg.nodup.of_map _).filter _) hlowers
  obtain ⟨distance, hdistance⟩ :=
    SuccessorTable.exists_distance (SuccessorTable.ends_of_findCycle_eq_nil hcycle)
  -- in the order of their distances from the end, no record refers to one before it
  obtain ⟨sorted, hperm, hsorted⟩ :=
    exists_perm_pairwise_le (fun r : Record ↦ distance r.id) records
  have hcloser : ∀ r ∈ records, ∀ s : Record,
      r.successor = s.id → distance s.id < distance r.id := by
    intro r hr s hleads
    exact hdistance r.id s.id (hleads ▸ next?_id hg hlowers hr)
  obtain ⟨chains, hchains, hsuccession⟩ : ∃ chains : List (List Record),
      chains.flatten.Perm sorted ∧ ∀ chain ∈ chains, Succession chain := by
    refine Succession.exists_chains ?_ ?_ ?_
    · intro r hr
      refine (hclosed r (hperm.mem_iff.mp hr)).imp_right fun hmem ↦ ?_
      obtain ⟨s, hs, hid⟩ := List.mem_map.mp hmem
      exact ⟨s, hperm.mem_iff.mpr hs, hid.symm⟩
    · intro r hr hself
      exact absurd (hcloser r (hperm.mem_iff.mp hr) r hself) (Nat.lt_irrefl _)
    · have hother := List.pairwise_map.mp ((hperm.map Record.id).nodup_iff.mpr hnodup)
      refine (hsorted.and hother).imp_of_mem fun {r s} hr hs ⟨hle, hne⟩ ↦ ⟨fun hleads ↦ ?_, ?_⟩
      · exact absurd (hcloser s (hperm.mem_iff.mp hs) r hleads) (Nat.not_lt.mpr hle)
      · intro hsame
        by_contra hsome
        exact hne (hrules.eq_of_successor_eq hg hids hlowers (hperm.mem_iff.mp hr)
          (hperm.mem_iff.mp hs) hsame hsome)
  exact ⟨chains, hchains.trans hperm, hsuccession⟩

/-- What a graph compiles to has its shape, and if the graph is valid, its records are chains that
share nothing. -/
theorem compile_shapes (hmade : g.Authored) (hids : g.HasTextIds)
    (hcompile : g.compile.result = .ok compiled) :
    g.Shapes compiled ∧ (g.validate = .ok [] → compiled.IsChained) := by
  have hg := hmade.wellMade
  obtain ⟨hentry, -, -, hrecords, hcycle⟩ := of_compile_eq_ok hcompile
  have hlowers := forall₂_lowers hg hids hrecords
  have hclosed : ∀ id ∈ compiled.references, id = noId ∨ id ∈ compiled.records.map Record.id :=
    fun id hid ↦ closed_references hg hids hlowers hentry hid
  have hsuccessors : ∀ record ∈ compiled.records,
      record.successor = noId ∨ record.successor ∈ compiled.records.map Record.id :=
    fun record hrecord ↦ hclosed _ (List.mem_cons_of_mem _ (List.mem_map_of_mem hrecord))
  refine ⟨⟨contentNodes_eq_nodesOfKind_line hlowers ▸ hlowers, increasing_ids hg hlowers,
    fun record hrecord ↦ range_ids hlowers hrecord, ?_, hclosed, ?_⟩, fun hvalid ↦ ?_⟩
  · intro node hnode hboundary
    obtain ⟨n, _, _, hnumber⟩ := hg.exists_numberOf hids hnode
    have hnot := numberOf_notMem_ids hg hids hlowers hnode hboundary hnumber
    refine ⟨n, hnumber, hnot, fun href ↦ ?_⟩
    rcases hclosed n href with hnone | hmem
    · simp only [noId] at hnone
      omega
    · exact hnot hmem
  · intro record hrecord
    obtain ⟨n, hn⟩ := SuccessorTable.ends_of_findCycle_eq_nil hcycle record.id
    exact exists_after_eq_noId hg hlowers hsuccessors hrecord hn
  · have hrules := keepsRules_of_validate_eq_ok_nil hvalid
    obtain ⟨chains, hperm, hchains⟩ :=
      hrules.exists_chains hg hids hlowers hcycle hsuccessors
    refine ⟨hrules.nodup_references hg hids hlowers hentry, chains, hperm, hchains, ?_⟩
    intro record hrecord hid
    obtain ⟨chain, hchain, hmem⟩ := List.mem_flatten.mp (hperm.mem_iff.mpr hrecord)
    rcases (hchains chain hchain).eq_head_or_exists_before hmem with
      ⟨rest, rfl⟩ | ⟨before, hbefore, hleads⟩
    · exact ⟨rest, hchain⟩
    · have hsome : compiled.entry ≠ noId := by
        have hrange := range_ids hlowers hrecord
        simp only [noId]
        omega
      have hbefore := hperm.mem_iff.mp (List.mem_flatten.mpr ⟨chain, hchain, hbefore⟩)
      exact absurd (hid.symm.trans hleads.symm)
        (hrules.entry_ne_successor hg hids hlowers hentry hsome hbefore)

/-- The document of two lines in a chain, the second one written first, and of a line by itself. -/
def patrolDocument : Value :=
  .object [("name", .text "Patrol"),
    ("nodes", .list [
      .object [("id", .text "pass"), ("kind", .text "line")],
      .object [("id", .text "in"), ("kind", .text "entry")],
      .object [("id", .text "halt"), ("kind", .text "line")],
      .object [("id", .text "out"), ("kind", .text "exit")],
      .object [("id", .text "yawn"), ("kind", .text "line")]]),
    ("edges", .list [
      .object [("source", .text "in"), ("target", .text "halt")],
      .object [("source", .text "halt"), ("target", .text "pass")],
      .object [("source", .text "pass"), ("target", .text "out")]])]

/-- The graph of that document. -/
def patrol : Graph where
  name := .text "Patrol"
  nodes := [
    { id := .plain (.text "pass"), body := .line {} },
    { id := .plain (.text "in"), body := .entry },
    { id := .plain (.text "halt"), body := .line {} },
    { id := .plain (.text "out"), body := .exit (.list []) },
    { id := .plain (.text "yawn"), body := .line {} }]
  edges := [⟨.plain (.text "in"), .plain (.text "halt")⟩,
    ⟨.plain (.text "halt"), .plain (.text "pass")⟩,
    ⟨.plain (.text "pass"), .plain (.text "out")⟩]

/-- What that graph compiles to. -/
def compiledPatrol : CompiledGraph :=
  let silence : SpokenLine := ⟨"", none, "", []⟩
  ⟨2, [⟨.dialogue, 0, noId, "dialogue", some silence⟩, ⟨.dialogue, 2, 0, "dialogue", some silence⟩,
    ⟨.dialogue, 4, noId, "dialogue", some silence⟩]⟩

theorem compile_shapes_of_patrol :
    ofDocument patrolDocument = .ok patrol ∧ patrol.compile.result = .ok compiledPatrol ∧
      patrol.Shapes compiledPatrol ∧ patrol.validate = .ok [] ∧ compiledPatrol.IsChained := by
  have hdocument : ofDocument patrolDocument = .ok patrol := rfl
  have hids : patrol.HasTextIds := by simp [patrol, HasTextIds, Label.IsText]
  have hcompile : patrol.compile.result = .ok compiledPatrol := rfl
  have hvalid : patrol.validate = .ok [] := rfl
  obtain ⟨hshapes, hchained⟩ := compile_shapes (.document hdocument) hids hcompile
  exact ⟨hdocument, hcompile, hshapes, hvalid, hchained hvalid⟩

end Graph

end LinearDialogue
