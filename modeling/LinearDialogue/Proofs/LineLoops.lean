import LinearDialogue.Proofs.KeyedGraphs

/-!
# Loops of lines

The search for loops goes through the records of a compilation.  In a graph that keeps the rules it
finds one just if lines lead on to one another and come back to where they began, whether the entry
leads to them or not.
-/

namespace LinearDialogue.Graph

open Relation

variable {g : Graph} {node a b : Node} {records : List Record} {record : Record}
  {id next later : Int} {n : ℕ}

/-- An edge leads from a line to a line. -/
def LineLeads (g : Graph) (a b : Node) : Prop := a.kind = .line ∧ b.kind = .line ∧ g.Leads a b

/-- Some line is led back to by way of lines. -/
def HasLineLoop (g : Graph) : Prop := ∃ line ∈ g.nodes, TransGen g.LineLeads line line

namespace IsKeyed

/-! ## Records -/

theorem lowers_of_lower_eq_ok (hg : g.IsKeyed) (hnode : node ∈ g.nodes)
    (h : (g.lower node).result = .ok record) : g.Lowers node record := by
  obtain ⟨hsound, hclass, hid, hfollows, hline⟩ := of_lower_eq_ok h
  obtain ⟨n, hn, hnumber⟩ := hg.exists_numberOf hnode
  exact ⟨hsound, hclass, ⟨n, hn, Except.ok.inj (hid.symm.trans hnumber)⟩, hline, hfollows⟩

theorem forall₂_lowers (hg : g.IsKeyed) (h : (g.lowerAll g.contentNodes).result = .ok records) :
    List.Forall₂ g.Lowers g.contentNodes records := by
  have hmembers := (List.forall₂_and_left _ _).mpr
    ⟨fun node hnode ↦ (mem_contentNodes_iff.mp hnode).1, forall₂_of_lowerAll_eq_ok h⟩
  exact hmembers.imp fun node record hlower ↦ hg.lowers_of_lower_eq_ok hlower.1 hlower.2

theorem nodup_ids (hg : g.IsKeyed) (hlowers : List.Forall₂ g.Lowers g.contentNodes records) :
    (records.map Record.id).Nodup := nodup_ids_of_forall₂ (hg.nodup.filter _) hlowers

/-- The record of a line is found under its place. -/
theorem exists_lowers (hg : g.IsKeyed) (hlowers : List.Forall₂ g.Lowers g.contentNodes records)
    (hnode : node ∈ g.contentNodes) (hplace : g.nodes[n]? = some node) :
    ∃ record, records.find? (fun r ↦ r.id == (n : Int)) = some record ∧ g.Lowers node record := by
  obtain ⟨record, hrecord, hlower⟩ := exists_mem_of_forall₂ hlowers hnode
  obtain ⟨m, hm, hid⟩ := hlower.place
  have hsame : record.id = n := by
    have hnumber := (hg.numberOf_eq_ok hm).symm.trans (hg.numberOf_eq_ok hplace)
    rw [hid]
    exact Except.ok.inj hnumber
  refine ⟨record, find?_eq_some_of_nodup (hg.nodup_ids hlowers) hrecord fun r _ ↦ ?_, hlower⟩
  rw [hsame, beq_iff_eq]

/-! ## Where lines lead -/

theorem kind_of_mem_contentNodes (hg : g.IsKeyed) (hnode : node ∈ g.contentNodes) :
    node.kind = .line := by
  obtain ⟨draft, _, hbody, -⟩ := hg.exists_line hnode
  simp [Node.kind, hbody]

theorem mem_contentNodes_of_kind (hnode : node ∈ g.nodes) (hkind : node.kind = .line) :
    node ∈ g.contentNodes :=
  mem_contentNodes_iff.mpr ⟨hnode, by simp [hkind], by simp [hkind]⟩

/-- The record of a line has the place of the next line for its successor. -/
theorem leads_of_lineLeads (hg : g.IsKeyed) (hrules : g.KeepsRules)
    (hlowers : List.Forall₂ g.Lowers g.contentNodes records) (hnode : a ∈ g.nodes)
    (h : g.LineLeads a b) (hplace : g.nodes[n]? = some a) :
    ∃ m : ℕ, g.nodes[m]? = some b ∧ SuccessorTable.Leads (records.map Record.link) n m := by
  obtain ⟨hkind, hline, hleads⟩ := h
  obtain ⟨outgoing, houtgoing, hb⟩ := hleads
  obtain ⟨_, outgoing', _, houtgoing', _, hone⟩ := hrules.single a hnode
  obtain rfl := Except.ok.inj (houtgoing.symm.trans houtgoing')
  have hfirst : g.firstOutput a = .ok (some b) := by
    obtain ⟨first, hhead⟩ := Option.ne_none_iff_exists'.mp
      (mt List.head?_eq_none_iff.mp (List.ne_nil_of_mem hb))
    obtain rfl := eq_of_mem_of_length_le_one hone hb (List.mem_of_head? hhead)
    exact bind_eq_ok_iff.mpr ⟨outgoing, houtgoing, congrArg Except.ok hhead⟩
  obtain ⟨record, hfind, hlower⟩ :=
    hg.exists_lowers hlowers (mem_contentNodes_of_kind hnode hkind) hplace
  obtain ⟨out, hout, htarget⟩ := hlower.follows
  obtain rfl := Except.ok.inj (hfirst.symm.trans hout)
  obtain ⟨m, hm, hnumber⟩ := hg.exists_numberOf (hg.isOutput hfirst b rfl).1
  have hsuccessor : g.targetNumber (some b) = .ok m := by
    rw [targetNumber, if_neg (by simp [hline]), hnumber]
  refine ⟨m, hm, ?_⟩
  rw [SuccessorTable.Leads, SuccessorTable.next?_map_link, hfind, Option.map_some]
  exact congrArg some (Except.ok.inj (htarget.symm.trans hsuccessor))

/-- A successor that has a successor itself is the place of a line to which a line leads. -/
theorem exists_lineLeads (hg : g.IsKeyed) (hlowers : List.Forall₂ g.Lowers g.contentNodes records)
    (h : SuccessorTable.Leads (records.map Record.link) id next)
    (hnext : SuccessorTable.Leads (records.map Record.link) next later) :
    ∃ a ∈ g.nodes, ∃ b ∈ g.nodes, g.numberOf a.id = .ok id ∧ g.numberOf b.id = .ok next ∧
      g.LineLeads a b := by
  have hrecord {id next : Int} (h : SuccessorTable.Leads (records.map Record.link) id next) :
      ∃ node ∈ g.contentNodes, ∃ record, g.Lowers node record ∧ record.id = id ∧
        record.successor = next := by
    rw [SuccessorTable.Leads, SuccessorTable.next?_map_link] at h
    obtain ⟨record, hfind, hsuccessor⟩ := Option.map_eq_some_iff.mp h
    obtain ⟨node, hnode, hlower⟩ :=
      exists_mem_of_forall₂ hlowers.flip (List.mem_of_find?_eq_some hfind)
    exact ⟨node, hnode, record, hlower, by simpa using List.find?_some hfind, hsuccessor⟩
  obtain ⟨a, ha, record, hlower, rfl, rfl⟩ := hrecord h
  obtain ⟨_, _, follower, hfollower, hid, -⟩ := hrecord hnext
  obtain ⟨m, hm, hplace⟩ := hlower.place
  obtain ⟨out, hout, htarget⟩ := hlower.follows
  rcases eq_noId_or_of_targetNumber htarget with hnone | ⟨b, rfl, hexit, hnumber⟩
  · -- nothing has the id that stands for no record
    have hsound := hfollower.sound.id.1
    rw [hid, hnone, noId] at hsound
    omega
  · have hleads := leads_of_firstOutput hout
    obtain ⟨hb, hentry⟩ := hg.of_leads hleads
    have hline := hg.kind_of_mem_contentNodes (mem_contentNodes_iff.mpr ⟨hb, hentry, hexit⟩)
    refine ⟨a, (mem_contentNodes_iff.mp ha).1, b, hb, ?_, hnumber, hg.kind_of_mem_contentNodes ha,
      hline, hleads⟩
    rw [hplace, hg.numberOf_eq_ok hm]

/-! ## Round and round -/

theorem after_of_transGen (hg : g.IsKeyed) (hrules : g.KeepsRules)
    (hlowers : List.Forall₂ g.Lowers g.contentNodes records) (hnode : a ∈ g.nodes)
    (h : TransGen g.LineLeads a b) (hplace : g.nodes[n]? = some a) :
    ∃ k m : ℕ, g.nodes[m]? = some b ∧
      SuccessorTable.after (records.map Record.link) (k + 1) n = some (m : Int) := by
  induction h with
  | single hstep =>
      obtain ⟨m, hm, hleads⟩ := hg.leads_of_lineLeads hrules hlowers hnode hstep hplace
      exact ⟨0, m, hm, (SuccessorTable.after_one _).trans hleads⟩
  | @tail b c _ hstep ih =>
      obtain ⟨k, m, hm, hafter⟩ := ih
      obtain ⟨l, hl, hleads⟩ :=
        hg.leads_of_lineLeads hrules hlowers (List.mem_of_getElem? hm) hstep hm
      refine ⟨k + 1, l, hl, ?_⟩
      rw [SuccessorTable.after_add (k + 1) 1, hafter, Option.bind_some, SuccessorTable.after_one]
      exact hleads

theorem exists_transGen (hg : g.IsKeyed) (hlowers : List.Forall₂ g.Lowers g.contentNodes records)
    {k : ℕ} (h : SuccessorTable.after (records.map Record.link) (k + 1) id = some next)
    (hnext : SuccessorTable.Leads (records.map Record.link) next later) :
    ∃ a ∈ g.nodes, ∃ b ∈ g.nodes, g.numberOf a.id = .ok id ∧ g.numberOf b.id = .ok next ∧
      TransGen g.LineLeads a b := by
  induction k generalizing next later with
  | zero =>
      obtain ⟨a, ha, b, hb, hid, hsuccessor, hstep⟩ :=
        hg.exists_lineLeads hlowers ((SuccessorTable.after_one id).symm.trans h) hnext
      exact ⟨a, ha, b, hb, hid, hsuccessor, .single hstep⟩
  | succ k ih =>
      rw [SuccessorTable.after_add (k + 1) 1] at h
      obtain ⟨middle, hmiddle, hleads⟩ := Option.bind_eq_some_iff.mp h
      rw [SuccessorTable.after_one] at hleads
      obtain ⟨a, ha, b, hb, hid, hnumber, hway⟩ := ih hmiddle hleads
      obtain ⟨b', hb', c, hc, hnumber', hsuccessor, hstep⟩ :=
        hg.exists_lineLeads hlowers hleads hnext
      obtain rfl := hg.eq_of_numberOf hb hb' hnumber hnumber'
      exact ⟨a, ha, c, hc, hid, hsuccessor, hway.tail hstep⟩

/-- A loop is found just if there is a loop of lines. -/
theorem findCycle_ne_nil_iff (hg : g.IsKeyed) (hrules : g.KeepsRules)
    (hlowers : List.Forall₂ g.Lowers g.contentNodes records) :
    findCycle records ≠ [] ↔ g.HasLineLoop := by
  have htable : SuccessorTable.ofRecords records = records.map Record.link := by
    rw [SuccessorTable.ofRecords_eq, Playback.tableOf_eq_self (hg.nodup_ids hlowers)]
  constructor
  · intro hcycle
    have hloop := SuccessorTable.isLoop_findCycle hcycle
    rw [htable] at hloop
    generalize SuccessorTable.findCycle (records.map Record.link) = loop at hloop
    have hpos := List.length_pos_iff.mpr hloop.ne_nil
    have hround : SuccessorTable.after (records.map Record.link) (loop.length - 1 + 1) loop[0] =
        some loop[0] := by
      simpa [Nat.sub_add_cancel hpos] using hloop.after loop.length hpos
    obtain ⟨a, ha, b, hb, hid, hid', hway⟩ := hg.exists_transGen hlowers hround (hloop.leads 0 hpos)
    obtain rfl := hg.eq_of_numberOf ha hb hid hid'
    exact ⟨a, ha, hway⟩
  · rintro ⟨line, hline, hround⟩ hcycle
    obtain ⟨n, hplace⟩ := List.mem_iff_getElem?.mp hline
    obtain ⟨k, m, hm, hafter⟩ := hg.after_of_transGen hrules hlowers hline hround hplace
    have hsame : (m : Int) = n :=
      Except.ok.inj ((hg.numberOf_eq_ok hm).symm.trans (hg.numberOf_eq_ok hplace))
    rw [hsame] at hafter
    have hends := SuccessorTable.ends_of_findCycle_eq_nil hcycle n
    rw [htable] at hends
    exact SuccessorTable.not_ends_of_after_eq_self (Nat.succ_pos k) hafter hends

end IsKeyed

end LinearDialogue.Graph
