import LinearDialogue.Proofs.UnreachableLoops

/-!
# What compiles

A graph that keeps the rules, of entries, exits and lines that name variables and callbacks by
texts, compiles or has a loop reported, if its nodes are no more than there are ids for records.  Of
the two a loop is reported exactly if there is a line from which the first edges never come to an
end.
-/

namespace LinearDialogue

/-- A binding names a variable, if it does, by a text. -/
def Binding.IsTextual : Binding → Prop
  | .variable name => ∃ s, name = .text s
  | _ => True

structure LineDraft.IsTextual (draft : LineDraft) : Prop where
  actor : draft.actor.IsTextual
  audio : draft.audio.IsTextual
  text : draft.text.IsTextual
  callbacks : ∃ names : List String, draft.callbacks = .list (names.map .text)

/-- A binding names a variable, if it does, by something that can be a key. -/
def Binding.IsNamed : Binding → Prop
  | .variable name => name.isKey = true
  | _ => True

/-- A record can be made of a line: its variables can be looked up and its callbacks are texts. -/
structure LineDraft.IsSpeakable (draft : LineDraft) : Prop where
  actor : draft.actor.IsNamed
  audio : draft.audio.IsNamed
  text : draft.text.IsNamed
  callbacks : ∃ names : List String, draft.callbacks = .list (names.map .text)

theorem Binding.IsTextual.isNamed {binding : Binding} (h : binding.IsTextual) :
    binding.IsNamed := by
  cases binding with
  | «variable» name =>
      obtain ⟨s, rfl⟩ := h
      rfl
  | _ => trivial

theorem LineDraft.IsTextual.isSpeakable {draft : LineDraft} (h : draft.IsTextual) :
    draft.IsSpeakable :=
  ⟨h.actor.isNamed, h.audio.isNamed, h.text.isNamed, h.callbacks⟩

/-- What a node other than a choice holds, where variables and callbacks are named by texts. -/
def NodeBody.IsTextual : NodeBody → Prop
  | .line draft => draft.IsTextual
  | .choice => False
  | _ => True

namespace Graph

open Fields

/-- The nodes are entries, exits and lines that name variables and callbacks by texts. -/
def IsTextual (g : Graph) : Prop := ∀ node ∈ g.nodes, node.body.IsTextual

/-- There is an id for a record in the place of each node. -/
def Fits (g : Graph) : Prop := (g.nodes.length : Int) ≤ maxId + 1

def Compiles (g : Graph) : Prop := ∃ compiled, g.compile.result = .ok compiled

def ReportsLoop (g : Graph) : Prop := ∃ name ids, g.compile.result = .error (.cycle name ids)

variable {g : Graph} {node : Node} {nodes : List Node} {out : Option Node} {draft : LineDraft}
  {records : List Record} {id successor : Int}

/-! ## Lines -/

theorem resolve_eq_ok {binding : Binding} (h : binding.IsNamed) (empty : Value) :
    (g.resolve .text empty binding).result =
      .ok (((g.boundText? binding).map .text).getD empty) := by
  have hsome : ∃ v, (g.resolve .text empty binding).result = .ok v := by
    cases binding with
    | unbound => exact ⟨_, rfl⟩
    | literal value => exact ⟨_, rfl⟩
    | «variable» name =>
        have hkey : checkKey name = .ok () := if_pos h
        cases hdefault : g.variableDefault? name with
        | none => exact ⟨empty, Logged.result_bind_eq_ok_iff.mpr ⟨(), hkey, by rw [hdefault]; rfl⟩⟩
        | some default =>
            exact ⟨_, Logged.result_bind_eq_ok_iff.mpr ⟨(), hkey, by rw [hdefault]; rfl⟩⟩
  obtain ⟨v, hv⟩ := hsome
  rw [hv, eq_of_resolve_eq_ok hv]

/-- The fields of a spoken line make a record. -/
theorem ofFields_eq_ok (hid : 0 ≤ id ∧ id ≤ maxId)
    (hsuccessor : noId ≤ successor ∧ successor ≤ maxId) (line : SpokenLine) :
    Record.ofFields .dialogue [("id", .int id), ("successor_id", .int successor),
      ("actor", .text line.actor), ("audio", .ofOption line.audio), ("text", .text line.text),
      ("callbacks", .list (line.callbacks.map .text))] =
        .ok ⟨.dialogue, id, successor, "dialogue", some line⟩ := by
  refine Record.ofFields_eq_ok_iff.mpr ⟨rfl, ?_, ?_, rfl, ?_, rfl⟩
  · exact required_eq_ok_iff.mpr ⟨.int id, rfl, asBounded_eq_ok_iff.mpr ⟨rfl, hid⟩⟩
  · exact defaulted_eq_ok_iff.mpr
      (.inl ⟨.int successor, rfl, asBounded_eq_ok_iff.mpr ⟨rfl, hsuccessor⟩⟩)
  · refine RecordClass.checkLine_eq_ok_iff.mpr ⟨rfl, fun spoken hspoken ↦ ?_⟩
    obtain rfl := Option.some.inj hspoken
    refine SpokenLine.ofFields_eq_ok_iff.mpr ⟨rfl, ?_, rfl, ?_⟩
    · exact defaulted_eq_ok_iff.mpr (.inl ⟨_, rfl, asOptionalText_eq_ok_iff.mpr rfl⟩)
    · exact defaulted_eq_ok_iff.mpr (.inl ⟨_, rfl, listOf_asText_eq_ok_iff.mpr rfl⟩)

theorem exists_lowerLine (h : draft.IsSpeakable) (hid : 0 ≤ id ∧ id ≤ maxId)
    (hsuccessor : noId ≤ successor ∧ successor ≤ maxId) :
    ∃ record, (g.lowerLine draft id successor).result = .ok record := by
  obtain ⟨names, hnames⟩ := h.callbacks
  let line : SpokenLine := ⟨(g.boundText? draft.actor).getD "", g.boundText? draft.audio,
    (g.boundText? draft.text).getD "", names⟩
  have hactor : (g.resolve .text (.text "") draft.actor).result = .ok (.text line.actor) := by
    rw [resolve_eq_ok h.actor, Value.map_text_getD_text]
  have haudio : (g.resolve .text .null draft.audio).result = .ok (.ofOption line.audio) := by
    rw [resolve_eq_ok h.audio, Value.map_text_getD_null]
  have htext : (g.resolve .text (.text "") draft.text).result = .ok (.text line.text) := by
    rw [resolve_eq_ok h.text, Value.map_text_getD_text]
  refine ⟨⟨.dialogue, id, successor, "dialogue", some line⟩,
    Logged.result_bind_eq_ok_iff.mpr ⟨_, hactor, ?_⟩⟩
  refine Logged.result_bind_eq_ok_iff.mpr ⟨_, haudio, ?_⟩
  refine Logged.result_bind_eq_ok_iff.mpr ⟨_, htext, ?_⟩
  refine Logged.result_bind_eq_ok_iff.mpr ⟨names.map .text, by rw [hnames]; rfl, ?_⟩
  dsimp only
  rw [ofFields_eq_ok hid hsuccessor line]
  rfl

theorem isNamed_of_resolve_eq_ok {expected : FieldType} {empty v : Value} {binding : Binding}
    (h : (g.resolve expected empty binding).result = .ok v) : binding.IsNamed := by
  cases binding with
  | «variable» name =>
      obtain ⟨_, hkey, -⟩ := Logged.result_bind_eq_ok_iff.mp h
      rw [Logged.ofExcept_result, checkKey] at hkey
      split at hkey
      · next hname => exact hname
      · cases hkey
  | _ => trivial

theorem isSpeakable_of_lowerLine_eq_ok {record : Record}
    (h : (g.lowerLine draft id successor).result = .ok record) : draft.IsSpeakable := by
  obtain ⟨-, -, -, -, line, -, hrenders⟩ := of_lowerLine_eq_ok h
  obtain ⟨_, hactor, h⟩ := Logged.result_bind_eq_ok_iff.mp h
  obtain ⟨_, haudio, h⟩ := Logged.result_bind_eq_ok_iff.mp h
  obtain ⟨_, htext, -⟩ := Logged.result_bind_eq_ok_iff.mp h
  exact ⟨isNamed_of_resolve_eq_ok hactor, isNamed_of_resolve_eq_ok haudio,
    isNamed_of_resolve_eq_ok htext, line.callbacks, hrenders.callbacks⟩

/-! ## Nodes -/

theorem KeepsRules.exists_firstOutput (hrules : g.KeepsRules) (hnode : node ∈ g.nodes) :
    ∃ out, g.firstOutput node = .ok out := by
  obtain ⟨_, outgoing, _, houtgoing, _⟩ := hrules.single node hnode
  exact ⟨outgoing.head?, bind_eq_ok_iff.mpr ⟨outgoing, houtgoing, rfl⟩⟩

theorem exists_numberOf_of_fits (hg : g.WellMade) (hids : g.HasTextIds) (hfits : g.Fits)
    (hnode : node ∈ g.nodes) : ∃ id, g.numberOf node.id = .ok id ∧ 0 ≤ id ∧ id ≤ maxId := by
  obtain ⟨n, hn, _, hnumber⟩ := hg.exists_numberOf hids hnode
  rw [Fits] at hfits
  exact ⟨n, hnumber, by omega, by omega⟩

theorem exists_targetNumber (hg : g.WellMade) (hids : g.HasTextIds) (hfits : g.Fits)
    (hout : g.IsOutput out) : ∃ id, g.targetNumber out = .ok id ∧ noId ≤ id ∧ id ≤ maxId := by
  cases out with
  | none => exact ⟨noId, rfl, by decide, by decide⟩
  | some node =>
      rw [targetNumber]
      split
      · exact ⟨noId, rfl, by decide, by decide⟩
      · obtain ⟨id, hnumber, hlow, hhigh⟩ := exists_numberOf_of_fits hg hids hfits (hout node rfl).1
        have hleast : noId ≤ 0 := by decide
        exact ⟨id, hnumber, hleast.trans hlow, hhigh⟩

theorem KeepsRules.exists_lower (hrules : g.KeepsRules) (hg : g.WellMade) (hids : g.HasTextIds)
    (htextual : g.IsTextual) (hfits : g.Fits) (hnode : node ∈ g.contentNodes) :
    ∃ record, (g.lower node).result = .ok record := by
  obtain ⟨hmember, hentry, hexit⟩ := mem_contentNodes_iff.mp hnode
  obtain ⟨out, hout⟩ := hrules.exists_firstOutput hmember
  obtain ⟨successor, hsuccessor, hbounds⟩ :=
    exists_targetNumber hg hids hfits (hg.isOutput hids hout)
  obtain ⟨id, hid, hrange⟩ := exists_numberOf_of_fits hg hids hfits hmember
  have hbody := htextual node hmember
  cases hline : node.body with
  | line draft =>
      rw [hline] at hbody
      obtain ⟨record, hrecord⟩ := exists_lowerLine (g := g) hbody.isSpeakable hrange hbounds
      refine ⟨record, Logged.result_bind_eq_ok_iff.mpr ⟨out, hout, ?_⟩⟩
      refine Logged.result_bind_eq_ok_iff.mpr ⟨successor, hsuccessor, ?_⟩
      refine Logged.result_bind_eq_ok_iff.mpr ⟨id, hid, ?_⟩
      rw [hline]
      exact hrecord
  | entry => simp [Node.kind, hline] at hentry
  | exit callbacks => simp [Node.kind, hline] at hexit
  | choice =>
      rw [hline] at hbody
      exact hbody.elim

theorem exists_lowerAll (h : ∀ node ∈ nodes, ∃ record, (g.lower node).result = .ok record) :
    ∃ records, (g.lowerAll nodes).result = .ok records := by
  induction nodes with
  | nil => exact ⟨[], rfl⟩
  | cons node nodes ih =>
      obtain ⟨record, hrecord⟩ := h node List.mem_cons_self
      obtain ⟨records, hrecords⟩ := ih fun other hother ↦ h other (List.mem_cons_of_mem node hother)
      refine ⟨record :: records, Logged.result_bind_eq_ok_iff.mpr ⟨record, hrecord, ?_⟩⟩
      exact Logged.result_bind_eq_ok_iff.mpr ⟨records, hrecords, rfl⟩

theorem numbering_eq_ok (hids : g.HasTextIds) : g.numbering = .ok g.numbers := by
  refine bind_eq_ok_iff.mpr ⟨(), ?_, rfl⟩
  rw [HasTextIds] at hids
  generalize g.nodes = nodes at hids ⊢
  induction nodes with
  | nil => rfl
  | cons node nodes ih =>
      obtain ⟨⟨s, hid⟩, hrest⟩ := List.forall_mem_cons.mp hids
      have hkey : node.id.checkKey = .ok () := by
        rw [hid]
        rfl
      exact bind_eq_ok_iff.mpr ⟨(), hkey, ih hrest⟩

theorem KeepsRules.exists_entryNumber (hrules : g.KeepsRules) (hg : g.WellMade)
    (hids : g.HasTextIds) (hfits : g.Fits) :
    ∃ id, g.entryNumber = .ok id ∧ noId ≤ id ∧ id ≤ maxId := by
  obtain ⟨entry, hentries⟩ := hrules.exists_entry
  obtain ⟨out, hout⟩ := hrules.exists_firstOutput (mem_of_nodesOfKind_eq_cons hentries).1
  obtain ⟨id, hid, hbounds⟩ := exists_targetNumber hg hids hfits (hg.isOutput hids hout)
  refine ⟨id, bind_eq_ok_iff.mpr ⟨_, numbering_eq_ok hids, ?_⟩, hbounds⟩
  rw [hentries]
  exact bind_eq_ok_iff.mpr ⟨out, hout, hid⟩

/-! ## Loops -/

/-- Where the chain of nodes comes to an end, so does the chain of records. -/
theorem Chain.ends (hg : g.WellMade) (hids : g.HasTextIds)
    (hlowers : List.Forall₂ g.Lowers g.contentNodes records) (hchain : g.Chain out nodes)
    (hout : g.IsOutput out) (htarget : g.targetNumber out = .ok id) :
    SuccessorTable.Ends (records.map Record.link) id := by
  induction nodes generalizing out id with
  | nil =>
      rcases record_cases hg hids hlowers hout htarget with
        ⟨hnone, _⟩ | ⟨node, record, rfl, hkind, _⟩
      · exact SuccessorTable.ends_of_next?_eq_none (by
          rw [SuccessorTable.next?_map_link, hnone]
          rfl)
      · cases hchain with
        | exit hexit => exact absurd hexit hkind
  | cons node nodes ih =>
      rcases record_cases hg hids hlowers hout htarget with
        ⟨_, hnil⟩ | ⟨node, record, rfl, hkind, hfind, hlower⟩
      · cases hnil.unique hchain
      cases hchain with
      | step _ hnext hrest =>
          obtain ⟨follower, hfollower, hsuccessor⟩ := hlower.follows
          obtain rfl := Except.ok.inj (hnext.symm.trans hfollower)
          have hleads : SuccessorTable.next? (records.map Record.link) id =
              some record.successor := by
            rw [SuccessorTable.next?_map_link, hfind]
            rfl
          exact (SuccessorTable.ends_iff_of_next?_eq_some hleads).mpr
            (ih hrest (hg.isOutput hids hnext) hsuccessor)

theorem of_mem_contentNodes (hnode : node ∈ g.contentNodes) :
    g.IsOutput (some node) ∧ g.targetNumber (some node) = g.numberOf node.id := by
  obtain ⟨hmember, hentry, hexit⟩ := mem_contentNodes_iff.mp hnode
  refine ⟨fun other hother ↦ ?_, if_neg hexit⟩
  obtain rfl := Option.some.inj hother
  exact ⟨hmember, hentry⟩

/-- No loop is found exactly if the chain of nodes from every line comes to an end. -/
theorem findCycle_eq_nil_iff (hg : g.WellMade) (hids : g.HasTextIds)
    (hlowers : List.Forall₂ g.Lowers g.contentNodes records) :
    findCycle records = [] ↔ ∀ node ∈ g.contentNodes, ∃ nodes, g.Chain (some node) nodes := by
  constructor
  · intro hcycle node hnode
    obtain ⟨hout, htarget⟩ := of_mem_contentNodes hnode
    obtain ⟨id, _, _, hnumber⟩ := hg.exists_numberOf hids (mem_contentNodes_iff.mp hnode).1
    obtain ⟨n, hend⟩ := SuccessorTable.ends_of_findCycle_eq_nil hcycle id
    rw [ofRecords_eq_map_link hg hlowers] at hend
    exact exists_chain_of_after_eq_none hg hids hlowers hout (htarget.trans hnumber) hend
  · intro hchains
    by_contra hcycle
    have hloop := SuccessorTable.isLoop_findCycle hcycle
    rw [ofRecords_eq_map_link hg hlowers] at hloop
    have hpos := List.length_pos_iff.mpr hloop.ne_nil
    obtain ⟨node, hnode, hnumber, _⟩ := exists_lowers_of_leads hg hids hlowers (hloop.leads 0 hpos)
    obtain ⟨nodes, hchain⟩ := hchains node hnode
    obtain ⟨hout, htarget⟩ := of_mem_contentNodes hnode
    -- the chain from a line on the loop comes to an end, and comes back to where it starts
    refine SuccessorTable.not_ends_of_after_eq_self hpos ?_
      (hchain.ends hg hids hlowers hout (htarget.trans hnumber))
    simpa using hloop.after (SuccessorTable.findCycle (records.map Record.link)).length hpos

/-! ## Compilation -/

theorem compiles_of_findCycle_eq_nil (hentry : g.entryNumber = .ok id)
    (hbounds : noId ≤ id ∧ id ≤ maxId) (hrecords : (g.lowerAll g.contentNodes).result = .ok records)
    (hcycle : findCycle records = []) : g.Compiles := by
  have hmade : CompiledGraph.ofRecords (.int id) records = .ok ⟨id, records⟩ :=
    CompiledGraph.ofRecords_eq_ok_iff.mpr ⟨asBounded_eq_ok_iff.mpr ⟨rfl, hbounds⟩, rfl⟩
  refine ⟨⟨id, records⟩, Logged.result_bind_eq_ok_iff.mpr ⟨id, hentry, ?_⟩⟩
  refine Logged.result_bind_eq_ok_iff.mpr ⟨records, hrecords, ?_⟩
  rw [hcycle]
  refine Logged.result_bind_eq_ok_iff.mpr ⟨(), rfl, ?_⟩
  rw [hmade]
  rfl

theorem compile_of_findCycle_ne_nil (hentry : g.entryNumber = .ok id)
    (hrecords : (g.lowerAll g.contentNodes).result = .ok records)
    (hcycle : findCycle records ≠ []) :
    g.compile.result = .error (.cycle g.name ((findCycle records).map .int)) := by
  obtain ⟨first, rest, hloop⟩ := List.exists_cons_of_ne_nil hcycle
  refine Logged.result_bind_eq_error_iff.mpr (.inr ⟨id, hentry, ?_⟩)
  refine Logged.result_bind_eq_error_iff.mpr (.inr ⟨records, hrecords, ?_⟩)
  rw [hloop]
  exact Logged.result_bind_eq_error_iff.mpr (.inr ⟨(), rfl, rfl⟩)

theorem reportsLoop_of_findCycle_ne_nil (hentry : g.entryNumber = .ok id)
    (hrecords : (g.lowerAll g.contentNodes).result = .ok records)
    (hcycle : findCycle records ≠ []) : g.ReportsLoop :=
  ⟨g.name, _, compile_of_findCycle_ne_nil hentry hrecords hcycle⟩

theorem KeepsRules.compiles_or_reportsLoop (hrules : g.KeepsRules) (hg : g.WellMade)
    (hids : g.HasTextIds) (htextual : g.IsTextual) (hfits : g.Fits) :
    g.Compiles ∨ g.ReportsLoop := by
  obtain ⟨id, hentry, hbounds⟩ := hrules.exists_entryNumber hg hids hfits
  obtain ⟨records, hrecords⟩ := exists_lowerAll fun node hnode ↦
    hrules.exists_lower hg hids htextual hfits hnode
  by_cases hcycle : findCycle records = []
  · exact .inl (compiles_of_findCycle_eq_nil hentry hbounds hrecords hcycle)
  · exact .inr (reportsLoop_of_findCycle_ne_nil hentry hrecords hcycle)

/-- Where compilation ends in a graph or in the report of a loop, a loop is reported exactly if a
line leads on for ever. -/
theorem reportsLoop_iff (hg : g.WellMade) (hids : g.HasTextIds)
    (hends : g.Compiles ∨ g.ReportsLoop) :
    g.ReportsLoop ↔ ¬ ∀ node ∈ g.contentNodes, ∃ nodes, g.Chain (some node) nodes := by
  rcases hends with ⟨compiled, hcompile⟩ | hloop
  · obtain ⟨-, -, -, hrecords, hcycle⟩ := of_compile_eq_ok hcompile
    have hchains := (findCycle_eq_nil_iff hg hids (forall₂_lowers hg hids hrecords)).mp hcycle
    refine ⟨?_, fun hendless ↦ absurd hchains hendless⟩
    rintro ⟨name, ids, hreport⟩
    cases hcompile.symm.trans hreport
  · obtain ⟨name, ids, hreport⟩ := hloop
    obtain ⟨records, hrecords, hcycle, -⟩ := exists_records_of_compile_eq_cycle hreport
    rw [Ne, findCycle_eq_nil_iff hg hids (forall₂_lowers hg hids hrecords)] at hcycle
    exact ⟨fun _ ↦ hcycle, fun _ ↦ ⟨name, ids, hreport⟩⟩

end Graph

end LinearDialogue
