import LinearDialogue.Proofs.Fields
import LinearDialogue.Proofs.Scripts

/-!
# Lowering

What a compilation that succeeds tells about its result.  Every node that is no entry and no exit is
a line and has a record with its place as id, with what its fields are bound to, and with a
successor that stands for its first output.
-/

namespace LinearDialogue

/-- The text that a value is, if it is one. -/
def Value.text? : Value → Option String
  | .text s => some s
  | _ => none

theorem Value.map_text_getD_text (text? : Option String) :
    (text?.map Value.text).getD (.text "") = .text (text?.getD "") := by
  cases text? <;> rfl

theorem Value.map_text_getD_null (text? : Option String) :
    (text?.map Value.text).getD .null = .ofOption text? := by
  cases text? <;> rfl

namespace Graph

open Fields

variable {g : Graph} {node : Node} {nodes : List Node} {draft : LineDraft} {record : Record}
  {records : List Record} {compiled : CompiledGraph}

/-- The text that a binding stands for in a graph, if it stands for one. -/
def boundText? (g : Graph) : Binding → Option String
  | .unbound => none
  | .literal value => value.text?
  | .variable name => (g.variableDefault? name).bind Value.text?

/-- The line that a draft makes in a graph: what its fields are bound to, empty where this is no
text, and its callbacks. -/
structure Renders (g : Graph) (draft : LineDraft) (line : SpokenLine) : Prop where
  actor : line.actor = (g.boundText? draft.actor).getD ""
  audio : line.audio = g.boundText? draft.audio
  text : line.text = (g.boundText? draft.text).getD ""
  callbacks : draft.callbacks = .list (line.callbacks.map .text)

/-- The record of a node: a spoken line, with the place of the node for its id. -/
structure Lowers (g : Graph) (node : Node) (record : Record) : Prop where
  sound : record.IsSound
  recordClass : record.recordClass = .dialogue
  place : ∃ n : ℕ, g.nodes[n]? = some node ∧ record.id = n
  line : ∃ draft line, node.body = .line draft ∧ record.line = some line ∧ g.Renders draft line
  follows : ∃ out, g.firstOutput node = .ok out ∧ g.targetNumber out = .ok record.successor

theorem typed_text (empty v : Value) :
    typed .text empty v = (v.text?.map .text).getD empty := by
  cases v <;> simp [typed, FieldType.holds, Value.text?]

theorem eq_of_resolve_eq_ok {empty v : Value} {binding : Binding}
    (h : (g.resolve .text empty binding).result = .ok v) :
    v = ((g.boundText? binding).map .text).getD empty := by
  cases binding with
  | unbound =>
      cases h
      rfl
  | literal value =>
      cases h
      exact typed_text empty value
  | «variable» name =>
      obtain ⟨_, _, h⟩ := Logged.result_bind_eq_ok_iff.mp h
      cases hdefault : g.variableDefault? name with
      | none =>
          rw [hdefault] at h
          cases h
          simp [boundText?, hdefault]
      | some default =>
          rw [hdefault] at h
          cases h
          simpa [boundText?, hdefault] using typed_text empty default

theorem items_eq_ok_iff {field : CallbackField} {callbacks : List Value} :
    field.items = .ok callbacks ↔ field = .list callbacks := by
  cases field <;> simp [CallbackField.items]

theorem of_ofFields_eq_ok {id successor : Int} {actor audio text : Value} {callbacks : List Value}
    (h : Record.ofFields .dialogue [("id", .int id), ("successor_id", .int successor),
      ("actor", actor), ("audio", audio), ("text", text), ("callbacks", .list callbacks)] =
        .ok record) :
    record.id = id ∧ record.successor = successor ∧ ∃ line, record.line = some line ∧
      actor = .text line.actor ∧ audio = .ofOption line.audio ∧ text = .text line.text ∧
      callbacks = line.callbacks.map .text := by
  obtain ⟨-, hid, hsuccessor, -, hline, -⟩ := Record.ofFields_eq_ok_iff.mp h
  rw [RecordClass.checkLine_eq_ok_iff] at hline
  obtain ⟨line, hsome⟩ := Option.isSome_iff_exists.mp hline.1
  obtain ⟨hactor, haudio, htext, hcallbacks⟩ :=
    SpokenLine.ofFields_eq_ok_iff.mp (hline.2 line hsome)
  rw [required_eq_ok_iff] at hid
  rw [defaulted_eq_ok_iff] at hsuccessor hactor haudio htext hcallbacks
  refine ⟨?_, ?_, line, hsome, ?_, ?_, ?_, ?_⟩
  · have hbound : asBounded 0 maxId (.int id) = .ok record.id := by simpa [Value.lookup] using hid
    exact (Except.ok.inj (asBounded_eq_ok_iff.mp hbound).1).symm
  · have hbound : asBounded noId maxId (.int successor) = .ok record.successor := by
      simpa [Value.lookup] using hsuccessor
    exact (Except.ok.inj (asBounded_eq_ok_iff.mp hbound).1).symm
  · simpa [Value.lookup, asText_eq_ok_iff] using hactor
  · simpa [Value.lookup, asOptionalText_eq_ok_iff] using haudio
  · simpa [Value.lookup, asText_eq_ok_iff] using htext
  · simpa [Value.lookup, listOf_asText_eq_ok_iff] using hcallbacks

theorem of_lowerLine_eq_ok {id successor : Int}
    (h : (g.lowerLine draft id successor).result = .ok record) :
    record.IsSound ∧ record.recordClass = .dialogue ∧ record.id = id ∧
      record.successor = successor ∧ ∃ line, record.line = some line ∧ g.Renders draft line := by
  obtain ⟨actor, hactor, h⟩ := Logged.result_bind_eq_ok_iff.mp h
  obtain ⟨audio, haudio, h⟩ := Logged.result_bind_eq_ok_iff.mp h
  obtain ⟨text, htext, h⟩ := Logged.result_bind_eq_ok_iff.mp h
  obtain ⟨callbacks, hcallbacks, h⟩ := Logged.result_bind_eq_ok_iff.mp h
  dsimp only at h
  split at h
  · rename_i made hmade
    cases h
    obtain ⟨hid, hsuccessor, line, hsome, rfl, rfl, rfl, rfl⟩ := of_ofFields_eq_ok hmade
    refine ⟨Record.isSound_of_ofFields_eq_ok hmade, (Record.ofFields_eq_ok_iff.mp hmade).1, hid,
      hsuccessor, line, hsome, ?_, ?_, ?_, items_eq_ok_iff.mp hcallbacks⟩
    · have hvalue := eq_of_resolve_eq_ok hactor
      cases hbound : g.boundText? draft.actor <;> simp_all
    · have hvalue := eq_of_resolve_eq_ok haudio
      cases hbound : g.boundText? draft.audio <;> cases hhandle : line.audio <;>
        simp_all [Value.ofOption]
    · have hvalue := eq_of_resolve_eq_ok htext
      cases hbound : g.boundText? draft.text <;> simp_all
  · cases h

theorem eq_wrongType_of_resolve_eq_error {expected : FieldType} {empty : Value} {binding : Binding}
    {failure : Failure} (h : (g.resolve expected empty binding).result = .error failure) :
    failure = .wrongType := by
  cases binding with
  | unbound => cases h
  | literal value => cases h
  | «variable» name =>
      rcases Logged.result_bind_eq_error_iff.mp h with h | ⟨_, _, h⟩
      · rw [Logged.ofExcept_result, checkKey] at h
        split at h
        · cases h
        · exact (Except.error.inj h).symm
      · split at h <;> cases h

/-- A line is refused for what cannot be looked up or gone through, or for problems with the fields
of its record, none of them with what the line says. -/
theorem of_lowerLine_eq_error {id successor : Int} {failure : Failure}
    (h : (g.lowerLine draft id successor).result = .error failure) :
    failure = .wrongType ∨ ∃ className problems, failure = .badFields className problems ∧
      ∀ problem ∈ problems, problem.SparesTexts := by
  rcases Logged.result_bind_eq_error_iff.mp h with h | ⟨actor, hactor, h⟩
  · exact .inl (eq_wrongType_of_resolve_eq_error h)
  rcases Logged.result_bind_eq_error_iff.mp h with h | ⟨audio, haudio, h⟩
  · exact .inl (eq_wrongType_of_resolve_eq_error h)
  rcases Logged.result_bind_eq_error_iff.mp h with h | ⟨text, htext, h⟩
  · exact .inl (eq_wrongType_of_resolve_eq_error h)
  rcases Logged.result_bind_eq_error_iff.mp h with h | ⟨callbacks, _, h⟩
  · cases hcallbacks : draft.callbacks with
    | list callbacks =>
        rw [hcallbacks] at h
        cases h
    | bound binding =>
        rw [hcallbacks] at h
        exact .inl (Except.error.inj h).symm
  · dsimp only at h
    split at h
    · cases h
    · rename_i problems hmade
      refine .inr ⟨_, problems, (Except.error.inj h).symm, fun problem hproblem ↦ ?_⟩
      -- what has been resolved is a text, or else no clip
      obtain rfl := (eq_of_resolve_eq_ok hactor).trans (Value.map_text_getD_text _)
      obtain rfl := (eq_of_resolve_eq_ok haudio).trans (Value.map_text_getD_null _)
      obtain rfl := (eq_of_resolve_eq_ok htext).trans (Value.map_text_getD_text _)
      apply Record.sparesTexts_of_mem_problems
      rw [hmade]
      exact hproblem

theorem of_lower_eq_ok (h : (g.lower node).result = .ok record) :
    record.IsSound ∧ record.recordClass = .dialogue ∧ g.numberOf node.id = .ok record.id ∧
      (∃ out, g.firstOutput node = .ok out ∧ g.targetNumber out = .ok record.successor) ∧
      ∃ draft line, node.body = .line draft ∧ record.line = some line ∧ g.Renders draft line := by
  obtain ⟨out, hout, h⟩ := Logged.result_bind_eq_ok_iff.mp h
  obtain ⟨successor, hsuccessor, h⟩ := Logged.result_bind_eq_ok_iff.mp h
  obtain ⟨id, hid, h⟩ := Logged.result_bind_eq_ok_iff.mp h
  split at h
  · rename_i draft hbody
    obtain ⟨hsound, hclass, rfl, rfl, line, hline, hrenders⟩ := of_lowerLine_eq_ok h
    exact ⟨hsound, hclass, hid, ⟨out, hout, hsuccessor⟩, draft, line, hbody, hline, hrenders⟩
  · cases h

theorem lowers_of_lower_eq_ok (hg : g.WellMade) (hids : g.HasTextIds) (hnode : node ∈ g.nodes)
    (h : (g.lower node).result = .ok record) : g.Lowers node record := by
  obtain ⟨hsound, hclass, hid, hfollows, hline⟩ := of_lower_eq_ok h
  obtain ⟨n, hn⟩ := List.mem_iff_getElem?.mp hnode
  have hplace : record.id = n := Except.ok.inj (hid.symm.trans (hg.numberOf_eq_ok hids hn))
  exact ⟨hsound, hclass, ⟨n, hn, hplace⟩, hline, hfollows⟩

theorem forall₂_of_lowerAll_eq_ok (h : (g.lowerAll nodes).result = .ok records) :
    List.Forall₂ (fun node record ↦ (g.lower node).result = .ok record) nodes records := by
  induction nodes generalizing records with
  | nil =>
      cases h
      exact .nil
  | cons node nodes ih =>
      obtain ⟨record, hrecord, h⟩ := Logged.result_bind_eq_ok_iff.mp h
      obtain ⟨others, hothers, h⟩ := Logged.result_bind_eq_ok_iff.mp h
      cases h
      exact .cons hrecord (ih hothers)

theorem exists_of_lowerAll_eq_error {failure : Failure}
    (h : (g.lowerAll nodes).result = .error failure) :
    ∃ node ∈ nodes, (g.lower node).result = .error failure := by
  induction nodes with
  | nil => cases h
  | cons node nodes ih =>
      rcases Logged.result_bind_eq_error_iff.mp h with h | ⟨_, _, h⟩
      · exact ⟨node, List.mem_cons_self, h⟩
      rcases Logged.result_bind_eq_error_iff.mp h with h | ⟨_, _, h⟩
      · obtain ⟨other, hother, hfails⟩ := ih h
        exact ⟨other, List.mem_cons_of_mem node hother, hfails⟩
      · cases h

theorem mem_contentNodes_iff :
    node ∈ g.contentNodes ↔ node ∈ g.nodes ∧ node.kind ≠ .entry ∧ node.kind ≠ .exit := by
  simp [contentNodes, Node.isBoundary]

theorem forall₂_lowers (hg : g.WellMade) (hids : g.HasTextIds)
    (h : (g.lowerAll g.contentNodes).result = .ok records) :
    List.Forall₂ g.Lowers g.contentNodes records := by
  have hmembers := (List.forall₂_and_left _ _).mpr
    ⟨fun node hnode ↦ (mem_contentNodes_iff.mp hnode).1, forall₂_of_lowerAll_eq_ok h⟩
  exact hmembers.imp fun node record hlower ↦
    lowers_of_lower_eq_ok hg hids hlower.1 hlower.2

/-- What holds between the members of a list in their order holds between what they are related
to. -/
theorem pairwise_of_forall₂ {α β : Type} {r : α → β → Prop} {p : α → α → Prop} {q : β → β → Prop}
    (hpq : ∀ {a b c d}, r a c → r b d → p a b → q c d) {xs : List α} {ys : List β}
    (hxs : xs.Pairwise p) (h : List.Forall₂ r xs ys) : ys.Pairwise q := by
  induction h with
  | nil => exact .nil
  | @cons a c xs ys hac hrest ih =>
      obtain ⟨hfirst, hxs⟩ := List.pairwise_cons.mp hxs
      refine List.pairwise_cons.mpr ⟨fun d hd ↦ ?_, ih hxs⟩
      obtain ⟨b, hb, hbd⟩ := exists_mem_of_forall₂ hrest.flip hd
      exact hpq hac hbd (hfirst b hb)

/-- Records of different nodes have different ids. -/
theorem nodup_ids_of_forall₂ (hnodup : nodes.Nodup) (h : List.Forall₂ g.Lowers nodes records) :
    (records.map Record.id).Nodup := by
  refine List.pairwise_map.mpr (pairwise_of_forall₂ ?_ hnodup h)
  intro node other record record' hlower hlower' hne hid
  obtain ⟨n, hn, hplace⟩ := hlower.place
  obtain ⟨m, hm, hplace'⟩ := hlower'.place
  have hmn : m = n := by
    have hsame : (m : Int) = n := by rw [← hplace', ← hplace, hid]
    exact_mod_cast hsame
  rw [hmn, hn, Option.some_inj] at hm
  exact hne hm

theorem of_compile_eq_ok (h : g.compile.result = .ok compiled) :
    g.entryNumber = .ok compiled.entry ∧ noId ≤ compiled.entry ∧ compiled.entry ≤ maxId ∧
      (g.lowerAll g.contentNodes).result = .ok compiled.records ∧
      findCycle compiled.records = [] := by
  obtain ⟨entry, hentry, h⟩ := Logged.result_bind_eq_ok_iff.mp h
  obtain ⟨records, hrecords, h⟩ := Logged.result_bind_eq_ok_iff.mp h
  cases hcycle : findCycle records with
  | cons id rest =>
      rw [hcycle] at h
      obtain ⟨_, _, h⟩ := Logged.result_bind_eq_ok_iff.mp h
      cases h
  | nil =>
      rw [hcycle] at h
      obtain ⟨_, _, h⟩ := Logged.result_bind_eq_ok_iff.mp h
      split at h
      · rename_i made hmade
        cases h
        obtain ⟨hbound, rfl⟩ := CompiledGraph.ofRecords_eq_ok_iff.mp hmade
        obtain ⟨hinteger, hlow, hhigh⟩ := asBounded_eq_ok_iff.mp hbound
        obtain rfl := Except.ok.inj hinteger
        exact ⟨hentry, hlow, hhigh, hrecords, hcycle⟩
      · cases h

/-- Every record of a compiled graph is that of a node. -/
theorem exists_lower_of_mem (h : g.compile.result = .ok compiled)
    (hrecord : record ∈ compiled.records) :
    ∃ node, (g.lower node).result = .ok record := by
  obtain ⟨-, -, -, hrecords, -⟩ := of_compile_eq_ok h
  obtain ⟨node, -, hnode⟩ := exists_mem_of_forall₂ (forall₂_of_lowerAll_eq_ok hrecords).flip hrecord
  exact ⟨node, hnode⟩

end Graph

end LinearDialogue
