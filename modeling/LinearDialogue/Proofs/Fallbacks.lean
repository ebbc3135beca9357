import LinearDialogue.Proofs.Lowering

/-!
# References to variables

A field that refers to a variable is empty in the record of its line if the variable is not in the
graph, and also if its default is no text.  A compilation warns of the first and not of the second.
-/

namespace LinearDialogue

theorem Logged.log_bind_of_ok {α β : Type} {m : Logged α} {a : α} (h : m.result = .ok a)
    (f : α → Logged β) : (m >>= f).log = m.log ++ (f a).log := by
  rw [bind_of_ok h]

/-- The name of the variable that a binding refers to. -/
def Binding.reference? : Binding → Option Value
  | .variable name => some name
  | _ => none

/-- The names of the variables that a line refers to, in the order of its fields. -/
def LineDraft.references (draft : LineDraft) : List Value :=
  [draft.actor, draft.audio, draft.text].filterMap Binding.reference?

def Node.references (node : Node) : List Value :=
  match node.body with
  | .line draft => draft.references
  | _ => []

namespace Graph

variable {g : Graph} {node : Node} {nodes : List Node} {draft : LineDraft} {record : Record}
  {records : List Record} {entry : Int}

/-- The names of the variables that lines refer to, node by node. -/
def references (g : Graph) : List Value := g.contentNodes.flatMap Node.references

/-- There is no variable of a name. -/
def lacks (g : Graph) (name : Value) : Bool := (g.variableDefault? name).isNone

/-- A field that refers to a variable of a name stands for no text, and is left empty. -/
def fallsBack (g : Graph) (name : Value) : Bool := (g.boundText? (.variable name)).isNone

/-- What a compilation warns of in a reference. -/
def warningsOf (g : Graph) (names : List Value) : List LogEntry :=
  (names.filter g.lacks).map g.unknownVariable

/-- The warnings in a log. -/
def warnings (log : List LogEntry) : List LogEntry := log.filter fun e ↦ e.level = .warning

theorem fallsBack_of_lacks {name : Value} (h : g.lacks name = true) : g.fallsBack name = true := by
  rw [lacks, Option.isNone_iff_eq_none] at h
  rw [fallsBack, boundText?, h]
  rfl

theorem warningsOf_append (names others : List Value) :
    g.warningsOf (names ++ others) = g.warningsOf names ++ g.warningsOf others := by
  rw [warningsOf, List.filter_append, List.map_append]
  rfl

theorem warnings_append (log others : List LogEntry) :
    warnings (log ++ others) = warnings log ++ warnings others := List.filter_append ..

theorem warnings_warningsOf (names : List Value) :
    warnings (g.warningsOf names) = g.warningsOf names := by
  refine List.filter_eq_self.mpr fun e he ↦ ?_
  obtain ⟨name, -, rfl⟩ := List.mem_map.mp he
  rfl

/-! ## Logs -/

theorem log_resolve {empty v : Value} {binding : Binding}
    (h : (g.resolve .text empty binding).result = .ok v) :
    (g.resolve .text empty binding).log = g.warningsOf binding.reference?.toList := by
  cases binding with
  | unbound | literal => rfl
  | «variable» name =>
      obtain ⟨_, hkey, -⟩ := Logged.result_bind_eq_ok_iff.mp h
      refine (Logged.log_bind_of_ok hkey _).trans ?_
      cases hdefault : g.variableDefault? name <;>
        simp [warningsOf, Binding.reference?, lacks, hdefault, Logged.ofExcept]
      rfl

theorem log_lowerLine {id successor : Int}
    (h : (g.lowerLine draft id successor).result = .ok record) :
    (g.lowerLine draft id successor).log = g.warningsOf draft.references := by
  obtain ⟨actor, hactor, h⟩ := Logged.result_bind_eq_ok_iff.mp h
  obtain ⟨audio, haudio, h⟩ := Logged.result_bind_eq_ok_iff.mp h
  obtain ⟨text, htext, h⟩ := Logged.result_bind_eq_ok_iff.mp h
  obtain ⟨callbacks, hcallbacks, -⟩ := Logged.result_bind_eq_ok_iff.mp h
  have hreferences : draft.references = draft.actor.reference?.toList ++
      (draft.audio.reference?.toList ++ draft.text.reference?.toList) := by
    rw [LineDraft.references]
    cases draft.actor <;> cases draft.audio <;> cases draft.text <;> rfl
  rw [lowerLine, Logged.log_bind_of_ok hactor, Logged.log_bind_of_ok haudio,
    Logged.log_bind_of_ok htext, Logged.log_bind_of_ok hcallbacks, log_resolve hactor,
    log_resolve haudio, log_resolve htext, hreferences, warningsOf_append, warningsOf_append]
  -- neither the callbacks nor the record that is made of the fields report anything
  dsimp only
  split <;> simp [Logged.ofExcept, Logged.fail]

theorem log_lower (h : (g.lower node).result = .ok record) :
    (g.lower node).log = g.warningsOf node.references := by
  obtain ⟨out, hout, h⟩ := Logged.result_bind_eq_ok_iff.mp h
  obtain ⟨successor, hsuccessor, h⟩ := Logged.result_bind_eq_ok_iff.mp h
  obtain ⟨id, hid, h⟩ := Logged.result_bind_eq_ok_iff.mp h
  rw [lower, Logged.log_bind_of_ok hout, Logged.log_bind_of_ok hsuccessor,
    Logged.log_bind_of_ok hid]
  split at h
  · rename_i draft hbody
    simp only [Node.references, hbody, log_lowerLine h]
    rfl
  · cases h

theorem log_lowerAll (h : (g.lowerAll nodes).result = .ok records) :
    (g.lowerAll nodes).log = g.warningsOf (nodes.flatMap Node.references) := by
  induction nodes generalizing records with
  | nil => rfl
  | cons node nodes ih =>
      obtain ⟨record, hrecord, h⟩ := Logged.result_bind_eq_ok_iff.mp h
      obtain ⟨others, hothers, -⟩ := Logged.result_bind_eq_ok_iff.mp h
      rw [lowerAll, Logged.log_bind_of_ok hrecord, Logged.log_bind_of_ok hothers, log_lower hrecord,
        ih hothers, List.flatMap_cons, warningsOf_append, Logged.pure_log, List.append_nil]

/-- What is no warning is left out. -/
theorem warnings_report_bind {α : Type} {e : LogEntry} (he : e.level ≠ .warning)
    (f : Unit → Logged α) : warnings (Logged.report e >>= f).log = warnings (f ()).log := by
  rw [Logged.log_bind_of_ok (m := Logged.report e) rfl, warnings_append, Logged.report]
  simp [warnings, he]

theorem warnings_compile (hentry : g.entryNumber = .ok entry)
    (hrecords : (g.lowerAll g.contentNodes).result = .ok records) :
    warnings g.compile.log = g.warningsOf g.references := by
  have hnone : (Logged.ofExcept g.entryNumber).log = [] := rfl
  rw [compile, Logged.log_bind_of_ok (m := Logged.ofExcept g.entryNumber) hentry,
    Logged.log_bind_of_ok hrecords, hnone, List.nil_append, warnings_append,
    log_lowerAll hrecords, warnings_warningsOf, ← references]
  refine (congrArg _ ?_).trans (List.append_nil _)
  cases findCycle records with
  | nil =>
      rw [warnings_report_bind (by simp [compiledEntry])]
      split <;> rfl
  | cons id rest =>
      rw [warnings_report_bind (by simp [loopEntry])]
      rfl

/-! ## Reports -/

/-- The record of a line says what the fields of the line are bound to. -/
def Speaks (g : Graph) (node : Node) (record : Record) : Prop :=
  ∃ draft line, node.body = .line draft ∧ record.line = some line ∧ g.Renders draft line

theorem forall₂_speaks (h : (g.lowerAll nodes).result = .ok records) :
    List.Forall₂ g.Speaks nodes records := by
  refine (forall₂_of_lowerAll_eq_ok h).imp fun node record hlower ↦ ?_
  obtain ⟨-, -, -, -, hspeaks⟩ := of_lower_eq_ok hlower
  exact hspeaks

theorem filter_lacks_eq_iff {names : List Value} :
    names.filter g.lacks = names.filter g.fallsBack ↔
      ∀ name ∈ names, g.fallsBack name = true → g.lacks name = true := by
  refine ⟨fun h name hname hfalls ↦ ?_, fun h ↦ ?_⟩
  · have hmem := List.mem_filter.mpr ⟨hname, hfalls⟩
    rw [← h] at hmem
    exact (List.mem_filter.mp hmem).2
  · exact List.filter_congr fun name hname ↦ Bool.eq_iff_iff.mpr ⟨fallsBack_of_lacks, h name hname⟩

/-- The references that are warned of are among those that fall back, so they are all of these if
they are as many. -/
theorem warningsOf_eq_iff {names : List Value} :
    g.warningsOf names = (names.filter g.fallsBack).map g.unknownVariable ↔
      names.filter g.lacks = names.filter g.fallsBack := by
  refine ⟨fun h ↦ ?_, fun h ↦ by rw [warningsOf, h]⟩
  have hlength := congrArg List.length h
  rw [warningsOf, List.length_map, List.length_map] at hlength
  exact (List.monotone_filter_right names fun name ↦ fallsBack_of_lacks).eq_of_length hlength

/-- Where the lines of a graph can be lowered, the compilation warns, in the order of lines and of
their fields, once of each reference to a variable that is not there, and of nothing else.  A
reference to one that is there falls back as well if the default is no text, so the references that
fall back are reported one by one just if no line refers to such a variable. -/
theorem compile_warns_of_unknown_variables (hentry : g.entryNumber = .ok entry)
    (hrecords : (g.lowerAll g.contentNodes).result = .ok records) :
    List.Forall₂ g.Speaks g.contentNodes records ∧
    warnings g.compile.log = (g.references.filter g.lacks).map g.unknownVariable ∧
    (warnings g.compile.log = (g.references.filter g.fallsBack).map g.unknownVariable ↔
      ∀ name ∈ g.references, ∀ default, g.variableDefault? name = some default →
        default.text?.isSome = true) := by
  have hwarnings := warnings_compile hentry hrecords
  refine ⟨forall₂_speaks hrecords, hwarnings, ?_⟩
  rw [hwarnings, warningsOf_eq_iff, filter_lacks_eq_iff]
  refine forall₂_congr fun name _ ↦ ?_
  cases hdefault : g.variableDefault? name with
  | none => simp [lacks, hdefault]
  | some default =>
      cases htext : default.text? <;> simp [fallsBack, boundText?, lacks, hdefault, htext]

/-- A line whose actor is unknown and whose clip is a number, and one whose text is known and whose
actor is unknown too. -/
def salute : Graph where
  name := .text "Salute"
  nodes := [
    { id := .plain (.text "in"), body := .entry },
    { id := .plain (.text "halt")
      body := .line
        { actor := .variable (.text "guard"), audio := .variable (.text "clip")
          text := .literal (.text "Halt!") } },
    { id := .plain (.text "out"), body := .exit (.list []) },
    { id := .plain (.text "pass")
      body := .line { actor := .variable (.text "guest"), text := .variable (.text "word") } }]
  edges := [⟨.plain (.text "in"), .plain (.text "halt")⟩,
    ⟨.plain (.text "halt"), .plain (.text "pass")⟩, ⟨.plain (.text "pass"), .plain (.text "out")⟩]
  defaults := [(.text "word", .text "Pass."), (.text "clip", .int 3)]

theorem compile_warns_of_unknown_variables_of_salute :
    ∃ records, salute.entryNumber = .ok 1 ∧
      (salute.lowerAll salute.contentNodes).result = .ok records ∧
      List.Forall₂ salute.Speaks salute.contentNodes records ∧
      warnings salute.compile.log =
        [salute.unknownVariable (.text "guard"), salute.unknownVariable (.text "guest")] ∧
      salute.references.filter salute.fallsBack =
        [.text "guard", .text "clip", .text "guest"] := by
  have hrecords : ∃ records, (salute.lowerAll salute.contentNodes).result = .ok records :=
    ⟨_, by rfl⟩
  obtain ⟨records, hrecords⟩ := hrecords
  have hentry : salute.entryNumber = .ok 1 := by rfl
  obtain ⟨hspeaks, hwarnings, -⟩ := compile_warns_of_unknown_variables hentry hrecords
  exact ⟨records, hentry, hrecords, hspeaks, hwarnings, by decide +kernel⟩

/-- The actor of the only line is a variable whose default is a number: it is empty in the record,
and there is no warning of it. -/
theorem exists_fallback_unreported :
    ∃ g : Graph, ∃ compiled name, g.compile.result = .ok compiled ∧ name ∈ g.references ∧
      g.fallsBack name = true ∧ warnings g.compile.log = [] := by
  let g : Graph :=
    { name := .text "Salute"
      nodes := [
        { id := .plain (.text "halt"), body := .line { actor := .variable (.text "rank") } }]
      defaults := [(.text "rank", .int 3)] }
  exact ⟨g, _, .text "rank", by rfl, by decide +kernel, by decide +kernel, by decide +kernel⟩

end Graph

end LinearDialogue
