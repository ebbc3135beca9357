import LinearDialogue.Compiled.Fields
import Mathlib.Data.List.Basic

/-!
# Fields that pass their checks

For each check, which values pass it and what they give.  A record is made of fields exactly when
each of its fields passes and none is unknown.  What does not pass is a problem at its field, and
what is made of fields has the problems of all of them.
-/

namespace LinearDialogue

namespace Checked

variable {α : Type} {check : Checked α} {a : α} {place : Place}

@[simp] theorem within_eq_ok_iff : check.within place = .ok a ↔ check = .ok a := by
  cases check <;> simp [within]

theorem all_eq_ok_iff {checks : List (Checked α)} {results : List α} :
    Checked.all checks = .ok results ↔ checks = results.map .ok := by
  constructor
  · intro h
    induction checks generalizing results with
    | nil =>
        cases h
        rfl
    | cons check checks ih =>
        cases check with
        | error problems => cases h
        | ok a =>
            rw [Checked.all] at h
            split at h
            · rename_i others hothers
              cases h
              rw [ih hothers, List.map_cons]
            · cases h
  · rintro rfl
    induction results with
    | nil => rfl
    | cons a results ih => simp [Checked.all, ih]

end Checked

namespace Fields

variable {α : Type} {v : Value} {fields : List (String × Value)} {name : String} {default a : α}
  {check : Value → Checked α}

theorem asBounded_eq_ok_iff {low high n : Int} :
    asBounded low high v = .ok n ↔ asInteger v = .ok n ∧ low ≤ n ∧ n ≤ high := by
  rw [asBounded]
  cases asInteger v with
  | error defect => simp [Checked.defect]
  | ok m =>
      simp only [Checked.defect]
      split
      · simp; omega
      · split
        · simp; omega
        · simp; omega

theorem asText_eq_ok_iff {s : String} : asText v = .ok s ↔ v = .text s := by
  cases v <;> simp [asText, Checked.defect]

theorem asOptionalText_eq_ok_iff {s : Option String} :
    asOptionalText v = .ok s ↔ v = .ofOption s := by
  cases v <;> cases s <;> simp [asOptionalText, asText, Checked.defect, Value.ofOption, Except.map]

theorem listOf_eq_ok_iff {results : List α} :
    listOf check v = .ok results ↔
      ∃ items, v = .list items ∧ items.map check = results.map .ok := by
  cases v with
  | list items =>
      simp only [listOf, Checked.all_eq_ok_iff, Value.list.injEq, exists_eq_left']
      rw [List.ext_getElem_iff, List.ext_getElem_iff]
      simp
  | _ => simp [listOf, Checked.defect]

theorem listOf_asText_eq_ok_iff {texts : List String} :
    listOf asText v = .ok texts ↔ v = .list (texts.map .text) := by
  rw [listOf_eq_ok_iff]
  constructor
  · rintro ⟨items, rfl, hitems⟩
    rw [Value.list.injEq]
    refine List.ext_getElem (by simpa using congrArg List.length hitems) ?_
    intro i hi hi'
    have hitem := List.getElem_of_eq hitems (by simpa using hi)
    simpa [asText_eq_ok_iff] using hitem
  · rintro rfl
    exact ⟨_, rfl, by simp [Function.comp_def, asText]⟩

theorem required_eq_ok_iff :
    required fields name check = .ok a ↔
      ∃ v, Value.lookup name fields = some v ∧ check v = .ok a := by
  rw [required]
  cases Value.lookup name fields <;> simp

theorem defaulted_eq_ok_iff :
    defaulted fields name default check = .ok a ↔
      (∃ v, Value.lookup name fields = some v ∧ check v = .ok a) ∨
        Value.lookup name fields = none ∧ default = a := by
  rw [defaulted]
  cases Value.lookup name fields <;> simp

end Fields

open Fields

theorem SpokenLine.ofFields_eq_ok_iff {fields : List (String × Value)} {line : SpokenLine} :
    SpokenLine.ofFields fields = .ok line ↔
      defaulted fields "actor" "" asText = .ok line.actor ∧
      defaulted fields "audio" none asOptionalText = .ok line.audio ∧
      defaulted fields "text" "" asText = .ok line.text ∧
      defaulted fields "callbacks" [] (listOf asText) = .ok line.callbacks := by
  rw [SpokenLine.ofFields]
  split
  · rename_i hactor haudio htext hcallbacks
    cases line
    simp [hactor, haudio, htext, hcallbacks]
  · rename_i hfailed
    simp only [reduceCtorEq, false_iff]
    rintro ⟨hactor, haudio, htext, hcallbacks⟩
    exact hfailed _ _ _ _ hactor haudio htext hcallbacks

theorem Record.ofFields_eq_ok_iff {cls : RecordClass} {fields : List (String × Value)}
    {record : Record} :
    Record.ofFields cls fields = .ok record ↔
      record.recordClass = cls ∧
      required fields "id" (asBounded 0 maxId) = .ok record.id ∧
      defaulted fields "successor_id" noId (asBounded noId maxId) = .ok record.successor ∧
      cls.checkTag fields = .ok record.kind ∧ cls.checkLine fields = .ok record.line ∧
      unknown fields cls.fieldNames = [] := by
  rw [Record.ofFields]
  split
  · rename_i hid hsuccessor hkind hline hunknown
    cases record
    simp only [hid, hsuccessor, hkind, hline, hunknown, Except.ok.injEq, Record.mk.injEq, and_true]
    tauto
  · rename_i hfailed
    simp only [reduceCtorEq, false_iff]
    rintro ⟨-, hid, hsuccessor, hkind, hline, hunknown⟩
    exact hfailed _ _ _ _ hid hsuccessor hkind hline hunknown

theorem RecordClass.checkTag_eq_ok_iff {cls : RecordClass} {fields : List (String × Value)}
    {kind : String} :
    cls.checkTag fields = .ok kind ↔
      (∀ tag ∈ cls.tag, kind = tag) ∧
        (Value.lookup "kind" fields = some (.text kind) ∨
          Value.lookup "kind" fields = none ∧ cls.tag.isSome) := by
  cases hcls : cls.tag with
  | none => simp [RecordClass.checkTag, hcls, required_eq_ok_iff, asText_eq_ok_iff]
  | some tag =>
      simp only [RecordClass.checkTag, hcls, defaulted_eq_ok_iff]
      constructor
      · rintro (⟨v, hv, hcheck⟩ | ⟨hnone, rfl⟩)
        · split at hcheck
          · cases hcheck
            simp_all
          · cases hcheck
        · simp [hnone]
      · rintro ⟨htag, hkind | ⟨hnone, -⟩⟩
        · obtain rfl := htag tag rfl
          exact Or.inl ⟨_, hkind, by simp⟩
        · exact Or.inr ⟨hnone, (htag tag rfl).symm⟩

theorem RecordClass.checkLine_eq_ok_iff {cls : RecordClass} {fields : List (String × Value)}
    {line : Option SpokenLine} :
    cls.checkLine fields = .ok line ↔
      line.isSome = cls.speaks ∧ ∀ spoken ∈ line, SpokenLine.ofFields fields = .ok spoken := by
  rw [RecordClass.checkLine]
  cases cls.speaks <;> cases line <;> simp [Except.map]
  · cases SpokenLine.ofFields fields <;> simp
  · cases SpokenLine.ofFields fields <;> simp

/-- What holds of every record that can be made: its ids are within their bounds, its tag is that of
its class, and it has a line if its class speaks. -/
structure Record.IsSound (record : Record) : Prop where
  id : 0 ≤ record.id ∧ record.id ≤ maxId
  successor : noId ≤ record.successor ∧ record.successor ≤ maxId
  kind : ∀ tag ∈ record.recordClass.tag, record.kind = tag
  line : record.line.isSome = record.recordClass.speaks

theorem Record.isSound_of_ofFields_eq_ok {cls : RecordClass} {fields : List (String × Value)}
    {record : Record} (h : Record.ofFields cls fields = .ok record) : record.IsSound := by
  obtain ⟨rfl, hid, hsuccessor, hkind, hline, -⟩ := Record.ofFields_eq_ok_iff.mp h
  obtain ⟨v, -, hid⟩ := required_eq_ok_iff.mp hid
  refine ⟨(asBounded_eq_ok_iff.mp hid).2, ?_, (RecordClass.checkTag_eq_ok_iff.mp hkind).1,
    (RecordClass.checkLine_eq_ok_iff.mp hline).1⟩
  rcases defaulted_eq_ok_iff.mp hsuccessor with ⟨v, -, hbound⟩ | ⟨-, hdefault⟩
  · exact (asBounded_eq_ok_iff.mp hbound).2
  · rw [← hdefault]
    decide

/-- A graph of records that have been made needs no more than an entry within its bounds. -/
theorem CompiledGraph.ofRecords_eq_ok_iff {entry : Value} {records : List Record}
    {graph : CompiledGraph} :
    CompiledGraph.ofRecords entry records = .ok graph ↔
      asBounded noId maxId entry = .ok graph.entry ∧ graph.records = records := by
  rw [CompiledGraph.ofRecords]
  cases graph with
  | mk id others =>
      cases hentry : asBounded noId maxId entry with
      | error problems => simp [Checked.within, Except.map]
      | ok n => simp [Checked.within, Except.map, eq_comm]

/-! ## Problems -/

namespace Checked

variable {α β : Type} {check : Checked α} {place : Place} {problem : Problem}

theorem head?_of_mem_problems_within (h : problem ∈ (check.within place).problems) :
    problem.path.head? = some place := by
  cases check with
  | ok a => cases h
  | error found =>
      obtain ⟨_, -, rfl⟩ := List.mem_map.mp h
      rfl

theorem problems_map (f : α → β) : problems (check.map f) = check.problems := by
  cases check <;> rfl

end Checked

namespace Fields

variable {α : Type} {fields : List (String × Value)} {name : String} {default : α}
  {check : Value → Checked α} {problem : Problem}

theorem head?_of_mem_problems_required (h : problem ∈ (required fields name check).problems) :
    problem.path.head? = some (.field name) := by
  rw [required] at h
  split at h
  · exact Checked.head?_of_mem_problems_within h
  · rw [List.mem_singleton.mp h]
    rfl

theorem head?_of_mem_problems_defaulted
    (h : problem ∈ (defaulted fields name default check).problems) :
    problem.path.head? = some (.field name) := by
  rw [defaulted] at h
  split at h
  · exact Checked.head?_of_mem_problems_within h
  · cases h

end Fields

/-- A spoken line has the problems of its fields. -/
theorem SpokenLine.problems_ofFields (fields : List (String × Value)) :
    (SpokenLine.ofFields fields).problems =
      (defaulted fields "actor" "" asText).problems ++
      (defaulted fields "audio" none asOptionalText).problems ++
      (defaulted fields "text" "" asText).problems ++
      (defaulted fields "callbacks" [] (listOf asText)).problems := by
  rw [SpokenLine.ofFields]
  split
  · rename_i hactor haudio htext hcallbacks
    rw [hactor, haudio, htext, hcallbacks]
    rfl
  · rfl

/-- A record has the problems of its fields, of its line and of the fields that it does not know. -/
theorem Record.problems_ofFields (cls : RecordClass) (fields : List (String × Value)) :
    (Record.ofFields cls fields).problems =
      (required fields "id" (asBounded 0 maxId)).problems ++
      (defaulted fields "successor_id" noId (asBounded noId maxId)).problems ++
      (cls.checkTag fields).problems ++ (cls.checkLine fields).problems ++
      unknown fields cls.fieldNames := by
  rw [Record.ofFields]
  split
  · rename_i hid hsuccessor hkind hline hunknown
    rw [hid, hsuccessor, hkind, hline, hunknown]
    rfl
  · rfl

/-- A problem with an id or with the callbacks, and so with no actor, no voice clip and no text. -/
def Problem.SparesTexts (problem : Problem) : Prop :=
  problem.path.head? ∈ [some (.field "id"), some (.field "successor_id"), some (.field "callbacks"),
    some (.field "entry_id")]

theorem CompiledGraph.sparesTexts_of_mem_problems {entry : Value} {records : List Record}
    {problem : Problem} (h : problem ∈ (CompiledGraph.ofRecords entry records).problems) :
    problem.SparesTexts := by
  rw [CompiledGraph.ofRecords, Checked.problems_map] at h
  simp [Problem.SparesTexts, Checked.head?_of_mem_problems_within h]

/-- A record of a line to which texts are given has problems with its ids or its callbacks only. -/
theorem Record.sparesTexts_of_mem_problems {id successor : Int} {actor text : String}
    {audio : Option String} {callbacks : List Value} {problem : Problem}
    (h : problem ∈ (Record.ofFields .dialogue [("id", .int id), ("successor_id", .int successor),
      ("actor", .text actor), ("audio", .ofOption audio), ("text", .text text),
      ("callbacks", .list callbacks)]).problems) :
    problem.SparesTexts := by
  generalize hfields : [("id", Value.int id), ("successor_id", .int successor),
    ("actor", .text actor), ("audio", .ofOption audio), ("text", .text text),
    ("callbacks", .list callbacks)] = fields at h
  have hactor : defaulted fields "actor" "" asText = .ok actor :=
    defaulted_eq_ok_iff.mpr (.inl ⟨.text actor, by rw [← hfields]; rfl, rfl⟩)
  have haudio : defaulted fields "audio" none asOptionalText = .ok audio :=
    defaulted_eq_ok_iff.mpr
      (.inl ⟨.ofOption audio, by rw [← hfields]; rfl, asOptionalText_eq_ok_iff.mpr rfl⟩)
  have htext : defaulted fields "text" "" asText = .ok text :=
    defaulted_eq_ok_iff.mpr (.inl ⟨.text text, by rw [← hfields]; rfl, rfl⟩)
  have hline : (RecordClass.dialogue.checkLine fields).problems =
      (defaulted fields "callbacks" [] (listOf asText)).problems := by
    refine (Checked.problems_map some).trans ?_
    rw [SpokenLine.problems_ofFields, hactor, haudio, htext]
    rfl
  have htag : RecordClass.dialogue.checkTag fields = .ok "dialogue" := by
    rw [← hfields]
    rfl
  have hunknown : unknown fields RecordClass.dialogue.fieldNames = [] := by
    rw [← hfields]
    rfl
  rw [Record.problems_ofFields, htag, hline, hunknown] at h
  simp only [Checked.problems, List.append_nil, List.mem_append] at h
  rcases h with (hid | hsuccessor) | hcallbacks
  · simp [Problem.SparesTexts, head?_of_mem_problems_required hid]
  · simp [Problem.SparesTexts, head?_of_mem_problems_defaulted hsuccessor]
  · simp [Problem.SparesTexts, head?_of_mem_problems_defaulted hcallbacks]

end LinearDialogue
