import LinearDialogue.Proofs.JsonFaults
import LinearDialogue.Proofs.PersistedGraphs

/-!
# The format of persisted graphs

Which values stand for a compiled graph of spoken lines, and for which: the shape of the document
and the checks of each record together leave exactly these, and every other text is refused with a
failure of dialogues.
-/

namespace LinearDialogue

/-! ## Numbers and fields -/

namespace Fields

variable {α : Type} {v d : Value} {n low high : Int} {fields : List (String × Value)}
  {name : String} {known : List String} {default a : α} {check : Value → Checked α}

theorem asInteger_of_integer? (h : v.integer? = some n) (hlow : -fractionLimit < n)
    (hhigh : n < fractionLimit) : asInteger v = .ok n := by
  cases v with
  | int m => exact congrArg Except.ok (Option.some.inj h)
  | float x =>
      have hint : x.toInt? = some n := h
      simp [asInteger, Binary64.toInt?_eq_some_iff.mp hint, hint, hlow, hhigh]
  | _ => cases h

/-- What counts as an integer within the bounds of ids is taken for that integer. -/
theorem asBounded_of_counts (hlow : noId ≤ low) (hhigh : high ≤ maxId) (h : v.Counts low high n) :
    asBounded low high v = .ok n := by
  obtain ⟨hn, hge, hle⟩ := h
  have hlimit : -fractionLimit < noId ∧ maxId < fractionLimit := by decide
  apply asBounded_eq_ok_iff.mpr
  exact ⟨asInteger_of_integer? hn (by omega) (by omega), hge, hle⟩

/-- A field that may be left out is read as if its default had been written. -/
theorem defaulted_eq_ok_iff_getD (hd : check d = .ok default) :
    defaulted fields name default check = .ok a ↔
      check ((Value.lookup name fields).getD d) = .ok a := by
  rw [defaulted]
  cases Value.lookup name fields with
  | none => simp [hd]
  | some v => simp

theorem unknown_eq_nil_iff : unknown fields known = [] ↔ ∀ field ∈ fields, field.1 ∈ known := by
  simp [unknown, List.filter_eq_nil_iff]

end Fields

/-! ## The format -/

namespace Format

/-- The names that the fields of a record may have. -/
def recordNames : List String :=
  ["id", "successor_id", "kind", "actor", "audio", "text", "callbacks"]

/-- A value stands for the record of a spoken line.  The ids and the tag are there; of the other
fields those that are left out are empty. -/
inductive IsRecord : Value → Record → Prop
  | mk {fields : List (String × Value)} {id successor : Value} {m n : Int} {line : SpokenLine}
      (hnames : ∀ field ∈ fields, field.1 ∈ recordNames)
      (hid : Value.lookup "id" fields = some id) (hm : id.Counts 0 maxId m)
      (hsuccessor : Value.lookup "successor_id" fields = some successor)
      (hn : successor.Counts noId maxId n)
      (hkind : Value.lookup "kind" fields = some (.text "dialogue"))
      (hactor : (Value.lookup "actor" fields).getD (.text "") = .text line.actor)
      (haudio : (Value.lookup "audio" fields).getD .null = .ofOption line.audio)
      (htext : (Value.lookup "text" fields).getD (.text "") = .text line.text)
      (hcallbacks : (Value.lookup "callbacks" fields).getD (.list []) =
        .list (line.callbacks.map .text)) :
      IsRecord (.object fields) ⟨.dialogue, m, n, "dialogue", some line⟩

/-- A value stands for a compiled graph: an entry and the records in their order, and nothing
else. -/
inductive IsGraph : Value → CompiledGraph → Prop
  | mk {fields : List (String × Value)} {entry : Value} {n : Int} {items : List Value}
      {records : List Record} (hnames : ∀ field ∈ fields, field.1 ∈ ["entry_id", "records"])
      (hentry : Value.lookup "entry_id" fields = some entry) (hn : entry.Counts noId maxId n)
      (hitems : Value.lookup "records" fields = some (.list items))
      (hrecords : List.Forall₂ IsRecord items records) : IsGraph (.object fields) ⟨n, records⟩

end Format

theorem Registry.find?_standard_eq_some_iff {tag : String} {cls : RecordClass} :
    Registry.standard.find? tag = some cls ↔ tag = "dialogue" ∧ cls = .dialogue := by
  by_cases htag : tag = "dialogue"
  · subst htag
    simp [Registry.find?, Registry.standard, eq_comm]
  · have hne : ¬ "dialogue" = tag := fun heq ↦ htag heq.symm
    simp [Registry.find?, Registry.standard, htag, hne]

open Fields

/-! ## Records -/

theorem SpokenLine.ofFields_eq_ok_iff_getD {fields : List (String × Value)} {line : SpokenLine} :
    SpokenLine.ofFields fields = .ok line ↔
      (Value.lookup "actor" fields).getD (.text "") = .text line.actor ∧
      (Value.lookup "audio" fields).getD .null = .ofOption line.audio ∧
      (Value.lookup "text" fields).getD (.text "") = .text line.text ∧
      (Value.lookup "callbacks" fields).getD (.list []) = .list (line.callbacks.map .text) := by
  have htext : asText (.text "") = .ok "" := rfl
  have haudio : asOptionalText .null = .ok none := rfl
  have hlist : listOf asText (.list []) = .ok [] := rfl
  rw [SpokenLine.ofFields_eq_ok_iff, defaulted_eq_ok_iff_getD htext,
    defaulted_eq_ok_iff_getD haudio, defaulted_eq_ok_iff_getD htext,
    defaulted_eq_ok_iff_getD hlist, asText_eq_ok_iff, asOptionalText_eq_ok_iff, asText_eq_ok_iff,
    listOf_asText_eq_ok_iff]

namespace Record

variable {v : Value} {record : Record} {registry : Registry} {failure : Failure}

/-- The fields of a dialogue record whose ids and tag have the required shape. -/
theorem ofFields_dialogue_eq_ok_iff {fields : List (String × Value)} {id successor : Value}
    {m n : Int} (hid : Value.lookup "id" fields = some id) (hm : id.Counts 0 maxId m)
    (hsuccessor : Value.lookup "successor_id" fields = some successor)
    (hn : successor.Counts noId maxId n)
    (hkind : Value.lookup "kind" fields = some (.text "dialogue")) :
    Record.ofFields .dialogue fields = .ok record ↔
      (∀ field ∈ fields, field.1 ∈ Format.recordNames) ∧
        ∃ line, SpokenLine.ofFields fields = .ok line ∧
          record = ⟨.dialogue, m, n, "dialogue", some line⟩ := by
  have hmadeId : required fields "id" (asBounded 0 maxId) = .ok m :=
    required_eq_ok_iff.mpr ⟨id, hid, asBounded_of_counts (by decide) (Int.le_refl _) hm⟩
  have hmadeSuccessor :
      defaulted fields "successor_id" noId (asBounded noId maxId) = .ok n := by
    apply defaulted_eq_ok_iff.mpr
    exact Or.inl ⟨successor, hsuccessor, asBounded_of_counts (Int.le_refl _) (Int.le_refl _) hn⟩
  have hmadeKind : RecordClass.dialogue.checkTag fields = .ok "dialogue" :=
    RecordClass.checkTag_eq_ok_iff.mpr ⟨by simp [RecordClass.dialogue], Or.inl hkind⟩
  have hnames : RecordClass.dialogue.fieldNames = Format.recordNames := rfl
  rw [Record.ofFields_eq_ok_iff, hmadeId, hmadeSuccessor, hmadeKind, unknown_eq_nil_iff, hnames]
  constructor
  · rintro ⟨hclass, hid, hsuccessor, hkind, hline, hclosed⟩
    obtain ⟨hspeaks, hspoken⟩ := RecordClass.checkLine_eq_ok_iff.mp hline
    obtain ⟨line, hsome⟩ := Option.isSome_iff_exists.mp hspeaks
    refine ⟨hclosed, line, hspoken line hsome, ?_⟩
    cases record
    cases hid
    cases hsuccessor
    cases hkind
    cases hclass
    cases hsome
    rfl
  · rintro ⟨hclosed, line, hline, rfl⟩
    exact ⟨rfl, rfl, rfl, rfl, RecordClass.checkLine_eq_ok_iff.mpr ⟨rfl, by simp [hline]⟩, hclosed⟩

theorem ofPersisted_standard_eq_ok_iff :
    Shape.checkRecord v = [] ∧ Record.ofPersisted .standard v = .ok record ↔
      Format.IsRecord v record := by
  constructor
  · rintro ⟨hshape, h⟩
    obtain ⟨fields, rfl, ⟨id, m, hid, hm⟩, ⟨successor, n, hsuccessor, hn⟩, tag, -, hkind⟩ :=
      Shape.checkRecord_eq_nil_iff.mp hshape
    have hfield : Value.field? "kind" (.object fields) = some (.text tag) := hkind
    simp only [Record.ofPersisted, hfield] at h
    split at h
    · cases h
    · next cls hcls =>
      obtain ⟨rfl, rfl⟩ := Registry.find?_standard_eq_some_iff.mp hcls
      split at h
      · next made hmade =>
        cases h
        obtain ⟨hnames, line, hline, rfl⟩ :=
          (ofFields_dialogue_eq_ok_iff hid hm hsuccessor hn hkind).mp hmade
        obtain ⟨hactor, haudio, htext, hcallbacks⟩ := SpokenLine.ofFields_eq_ok_iff_getD.mp hline
        exact .mk hnames hid hm hsuccessor hn hkind hactor haudio htext hcallbacks
      · cases h
  · intro h
    cases h with
    | @mk fields id successor m n line hnames hid hm hsuccessor hn hkind hactor haudio htext
        hcallbacks =>
        have hline : SpokenLine.ofFields fields = .ok line :=
          SpokenLine.ofFields_eq_ok_iff_getD.mpr ⟨hactor, haudio, htext, hcallbacks⟩
        have hmade := (ofFields_dialogue_eq_ok_iff hid hm hsuccessor hn hkind).mpr
          ⟨hnames, line, hline, rfl⟩
        have hfield : Value.field? "kind" (.object fields) = some (.text "dialogue") := hkind
        have hclass : Registry.standard.find? "dialogue" = some .dialogue := rfl
        constructor
        · apply Shape.checkRecord_eq_nil_iff.mpr
          exact ⟨fields, rfl, ⟨id, m, hid, hm⟩, ⟨successor, n, hsuccessor, hn⟩, "dialogue",
            by decide, hkind⟩
        · simp [Record.ofPersisted, hfield, hclass, hmade]

/-- A record of the required shape that cannot be made has a tag that is not registered, or a field
that its class refuses. -/
theorem of_ofPersisted_eq_error (hshape : Shape.checkRecord v = [])
    (h : Record.ofPersisted registry v = .error failure) :
    (∃ tag, registry.find? tag = none ∧ failure = .unsupportedKind (.text tag)) ∨
      ∃ tag cls problems, registry.find? tag = some cls ∧
        failure = .badRecord cls.name problems := by
  obtain ⟨fields, rfl, hfields⟩ := Shape.checkRecord_eq_nil_iff.mp hshape
  obtain ⟨tag, -, hkind⟩ := hfields.kind
  have hfield : Value.field? "kind" (.object fields) = some (.text tag) := hkind
  simp only [Record.ofPersisted, hfield] at h
  split at h
  · next hcls =>
    cases h
    exact Or.inl ⟨tag, hcls, rfl⟩
  · next cls hcls =>
    split at h
    · cases h
    · next problems hproblems =>
      cases h
      exact Or.inr ⟨tag, cls, problems, hcls, rfl⟩

end Record

/-! ## Graphs -/

namespace CompiledGraph

variable {v : Value} {graph : CompiledGraph} {registry : Registry} {failure : Failure}

/-- A document of the required shape is a list of records under an entry that counts, so that
nothing but a record can still be refused. -/
theorem exists_ofDocument_eq (h : Shape.checkGraph v = []) :
    ∃ fields entry n items, v = .object fields ∧
      (∀ field ∈ fields, field.1 ∈ ["entry_id", "records"]) ∧
      Value.lookup "entry_id" fields = some entry ∧ entry.Counts noId maxId n ∧
      Value.lookup "records" fields = some (.list items) ∧
      (∀ item ∈ items, Shape.checkRecord item = []) ∧
      ∀ registry, ofDocument registry v =
        (items.mapM (Record.ofPersisted registry)).map fun records ↦ ⟨n, records⟩ := by
  obtain ⟨fields, rfl, hnames, ⟨entry, n, hentry, hn⟩, items, hitems, hshapes⟩ :=
    Shape.checkGraph_eq_nil_iff.mp h
  refine ⟨fields, entry, n, items, rfl, hnames, hentry, hn, hitems, hshapes, fun registry ↦ ?_⟩
  have hfault := Shape.fault?_eq_none_iff.mpr h
  have hentryField : Value.field? "entry_id" (.object fields) = some entry := hentry
  have hitemsField : Value.field? "records" (.object fields) = some (.list items) := hitems
  have hbounded := asBounded_of_counts (Int.le_refl _) (Int.le_refl _) hn
  have hmade (records : List Record) : ofRecords entry records = .ok ⟨n, records⟩ :=
    ofRecords_eq_ok_iff.mpr ⟨hbounded, rfl⟩
  simp only [ofDocument, hfault, hentryField, hitemsField, hmade]
  cases items.mapM (Record.ofPersisted registry) <;> rfl

theorem ofDocument_standard_eq_ok_iff :
    ofDocument .standard v = .ok graph ↔ Format.IsGraph v graph := by
  constructor
  · intro h
    cases hfault : Shape.fault? v with
    | some message => simp [ofDocument, hfault] at h
    | none =>
        obtain ⟨fields, entry, n, items, rfl, hnames, hentry, hn, hitems, hshapes, hmade⟩ :=
          exists_ofDocument_eq (Shape.fault?_eq_none_iff.mp hfault)
        rw [hmade] at h
        cases hrecords : items.mapM (Record.ofPersisted .standard) with
        | error failure => simp [hrecords, Except.map] at h
        | ok records =>
            rw [hrecords] at h
            cases h
            refine .mk hnames hentry hn hitems ?_
            have hread := (List.forall₂_and_left _ _).mpr
              ⟨hshapes, Graph.forall₂_of_mapM_eq_ok hrecords⟩
            exact hread.imp fun _ _ ↦ Record.ofPersisted_standard_eq_ok_iff.mp
  · intro h
    cases h with
    | @mk fields entry n items records hnames hentry hn hitems hrecords =>
        obtain ⟨hshapes, hread⟩ := (List.forall₂_and_left _ _).mp
          (hrecords.imp fun _ _ ↦ Record.ofPersisted_standard_eq_ok_iff.mpr)
        have hshape : Shape.checkGraph (.object fields) = [] :=
          Shape.checkGraph_eq_nil_iff.mpr
            ⟨fields, rfl, hnames, ⟨entry, n, hentry, hn⟩, items, hitems, hshapes⟩
        obtain ⟨fields', entry', n', items', hfields, -, hentry', hn', hitems', -, hmade⟩ :=
          exists_ofDocument_eq hshape
        cases hfields
        cases hentry.symm.trans hentry'
        cases hitems.symm.trans hitems'
        cases hn.1.symm.trans hn'.1
        rw [hmade, Graph.mapM_eq_ok_of_forall₂ hread]
        rfl

/-- A document is refused for its shape, or for one of its records. -/
theorem of_ofDocument_eq_error (h : ofDocument registry v = .error failure) :
    (∃ details, failure = .badFormat details) ∨
      (∃ tag, registry.find? tag = none ∧ failure = .unsupportedKind (.text tag)) ∨
      ∃ tag cls problems, registry.find? tag = some cls ∧
        failure = .badRecord cls.name problems := by
  cases hfault : Shape.fault? v with
  | some message =>
      simp only [ofDocument, hfault, Except.error.injEq] at h
      exact Or.inl ⟨_, h.symm⟩
  | none =>
      obtain ⟨fields, entry, n, items, -, -, -, -, -, hshapes, hmade⟩ :=
        exists_ofDocument_eq (Shape.fault?_eq_none_iff.mp hfault)
      rw [hmade] at h
      cases hrecords : items.mapM (Record.ofPersisted registry) with
      | ok records =>
          rw [hrecords] at h
          cases h
      | error first =>
          rw [hrecords] at h
          cases h
          obtain ⟨item, hitem, hread⟩ := Graph.exists_of_mapM_eq_error hrecords
          exact Or.inr (Record.of_ofPersisted_eq_error (hshapes item hitem) hread)

/-- A text is refused with a failure of dialogues, unless an integer of too many digits stands in
it. -/
theorem of_deserialize_eq_error {text : String} (h : deserialize registry text = .error failure) :
    ((∃ details, failure = .badFormat details) ∨
      (∃ tag, registry.find? tag = none ∧ failure = .unsupportedKind (.text tag)) ∨
      ∃ tag cls problems, registry.find? tag = some cls ∧ failure = .badRecord cls.name problems) ∨
    ∃ fault count, failure = .badJson fault ∧ Json.read text = .error fault ∧
      fault.cause = .tooManyDigits count ∧ Json.HasLongInteger text.toList count := by
  rw [deserialize] at h
  split at h
  · exact Or.inl (of_ofDocument_eq_error h)
  · next fault hfault =>
    split at h
    · cases h
      exact Or.inl (Or.inl ⟨_, rfl⟩)
    · next hsyntactic =>
      cases h
      obtain ⟨count, hcause, hlong⟩ :=
        Json.hasLongInteger_of_read_eq_error hfault (Bool.eq_false_iff.mpr hsyntactic)
      exact Or.inr ⟨fault, count, rfl, hfault, hcause, hlong⟩

/-- With no other class registered than that of spoken lines, a text is read as a graph exactly if
it is JSON for that graph.  Every other text is refused: with a failure of format, with one of a
tag that is not that of spoken lines, or with one of a record that is none; apart from these only an
integer of more digits than can be read stops the reading.

Texts are made of characters, so half of a surrogate pair, which an escape can stand for, is read as
U+FFFD. -/
theorem deserialize_standard (text : String) :
    (∀ graph, deserialize .standard text = .ok graph ↔
      ∃ v, Json.read text = .ok v ∧ Format.IsGraph v graph) ∧
    ((∃ graph, deserialize .standard text = .ok graph) ∨
      ∃ failure, deserialize .standard text = .error failure ∧
        ((∃ details, failure = .badFormat details) ∨
          (∃ tag, tag ≠ "dialogue" ∧ failure = .unsupportedKind (.text tag)) ∨
          (∃ problems, failure = .badRecord "DialogueNode" problems) ∨
          ∃ fault count, failure = .badJson fault ∧ Json.read text = .error fault ∧
            fault.cause = .tooManyDigits count ∧ Json.HasLongInteger text.toList count)) := by
  constructor
  · intro graph
    rw [deserialize]
    cases hread : Json.read text with
    | ok v => simp [ofDocument_standard_eq_ok_iff]
    | error fault =>
        simp only [reduceCtorEq, false_and, exists_false, iff_false]
        split <;> rintro ⟨⟩
  · cases h : deserialize .standard text with
    | ok graph => exact Or.inl ⟨graph, rfl⟩
    | error failure =>
        refine Or.inr ⟨failure, rfl, ?_⟩
        rcases of_deserialize_eq_error h with
          (hformat | ⟨tag, hnone, hkind⟩ | ⟨tag, cls, problems, hcls, hrecord⟩) | hdigits
        · exact Or.inl hformat
        · refine Or.inr (Or.inl ⟨tag, ?_, hkind⟩)
          rintro rfl
          cases hnone
        · obtain ⟨-, rfl⟩ := Registry.find?_standard_eq_some_iff.mp hcls
          exact Or.inr (Or.inr (Or.inl ⟨problems, hrecord⟩))
        · exact Or.inr (Or.inr (Or.inr hdigits))

end CompiledGraph

end LinearDialogue
