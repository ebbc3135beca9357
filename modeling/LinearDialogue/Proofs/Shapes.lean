import LinearDialogue.Compiled.Shape
import LinearDialogue.Proofs.Fields

/-!
# Documents of the required shape

For each rule of the shape of persisted graphs, which values have no complaint against them.  A
number without fraction counts as the integer that it is equal to, and no truth value does.
-/

namespace LinearDialogue

namespace Binary64

variable {x : Binary64} {n u : Int}

theorem unitsOfOne_pos : 0 < (unitsOfOne : Int) := by
  rw [unitsOfOne, Nat.one_shiftLeft]
  exact_mod_cast Nat.two_pow_pos 1074

theorem toInt?_eq_some_iff : x.toInt? = some n ↔ x.units? = some (unitsOfInt n) := by
  have hpos := unitsOfOne_pos
  rw [toInt?, Option.bind_eq_some_iff]
  constructor
  · rintro ⟨u, hu, h⟩
    split at h
    · next hdvd =>
      rw [← Option.some.inj h, unitsOfInt, Int.ediv_mul_cancel (Int.dvd_of_emod_eq_zero hdvd)]
      exact hu
    · cases h
  · intro hu
    refine ⟨unitsOfInt n, hu, ?_⟩
    rw [unitsOfInt, Int.mul_emod_left, if_pos rfl, Int.mul_ediv_cancel n (Int.ne_of_gt hpos)]

theorem rank?_of_units?_eq_some (h : x.units? = some u) : x.rank? = some (.at u) := by
  rw [units?] at h
  rw [rank?]
  split at h
  · next hmeaning =>
    simp only [hmeaning, units?]
    exact congrArg (Option.map Rank.at) h
  · cases h

end Binary64

/-- The integer that a number is equal to; truth values and texts are no numbers here. -/
def Value.integer? : Value → Option Int
  | .int n => some n
  | .float x => x.toInt?
  | _ => none

/-- A value is a number equal to an integer within bounds. -/
def Value.Counts (low high : Int) (v : Value) (n : Int) : Prop :=
  v.integer? = some n ∧ low ≤ n ∧ n ≤ high

theorem Value.rank?_of_integer? {v : Value} {n : Int} (h : v.integer? = some n) :
    v.rank? = some (.at (Binary64.unitsOfInt n)) := by
  cases v with
  | int m => simpa [Value.integer?, Value.rank?] using congrArg (Option.map Binary64.unitsOfInt) h
  | float x => exact Binary64.rank?_of_units?_eq_some (Binary64.toInt?_eq_some_iff.mp h)
  | _ => cases h

namespace Shape

variable {v : Value} {n low high : Int} {names : List String} {name : String}
  {check : Value → List Complaint}

theorem reported?_eq_none_iff {complaints : List Complaint} :
    reported? complaints = none ↔ complaints = [] := by
  cases complaints <;> simp [reported?]

theorem fault?_eq_none_iff : fault? v = none ↔ checkGraph v = [] := by
  rw [fault?, Option.map_eq_none_iff, reported?_eq_none_iff]

theorem checkType_eq_nil_iff {demand : Demand} :
    checkType demand v = [] ↔ demand.holds v = true := by
  rw [checkType]
  split <;> simp_all

/-! ## Integers -/

theorem holds_integer_iff : Demand.integer.holds v = true ↔ ∃ n, v.integer? = some n := by
  cases v <;> simp [Demand.holds, Value.integer?, Option.isSome_iff_exists]

theorem isBelow_of_integer? (h : v.integer? = some n) : isBelow low v = decide (n < low) := by
  have hlt : n * (Binary64.unitsOfOne : Int) < low * Binary64.unitsOfOne ↔ n < low :=
    Int.mul_lt_mul_right Binary64.unitsOfOne_pos
  have hnumber : isBelow low v = v.rank?.any fun r ↦ r.lt (.at (Binary64.unitsOfInt low)) := by
    cases v <;> first | rfl | cases h
  rw [hnumber, Value.rank?_of_integer? h]
  simp [Binary64.Rank.lt, Binary64.unitsOfInt, hlt]

theorem isAbove_of_integer? (h : v.integer? = some n) : isAbove high v = decide (high < n) := by
  have hlt : high * (Binary64.unitsOfOne : Int) < n * Binary64.unitsOfOne ↔ high < n :=
    Int.mul_lt_mul_right Binary64.unitsOfOne_pos
  have hnumber : isAbove high v =
      v.rank?.any fun r ↦ Binary64.Rank.lt (.at (Binary64.unitsOfInt high)) r := by
    cases v <;> first | rfl | cases h
  rw [hnumber, Value.rank?_of_integer? h]
  simp [Binary64.Rank.lt, Binary64.unitsOfInt, hlt]

theorem checkInteger_eq_nil_iff : checkInteger low high v = [] ↔ ∃ n, v.Counts low high n := by
  rw [checkInteger, List.append_eq_nil_iff, List.append_eq_nil_iff, checkType_eq_nil_iff,
    holds_integer_iff]
  constructor
  · rintro ⟨⟨⟨n, hn⟩, hlow⟩, hhigh⟩
    rw [isBelow_of_integer? hn] at hlow
    rw [isAbove_of_integer? hn] at hhigh
    refine ⟨n, hn, ?_, ?_⟩
    · by_contra hlt
      simp [Int.not_le.mp hlt] at hlow
    · by_contra hlt
      simp [Int.not_le.mp hlt] at hhigh
  · rintro ⟨n, hn, hlow, hhigh⟩
    rw [isBelow_of_integer? hn, isAbove_of_integer? hn]
    refine ⟨⟨⟨n, hn⟩, ?_⟩, ?_⟩
    · simp [Int.not_lt.mpr hlow]
    · simp [Int.not_lt.mpr hhigh]

/-! ## Fields -/

theorem checkTag_eq_nil_iff : checkTag v = [] ↔ ∃ tag, tag ≠ "" ∧ v = .text tag := by
  rw [checkTag, List.append_eq_nil_iff, checkType_eq_nil_iff]
  cases v <;> simp [Demand.holds]

theorem checkField_eq_nil_iff :
    checkField name check v = [] ↔ ∀ item ∈ v.field? name, check item = [] := by
  rw [checkField]
  cases v.field? name <;> simp

theorem checkRequired_eq_nil_iff {fields : List (String × Value)} :
    checkRequired names (.object fields) = [] ↔
      ∀ name ∈ names, ∃ item, Value.lookup name fields = some item := by
  simp [checkRequired, Option.ne_none_iff_exists']

theorem checkClosed_eq_nil_iff {fields : List (String × Value)} :
    checkClosed names (.object fields) = [] ↔ ∀ field ∈ fields, field.1 ∈ names := by
  have hextra : ((fields.map (·.1)).filter fun name ↦ !names.contains name) = [] ↔
      ∀ field ∈ fields, field.1 ∈ names := by
    simp [List.filter_eq_nil_iff]
  have hsorted (extra : List String) :
      (extra.mergeSort fun a b ↦ decide (a ≤ b)) = [] ↔ extra = [] := by
    rw [← List.length_eq_zero_iff, List.length_mergeSort, List.length_eq_zero_iff]
  rw [← hextra, ← hsorted, checkClosed]
  split
  · next h => exact ⟨fun _ ↦ h, fun _ ↦ rfl⟩
  · next h => simp only [h, reduceCtorEq]
  · next h _ => simpa only [reduceCtorEq, false_iff] using h

/-! ## Documents -/

/-- The fields that every written record has, whatever its class: two ids and a tag. -/
structure HasRecordFields (fields : List (String × Value)) : Prop where
  id : ∃ v n, Value.lookup "id" fields = some v ∧ v.Counts 0 maxId n
  successor : ∃ v n, Value.lookup "successor_id" fields = some v ∧ v.Counts noId maxId n
  kind : ∃ tag, tag ≠ "" ∧ Value.lookup "kind" fields = some (.text tag)

theorem checkRecord_eq_nil_iff :
    checkRecord v = [] ↔ ∃ fields, v = .object fields ∧ HasRecordFields fields := by
  simp only [checkRecord, List.append_eq_nil_iff, checkType_eq_nil_iff, checkField_eq_nil_iff,
    checkInteger_eq_nil_iff, checkTag_eq_nil_iff]
  cases v with
  | object fields =>
      simp only [checkRequired_eq_nil_iff, List.forall_mem_cons, Value.field?, Value.object.injEq,
        exists_eq_left']
      constructor
      · rintro ⟨⟨⟨⟨-, ⟨id, hid⟩, ⟨successor, hsuccessor⟩, ⟨kind, hkind⟩, -⟩, hid'⟩, hsuccessor'⟩,
          hkind'⟩
        obtain ⟨n, hn⟩ := hid' id hid
        obtain ⟨m, hm⟩ := hsuccessor' successor hsuccessor
        obtain ⟨tag, hne, rfl⟩ := hkind' kind hkind
        exact ⟨⟨id, n, hid, hn⟩, ⟨successor, m, hsuccessor, hm⟩, ⟨tag, hne, hkind⟩⟩
      · rintro ⟨⟨id, n, hid, hn⟩, ⟨successor, m, hsuccessor, hm⟩, ⟨tag, hne, hkind⟩⟩
        simp only [hid, hsuccessor, hkind, Option.mem_some_iff]
        refine ⟨⟨⟨⟨rfl, ⟨id, rfl⟩, ⟨successor, rfl⟩, ⟨_, rfl⟩, by simp⟩, ?_⟩, ?_⟩, ?_⟩
        · rintro _ rfl
          exact ⟨n, hn⟩
        · rintro _ rfl
          exact ⟨m, hm⟩
        · rintro _ rfl
          exact ⟨tag, hne, rfl⟩
  | _ => simp [Demand.holds]

theorem checkRecords_eq_nil_iff :
    checkRecords v = [] ↔ ∃ items, v = .list items ∧ ∀ item ∈ items, checkRecord item = [] := by
  cases v with
  | list items =>
      have hholds : Demand.array.holds (.list items) = true := rfl
      simp only [checkRecords, List.append_eq_nil_iff, checkType_eq_nil_iff, hholds, true_and,
        List.flatten_eq_nil_iff, List.mem_mapIdx, Value.list.injEq, exists_eq_left']
      constructor
      · intro h item hitem
        obtain ⟨i, hi, rfl⟩ := List.getElem_of_mem hitem
        exact List.map_eq_nil_iff.mp (h _ ⟨i, hi, rfl⟩)
      · rintro h complaints ⟨i, hi, rfl⟩
        rw [h items[i] (List.getElem_mem hi), List.map_nil]
  | _ => simp [checkRecords, checkType, Demand.holds]

/-- A document of the required shape: an entry and a list of records, and nothing else. -/
theorem checkGraph_eq_nil_iff :
    checkGraph v = [] ↔ ∃ fields, v = .object fields ∧
      (∀ field ∈ fields, field.1 ∈ ["entry_id", "records"]) ∧
      (∃ entry n, Value.lookup "entry_id" fields = some entry ∧ entry.Counts noId maxId n) ∧
      ∃ items, Value.lookup "records" fields = some (.list items) ∧
        ∀ item ∈ items, checkRecord item = [] := by
  simp only [checkGraph, List.append_eq_nil_iff, checkType_eq_nil_iff, checkField_eq_nil_iff,
    checkInteger_eq_nil_iff, checkRecords_eq_nil_iff]
  cases v with
  | object fields =>
      simp only [checkRequired_eq_nil_iff, checkClosed_eq_nil_iff,
        List.forall_mem_cons (a := "entry_id"), List.forall_mem_cons (a := "records"),
        Value.field?, Value.object.injEq, exists_eq_left']
      constructor
      · rintro ⟨⟨⟨⟨-, ⟨entry, hentry⟩, ⟨records, hrecords⟩, -⟩, hclosed⟩, hentry'⟩, hrecords'⟩
        obtain ⟨n, hn⟩ := hentry' entry hentry
        obtain ⟨items, rfl, hitems⟩ := hrecords' records hrecords
        exact ⟨hclosed, ⟨entry, n, hentry, hn⟩, items, hrecords, hitems⟩
      · rintro ⟨hclosed, ⟨entry, n, hentry, hn⟩, items, hrecords, hitems⟩
        simp only [hentry, hrecords, Option.mem_some_iff]
        refine ⟨⟨⟨⟨rfl, ⟨entry, rfl⟩, ⟨_, rfl⟩, by simp⟩, hclosed⟩, ?_⟩, ?_⟩
        · rintro _ rfl
          exact ⟨n, hn⟩
        · rintro _ rfl
          exact ⟨items, rfl, hitems⟩
  | _ => simp [Demand.holds]

end Shape

end LinearDialogue
