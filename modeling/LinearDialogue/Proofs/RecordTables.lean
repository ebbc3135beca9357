import LinearDialogue.Playback
import LinearDialogue.Proofs.Successors

/-!
# Tables of records

Playback and the search for loops each make a table of their own of a list of records, in which ids
may recur.  Both tables hold the same ids in the same order with the same successors, so what is
found out about chains of successors holds of playback as well.
-/

namespace LinearDialogue

/-- The id of a record with that of its successor. -/
def Record.link (record : Record) : Int × Int := (record.id, record.successor)

namespace Playback

variable {record r : Record} {table records : List Record} {id : Int}

/-- The table that playback makes of a list of records. -/
def tableOf (records : List Record) : List Record := (tabulate [] records).2

theorem tabulate_snd (table records : List Record) :
    (tabulate table records).2 = records.foldl (fun table record ↦ enter record table) table := by
  induction records generalizing table with
  | nil => rfl
  | cons record rest ih =>
      rw [List.foldl_cons, ← ih]
      simp only [tabulate]
      split <;> rfl

@[simp] theorem tableOf_concat (records : List Record) (record : Record) :
    tableOf (records ++ [record]) = enter record (tableOf records) := by
  simp [tableOf, tabulate_snd]

theorem mem_of_mem_enter (h : r ∈ enter record table) : r = record ∨ r ∈ table := by
  induction table with
  | nil => exact Or.inl (by simpa [enter] using h)
  | cons a table ih =>
      rw [enter] at h
      split at h
      · exact (List.mem_cons.mp h).imp_right (List.mem_cons_of_mem a)
      · rcases List.mem_cons.mp h with rfl | h
        · exact Or.inr List.mem_cons_self
        · exact (ih h).imp_right (List.mem_cons_of_mem a)

theorem mem_of_mem_tableOf (h : r ∈ tableOf records) : r ∈ records := by
  induction records using List.reverseRecOn with
  | nil => exact h
  | append_singleton records record ih =>
      rw [tableOf_concat] at h
      rcases mem_of_mem_enter h with rfl | h
      · exact List.mem_append_right records List.mem_cons_self
      · exact List.mem_append_left [record] (ih h)

theorem enter_of_notMem (h : record.id ∉ table.map Record.id) :
    enter record table = table ++ [record] := by
  induction table with
  | nil => rfl
  | cons a table ih =>
      obtain ⟨hne, hrest⟩ := List.ne_and_not_mem_of_not_mem_cons h
      have hne' : ¬ a.id = record.id := fun heq ↦ hne heq.symm
      simp [enter, hne', ih hrest]

/-- A record whose id is in the table takes the place that is there for it. -/
theorem map_id_enter_of_mem (h : record.id ∈ table.map Record.id) :
    (enter record table).map Record.id = table.map Record.id := by
  induction table with
  | nil => simp at h
  | cons a table ih =>
      by_cases ha : a.id = record.id
      · simp [enter, ha]
      · have hrest : record.id ∈ table.map Record.id :=
          (List.mem_cons.mp h).resolve_left fun heq ↦ ha heq.symm
        simp [enter, ha, ih hrest]

theorem nodup_ids_tableOf (records : List Record) : ((tableOf records).map Record.id).Nodup := by
  induction records using List.reverseRecOn with
  | nil => exact List.nodup_nil
  | append_singleton records record ih =>
      rw [tableOf_concat]
      by_cases hold : record.id ∈ (tableOf records).map Record.id
      · rwa [map_id_enter_of_mem hold]
      · simpa [enter_of_notMem hold] using ih.concat hold

theorem mem_ids_tableOf_iff :
    id ∈ (tableOf records).map Record.id ↔ id ∈ records.map Record.id := by
  induction records using List.reverseRecOn with
  | nil => rfl
  | append_singleton records record ih =>
      rw [tableOf_concat, List.map_append, List.mem_append, ← ih]
      by_cases hold : record.id ∈ (tableOf records).map Record.id
      · rw [map_id_enter_of_mem hold]
        refine ⟨Or.inl, fun h ↦ h.elim (fun h ↦ h) fun h ↦ ?_⟩
        rwa [List.mem_singleton.mp h]
      · rw [enter_of_notMem hold, List.map_append, List.mem_append]

/-- Records with different ids are a table as they stand. -/
theorem tableOf_eq_self (h : (records.map Record.id).Nodup) : tableOf records = records := by
  induction records using List.reverseRecOn with
  | nil => rfl
  | append_singleton records record ih =>
      rw [List.map_append, List.nodup_append] at h
      rw [tableOf_concat, ih h.1]
      refine enter_of_notMem fun hmem ↦ ?_
      exact h.2.2 _ hmem _ List.mem_cons_self rfl

end Playback

namespace SuccessorTable

open Playback

@[simp] theorem ofRecords_concat (records : List Record) (record : Record) :
    ofRecords (records ++ [record]) = (ofRecords records).assign record.id record.successor := by
  simp [ofRecords]

theorem assign_map_link (record : Record) (table : List Record) :
    assign record.id record.successor (table.map Record.link) =
      (enter record table).map Record.link := by
  induction table with
  | nil => rfl
  | cons a table ih =>
      by_cases ha : a.id = record.id
      · simp [assign, enter, Record.link, ha]
      · simp only [List.map_cons, assign, enter, Record.link, beq_iff_eq, ha, if_false]
        exact congrArg _ ih

/-- The two tables of a list of records agree. -/
theorem ofRecords_eq (records : List Record) :
    ofRecords records = (tableOf records).map Record.link := by
  induction records using List.reverseRecOn with
  | nil => rfl
  | append_singleton records record ih =>
      rw [ofRecords_concat, tableOf_concat, ih, assign_map_link]

theorem next?_map_link (table : List Record) (id : Int) :
    next? (table.map Record.link) id =
      (table.find? fun r ↦ r.id == id).map Record.successor := by
  rw [next?, List.find?_map, Option.map_map]
  rfl

/-- A table of records has as many entries as they have different ids. -/
theorem length_ofRecords (records : List Record) :
    (ofRecords records).length = (records.map Record.id).toFinset.card := by
  have hids : (records.map Record.id).toFinset = ((tableOf records).map Record.id).toFinset := by
    ext id
    rw [List.mem_toFinset, List.mem_toFinset, mem_ids_tableOf_iff]
  rw [hids, List.toFinset_card_of_nodup (nodup_ids_tableOf records), ofRecords_eq,
    List.length_map, List.length_map]

end SuccessorTable

end LinearDialogue
