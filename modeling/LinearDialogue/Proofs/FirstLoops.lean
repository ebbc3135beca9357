import LinearDialogue.Proofs.LoopAgreement

/-!
# The first loop

Which loop the search finds.  It starts at the ids in the order in which the records have them for
the first time, and stops at the first id whose chain runs into a loop.  What it finds begins where
that chain comes to the loop: the tail that leads there is cut off.  The search is bounded by the
length of the table; left to itself it would come to the same end.
-/

namespace LinearDialogue

namespace SuccessorTable

variable {table : SuccessorTable} {finished starts path cycle : List Int} {start id next : Int}
  {fuel : ℕ} {outcome : Walk}

/-! ## The search without a bound -/

/-- A walk from an id on that goes on for as long as it takes; `path` holds the ids passed. -/
inductive Walks (table : SuccessorTable) (finished : List Int) : List Int → Int → Walk → Prop
  | known {path : List Int} {id : Int} (h : id ∈ finished) :
      Walks table finished path id (.ends path)
  | breaksOff {path : List Int} {id : Int} (h : table.next? id = none) :
      Walks table finished path id (.ends path)
  | closes {path : List Int} {id next : Int} (hnew : id ∉ finished)
      (hnext : table.next? id = some next) (hpassed : id ∈ path) :
      Walks table finished path id (.loops (path.dropWhile (· != id)))
  | goesOn {path : List Int} {id next : Int} {outcome : Walk} (hnew : id ∉ finished)
      (hnext : table.next? id = some next) (hpassed : id ∉ path)
      (h : Walks table finished (path ++ [id]) next outcome) : Walks table finished path id outcome

/-- Walks from several ids in turn, until one of them loops. -/
inductive Searches (table : SuccessorTable) : List Int → List Int → List Int → Prop
  | nil {finished : List Int} : Searches table finished [] []
  | found {finished rest cycle : List Int} {start : Int}
      (h : table.Walks finished [] start (.loops cycle)) :
      Searches table finished (start :: rest) cycle
  | ended {finished path rest cycle : List Int} {start : Int}
      (h : table.Walks finished [] start (.ends path))
      (hrest : Searches table (finished ++ path) rest cycle) :
      Searches table finished (start :: rest) cycle

/-- The bound of a walk suffices: the walk comes to its end within it. -/
theorem OnPath.walks (hpath : table.OnPath fuel path id) (finished : List Int) :
    table.Walks finished path id (table.walk finished fuel path id) := by
  induction fuel generalizing path id with
  | zero => exact absurd hpath.fuel_pos (Nat.lt_irrefl 0)
  | succ fuel ih =>
      rw [walk]
      by_cases hknown : id ∈ finished
      · rw [if_pos (List.contains_iff_mem.mpr hknown)]
        exact .known hknown
      rw [if_neg (mt List.contains_iff_mem.mp hknown)]
      cases hnext : table.next? id with
      | none => exact .breaksOff hnext
      | some next =>
          by_cases hpassed : id ∈ path
          · simp only [List.contains_iff_mem.mpr hpassed, if_true]
            exact .closes hknown hnext hpassed
          · simp only [mt List.contains_iff_mem.mp hpassed, Bool.false_eq_true, if_false]
            exact .goesOn hknown hnext hpassed (ih (hpath.step hpassed hnext))

theorem Walks.unique {other : Walk} (h : table.Walks finished path id outcome)
    (h' : table.Walks finished path id other) : outcome = other := by
  induction h with
  | known h =>
      cases h' with
      | known _ => rfl
      | breaksOff _ => rfl
      | closes hnew => exact absurd h hnew
      | goesOn hnew => exact absurd h hnew
  | breaksOff h =>
      cases h' with
      | known _ => rfl
      | breaksOff _ => rfl
      | closes _ hnext => cases h.symm.trans hnext
      | goesOn _ hnext => cases h.symm.trans hnext
  | closes hnew hnext hpassed =>
      cases h' with
      | known h => exact absurd h hnew
      | breaksOff h => cases h.symm.trans hnext
      | closes => rfl
      | goesOn _ _ hpassed' => exact absurd hpassed hpassed'
  | goesOn hnew hnext hpassed _ ih =>
      cases h' with
      | known h => exact absurd h hnew
      | breaksOff h => cases h.symm.trans hnext
      | closes _ _ hpassed' => exact absurd hpassed' hpassed
      | goesOn _ hnext' _ h' =>
          obtain rfl := Option.some.inj (hnext.symm.trans hnext')
          exact ih h'

theorem walks_iff :
    table.Walks finished [] start outcome ↔
      table.walk finished (table.length + 1) [] start = outcome := by
  have hwalk := (OnPath.start table start).walks finished
  refine ⟨fun h ↦ hwalk.unique h, ?_⟩
  rintro rfl
  exact hwalk

/-- The search comes to its end, and to no other. -/
theorem searches_iff :
    table.Searches finished starts cycle ↔ table.search finished starts = cycle := by
  induction starts generalizing finished with
  | nil =>
      refine ⟨fun h ↦ ?_, fun h ↦ ?_⟩
      · cases h
        rfl
      · cases h
        exact .nil
  | cons start rest ih =>
      rw [search]
      cases hwalk : table.walk finished (table.length + 1) [] start with
      | loops found =>
          refine ⟨fun h ↦ ?_, fun h ↦ ?_⟩
          · cases h with
            | found h => cases hwalk.symm.trans (walks_iff.mp h); rfl
            | ended h => cases hwalk.symm.trans (walks_iff.mp h)
          · cases h
            exact .found (walks_iff.mpr hwalk)
      | ends path =>
          refine ⟨fun h ↦ ?_, fun h ↦ .ended (walks_iff.mpr hwalk) (ih.mpr h)⟩
          cases h with
          | found h => cases hwalk.symm.trans (walks_iff.mp h)
          | ended h hrest =>
              cases hwalk.symm.trans (walks_iff.mp h)
              exact ih.mp hrest

/-! ## Where a chain comes to a loop -/

/-- The chain from an id comes back to it. -/
def OnLoop (table : SuccessorTable) (id : Int) : Prop := ∃ n, 0 < n ∧ table.after n id = some id

/-- The chain from an id comes to an id on a loop. -/
def RunsIntoLoop (table : SuccessorTable) (id : Int) : Prop :=
  ∃ n passed, table.after n id = some passed ∧ table.OnLoop passed

theorem OnLoop.not_ends (h : table.OnLoop id) : ¬table.Ends id := by
  obtain ⟨n, hn, hround⟩ := h
  exact not_ends_of_after_eq_self hn hround

theorem Ends.not_runsIntoLoop (h : table.Ends id) : ¬table.RunsIntoLoop id := by
  rintro ⟨n, passed, hpassed, hloop⟩
  exact hloop.not_ends (h.after hpassed)

theorem after_mul_eq_self {n : ℕ} (h : table.after n id = some id) (k : ℕ) :
    table.after (k * n) id = some id := by
  induction k with
  | zero => rw [Nat.zero_mul, after_zero]
  | succ k ih => rw [Nat.succ_mul, after_add, ih, Option.bind_some, h]

/-- A chain does not leave a loop. -/
theorem IsLoop.mem_of_after {ids : List Int} {n : ℕ} (hloop : table.IsLoop ids) (hid : id ∈ ids)
    (h : table.after n id = some next) : next ∈ ids := by
  obtain ⟨i, hi, rfl⟩ := List.mem_iff_getElem.mp hid
  rw [hloop.after n hi] at h
  rw [← Option.some.inj h]
  exact List.get_mem _ _

theorem IsLoop.onLoop {ids : List Int} (hloop : table.IsLoop ids) (hid : id ∈ ids) :
    table.OnLoop id := by
  obtain ⟨i, hi, rfl⟩ := List.mem_iff_getElem.mp hid
  refine ⟨ids.length, Nat.zero_lt_of_lt hi, ?_⟩
  rw [hloop.after ids.length hi]
  simp [Nat.mod_eq_of_lt hi]

/-- An id from which a chain comes to a loop that the id is not on is on no loop. -/
theorem IsLoop.not_onLoop {ids : List Int} {passed : Int} {n : ℕ} (hloop : table.IsLoop ids)
    (hid : id ∈ ids) (h : table.after n passed = some id) (hpassed : passed ∉ ids) :
    ¬table.OnLoop passed := by
  rintro ⟨m, hm, hround⟩
  -- round the other loop often enough, the chain passes `id` before it is back
  have hback := after_mul_eq_self hround n
  have hlong : n ≤ n * m := Nat.le_mul_of_pos_right _ hm
  rw [← Nat.add_sub_cancel' hlong, after_add, h, Option.bind_some] at hback
  exact hpassed (hloop.mem_of_after hid hback)

theorem after_of_isChain {ids : List Int} (h : ids.IsChain table.Leads)
    (hstart : ids.head? = some start) {i : ℕ} (hi : i < ids.length) :
    table.after i start = some ids[i] := by
  induction i generalizing start ids with
  | zero => rw [after_zero, ← hstart, List.head?_eq_getElem?, List.getElem?_eq_getElem hi]
  | succ i ih =>
      obtain ⟨rest, rfl⟩ := List.head?_eq_some_iff.mp hstart
      cases rest with
      | nil => exact absurd hi (by simp)
      | cons next rest =>
          obtain ⟨hnext, hrest⟩ := List.isChain_cons_cons.mp h
          have hstep : table.next? start = some next := hnext
          rw [after_succ, hstep, Option.bind_some, ih hrest rfl (by simpa using hi)]
          rfl

/-- The chain from an id comes to the first of some ids, and to none on a loop before it. -/
def Meets (table : SuccessorTable) (start : Int) (ids : List Int) : Prop :=
  ∃ steps first, ids.head? = some first ∧ table.after steps start = some first ∧
    ∀ fewer < steps, ∀ passed, table.after fewer start = some passed → ¬table.OnLoop passed

/-- Before an id to which a path without repetition comes back, nothing on the path is on a loop. -/
theorem meets_dropWhile (hnodup : path.Nodup) (hchain : (path ++ [id]).IsChain table.Leads)
    (hstart : (path ++ [id]).head? = some start) (hpassed : id ∈ path) :
    table.Meets start (path.dropWhile (· != id)) := by
  have hloop : table.IsLoop (path.dropWhile (· != id)) := isLoop_dropWhile hpassed hnodup hchain
  obtain ⟨rest, hrest⟩ := exists_dropWhile_eq_cons hpassed
  have hsplit := List.takeWhile_append_dropWhile (p := (· != id)) (l := path)
  rw [hrest] at hloop hsplit ⊢
  generalize path.takeWhile (· != id) = tail at hsplit
  subst hsplit
  -- the chain from the start goes along the tail and then comes to `id`
  have halong {i : ℕ} (hi : i < (tail ++ id :: rest ++ [id]).length) :=
    after_of_isChain hchain hstart hi
  have hend : table.after tail.length start = some id := by
    rw [halong (by simp)]
    simp
  refine ⟨tail.length, id, rfl, hend, fun fewer hfewer passed hafter ↦ ?_⟩
  have hmem : passed ∈ tail := by
    have hshort : fewer < (tail ++ id :: rest ++ [id]).length := by
      rw [List.append_assoc, List.length_append]
      omega
    have hplace : passed = tail[fewer] := by
      simpa [hafter, List.getElem_append_left, hfewer] using halong hshort
    exact hplace ▸ List.getElem_mem hfewer
  have hgoesOn : table.after (tail.length - fewer) passed = some id := by
    have hsum : table.after (fewer + (tail.length - fewer)) start = _ := after_add ..
    rwa [Nat.add_sub_cancel' hfewer.le, hend, hafter, Option.bind_some, eq_comm] at hsum
  refine hloop.not_onLoop List.mem_cons_self hgoesOn fun hcycle ↦ ?_
  exact (List.nodup_append.mp hnodup).2.2 passed hmem passed hcycle rfl

/-- A walk that loops has found the loop that the chain of its first id runs into. -/
theorem Walks.meets (h : table.Walks finished path id (.loops cycle)) (hnodup : path.Nodup)
    (hchain : (path ++ [id]).IsChain table.Leads)
    (hstart : (path ++ [id]).head? = some start) : table.Meets start cycle := by
  generalize houtcome : Walk.loops cycle = outcome at h
  induction h with
  | known => cases houtcome
  | breaksOff => cases houtcome
  | closes hnew hnext hpassed =>
      cases houtcome
      exact meets_dropWhile hnodup hchain hstart hpassed
  | @goesOn path id next outcome hnew hnext hpassed h ih =>
      refine ih ?_ ?_ ?_ houtcome
      · rw [List.nodup_append]
        refine ⟨hnodup, List.nodup_singleton id, ?_⟩
        rintro a ha b hb rfl
        exact hpassed (List.mem_singleton.mp hb ▸ ha)
      · exact hchain.append (List.isChain_singleton next) (by simpa [Leads] using hnext)
      · rw [List.head?_append, hstart]
        rfl

/-- The loop that is found is that of the first starting point whose chain runs into a loop. -/
theorem exists_start_of_search_ne_nil (hfinished : ∀ id ∈ finished, table.Ends id)
    (h : table.search finished starts ≠ []) :
    ∃ before start rest, starts = before ++ start :: rest ∧ (∀ id ∈ before, table.Ends id) ∧
      table.Meets start (table.search finished starts) := by
  induction starts generalizing finished with
  | nil => exact absurd rfl h
  | cons start rest ih =>
      have hsound := walk_sound hfinished (table.length + 1) [] start (OnPath.start table start)
      rw [search] at h ⊢
      cases hwalk : table.walk finished (table.length + 1) [] start with
      | loops cycle =>
          refine ⟨[], start, rest, rfl, by simp, ?_⟩
          exact (walks_iff.mpr hwalk).meets List.nodup_nil (List.isChain_singleton start) rfl
      | ends path =>
          rw [hwalk] at hsound h
          have hmore : ∀ id ∈ finished ++ path, table.Ends id :=
            List.forall_mem_append.mpr ⟨hfinished, hsound.2⟩
          obtain ⟨before, first, later, rfl, hends, hmeets⟩ := ih hmore h
          exact ⟨start :: before, first, later, rfl,
            List.forall_mem_cons.mpr ⟨hsound.1, hends⟩, hmeets⟩

theorem findCycle_eq_nil_iff : table.findCycle = [] ↔ ∀ id, ¬table.OnLoop id := by
  refine ⟨fun h id hloop ↦ hloop.not_ends (ends_of_findCycle_eq_nil h id), fun h ↦ ?_⟩
  by_contra hne
  have hloop := isLoop_findCycle hne
  exact h _ (hloop.onLoop (List.head_mem hloop.ne_nil))

/-! ## Records -/

open Playback

variable {records before later : List Record} {record : Record}

theorem keys_ofRecords (records : List Record) :
    (ofRecords records).keys = (tableOf records).map Record.id := by
  rw [ofRecords_eq, keys, List.map_map]
  rfl

theorem find?_enter_record (record : Record) (table : List Record) (id : Int) :
    (enter record table).find? (fun r ↦ r.id == id) =
      if record.id = id then some record else table.find? fun r ↦ r.id == id := by
  induction table with
  | nil =>
      by_cases hid : record.id = id <;> simp [enter, hid]
  | cons a table ih =>
      by_cases ha : a.id = record.id
      · by_cases hid : record.id = id <;> simp [enter, ha, hid]
      · have hskip : enter record (a :: table) = a :: enter record table := by simp [enter, ha]
        rw [hskip, List.find?_cons, List.find?_cons, ih]
        by_cases haid : a.id = id
        · have hid : ¬record.id = id := fun hid ↦ ha (haid.trans hid.symm)
          simp [haid, hid]
        · rw [beq_eq_false_iff_ne.mpr haid]

/-- Of several records with one id the last one counts. -/
theorem next?_ofRecords (records : List Record) (id : Int) :
    (ofRecords records).next? id =
      (records.reverse.find? fun r ↦ r.id == id).map Record.successor := by
  rw [ofRecords_eq, next?_map_link]
  congr 1
  induction records using List.reverseRecOn with
  | nil => rfl
  | append_singleton records record ih =>
      rw [tableOf_concat, find?_enter_record, ih, List.reverse_concat, List.find?_cons]
      cases hid : record.id == id <;> simp_all

/-- An id has its place in the table by the first record that has it. -/
theorem exists_map_id_tableOf (h : record.id ∉ before.map Record.id) (later : List Record) :
    ∃ rest, (tableOf (before ++ record :: later)).map Record.id =
      (tableOf before).map Record.id ++ record.id :: rest := by
  induction later using List.reverseRecOn with
  | nil =>
      refine ⟨[], ?_⟩
      rw [tableOf_concat, enter_of_notMem (mt mem_ids_tableOf_iff.mp h), List.map_append]
      rfl
  | append_singleton later last ih =>
      obtain ⟨rest, hrest⟩ := ih
      rw [← List.cons_append, ← List.append_assoc, tableOf_concat]
      by_cases hold : last.id ∈ (tableOf (before ++ record :: later)).map Record.id
      · exact ⟨rest, by rw [map_id_enter_of_mem hold, hrest]⟩
      · exact ⟨rest ++ [last.id], by simp [enter_of_notMem hold, hrest]⟩

/-- The ids before one in the table are those of the records before the first one that has it. -/
theorem exists_first_record {ids rest : List Int}
    (h : (ofRecords records).keys = ids ++ id :: rest) :
    ∃ before record later, records = before ++ record :: later ∧ record.id = id ∧
      ∀ r ∈ before, r.id ∈ ids := by
  rw [keys_ofRecords] at h
  have hid : id ∈ records.map Record.id := by
    rw [← mem_ids_tableOf_iff, h]
    exact List.mem_append_right _ List.mem_cons_self
  obtain ⟨r, hr, hrid⟩ := List.mem_map.mp hid
  have hsome : (records.find? fun r ↦ r.id == id).isSome := by
    rw [List.find?_isSome]
    exact ⟨r, hr, by simpa using hrid⟩
  obtain ⟨record, hrecord⟩ := Option.isSome_iff_exists.mp hsome
  obtain ⟨hmatch, before, later, rfl, hothers⟩ := List.find?_eq_some_iff_append.mp hrecord
  obtain rfl : record.id = id := by simpa using hmatch
  have hfresh : record.id ∉ before.map Record.id := by
    intro hmem
    obtain ⟨other, hother, hsame⟩ := List.mem_map.mp hmem
    simpa [hsame] using hothers other hother
  obtain ⟨rest', hrest'⟩ := exists_map_id_tableOf hfresh later
  have hnodup := nodup_ids_tableOf (before ++ record :: later)
  rw [h, List.nodup_middle, List.nodup_cons, List.mem_append, not_or] at hnodup
  obtain ⟨rfl, -⟩ := (List.append_cons_inj_of_notMem hnodup.1.1 hnodup.1.2).mp (h.symm.trans hrest')
  exact ⟨before, record, later, rfl, rfl, fun r hr ↦
    mem_ids_tableOf_iff.mpr (List.mem_map_of_mem hr)⟩

end SuccessorTable

open SuccessorTable Recital

/-- The search for loops among records, where of several with one id the last one counts.  It comes
to an end by itself.  It finds none just if no chain comes back to where it began.  Otherwise it
finds different ids of records that lead round, from the last one back to the first: the loop that
the chain of the first record runs into whose chain runs into one, from the id on that this chain
meets first. -/
theorem findCycle_enters_first_loop (records : List Record) :
    let table := SuccessorTable.ofRecords records
    (∀ id, table.next? id = (records.reverse.find? fun r ↦ r.id == id).map Record.successor) ∧
    (∀ cycle, table.Searches [] table.keys cycle ↔ findCycle records = cycle) ∧
    (findCycle records = [] ↔ ∀ id n, 0 < n → table.after n id ≠ some id) ∧
    (findCycle records ≠ [] →
      table.IsLoop (findCycle records) ∧ findCycle records ⊆ records.map Record.id ∧
      ∃ before start later, records = before ++ start :: later ∧
        table.RunsIntoLoop start.id ∧ (∀ record ∈ before, ¬table.RunsIntoLoop record.id) ∧
        table.Meets start.id (findCycle records)) := by
  intro table
  refine ⟨next?_ofRecords records, fun cycle ↦ searches_iff, ?_, fun hne ↦ ?_⟩
  · refine findCycle_eq_nil_iff.trans (forall_congr' fun id ↦ ?_)
    simp [OnLoop, table]
  have hloop : table.IsLoop (findCycle records) := isLoop_findCycle hne
  refine ⟨hloop, fun id hid ↦ ?_, ?_⟩
  · obtain ⟨i, hi, rfl⟩ := List.mem_iff_getElem.mp hid
    rw [← Playback.mem_ids_tableOf_iff, ← keys_ofRecords]
    exact mem_keys_of_next?_eq_some (hloop.leads i hi)
  · have hnone : ∀ id ∈ [], table.Ends id := by simp
    obtain ⟨ids, id, rest, hkeys, hends, hmeets⟩ := exists_start_of_search_ne_nil hnone hne
    obtain ⟨before, start, later, hrecords, rfl, hbefore⟩ := exists_first_record hkeys
    refine ⟨before, start, later, hrecords, ?_, ?_, hmeets⟩
    · obtain ⟨steps, first, hfirst, hafter, -⟩ := hmeets
      exact ⟨steps, first, hafter, hloop.onLoop (List.mem_of_head? hfirst)⟩
    · exact fun record hrecord ↦ (hends _ (hbefore record hrecord)).not_runsIntoLoop

/-- The first chain breaks off, the second one runs by a tail into a loop that the last record of a
recurring id closes; the third one would meet that loop elsewhere. -/
theorem findCycle_enters_first_loop_of_guard_lines :
    let records := [guardLine 7 8, guardLine 0 1, guardLine 2 0, guardLine 1 3, guardLine 3 9,
      guardLine 4 1, guardLine 3 4]
    findCycle records = [1, 3, 4] ∧
      ∃ before start later, records = before ++ start :: later ∧
        (∀ record ∈ before, ¬(SuccessorTable.ofRecords records).RunsIntoLoop record.id) ∧
        (SuccessorTable.ofRecords records).Meets start.id [1, 3, 4] := by
  intro records
  have hcycle : findCycle records = [1, 3, 4] := by decide
  obtain ⟨-, -, -, hfound⟩ := findCycle_enters_first_loop records
  rw [hcycle] at hfound
  obtain ⟨-, -, before, start, later, hrecords, -, hbefore, hmeets⟩ := hfound (by simp)
  exact ⟨hcycle, before, start, later, hrecords, hbefore, hmeets⟩

end LinearDialogue
