import LinearDialogue.Proofs.Successors

/-!
# The search for loops

The search walks the chain of every id in turn and passes over ids whose chains are known to end.
It is sound for both of its answers.  No walk runs out of fuel, since its path holds different ids
of the table.
-/

namespace LinearDialogue.SuccessorTable

variable {table : SuccessorTable} {id next : Int}

/-- The second id is the successor of the first. -/
def Leads (table : SuccessorTable) (id next : Int) : Prop := table.next? id = some next

/-- Different ids each of which leads to the one after it, and the last to the first. -/
structure IsLoop (table : SuccessorTable) (ids : List Int) : Prop where
  ne_nil : ids ≠ []
  nodup : ids.Nodup
  leads : ∀ i (hi : i < ids.length),
    table.Leads ids[i] (ids.get ⟨(i + 1) % ids.length, Nat.mod_lt _ (Nat.zero_lt_of_lt hi)⟩)

theorem IsLoop.after {ids : List Int} (hloop : table.IsLoop ids) (k : ℕ) {i : ℕ}
    (hi : i < ids.length) :
    table.after k ids[i] =
      some (ids.get ⟨(i + k) % ids.length, Nat.mod_lt _ (Nat.zero_lt_of_lt hi)⟩) := by
  induction k with
  | zero => simp [Nat.mod_eq_of_lt hi]
  | succ k ih =>
      have hstep := hloop.leads ((i + k) % ids.length) (Nat.mod_lt _ (Nat.zero_lt_of_lt hi))
      simp only [List.get_eq_getElem] at hstep ih ⊢
      rw [after_add, ih, Option.bind_some, after_one, hstep]
      simp only [Nat.mod_add_mod, Nat.add_assoc]

/-- Each id of a loop has one on the loop that leads to it. -/
theorem IsLoop.exists_leads {ids : List Int} (hloop : table.IsLoop ids) (hid : id ∈ ids) :
    ∃ before ∈ ids, table.Leads before id := by
  obtain ⟨i, hi, rfl⟩ := List.mem_iff_getElem.mp hid
  have hpos : 0 < ids.length := Nat.zero_lt_of_lt hi
  have hbefore : (i + (ids.length - 1)) % ids.length < ids.length := Nat.mod_lt _ hpos
  have hback : ((i + (ids.length - 1)) % ids.length + 1) % ids.length = i := by
    rw [Nat.mod_add_mod, Nat.add_assoc, Nat.sub_add_cancel hpos, Nat.add_mod_right,
      Nat.mod_eq_of_lt hi]
  refine ⟨_, List.getElem_mem hbefore, ?_⟩
  simpa only [List.get_eq_getElem, hback] using hloop.leads _ hbefore

/-- A path without repetition that comes back to its first id is a loop. -/
theorem IsLoop.of_isChain {rest : List Int} (hnodup : (id :: rest).Nodup)
    (hchain : (id :: rest ++ [id]).IsChain table.Leads) : table.IsLoop (id :: rest) := by
  refine ⟨List.cons_ne_nil _ _, hnodup, ?_⟩
  intro i hi
  have hstep := List.isChain_iff_getElem.mp hchain i (by simpa using hi)
  rw [List.getElem_append_left hi] at hstep
  by_cases hlast : i + 1 < (id :: rest).length
  · rw [List.getElem_append_left hlast] at hstep
    simpa only [List.get_eq_getElem, Nat.mod_eq_of_lt hlast] using hstep
  · have heq : i + 1 = (id :: rest).length := by omega
    simpa [heq] using hstep

theorem exists_dropWhile_eq_cons {path : List Int} (hid : id ∈ path) :
    ∃ rest, path.dropWhile (· != id) = id :: rest := by
  induction path with
  | nil => simp at hid
  | cons a path ih =>
      by_cases ha : a = id
      · exact ⟨path, by simp [ha]⟩
      · have hrest : id ∈ path := by simpa [Ne.symm ha] using hid
        simpa [ha] using ih hrest

/-- The part of a path from an id on is a loop if the path leads to that id. -/
theorem isLoop_dropWhile {path : List Int} (hid : id ∈ path) (hnodup : path.Nodup)
    (hchain : (path ++ [id]).IsChain table.Leads) :
    table.IsLoop (path.dropWhile (· != id)) := by
  obtain ⟨rest, hrest⟩ := exists_dropWhile_eq_cons hid
  have hsuffix : path.dropWhile (· != id) <:+ path := List.dropWhile_suffix _
  rw [hrest] at hsuffix ⊢
  obtain ⟨before, rfl⟩ := hsuffix
  apply IsLoop.of_isChain (hnodup.sublist (List.sublist_append_right _ _))
  rw [List.append_assoc] at hchain
  exact hchain.right_of_append

/-- What the outcome of a walk from an id says. -/
def Walk.Sound (table : SuccessorTable) (id : Int) : Walk → Prop
  | .ends path => table.Ends id ∧ ∀ passed ∈ path, table.Ends passed
  | .loops cycle => table.IsLoop cycle

/-- The state of a walk: its path holds different ids of the table and leads to the current id, and
the fuel is what the table has in store for it. -/
structure OnPath (table : SuccessorTable) (fuel : ℕ) (path : List Int) (id : Int) : Prop where
  nodup : path.Nodup
  known : path ⊆ table.keys
  leads : (path ++ [id]).IsChain table.Leads
  fuel : fuel + path.length = table.length + 1

theorem OnPath.start (table : SuccessorTable) (id : Int) :
    table.OnPath (table.length + 1) [] id :=
  ⟨List.nodup_nil, List.nil_subset _, List.isChain_singleton _, rfl⟩

theorem OnPath.step {fuel : ℕ} {path : List Int} (hpath : table.OnPath (fuel + 1) path id)
    (hnew : id ∉ path) (hnext : table.next? id = some next) :
    table.OnPath fuel (path ++ [id]) next := by
  refine ⟨?_, ?_, ?_, ?_⟩
  · rw [List.nodup_append]
    refine ⟨hpath.nodup, List.nodup_singleton id, ?_⟩
    rintro a ha b hb rfl
    exact hnew (List.mem_singleton.mp hb ▸ ha)
  · apply List.append_subset.mpr
    refine ⟨hpath.known, ?_⟩
    simpa using mem_keys_of_next?_eq_some hnext
  · refine hpath.leads.append (List.isChain_singleton next) ?_
    simpa [Leads] using hnext
  · have hfuel := hpath.fuel
    simp only [List.length_append, List.length_cons, List.length_nil]
    omega

theorem OnPath.fuel_pos {fuel : ℕ} {path : List Int} (hpath : table.OnPath fuel path id) :
    0 < fuel := by
  have hlength := hpath.nodup.length_le_of_subset hpath.known
  have hfuel := hpath.fuel
  rw [length_keys] at hlength
  omega

/-- If the current id of a walk comes to an end, so does every id on its path. -/
theorem OnPath.sound_ends {fuel : ℕ} {path : List Int} (hpath : table.OnPath fuel path id)
    (hends : table.Ends id) : Walk.Sound table id (.ends path) := by
  refine ⟨hends, ?_⟩
  apply hpath.leads.backwards_concat_induction table.Ends path _ hends
  intro a b hab hb
  exact (ends_iff_of_next?_eq_some hab).mpr hb

theorem walk_sound {finished : List Int} (hfinished : ∀ id ∈ finished, table.Ends id) (fuel : ℕ)
    (path : List Int) (id : Int) (hpath : table.OnPath fuel path id) :
    Walk.Sound table id (table.walk finished fuel path id) := by
  induction fuel generalizing path id with
  | zero => exact absurd hpath.fuel_pos (Nat.lt_irrefl 0)
  | succ fuel ih =>
      rw [walk]
      by_cases hfin : finished.contains id
      · rw [if_pos hfin]
        exact hpath.sound_ends (hfinished id (by simpa using hfin))
      rw [if_neg hfin]
      cases hnext : table.next? id with
      | none => exact hpath.sound_ends (ends_of_next?_eq_none hnext)
      | some next =>
          by_cases hold : path.contains id
          · simp only [hold, if_true]
            exact isLoop_dropWhile (by simpa using hold) hpath.nodup hpath.leads
          · simp only [hold, Bool.false_eq_true, if_false]
            have hnew : id ∉ path := by simpa using hold
            have hwalk := ih _ _ (hpath.step hnew hnext)
            -- the walk goes on from `next`, whose chain ends exactly if that of `id` does
            cases hresult : table.walk finished fuel (path ++ [id]) next with
            | loops cycle =>
                rw [hresult] at hwalk
                exact hwalk
            | ends passed =>
                rw [hresult] at hwalk
                exact ⟨(ends_iff_of_next?_eq_some hnext).mpr hwalk.1, hwalk.2⟩

/-- What the search finds from some starting points: a loop, or that all their chains end. -/
theorem search_sound {finished starts : List Int} (hfinished : ∀ id ∈ finished, table.Ends id) :
    (table.search finished starts = [] → ∀ id ∈ starts, table.Ends id) ∧
      (table.search finished starts ≠ [] → table.IsLoop (table.search finished starts)) := by
  induction starts generalizing finished with
  | nil => simp [search]
  | cons start rest ih =>
      have hwalk := walk_sound hfinished (table.length + 1) [] start (OnPath.start table start)
      rw [search]
      cases hresult : table.walk finished (table.length + 1) [] start with
      | loops cycle =>
          rw [hresult] at hwalk
          exact ⟨fun hnil ↦ absurd hnil hwalk.ne_nil, fun _ ↦ hwalk⟩
      | ends path =>
          rw [hresult] at hwalk
          have hmore : ∀ id ∈ finished ++ path, table.Ends id := by
            intro id hid
            rcases List.mem_append.mp hid with hid | hid
            · exact hfinished id hid
            · exact hwalk.2 id hid
          obtain ⟨hnone, hsome⟩ := ih hmore
          refine ⟨?_, hsome⟩
          intro hnil id hid
          rcases List.mem_cons.mp hid with rfl | hid
          · exact hwalk.1
          · exact hnone hnil id hid

theorem isLoop_findCycle (h : table.findCycle ≠ []) : table.IsLoop table.findCycle :=
  (search_sound (by simp)).2 h

/-- Where no loop is found, every chain ends, also one from an id that the table does not hold. -/
theorem ends_of_findCycle_eq_nil (h : table.findCycle = []) (id : Int) : table.Ends id := by
  cases hnext : table.next? id with
  | none => exact ends_of_next?_eq_none hnext
  | some next => exact (search_sound (by simp)).1 h id (mem_keys_of_next?_eq_some hnext)

end LinearDialogue.SuccessorTable
