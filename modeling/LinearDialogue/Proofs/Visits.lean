import LinearDialogue.Proofs.Rounds

/-!
# Visits

What a delivery has done when some registrations have been visited: it has marked all of them that
are to be called once, whether they were called or gone, and some others that were gone.  Of the
registrations that there were when it began, its list has kept all, unless it has lost its place.
-/

namespace LinearDialogue.Bus

variable {ρ : Type} {b c : Bus ρ}

/-- A delivery after some registrations have been visited.  Those to be called once are marked. -/
structure Visited (b c : Bus ρ) (d e : Delivery ρ)
    (visited marks : List (Registration ρ)) : Prop where
  current : c.current = some e
  event : e.event.SameAs d.event
  marked : e.marked = d.marked ++ marks
  sublist : marks.Sublist visited
  oneShot : marks.filter (·.oneShot.isTruthy) = visited.filter (·.oneShot.isTruthy)
  fate : e.fate = .kept → d.fate = .kept
  kept : e.fate = .kept → ∀ n ≤ b.count,
    (c.registrations d.event.type).filter (·.serial < n) =
      (b.registrations d.event.type).filter (·.serial < n)

theorem Visited.trans {b c a : Bus ρ} {d e f : Delivery ρ}
    {visited marks later moreMarks : List (Registration ρ)} (hbc : Visited b c d e visited marks)
    (hca : Visited c a e f later moreMarks) (hcount : b.count ≤ c.count) :
    Visited b a d f (visited ++ later) (marks ++ moreMarks) where
  current := hca.current
  event := hca.event.trans hbc.event
  marked := by rw [hca.marked, hbc.marked, List.append_assoc]
  sublist := hbc.sublist.append hca.sublist
  oneShot := by rw [List.filter_append, List.filter_append, hbc.oneShot, hca.oneShot]
  fate := hbc.fate ∘ hca.fate
  kept := by
    intro hf n hn
    have he : e.fate = .kept := hca.fate hf
    rw [← hbc.event.type, hca.kept hf n (Nat.le_trans hn hcount), hbc.event.type, hbc.kept he n hn]

theorem visited_gone (entry : Registration ρ) {d : Delivery ρ} (hd : b.current = some d) :
    Visited b ((b.meet none).mark entry) d
      { d with last := none, marked := d.marked ++ [entry] } [entry] [entry] where
  current := by simp [meet, mark, onCurrent, hd]
  event := Event.SameAs.refl _
  marked := rfl
  sublist := List.Sublist.refl _
  oneShot := rfl
  fate := id
  kept _ _ _ := rfl

variable [DecidableEq ρ] {ok : Value → Prop}

theorem exists_visited_call {entry : Registration ρ} {es : List Event} (failure : Option Failure)
    (hmoves : Moves ok (b.calling entry) es c) {d : Delivery ρ} (hd : b.current = some d) :
    ∃ e, Visited b (c.afterCall entry failure) d e [entry]
      (if entry.oneShot.isTruthy then [entry] else []) := by
  obtain ⟨e, he, hde, hkept⟩ := hmoves.continues (d := { d with last := some entry.listener })
    (by simp [calling, record, meet, onCurrent, hd])
  refine ⟨_, afterCall_current entry failure he, hde.event, ?_, ?_, ?_, hde.kept, ?_⟩
  · rw [hde.marked]
  · split
    · exact List.Sublist.refl _
    · exact List.nil_sublist _
  · split <;> simp_all
  · intro hfate n hn
    rw [registrations_congr (afterCall_lists entry failure)]
    exact (hkept hfate).2 n hn

/-- The registrations that are visited are the first ones.  Those that are called are among them. -/
theorem Visits.exists_visited {entries : List (Registration ρ)} {calls : List (Call ρ)}
    (h : Visits ok b entries calls c) {d : Delivery ρ} (hd : b.current = some d) :
    ∃ e visited marks others, Visited b c d e visited marks ∧ entries = visited ++ others ∧
      ∀ call ∈ calls, call.entry ∈ visited := by
  induction h generalizing d with
  | @nil b =>
      refine ⟨d, [], [], [], ?_, rfl, by simp⟩
      exact ⟨hd, Event.SameAs.refl _, by simp, List.Sublist.refl _, rfl, id, fun _ _ _ ↦ rfl⟩
  | @gone b _ entry rest calls _ ih =>
      have hgone := visited_gone entry hd
      obtain ⟨e, visited, marks, others, hvisited, rfl, hcalls⟩ := ih hgone.current
      refine ⟨e, entry :: visited, entry :: marks, others, ?_, rfl, ?_⟩
      · exact hgone.trans hvisited (Nat.le_refl _)
      · exact fun call hcall ↦ List.mem_cons_of_mem entry (hcalls call hcall)
  | @call b c _ entry rest visited calls es failure hmoves hrest _ ih =>
      obtain ⟨e, hcall⟩ := exists_visited_call failure hmoves hd
      obtain ⟨f, later, marks, others, hvisited, hlater, hcalls⟩ := ih hcall.current
      have hcount : b.count ≤ (c.afterCall entry failure).count := by
        rw [afterCall_count]
        exact hmoves.count_le
      have hvisits : ∃ beyond, rest = later ++ beyond := by
        rw [hlater] at hrest
        split at hrest
        next =>
          have hnil : later = [] := (List.append_eq_nil_iff.mp hrest).1
          exact ⟨rest, by rw [hnil, List.nil_append]⟩
        next => exact ⟨others, hrest.symm⟩
      obtain ⟨beyond, rfl⟩ := hvisits
      refine ⟨f, entry :: later, _, beyond, hcall.trans hvisited hcount, rfl, ?_⟩
      intro call hmem
      rcases List.mem_cons.mp hmem with rfl | hmem
      · exact List.mem_cons_self
      · exact List.mem_cons_of_mem entry (hcalls call hmem)

end LinearDialogue.Bus
