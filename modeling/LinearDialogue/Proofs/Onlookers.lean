import LinearDialogue.Proofs.Listening
import LinearDialogue.Proofs.Performances
import LinearDialogue.Proofs.Turns

/-!
# Onlookers

Handlers that only look on: they take notes and fail, and do nothing else.  On a stage with no other
handlers the input devices are left alone by all that the director does and by every delivery, and
the events that come from them are those that are published from outside.  An onlooker never ends a
delivery, so the director has its turn in every delivery to a list that it is on.
-/

namespace LinearDialogue

/-- A program that takes notes and returns or fails. -/
inductive Program.Watches : Program StageOp → Prop
  | done : Watches .done
  | fail (failure : Failure) : Watches (.fail failure)
  | note {item : Note} {next : Program StageOp} (h : Watches next) : Watches (.note item next)

namespace Program.Watches

variable {program : Program StageOp}

theorem isGuest {may : StageOp → Prop} (h : program.Watches) : program.IsGuest may := by
  induction h with
  | done => exact .done
  | fail failure => exact .fail failure
  | note _ ih => exact .note ih

theorem keepsLists (h : program.Watches) : program.KeepsLists := by
  induction h with
  | done => exact .done
  | fail => exact .fail
  | note _ ih => exact .note ih

/-- Only the journal can tell that a program has watched. -/
theorem exists_run (h : program.Watches) (perform : StageOp → Act Stage Value)
    (consume : Act Stage Unit) (s : Stage) :
    ∃ answer j, (program.run perform consume).attempt s =
      (.returned answer, { s with journal := j }) := by
  induction h generalizing s with
  | done => exact ⟨.ok (), s.journal, rfl⟩
  | fail failure => exact ⟨.error failure, s.journal, rfl⟩
  | @note item next _ ih => exact ih { s with journal.notes := s.journal.notes ++ [item] }

end Program.Watches

namespace Stage

variable {s t u : Stage} {entry : Registration StageListener}
  {entries rest : List (Registration StageListener)} {d : Delivery StageListener}

/-- All handlers only look on. -/
def IsOnlooked (s : Stage) : Prop :=
  ∀ handler ∈ s.handlers, ∀ call event, (handler.behaviour call event).Watches

theorem IsOnlooked.of_behaviours (hs : s.IsOnlooked)
    (h : t.handlers.map (·.behaviour) = s.handlers.map (·.behaviour)) : t.IsOnlooked := by
  intro handler hmem
  obtain ⟨old, hold, hsame⟩ := exists_same_behaviour h hmem
  rw [← hsame]
  exact hs old hold

/-! ## What is left alone -/

/-- Where all handlers only look on, they go on to do so, the input devices are as they were, and no
event of theirs has been announced. -/
def Spares (s t : Stage) : Prop :=
  s.IsOnlooked → t.IsOnlooked ∧ t.input = s.input ∧
    ∃ es, t.bus.announced = s.bus.announced ++ es ∧ ∀ e ∈ es, ¬e.type.IsInput

theorem spares_chains : Act.Chains Spares where
  refl s hs := ⟨hs, rfl, [], by simp, by simp⟩
  trans := by
    intro s t u hst htu hs
    obtain ⟨ht, hsame, es, hes, hfirst⟩ := hst hs
    obtain ⟨hu, hinput, fs, hfs, hothers⟩ := htu ht
    refine ⟨hu, hinput.trans hsame, es ++ fs, by rw [hfs, hes, List.append_assoc], ?_⟩
    intro e he
    rcases List.mem_append.mp he with he | he
    · exact hfirst e he
    · exact hothers e he

theorem spares_of_announced
    (hhandlers : t.handlers.map (·.behaviour) = s.handlers.map (·.behaviour))
    (hinput : t.input = s.input) (hannounced : t.bus.announced = s.bus.announced) : s.Spares t :=
  fun hs ↦ ⟨hs.of_behaviours hhandlers, hinput, [], by rw [hannounced, List.append_nil], by simp⟩

theorem Retains.spares (h : s.Retains t) : s.Spares t :=
  spares_of_announced (by rw [h.handlers]) h.input (by rw [h.bus])

/-- Publications from which the input devices are left alone are enough for what the director
does. -/
theorem pairs_spares {p : Publisher Stage}
    (hpublish : ∀ event : Event, ¬event.type.IsInput → (p event).Along Spares) :
    Pairs p p fun m n ↦ m = n ∧ m.Along Spares where
  acts := spares_chains.closed.couples
  retains hm _ := ⟨rfl, hm.mono fun _ _ ↦ Retains.spares⟩
  publish event hevent := ⟨rfl, hpublish event hevent⟩
  enable speaker := by
    refine ⟨rfl, fun s ↦ ?_⟩
    rw [enable_apply]
    split
    · exact spares_chains.refl s
    · split
      · exact spares_of_announced rfl rfl rfl
      · exact spares_chains.refl s
  disable speaker := by
    refine ⟨rfl, fun s ↦ ?_⟩
    rw [disable_apply]
    split
    · exact spares_of_announced rfl rfl (by simp [Bus.announced])
    · exact spares_chains.refl s
  ensure := by
    rintro α m n f ⟨rfl, hm⟩ hf
    exact ⟨rfl, .ensure spares_chains hm fun s ↦ (hf s).spares⟩
  speaker h := ⟨funext fun s ↦ congrFun (h s.speaker).1 s, fun s ↦ (h s.speaker).2 s⟩

theorem pairs_spares_post : Pairs (Bus.post StageListener) (Bus.post StageListener) fun m n ↦
    m = n ∧ m.Along Spares := by
  refine pairs_spares fun event hevent s hs ↦ ⟨hs, rfl, [event], ?_, by simpa using hevent⟩
  simp [Bus.post, Act.bind_apply, Bus.announced, Bus.enqueue, Bus.record, Moment.published?]

theorem spares_consume : consumeCurrent.Along Spares := fun _ ↦ spares_of_announced rfl rfl rfl

/-! ## Calls -/

/-- The call of an onlooker counts, and only the journal can tell of it besides. -/
theorem exists_call_onlooker (hs : s.IsOnlooked) (hd : s.bus.current = some d)
    {listener : StageListener} (hlistener : listener ≠ .director) :
    ∃ answer j, (call listener).attempt s =
      (.returned answer, { s.counting listener with journal := j }) := by
  cases listener with
  | director => exact absurd rfl hlistener
  | observer =>
      refine ⟨.ok (), { s.journal with notes := s.journal.notes ++ [.event d.event] }, ?_⟩
      simp [Act.attempt_apply, call, hd, Journal.note, counting]
  | handler index =>
      cases hhandler : s.handlers[index]? with
      | none =>
          refine ⟨.ok (), s.journal, ?_⟩
          simp [Act.attempt_apply, call, hd, hhandler, counting, countCall_of_none hhandler]
      | some handler =>
          have hwatches := hs handler (List.mem_of_getElem? hhandler) handler.calls d.event
          obtain ⟨answer, j, hrun⟩ := hwatches.exists_run (perform (Bus.post StageListener))
            consumeCurrent (s.counting (.handler index))
          refine ⟨answer, j, ?_⟩
          rw [Act.attempt_apply, call_of_handler hd hhandler, ← Act.attempt_apply, hrun]

theorem spares_counting (s : Stage) (listener : StageListener) (j : Journal) :
    s.Spares { s.counting listener with journal := j } := by
  refine spares_of_announced (counting_behaviours listener) ?_ (by simp)
  cases listener <;> rfl

theorem spares_call (listener : StageListener) : (call listener).Along Spares := by
  intro s
  cases hd : s.bus.current with
  | none =>
      have hidle : call listener s = (.returned (), s) := by
        simp only [call, hd]
      rw [hidle]
      exact spares_chains.refl s
  | some d =>
      intro hs
      by_cases hlistener : listener = .director
      · subst hlistener
        have hpress : (Director.onAction (wiring (Bus.post StageListener) s.speaker) consumeCurrent
            d.event).Along Spares := by
          refine .bind spares_chains (.read spares_chains) fun director ↦ ?_
          dsimp only
          split
          · refine .bind spares_chains spares_consume fun _ ↦ ?_
            exact .bind spares_chains (pairs_spares_post.advance s.speaker).2 fun _ ↦
              .pure spares_chains _
          · exact .pure spares_chains _
        simp only [call, hd]
        exact hpress s hs
      · obtain ⟨answer, j, hcall⟩ := exists_call_onlooker hs hd hlistener
        have hsame : (call listener s).2 = { s.counting listener with journal := j } := by
          rw [Act.attempt_apply] at hcall
          split at hcall <;> simp_all
        rw [hsame]
        exact spares_counting s listener j hs

/-! ## Deliveries -/

theorem leads_spares : handling.Leads Spares where
  chains := spares_chains
  attend hb := spares_of_announced rfl rfl (Bus.announced_attends hb)
  begin _ _ := spares_of_announced rfl rfl rfl
  finish _ := spares_of_announced rfl rfl (Bus.announced_finish _)
  report _ := (along_updateJournal _).mono fun _ _ h ↦ h.retains.spares
  call := spares_call

/-- Once an event has been published, no further one of the input devices is. -/
theorem spares_publication (fuel : Nat) (event : Event) (s : Stage) :
    Spares { s with bus := s.bus.record (.published event) } (handling.publish fuel event s).2 :=
  leads_spares.publish fuel event s

theorem spares_publish (fuel : Nat) {event : Event} (hevent : ¬event.type.IsInput) :
    (handling.publish fuel event).Along Spares := by
  intro s
  have hpublished : s.Spares { s with bus := s.bus.record (.published event) } := fun hs ↦
    ⟨hs, rfl, [event], Bus.announced_published event s.bus, by simpa using hevent⟩
  exact spares_chains.trans hpublished (spares_publication fuel event s)

/-- An operation on the director or on playback leaves the input devices alone. -/
theorem spares_operate (fuel : Nat) {op : StageOp} (hop : ¬op.IsExternal) :
    (operate fuel op).Along Spares :=
  ((pairs_spares fun _ ↦ spares_publish fuel).direct hop).2

/-! ## Turns -/

/-- The turn of an onlooker does not end a delivery. -/
theorem exists_turn_onlooker (hs : s.IsOnlooked) (hd : s.bus.current = some d)
    (hfresh : d.event.isConsumed = false) (hlistener : entry.listener ≠ .director)
    (type : EventType) :
    ∃ t e, handling.turn type entry s = (.returned (), t) ∧ t.IsOnlooked ∧
      t.bus.current = some e ∧ e.event.isConsumed = false := by
  let met : Stage := { s with bus := s.bus.meet (some entry.listener) }
  let told : Stage := { met with bus := met.bus.record (.called entry) }
  have htold : told.bus.current = some { d with last := some entry.listener } := by
    simp [told, met, Bus.record, Bus.meet, Bus.onCurrent, hd]
  obtain ⟨answer, j, hcall⟩ := exists_call_onlooker (s := told) hs htold hlistener
  obtain ⟨k, hlogged⟩ : ∃ k : Journal, handling.callLogged type entry met = _ :=
    Handling.callLogged_of_attempt type hcall
  have hlive : Bus.isLive (handling.held s) s.bus entry = true := by
    simp [Bus.isLive, handling, holds]
  have hturn := Handling.turn_of_called hlive hlogged (Part.get_set _ _)
  have hafter := Bus.afterCall_current entry (failureOf? answer)
    (b := (told.counting entry.listener).bus) (by rw [counting_bus]; exact htold)
  refine ⟨_, _, hturn, ?_, hafter, hfresh⟩
  exact hs.of_behaviours (counting_behaviours (s := told) entry.listener)

/-- The director has its turn if it is on the list. -/
theorem exists_turn_director {type : EventType} {turns : List (Turn StageListener Stage)}
    (htakes : handling.Takes type s entries turns t) (hs : s.IsOnlooked)
    (hd : s.bus.current = some d) (hfresh : d.event.isConsumed = false)
    (hlisted : ∃ entry ∈ entries, entry.listener = .director) :
    ∃ turn ∈ turns, turn.entry.listener = .director := by
  -- The delivery goes on past every onlooker, so only the director itself can have the last turn.
  induction htakes generalizing d with
  | nil =>
      obtain ⟨entry, hentry, -⟩ := hlisted
      exact absurd hentry List.not_mem_nil
  | @next entry rest turns s t u hturn hgoes hrest ih =>
      by_cases hlistener : entry.listener = .director
      · exact ⟨_, List.mem_cons_self, hlistener⟩
      · obtain ⟨t', e, hsame, ht, he, hkept⟩ := exists_turn_onlooker hs hd hfresh hlistener type
        obtain rfl : t' = t := congrArg Prod.snd (hsame.symm.trans hturn)
        obtain ⟨other, hother, hdirector⟩ := hlisted
        have hmem : other ∈ rest := by
          refine (List.mem_cons.mp hother).resolve_left fun hfirst ↦ ?_
          exact hlistener (hfirst ▸ hdirector)
        obtain ⟨turn, hmem, hdirector⟩ := ih ht he hkept ⟨other, hmem, hdirector⟩
        exact ⟨turn, List.mem_cons_of_mem _ hmem, hdirector⟩
  | @last entry rest s t hturn hends =>
      refine ⟨_, List.mem_cons_self, ?_⟩
      by_contra hlistener
      obtain ⟨t', e, hsame, -, he, hkept⟩ := exists_turn_onlooker hs hd hfresh hlistener type
      obtain rfl : t' = t := congrArg Prod.snd (hsame.symm.trans hturn)
      rw [Handling.isLast, get_bus, Bus.isConsumed, he] at hends
      simp [hkept] at hends

/-- An event that is published is told to the director, wherever it is on the list. -/
theorem exists_called_director {ok : Value → Prop} {E : Event → Prop}
    {I : List (Registration StageListener) → Stage → Prop}
    {Q : Event → Call StageListener → Prop} (ho : handling.Obeys ok E I Q) (fuel : Nat)
    {event : Event} (he : E event) (hI : I [] { s with bus := s.bus.record (.published event) })
    (hs : s.IsOnlooked) (hfresh : event.isConsumed = false)
    (hlisted : 0 < directors (s.bus.registrations event.type)) :
    ∃ called, (handling.publish fuel event s).2.bus.called = s.bus.called ++ called ∧
      0 < directors called := by
  obtain ⟨first, later, outcome, t, hrun, rfl, hstart, hchain, hdispatches, -⟩ :=
    ho.publishes (s := s) fuel he hI
  obtain ⟨hfirst, hlater⟩ := List.forall_mem_cons.mp hdispatches
  obtain ⟨u, htakes⟩ := hfirst.takes
  obtain ⟨called, hcalled⟩ := Handling.exists_called_of_chain hchain hlater
  obtain ⟨entry, hentry, hdirector⟩ := List.countP_pos_iff.mp hlisted
  rw [hstart] at htakes
  obtain ⟨turn, hturn, hlistener⟩ := exists_turn_director htakes hs rfl hfresh
    ⟨entry, hentry, by simpa using hdirector⟩
  have hlive : handling.isCalled turn = true := by
    simp [Handling.isCalled, Bus.isLive, handling, holds]
  refine ⟨(first.turns.filter handling.isCalled).map (·.entry) ++ called, ?_, ?_⟩
  · have hstarted : (Part.get first.start : Bus StageListener).called = s.bus.called := by
      rw [hstart, Part.get_set]
      exact Bus.called_record rfl
    rw [hfirst.called, hstarted, List.append_assoc] at hcalled
    rw [hrun]
    exact hcalled
  · have hmem : turn.entry ∈ (first.turns.filter handling.isCalled).map (·.entry) :=
      List.mem_map_of_mem (List.mem_filter.mpr ⟨hturn, hlive⟩)
    refine List.countP_pos_iff.mpr ⟨turn.entry, List.mem_append_left _ hmem, ?_⟩
    simpa using hlistener

end Stage

end LinearDialogue
