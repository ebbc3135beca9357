import LinearDialogue.Proofs.Casts

/-!
# Waiting for the starter

A publication on a stage with a cast, step by step.  Before the starter has been called only the
director has acted, and only on a press; the first call of the starter starts its dialogue and takes
the first step of it; nobody acts on the dialogue after that.
-/

namespace LinearDialogue

namespace Stage

variable {i : Nat} {graph : CompiledGraph} {id : Value} {s t u : Stage} {d : Delivery StageListener}
  {entry : Registration StageListener} {rest : List (Registration StageListener)} {es : List Event}

/-- Since a stage was at hand, a call has started a dialogue and taken its first step, and nothing
has been announced after that. -/
def HasBegun (i : Nat) (graph : CompiledGraph) (id : Value) (s t : Stage) : Prop :=
  ∃ (call : Call StageListener) (earlier : List Event), t.Begins i graph id call ∧
    call.moments <:+: t.bus.history ∧
    t.bus.announced = s.bus.announced ++ (earlier ++ call.posted) ∧ earlier.length ≤ 5

theorem HasBegun.of_same {a : Stage} (h : a.HasBegun i graph id s)
    (hdirector : t.director = s.director)
    (hplayback : t.playback = s.playback) (hhistory : s.bus.history <+: t.bus.history)
    (hannounced : t.bus.announced = s.bus.announced) : a.HasBegun i graph id t := by
  obtain ⟨call, earlier, ⟨hlistener, hsteps⟩, hcall, htold, hlength⟩ := h
  refine ⟨call, earlier, ⟨hlistener, ?_⟩, hcall.trans hhistory.isInfix, by rw [hannounced, htold],
    hlength⟩
  rw [hdirector, hplayback]
  exact hsteps

/-- What has come about in a publication from a stage, if the director is still to be called `n`
times in the delivery under way.  Before the starter has been called only the director has acted,
and only if the event is `loud`. -/
inductive Course (i : Nat) (graph : CompiledGraph) (id : Value) (a : Stage) (event : Event)
    (loud : Prop) (n : Nat) (s : Stage) : Prop
  | waits {posted : List Event} (hcalls : s.callsOf i = 0)
      (hidle : s.playback.advancing = a.playback.advancing)
      (hannounced : s.bus.announced = a.bus.announced ++ event :: posted)
      (hlength : posted.length + 4 * n ≤ 4)
      (hquiet : loud ∨ posted = [] ∧ s.director = a.director ∧ s.playback = a.playback)
  | begun (hloud : loud) (hcalls : s.callsOf i ≠ 0) (h : a.HasBegun i graph id s)
      (hcurrent : ∀ d, s.bus.current = some d → d.event.type ≠ .actionPressed)

/-- A stage with a cast in a publication from another stage. -/
structure IsAwaiting (i : Nat) (graph : CompiledGraph) (id : Value) (a : Stage) (event : Event)
    (loud : Prop) (rest : List (Registration StageListener)) (s : Stage) : Prop where
  cast : s.IsCast i graph id rest
  speaker : s.speaker = a.speaker
  waiting : ∀ e ∈ s.bus.queue, e.type ≠ .actionPressed ∧ (e.type = .dialogEnded → loud)
  current : ∀ d, s.bus.current = some d →
    d.event.type = .dialogEnded ∨ d.event.type = .actionPressed → loud
  course : Course i graph id a event loud (directors rest) s

variable {a : Stage} {event : Event} {loud : Prop} {n : Nat}

theorem Course.of_same (h : Course i graph id a event loud n s)
    (hsame : t.callsOf i = 0 ↔ s.callsOf i = 0) (hdirector : t.director = s.director)
    (hplayback : t.playback = s.playback) (hhistory : s.bus.history <+: t.bus.history)
    (hannounced : t.bus.announced = s.bus.announced) (hcurrent : s.bus.StaysWith t.bus) :
    Course i graph id a event loud n t := by
  cases h with
  | waits hcalls hidle htold hlength hquiet =>
      refine .waits (hsame.mpr hcalls) (by rw [hplayback, hidle])
        (by rw [hannounced, htold]) hlength ?_
      rwa [hdirector, hplayback]
  | begun hloud hcalls hbegun hnot =>
      refine .begun hloud (mt hsame.mp hcalls)
        (hbegun.of_same hdirector hplayback hhistory hannounced) fun e he ↦ ?_
      obtain ⟨d, hd, hevent⟩ := hcurrent e he
      rw [hevent.type]
      exact hnot d hd

theorem Course.fewer (h : Course i graph id a event loud n s) {m : Nat} (hm : m ≤ n) :
    Course i graph id a event loud m s := by
  cases h with
  | waits hcalls hidle htold hlength hquiet =>
      exact .waits hcalls hidle htold (by omega) hquiet
  | begun hloud hcalls hbegun hnot => exact .begun hloud hcalls hbegun hnot

theorem Course.length_le (h : Course i graph id a event loud n s) :
    s.bus.announced.length ≤ a.bus.announced.length + 10 := by
  cases h with
  | waits _ _ hannounced hlength =>
      rw [hannounced, List.length_append, List.length_cons]
      omega
  | begun _ _ h =>
      obtain ⟨call, earlier, hbegins, -, hannounced, hlength⟩ := h
      have hfive := hbegins.length_le
      rw [hannounced, List.length_append, List.length_append]
      omega

theorem IsAwaiting.of_staysWith (h : a.IsAwaiting i graph id event loud rest s)
    {b : Bus StageListener} (hb : s.bus.StaysWith b) :
    ∀ d, b.current = some d →
      d.event.type = .dialogEnded ∨ d.event.type = .actionPressed → loud := by
  intro e he htype
  obtain ⟨d, hd, hsame⟩ := hb e he
  exact h.current d hd (by rwa [← hsame.type])

theorem IsAwaiting.attend (h : a.IsAwaiting i graph id event loud rest s) {b : Bus StageListener}
    (hb : s.bus.Attends b) : IsAwaiting i graph id a event loud rest { s with bus := b } where
  cast := h.cast.attend hb
  speaker := h.speaker
  waiting e he := h.waiting e (Bus.queue_attends hb he)
  current := h.of_staysWith (Bus.staysWith_attends hb)
  course := h.course.of_same .rfl rfl rfl (Bus.history_attends hb) (Bus.announced_attends hb)
    (Bus.staysWith_attends hb)

theorem IsAwaiting.begin (h : a.IsAwaiting i graph id event loud [] s) {e : Event}
    (he : e.type ≠ .actionPressed ∧ (e.type = .dialogEnded → loud)) :
    IsAwaiting i graph id a event loud (s.bus.registrations e.type)
      { s with bus := s.bus.begin e } where
  cast := h.cast.begin e
  speaker := h.speaker
  waiting := h.waiting
  current d hd htype := by
    cases hd
    exact htype.elim he.2 fun hpress ↦ absurd hpress he.1
  course := by
    rw [h.cast.wired.list_eq_zero he.1]
    cases h.course with
    | waits hcalls hidle htold hlength hquiet => exact .waits hcalls hidle htold hlength hquiet
    | begun hloud hcalls hbegun hnot =>
        refine .begun hloud hcalls (hbegun.of_same rfl rfl (List.prefix_refl _) rfl) fun d hd ↦ ?_
        cases hd
        exact he.1

theorem IsAwaiting.finish (h : a.IsAwaiting i graph id event loud [] s) :
    IsAwaiting i graph id a event loud [] (handling.finish s) where
  cast := h.cast.finish
  speaker := h.speaker
  waiting e he := by
    rw [Handling.finish, get_bus, set_bus, Bus.queue_finish] at he
    exact h.waiting e he
  current := h.of_staysWith (Bus.staysWith_finish _)
  course := h.course.of_same .rfl rfl rfl (Bus.history_finish _) (Bus.announced_finish _)
    (Bus.staysWith_finish _)

theorem IsAwaiting.tail (h : a.IsAwaiting i graph id event loud (entry :: rest) s) :
    a.IsAwaiting i graph id event loud rest s where
  cast := h.cast.tail
  speaker := h.speaker
  waiting := h.waiting
  current := h.current
  course := h.course.fewer (directors_le_cons entry rest)

/-! ## Calls -/

theorem callsOf_counting (s : Stage) (listener : StageListener) :
    (s.counting listener).callsOf i =
      if listener = .handler i ∧ s.handlers[i]?.isSome then s.callsOf i + 1 else s.callsOf i := by
  cases listener with
  | handler j =>
      rw [callsOf, callsOf, counting, countCall, List.getElem?_modify]
      by_cases hj : j = i
      · cases s.handlers[i]? <;> simp [hj]
      · simp [hj]
  | _ => rfl

theorem IsCast.counting (hs : s.IsCast i graph id rest) (listener : StageListener) :
    (s.counting listener).IsCast i graph id rest :=
  hs.of_moves (hs.wired.counting listener) (counting_behaviours listener)
    (by rw [counting_bus]; exact .refl)

/-- A listener is called and returns or fails, and the delivery goes on to the rest. -/
def Survives (i : Nat) (graph : CompiledGraph) (id : Value) (a : Stage)
    (event : Event) (loud : Prop)
    (entry : Registration StageListener) (rest : List (Registration StageListener)) (s : Stage) :
    Prop :=
  ∃ answer es t, (call entry.listener).attempt s = (.returned answer, t) ∧
    Bus.Moves (fun v ↦ v.isNumber = true) s.bus es t.bus ∧
    a.IsAwaiting i graph id event loud rest
      { t with bus := t.bus.record (.returned (failureOf? answer)) }

/-- What a call has come to, when its end has been recorded. -/
theorem IsAwaiting.after {ok : Value → Prop} {failure : Option Failure}
    (h : a.IsAwaiting i graph id event loud (entry :: rest) s)
    (hmoves : Bus.Moves ok s.bus es t.bus)
    (hcast : t.IsCast i graph id rest) (hspeaker : t.speaker = s.speaker)
    (hes : ∀ e ∈ es, e.type ≠ .actionPressed ∧ (e.type = .dialogEnded → loud))
    (hcourse : Course i graph id a event loud (directors rest)
      { t with bus := t.bus.record (.returned failure) }) :
    a.IsAwaiting i graph id event loud rest { t with bus := t.bus.record (.returned failure) } where
  cast := hcast.attend (.record _ rfl)
  speaker := hspeaker.trans h.speaker
  waiting e he := by
    have hqueue : e ∈ s.bus.queue ++ es := hmoves.queue ▸ he
    exact (List.mem_append.mp hqueue).elim (h.waiting e) (hes e)
  current := h.of_staysWith hmoves.staysWith
  course := hcourse

theorem Course.record (h : Course i graph id a event loud n s) (failure : Option Failure) :
    Course i graph id a event loud n { s with bus := s.bus.record (.returned failure) } :=
  h.of_same .rfl rfl rfl (List.prefix_append _ _) (Bus.announced_attends (.record _ rfl))
    (Bus.staysWith_of_current rfl)

theorem survives_director (h : a.IsAwaiting i graph id event loud (entry :: rest) s)
    (hd : s.bus.current = some d) (hdirector : entry.listener = .director) :
    a.Survives i graph id event loud entry rest s := by
  obtain ⟨-, htype, hrest⟩ := h.cast.wired.of_director hd hdirector
  have hloud : loud := h.current d hd (.inr htype)
  obtain ⟨answer, es, t, hcall, hmoves, hhandlers, ht, hspeaker, hhears⟩ :=
    exists_call_director h.cast.wired.tail hrest hd
  have hone : directors (entry :: rest) = 1 := by rw [directors_cons_of_director hdirector, hrest]
  have hcourse : Course i graph id a event loud (directors rest) t := by
    cases h.course with
    | begun _ _ _ hnot => exact absurd htype (hnot d hd)
    | @waits posted hcalls hidle htold hlength hquiet =>
        have hannounced : t.bus.announced = a.bus.announced ++ event :: (posted ++ es) := by
          rw [Bus.announced_moves hmoves, htold, List.append_assoc]
          rfl
        rw [hone] at hlength
        refine .waits ?_ ((hears_advancing hhears).1.trans hidle) hannounced ?_ (.inl hloud)
        · rwa [callsOf, hhandlers]
        · rw [List.length_append, hrest]
          have hfour := hhears.length_le
          omega
  rw [← hdirector] at hcall
  refine ⟨answer, es, t, hcall, hmoves.mono fun _ ↦ False.elim, ?_⟩
  exact h.after hmoves (h.cast.tail.of_moves ht (by rw [hhandlers]) hmoves) hspeaker
    (fun e he ↦ ⟨hhears.types e he, fun _ ↦ hloud⟩) (hcourse.record _)

/-- The starter starts its dialogue when it is called first. -/
theorem survives_starter (h : a.IsAwaiting i graph id event loud (entry :: rest) s)
    (hready : loud → a.playback.advancing = false) (hd : s.bus.current = some d)
    (hlast : ∃ before, s.bus.history = before ++ [.called entry])
    (hstarter : entry.listener = .handler i) (hfirst : s.callsOf i = 0) :
    a.Survives i graph id event loud entry rest s := by
  have htype : d.event.type = .dialogEnded := by
    by_contra hother
    exact h.cast.rest d hd hother entry List.mem_cons_self hstarter
  have hloud : loud := h.current d hd (.inl htype)
  have hrest : directors rest = 0 := h.cast.tail.wired.rest_eq_zero hd (by simp [htype])
  obtain ⟨handler, hhandler, hstarts⟩ := h.cast.handlers.starter
  have hzero : handler.calls = 0 := by
    rwa [callsOf, hhandler] at hfirst
  cases h.course with
  | begun _ hcalls => exact absurd hfirst hcalls
  | @waits posted _ hidle htold hlength _ =>
      obtain ⟨answer, es, t, hrun, hmoves, hhandlers, ht, hspeaker, hbegins⟩ :=
        exists_run_starts (hstarts d.event) (h.cast.nil.counting (.handler i))
          (by rw [counting_playback, hidle, hready hloud])
      have hcall : (call entry.listener).attempt s = (.returned answer, t) := by
        rw [hstarter, Act.attempt_apply, call_of_handler hd hhandler, hzero,
          ← Act.attempt_apply, hrun]
      rw [counting_bus] at hmoves
      have hbegun := hbegins entry hstarter
      have hsame (e : Delivery StageListener) (he : t.bus.current = some e) :
          e.event.type = .dialogEnded := by
        obtain ⟨d', hd', hevent⟩ := hmoves.staysWith e he
        rw [hd] at hd'
        cases hd'
        rw [hevent.type, htype]
      have hcast : t.IsCast i graph id rest :=
        ⟨ht.wired.of_nil hrest, ht.handlers, ht.lists, fun e he hne ↦ absurd (hsame e he) hne⟩
      have hcalled : t.callsOf i ≠ 0 := by
        have hcounted : t.callsOf i = (s.counting (.handler i)).callsOf i := by
          rw [callsOf, callsOf, hhandlers]
        rw [hcounted, callsOf_counting, if_pos ⟨rfl, by rw [hhandler]; rfl⟩]
        exact Nat.succ_ne_zero _
      refine ⟨answer, es, t, hcall, hmoves, h.after hmoves hcast ?_ ?_ ?_⟩
      · rw [hspeaker, counting_speaker]
      · exact fun e he ↦ ⟨hbegun.types e he, fun _ ↦ hloud⟩
      · refine .begun hloud hcalled ⟨⟨entry, es, failureOf? answer⟩, event :: posted,
          ⟨hbegun.listener, hbegun.steps⟩, ?_, ?_, ?_⟩ fun e he ↦ by simp [hsame e he]
        · obtain ⟨before, hbefore⟩ := hlast
          refine ⟨before, [], ?_⟩
          rw [Bus.record, hmoves.history, hbefore, Call.moments]
          simp
        · rw [Bus.announced_attends (.record _ rfl), Bus.announced_moves hmoves, htold,
            List.append_assoc]
        · rw [List.length_cons]
          omega

/-- Nothing comes of the calls of the others, nor of further calls of the starter. -/
theorem survives_guest (h : a.IsAwaiting i graph id event loud (entry :: rest) s)
    (hd : s.bus.current = some d) (hguest : entry.listener ≠ .director)
    (hother : entry.listener = .handler i → s.callsOf i ≠ 0) :
    a.Survives i graph id event loud entry rest s := by
  have hprogram (j : Nat) (handler : StageHandler) (hlistener : entry.listener = .handler j)
      (hhandler : s.handlers[j]? = some handler) :
      (handler.behaviour handler.calls d.event).IsGuest fun _ ↦ False := by
    refine h.cast.handlers.others j handler hhandler _ _ fun hj ↦ ?_
    have hcalls := hother (by rw [hlistener, hj])
    rwa [callsOf, ← hj, hhandler] at hcalls
  obtain ⟨answer, es, t, hcall, hhosts, hquiet⟩ :=
    exists_call_guest hd hguest hprogram fun _ ↦ False.elim
  obtain rfl : es = [] := hquiet fun _ ↦ not_false
  have hmoves : Bus.Moves (fun _ ↦ False) s.bus [] t.bus := by simpa using hhosts.moves
  have hannounced := Bus.announced_moves hmoves
  have hhistory := hmoves.history
  rw [List.append_nil] at hannounced
  rw [List.map_nil, List.append_nil] at hhistory
  have hcast : t.IsCast i graph id rest := by
    refine h.cast.tail.of_moves ((h.cast.wired.tail.counting entry.listener).hosts hhosts) ?_ hmoves
    rw [hhosts.handlers, counting_behaviours]
  have hcourse : Course i graph id a event loud (directors rest) t := by
    refine (h.course.fewer (directors_le_cons entry rest)).of_same ?_
      (by rw [hhosts.director, counting_director]) (by rw [hhosts.playback, counting_playback])
      (by rw [hhistory]) hannounced hmoves.staysWith
    have hcounted : t.callsOf i = (s.counting entry.listener).callsOf i := by
      rw [callsOf, callsOf, hhosts.handlers]
    rw [hcounted, callsOf_counting]
    split
    next hself => simp [hother hself.1]
    next => exact .rfl
  refine ⟨answer, [], t, hcall, hmoves.mono fun _ ↦ False.elim, ?_⟩
  exact h.after hmoves hcast (by rw [hhosts.speaker, counting_speaker])
    (fun e he ↦ absurd he List.not_mem_nil) (hcourse.record _)

theorem awaiting_obeys (hready : loud → a.playback.advancing = false) :
    handling.Obeys (fun v ↦ v.isNumber = true)
      (fun e ↦ e.type ≠ .actionPressed ∧ (e.type = .dialogEnded → loud))
      (fun rest s ↦ a.IsAwaiting i graph id event loud rest s) fun _ _ ↦ True where
  apart _ _ _ := rfl
  journal j h := ⟨h.cast.of_same rfl rfl rfl, h.speaker, h.waiting, h.current,
    h.course.of_same .rfl rfl rfl (List.prefix_refl _) rfl (Bus.staysWith_of_current rfl)⟩
  attend hattends h := h.attend hattends
  wait h he := h.waiting _ he
  begin he h := h.begin he
  finish h := h.finish
  tail h := h.tail
  call {entry rest s d} h hd hlast := by
    have hcall : a.Survives i graph id event loud entry rest s := by
      by_cases hdirector : entry.listener = .director
      · exact survives_director h hd hdirector
      · by_cases hstarter : entry.listener = .handler i ∧ s.callsOf i = 0
        · exact survives_starter h hready hd hlast hstarter.1 hstarter.2
        · exact survives_guest h hd hdirector (not_and.mp hstarter)
    obtain ⟨answer, es, t, hcall, hmoves, ht⟩ := hcall
    exact ⟨answer, es, t, hcall, hmoves, ht, fun _ _ ↦ trivial⟩

end Stage

end LinearDialogue
