import LinearDialogue.Proofs.Dialogues
import LinearDialogue.Proofs.Guests
import LinearDialogue.Proofs.Recitals

/-!
# Performances

A stage is directed from outside: dialogues are started, gone on with and broken off, and actions
are pressed, while the handlers only look on.  Then every operation comes to its end, and what has
been announced is one dialogue after another, each as it is told.
-/

namespace LinearDialogue

/-- An operation on the director, or the press of an action. -/
def StageOp.IsDirection : StageOp → Prop
  | .start .. | .play _ | .advance | .stop => True
  | .publish event => event.type = .actionPressed
  | _ => False

/-- What an operation of a director with an outcome makes of the dialogues that have been told.
Only a start tells of another dialogue, whether the last one is over or not. -/
inductive Dialogue.Tells (d : Director) (dialogues : List Dialogue) :
    StageOp → Outcome Value → List Dialogue → Prop
  | started {graph : CompiledGraph} {id : Value} {outcome : Outcome Bool}
      {dialogues' : List Dialogue}
      (h : Advances (dialogues ++ [start graph id]) outcome dialogues') :
      Tells d dialogues (.start graph id) (outcome.map fun _ ↦ .null) dialogues'
  | played {graph : CompiledGraph} {id : Value} {outcome : Outcome Bool}
      {dialogues' : List Dialogue}
      (hfind : d.find? id = .ok (some graph))
      (h : Advances (dialogues ++ [start graph id]) outcome dialogues') :
      Tells d dialogues (.play id) (outcome.map fun _ ↦ .bool true) dialogues'
  | missing {id : Value} (hfind : d.find? id = .ok none) :
      Tells d dialogues (.play id) (.returned (.bool false)) dialogues
  | refused {id : Value} {failure : Failure} (hfind : d.find? id = .error failure) :
      Tells d dialogues (.play id) (.failed failure) dialogues
  | advanced {outcome : Outcome Bool} {dialogues' : List Dialogue}
      (h : Advances dialogues outcome dialogues') :
      Tells d dialogues .advance (outcome.map .bool) dialogues'
  | stopped : Tells d dialogues .stop (.returned .null) (amend close dialogues)
  /-- Only the bus learns of the outcome of the step. -/
  | pressed {event : Event} {outcome : Outcome Bool} {dialogues' : List Dialogue} (consumed : Value)
      (hwanted : event.get "action" = .action d.settings.advanceAction)
      (h : Advances dialogues outcome dialogues') :
      Tells d dialogues (.publish event) (.returned consumed) dialogues'
  /-- The press is not of that action, or does not come to the director. -/
  | ignored {event : Event} (consumed : Value) :
      Tells d dialogues (.publish event) (.returned consumed) dialogues

/-- What several operations with their outcomes make of the dialogues. -/
inductive Dialogue.Told (d : Director) :
    List Dialogue → List StageOp → List (Outcome Value) → List Dialogue → Prop
  | nil {dialogues : List Dialogue} : Told d dialogues [] [] dialogues
  | cons {dialogues dialogues' dialogues'' : List Dialogue} {op : StageOp} {outcome : Outcome Value}
      {ops : List StageOp} {outcomes : List (Outcome Value)}
      (hop : Tells d dialogues op outcome dialogues')
      (h : Told d dialogues' ops outcomes dialogues'') :
      Told d dialogues (op :: ops) (outcome :: outcomes) dialogues''

theorem Dialogue.Tells.ne_stalled {d : Director} {dialogues dialogues' : List Dialogue}
    {op : StageOp} {outcome : Outcome Value} (h : Tells d dialogues op outcome dialogues') :
    outcome ≠ .stalled := by
  cases h with
  | started h | played _ h | advanced h => cases h <;> nofun
  | _ => nofun

namespace Stage

/-! ## Publications -/

variable {ok : Value → Prop} {event : Event} {J : Nat → List Event → Director → Playback → Prop}
  {rest : List (Registration StageListener)} {s : Stage}

/-- What is known of the announced events, the director and the playback while an event is delivered
can depend on how often the director is still to be called, and is kept by its steps, which it takes
if the event tells of the action that it wants. -/
structure IsKept (event : Event) (J : Nat → List Event → Director → Playback → Prop) : Prop where
  fewer : ∀ {n told d p}, J (n + 1) told d p → J n told d p
  step : ∀ {told es voices d d' p p' outcome}, J 1 told d p →
    event.get "action" = .action d.settings.advanceAction → (∀ e ∈ voices, Event.IsVoice e) →
    Steps d p outcome es d' p' → J 0 (told ++ (voices ++ es)) d' p'

/-- A stage with guests that do nothing, while no press waits, and none is delivered but one. -/
structure IsWatched (ok : Value → Prop) (event : Event)
    (J : Nat → List Event → Director → Playback → Prop) (speaker : Speaker)
    (rest : List (Registration StageListener)) (s : Stage) : Prop where
  wired : s.IsWired ok (fun _ ↦ False) rest
  waiting : ∀ e ∈ s.bus.queue, e.type ≠ .actionPressed
  press : ∀ d, s.bus.current = some d → d.event.type = .actionPressed → d.event.SameAs event
  speaker : s.speaker = speaker
  course : J (directors rest) s.bus.announced s.director s.playback

/-- What a call posts while an event is delivered. -/
structure PostsLittle (event : Event) (call : Call StageListener) : Prop where
  length : call.posted.length ≤ if call.entry.listener = .director then 4 else 0
  types : ∀ e ∈ call.posted, e.type ≠ .actionPressed
  press : event.type ≠ .actionPressed → call.posted = []

theorem directors_tail (entry : Registration StageListener)
    (rest : List (Registration StageListener)) :
    directors (entry :: rest) = directors rest ∨
      directors (entry :: rest) = directors rest + 1 := by
  rw [directors, List.countP_cons]
  split
  · exact .inr rfl
  · exact .inl rfl

theorem IsKept.tail (hJ : IsKept event J) {entry : Registration StageListener} {told : List Event}
    {d : Director} {p : Playback} (h : J (directors (entry :: rest)) told d p) :
    J (directors rest) told d p := by
  rcases directors_tail entry rest with hsame | hmore
  · rwa [hsame] at h
  · rw [hmore] at h
    exact hJ.fewer h

/-- What is kept is kept by the call of the director's listener. -/
theorem IsKept.hears (hJ : IsKept event J) {failure : Option Failure} {es : List Event} {t : Stage}
    (h : J 1 s.bus.announced s.director s.playback) (hhears : s.Hears event failure es t) :
    J 0 (s.bus.announced ++ es) t.director t.playback := by
  cases hhears with
  | other hother hdirector hplayback =>
      rw [List.append_nil, hdirector, hplayback]
      exact hJ.fewer h
  | press hpress hlength hvoices hsteps => exact hJ.step h hpress hvoices hsteps

theorem IsWatched.press_of_staysWith {speaker : Speaker} (h : s.IsWatched ok event J speaker rest)
    {b : Bus StageListener} (hb : s.bus.StaysWith b) :
    ∀ d, b.current = some d → d.event.type = .actionPressed → d.event.SameAs event := by
  intro e he htype
  obtain ⟨d, hd, hsame⟩ := hb e he
  exact hsame.trans (h.press d hd (hsame.type ▸ htype))

theorem IsWatched.attend {speaker : Speaker} (h : s.IsWatched ok event J speaker rest)
    {b : Bus StageListener} (hattends : s.bus.Attends b) :
    IsWatched ok event J speaker rest { s with bus := b } where
  wired := h.wired.attend hattends
  waiting e he := h.waiting e (Bus.queue_attends hattends he)
  press := h.press_of_staysWith (Bus.staysWith_attends hattends)
  speaker := h.speaker
  course := by
    rw [Bus.announced_attends hattends]
    exact h.course

theorem Hears.of_sameAs {d : Event} {failure : Option Failure} {es : List Event} {t : Stage}
    (h : s.Hears d failure es t) (hsame : d.SameAs event) : s.Hears event failure es t := by
  have hget := hsame.get_eq "action"
  cases h with
  | other hother hdirector hplayback => exact .other (hget ▸ hother) hdirector hplayback
  | press hpress hlength hvoices hsteps => exact .press (hget ▸ hpress) hlength hvoices hsteps

/-- The director's listener is called for a press only, and the events that it posts are no
presses. -/
theorem watched_obeys (hJ : IsKept event J) (speaker : Speaker) :
    handling.Obeys (fun _ ↦ False) (fun e ↦ e.type ≠ .actionPressed)
      (IsWatched ok event J speaker) PostsLittle where
  apart _ _ _ := rfl
  journal j h := ⟨h.wired.of_same rfl rfl rfl, h.waiting, h.press, h.speaker, h.course⟩
  attend hattends h := h.attend hattends
  wait h he := h.waiting _ he
  begin {s e} he h := by
    refine ⟨h.wired.begin e, h.waiting, fun d hd htype ↦ ?_, h.speaker, ?_⟩
    · cases hd
      exact absurd htype he
    rw [get_bus, h.wired.list_eq_zero he]
    exact h.course
  finish {s} h := by
    refine ⟨h.wired.finish, ?_, h.press_of_staysWith (Bus.staysWith_finish _), h.speaker, ?_⟩
    · intro e he
      rw [Handling.finish, get_bus, set_bus, Bus.queue_finish] at he
      exact h.waiting e he
    · rw [Handling.finish, get_bus, set_bus, Bus.announced_finish]
      exact h.course
  tail h := ⟨h.wired.tail, h.waiting, h.press, h.speaker, hJ.tail h.course⟩
  call {entry rest s d} h hd _ := by
    obtain ⟨answer, es, t, hcall, hmoves, ht, hspeaker, hguest | hdirector⟩ :=
      exists_call h.wired (fun _ ↦ False.elim) hd
    · obtain ⟨hlistener, hhosts, hquiet⟩ := hguest
      obtain rfl : es = [] := hquiet fun _ ↦ id
      have hsame := Bus.announced_moves hmoves
      have hqueue := hmoves.queue
      rw [List.append_nil] at hsame hqueue
      have hwatched : t.IsWatched ok event J speaker rest := by
        refine ⟨ht, ?_, h.press_of_staysWith hmoves.staysWith, hspeaker.trans h.speaker, ?_⟩
        · rw [hqueue]
          exact h.waiting
        · rw [hsame, hhosts.director, hhosts.playback, counting_director, counting_playback]
          exact hJ.tail h.course
      refine ⟨answer, [], t, hcall, hmoves, hwatched.attend (.record _ rfl), ?_⟩
      intro e _
      exact ⟨Nat.zero_le _, by simp, fun _ ↦ rfl⟩
    · obtain ⟨hlistener, -, htype, hrest, hhears⟩ := hdirector
      have hcourse := h.course
      rw [directors_cons_of_director hlistener, hrest] at hcourse
      have hkept := hJ.hears hcourse (hhears.of_sameAs (h.press d hd htype))
      have htypes := hhears.types
      have hwatched : t.IsWatched ok event J speaker rest := by
        refine ⟨ht, ?_, h.press_of_staysWith hmoves.staysWith, hspeaker.trans h.speaker, ?_⟩
        · rw [hmoves.queue]
          intro e he
          rcases List.mem_append.mp he with he | he
          · exact h.waiting e he
          · exact htypes e he
        · rw [hrest, Bus.announced_moves hmoves]
          exact hkept
      refine ⟨answer, es, t, hcall, hmoves, hwatched.attend (.record _ rfl), ?_⟩
      intro e he
      refine ⟨?_, htypes, fun hother ↦ absurd (he.type ▸ htype) hother⟩
      rw [if_pos hlistener]
      exact hhears.length_le

theorem IsKept.zero (hJ : IsKept event J) {n : Nat} {told : List Event} {d : Director}
    {p : Playback} (h : J n told d p) : J 0 told d p := by
  induction n with
  | zero => exact h
  | succ n ih => exact ih (hJ.fewer h)

theorem length_posted_le {event : Event} {calls : List (Call StageListener)}
    (h : ∀ call ∈ calls, PostsLittle event call) :
    (calls.flatMap Call.posted).length ≤ 4 * directors (calls.map Call.entry) := by
  induction calls with
  | nil => exact Nat.zero_le _
  | cons call calls ih =>
      have hfirst := (h call List.mem_cons_self).length
      have hothers := ih fun other hother ↦ h other (List.mem_cons_of_mem _ hother)
      rw [List.flatMap_cons, List.length_append, List.map_cons, directors, List.countP_cons,
        ← directors]
      by_cases hdirector : call.entry.listener = .director
      · rw [if_pos hdirector] at hfirst
        rw [if_pos (by simp [hdirector])]
        omega
      · rw [if_neg hdirector] at hfirst
        rw [if_neg (by simp [hdirector])]
        omega

/-- A publication posts at most four events, and none if it is not that of a press. -/
theorem length_publication_le {publication : Publication StageListener}
    {b c : Bus StageListener} (hpublishes : Bus.Publishes (fun _ ↦ False) b publication c)
    (hlists : directors (b.registrations publication.first.event.type) ≤
      allowance true publication.first.event.type) (hqueue : b.queue = [])
    (h : ∀ round ∈ publication.rounds, ∀ call ∈ round.calls, PostsLittle round.event call) :
    publication.later.length + c.queue.length ≤
      4 * allowance true publication.first.event.type := by
  have hevents := hpublishes.queue
  rw [hqueue, List.nil_append] at hevents
  have hlater : ∀ round ∈ publication.later, round.posted = [] := by
    intro round hround
    have hmem : round.event ∈ publication.rounds.flatMap Round.posted := by
      rw [hevents]
      exact List.mem_append_left _ (List.mem_map_of_mem hround)
    obtain ⟨origin, horigin, hposted⟩ := List.mem_flatMap.mp hmem
    obtain ⟨call, hcall, hposted⟩ := List.mem_flatMap.mp hposted
    have htype := (h origin horigin call hcall).types round.event hposted
    exact List.flatMap_eq_nil_iff.mpr fun call hcall ↦
      (h round (List.mem_cons_of_mem _ hround) call hcall).press htype
  have hfirst : publication.first.posted.length ≤
      4 * allowance true publication.first.event.type := by
    obtain ⟨d, -, hdelivers, -, -⟩ := hpublishes
    refine Nat.le_trans (length_posted_le (h _ List.mem_cons_self)) ?_
    exact Nat.mul_le_mul_left 4 (Nat.le_trans (directors_le hdelivers.sublist) hlists)
  have hlength := congrArg List.length hevents
  rw [Publication.rounds, List.flatMap_cons, List.flatMap_eq_nil_iff.mpr hlater, List.append_nil,
    List.length_append, List.length_map] at hlength
  omega

/-- A publication on a stage that is watched comes to its end. -/
theorem exists_publish (hJ : IsKept event J) (fuel : Nat)
    (hfuel : event.type = .actionPressed → 4 ≤ fuel) (hqueue : s.bus.queue = [])
    (hcurrent : s.bus.current = none) (hs : s.IsWired ok (fun _ ↦ False) [])
    (hcourse : J (directors (s.bus.registrations event.type)) (s.bus.announced ++ [event])
      s.director s.playback) :
    ∃ e t, handling.publish fuel event s = (.returned e, t) ∧ t.IsWatched ok event J s.speaker [] ∧
      t.bus.queue = [] ∧ t.bus.current = none := by
  let u : Stage := { s with bus := s.bus.record (.published event) }
  have hannounced : u.bus.announced = s.bus.announced ++ [event] :=
    Bus.announced_published event s.bus
  have hu : u.IsWired ok (fun _ ↦ False) [] := hs.record _
  have hwaiting : ∀ e ∈ u.bus.queue, e.type ≠ .actionPressed := by
    intro e he
    rw [show u.bus.queue = [] from hqueue] at he
    cases he
  have hidle : ∀ d, u.bus.current = some d → d.event.type = .actionPressed →
      d.event.SameAs event := by
    intro d hd
    rw [show u.bus.current = none from hcurrent] at hd
    cases hd
  have hopening : IsWired ok (fun _ ↦ False) [] { u with bus := u.bus.opening event } :=
    (hu.attend (.pin event.type)).attend (.record (.begun event) rfl)
  have hbegun : IsWatched ok event J s.speaker ((u.bus.opening event).registrations event.type)
      { u with bus := (u.bus.opening event).begin event } := by
    have hlists : (u.bus.opening event).registrations event.type =
        s.bus.registrations event.type := by
      rw [Bus.opening, Bus.pin_eq]
      rfl
    have hopened : ((u.bus.opening event).begin event).announced = u.bus.announced :=
      (Bus.announced_attends (.record (.begun event) rfl)).trans
        (Bus.announced_attends (.pin event.type))
    refine ⟨hopening.begin event, ?_, ?_, rfl, ?_⟩
    · intro e he
      refine hwaiting e ?_
      rw [Bus.opening, Bus.pin_eq] at he
      exact he
    · intro d hd _
      cases hd
      exact Event.SameAs.refl event
    · rw [hlists, hopened, hannounced]
      exact hcourse
  obtain ⟨publication, outcome, t, hpublish, hfirst, hpublishes, ht, hposts, hend⟩ :=
    (watched_obeys hJ s.speaker).publish_of_begun (u := u) fuel rfl
      ⟨hu, hwaiting, hidle, rfl, by rw [hannounced]; exact hJ.zero hcourse⟩ hbegun
  rcases hend with ⟨⟨e, rfl⟩, hempty⟩ | ⟨rfl, hlater, hmore⟩
  · exact ⟨e, t, hpublish, ht, hempty, hpublishes.current hcurrent⟩
  · have hlists := Nat.le_trans (hs.lists publication.first.event.type) (allowance_le_true _ _)
    have hlength := length_publication_le hpublishes hlists hqueue hposts
    have hwaits : 0 < t.bus.queue.length := List.length_pos_iff.mpr hmore
    rw [hfirst, get_bus, hlater, allowance] at hlength
    by_cases hpress : event.type = .actionPressed
    · have hfour := hfuel hpress
      rw [if_pos ⟨hpress, rfl⟩] at hlength
      omega
    · rw [if_neg (by simp [hpress])] at hlength
      omega

/-! ## Operations -/

/-- A stage between two operations: the handlers only look on, nothing is delivered or waits, and
the director can be registered whenever it is not. -/
structure IsCalm (s : Stage) : Prop where
  wired : s.IsWired (fun v ↦ v.isNumber = true) (fun _ ↦ False) []
  queue : s.bus.queue = []
  current : s.bus.current = none

theorem isKept_same (event : Event) (told : List Event) (d : Director) (p : Playback) :
    IsKept event fun n told' d' p' ↦ n = 0 ∧ told' = told ∧ d' = d ∧ p' = p where
  fewer := by
    rintro n told' d' p' ⟨hn, -⟩
    cases hn
  step := by
    rintro told' es voices d' e p' q outcome ⟨hn, -⟩
    cases hn

/-- Nobody acts on the dialogue when an event is published that is no press. -/
theorem isQuiet_publish (fuel : Nat) : (handling.publish fuel).IsQuiet IsCalm where
  publish {s event} hs htype := by
    obtain ⟨e, t, hrun, ht, hqueue, hcurrent⟩ := exists_publish
      (isKept_same event (s.bus.announced ++ [event]) s.director s.playback) fuel
      (fun hpress ↦ absurd hpress htype) hs.queue hs.current hs.wired
      ⟨hs.wired.list_eq_zero htype, rfl, rfl, rfl⟩
    obtain ⟨-, hannounced, hdirector, hplayback⟩ := ht.course
    exact ⟨e, t, hrun, ⟨ht.wired, hqueue, hcurrent⟩, hdirector, hplayback, ht.speaker, hannounced⟩
  ignore {s} hs := by
    have hmoves : Bus.Moves (fun _ ↦ True) s.bus []
        (s.bus.unsubscribe s.holds .actionPressed .director) := Bus.Moves.refl.unsubscribe _ _ _
    refine ⟨hs.wired.ignored rfl, ?_, hmoves.current_eq_none hs.current⟩
    rw [Bus.unsubscribe_queue]
    exact hs.queue
  keep hs hbus hhandlers henabled :=
    ⟨hs.wired.of_same hbus hhandlers henabled, by rw [hbus]; exact hs.queue,
      by rw [hbus]; exact hs.current⟩

theorem hasPlaceFor_of_isNumber {priority : Value} (hpriority : priority.isNumber = true)
    {list : List (Registration StageListener)} (h : ∀ r ∈ list, r.priority.isNumber = true) :
    Bus.hasPlaceFor priority list = true := by
  induction list with
  | nil => rfl
  | cons r rest ih =>
      have hrest := ih fun r hr ↦ h r (List.mem_cons_of_mem _ hr)
      rw [Bus.hasPlaceFor, Value.greater?_of_isNumber hpriority (h r List.mem_cons_self)]
      cases Value.isAbove priority.rank? r.priority.rank? with
      | true => rfl
      | false => exact hrest

theorem admits_isCalm : Admits IsCalm := fun _ hs hdisabled ↦
  ⟨hasPlaceFor_of_isNumber rfl hs.wired.priorities, hs.wired.listening rfl hdisabled,
    hs.queue, hs.current⟩

theorem isKept_told (event : Event) (first : Director) (dialogues : List Dialogue) :
    IsKept event fun n told d p ↦ d.Agrees first ∧
      ∃ dialogues', Dialogue.Follows told d p dialogues' ∧
        (dialogues' = dialogues ∨
          n = 0 ∧ event.get "action" = .action first.settings.advanceAction ∧
            ∃ outcome, Dialogue.Advances dialogues outcome dialogues') where
  fewer := by
    rintro n told d p ⟨hagrees, dialogues', hfollows, rfl | ⟨hn, -⟩⟩
    · exact ⟨hagrees, _, hfollows, .inl rfl⟩
    · cases hn
  step := by
    rintro told es voices d d' p p' outcome ⟨hagrees, dialogues', hfollows, rfl | ⟨hn, -⟩⟩ hpress
      hvoices hsteps
    · obtain ⟨after, hadvances, hafter⟩ := hfollows.steps hvoices hsteps
      rw [hagrees.settings] at hpress
      exact ⟨hsteps.agrees.trans hagrees, after, hafter, .inr ⟨rfl, hpress, outcome, hadvances⟩⟩
    · cases hn

variable {fuel : Nat} {dialogues : List Dialogue}

/-- What is known between two operations. -/
structure HasTold (s : Stage) (first : Director) (dialogues : List Dialogue) : Prop where
  calm : s.IsCalm
  agrees : s.director.Agrees first
  course : Dialogue.Follows s.bus.announced s.director s.playback dialogues

theorem exists_start_told (fuel : Nat) {first : Director} (hs : s.HasTold first dialogues)
    (graph : CompiledGraph) (id : Value) :
    ∃ outcome t dialogues',
      Director.start (wiring (handling.publish fuel) s.speaker) graph id s =
        (outcome.map fun _ ↦ (), t) ∧
      t.HasTold first dialogues' ∧
      Dialogue.Advances (dialogues ++ [Dialogue.start graph id]) outcome dialogues' := by
  obtain ⟨outcome, voices, es, t, hrun, ht, hbecomes, -, hvoices, -, hsteps⟩ :=
    exists_start (isQuiet_publish fuel) admits_isCalm hs.calm s.speaker graph id
  obtain ⟨dialogues', hadvances, hcourse⟩ := (hs.course.start graph id).steps hvoices hsteps
  refine ⟨outcome, t, dialogues', hrun, ⟨ht, ?_, ?_⟩, hadvances⟩
  · exact hsteps.agrees.trans ⟨hs.agrees.settings, hs.agrees.database⟩
  · rw [hbecomes.announced, List.append_cons]
    exact hcourse

theorem exists_operate_play {first : Director} (hs : s.HasTold first dialogues) (id : Value) :
    ∃ outcome t dialogues', operate fuel (.play id) s = (outcome, t) ∧ t.HasTold first dialogues' ∧
      Dialogue.Tells first dialogues (.play id) outcome dialogues' := by
  have hact : operate fuel (.play id) s =
      (Director.play (wiring (handling.publish fuel) s.speaker) id >>= fun found ↦
        pure (.bool found)) s := rfl
  rw [hact, Act.bind_pure_apply]
  have hfound := hs.agrees.find?_eq id
  cases hfind : first.find? id with
  | error failure =>
      rw [play_of_error (hfound.trans hfind)]
      exact ⟨_, _, dialogues, rfl, hs, .refused hfind⟩
  | ok found =>
      cases found with
      | none =>
          obtain ⟨message, hrun⟩ :=
            play_of_none (hfound.trans hfind) (wiring (handling.publish fuel) s.speaker)
          rw [hrun]
          refine ⟨_, _, dialogues, rfl, ⟨⟨?_, hs.calm.queue, hs.calm.current⟩,
            hs.agrees, hs.course⟩, .missing hfind⟩
          exact hs.calm.wired.of_same rfl rfl rfl
      | some graph =>
          obtain ⟨outcome, t, dialogues', hrun, ht, hadvances⟩ := exists_start_told fuel hs graph id
          refine ⟨_, t, dialogues', ?_, ht, .played hfind hadvances⟩
          rw [play_of_some (hfound.trans hfind), Act.bind_pure_apply, hrun, Outcome.map_map,
            Outcome.map_map]
          rfl

theorem exists_operate_press (hfuel : 4 ≤ fuel) {first : Director}
    (hs : s.HasTold first dialogues) {event : Event} (hpress : event.type = .actionPressed) :
    ∃ outcome t dialogues', operate fuel (.publish event) s = (outcome, t) ∧
      t.HasTold first dialogues' ∧
      Dialogue.Tells first dialogues (.publish event) outcome dialogues' := by
  obtain ⟨e, t, hpublish, ht, hqueue, hcurrent⟩ := exists_publish
    (isKept_told event first dialogues) fuel (fun _ ↦ hfuel) hs.calm.queue hs.calm.current
    hs.calm.wired ⟨hs.agrees, dialogues, hs.course.other (by rw [hpress]; rfl), .inl rfl⟩
  obtain ⟨hagrees, dialogues', hcourse, hends⟩ := ht.course
  refine ⟨.returned e.consumed, t, dialogues', ?_,
    ⟨⟨ht.wired, hqueue, hcurrent⟩, hagrees, hcourse⟩, ?_⟩
  · exact Act.bind_of_returned hpublish _
  · rcases hends with rfl | ⟨-, hwanted, outcome, hadvances⟩
    · exact .ignored _
    · exact .pressed _ hwanted hadvances

/-- Every operation comes to its end, and its part of the dialogues is told. -/
theorem exists_operate (hfuel : 4 ≤ fuel) {first : Director}
    (hs : s.HasTold first dialogues) {op : StageOp} (hop : op.IsDirection) :
    ∃ outcome t dialogues', operate fuel op s = (outcome, t) ∧ t.HasTold first dialogues' ∧
      Dialogue.Tells first dialogues op outcome dialogues' := by
  cases op with
  | start graph id =>
      obtain ⟨outcome, t, dialogues', hrun, ht, hadvances⟩ := exists_start_told fuel hs graph id
      refine ⟨outcome.map fun _ ↦ .null, t, dialogues', ?_, ht, .started hadvances⟩
      have hact : operate fuel (.start graph id) s =
          (Director.start (wiring (handling.publish fuel) s.speaker) graph id >>= fun _ ↦
            pure .null) s := rfl
      rw [hact, Act.bind_pure_apply, hrun, Outcome.map_map]
      rfl
  | play id => exact exists_operate_play hs id
  | advance =>
      obtain ⟨outcome, voices, es, t, hrun, ht, hbecomes, -, hvoices, -, hsteps⟩ :=
        exists_advance (isQuiet_publish fuel) hs.calm s.speaker
      obtain ⟨dialogues', hadvances, hcourse⟩ := hs.course.steps hvoices hsteps
      rw [← hbecomes.announced] at hcourse
      refine ⟨outcome.map .bool, t, dialogues', ?_, ⟨ht, hsteps.agrees.trans hs.agrees, hcourse⟩,
        .advanced hadvances⟩
      have hact : operate fuel .advance s =
          (Director.advance (wiring (handling.publish fuel) s.speaker) >>= fun executed ↦
            pure (.bool executed)) s := rfl
      rw [hact, Act.bind_pure_apply, hrun]
  | stop =>
      obtain ⟨voices, t, hrun, ht, hbecomes, hvoices⟩ :=
        exists_stop (isQuiet_publish fuel) hs.calm s.speaker
      have hcourse := hs.course.stop hvoices
      rw [← hbecomes.announced, ← hbecomes.director, ← hbecomes.playback] at hcourse
      refine ⟨.returned .null, t, _, ?_, ⟨ht, ?_, hcourse⟩, .stopped⟩
      · exact Act.bind_of_returned hrun _
      · rw [hbecomes.director]
        exact ⟨hs.agrees.settings, hs.agrees.database⟩
  | publish event => exact exists_operate_press hfuel hs hop
  | _ => exact hop.elim

/-- Whatever is done from outside, it is told of one dialogue after another. -/
theorem exists_told (hfuel : 4 ≤ fuel) {first : Director} {ops : List StageOp}
    (hops : ∀ op ∈ ops, op.IsDirection) (hs : s.HasTold first dialogues) :
    ∃ dialogues', Dialogue.Told first dialogues ops (performAll fuel ops s).1 dialogues' ∧
      (performAll fuel ops s).2.HasTold first dialogues' := by
  induction ops generalizing s dialogues with
  | nil => exact ⟨dialogues, .nil, hs⟩
  | cons op ops ih =>
      obtain ⟨outcome, t, middle, hop, ht, htells⟩ :=
        exists_operate hfuel hs (hops op List.mem_cons_self)
      obtain ⟨last, htold, hlast⟩ := ih (fun op hop ↦ hops op (List.mem_cons_of_mem _ hop)) ht
      rw [performAll_cons ops hop htells.ne_stalled]
      exact ⟨last, .cons htells htold, hlast⟩

/-- A stage before anything is done: the handlers only look on, the director is not registered, and
its listener can be put in its place. -/
structure IsOpening (s : Stage) : Prop where
  calm : s.IsCalm
  history : s.bus.history = []
  disabled : s.director.isEnabled = false
  playback : s.playback = {}

theorem IsOpening.hasTold (hs : s.IsOpening) : s.HasTold s.director [] where
  calm := hs.calm
  agrees := .refl s.director
  course := by
    refine ⟨by rw [hs.playback], by rw [Bus.announced, hs.history]; rfl, .inr ⟨by simp, ?_⟩⟩
    rw [hs.playback]
    exact ⟨hs.disabled, rfl, by simp, by simp⟩

theorem isEnabled_iff {told : List Event} {d : Director} {p : Playback}
    (h : Dialogue.Follows told d p dialogues) :
    (d.isEnabled = true ↔ p.state = .loaded ∨ p.state = .active) ∧
      (d.isEnabled = true ↔ ∃ dialogue, dialogues.getLast? = some dialogue ∧
        dialogue.isOver = false) := by
  rcases h.course with ⟨dialogue, hlast, hrunning, hcourse⟩ | ⟨hover, hidle⟩
  · exact ⟨iff_of_true hcourse.enabled hcourse.state,
      iff_of_true hcourse.enabled ⟨dialogue, hlast, hrunning⟩⟩
  · have hdisabled : ¬d.isEnabled = true := by simp [hidle.disabled]
    refine ⟨iff_of_false hdisabled ?_, iff_of_false hdisabled ?_⟩
    · rintro (hstate | hstate)
      · exact hidle.state.1 hstate
      · exact hidle.state.2 hstate
    · rintro ⟨dialogue, hlast, hrunning⟩
      rw [hover dialogue hlast] at hrunning
      cases hrunning

/-- The protocol of dialogue events.  Whatever is done from outside, with any graphs, what has been
announced about dialogues is one dialogue after another: its beginning, the pair of events of each
record that was executed, in their order, and its end once it has come to its end or has been broken
off.  The director listens exactly while playback is loaded or active, which is while the dialogue
that was started last is not over. -/
theorem performAll_tells_dialogues (hfuel : 4 ≤ fuel) (hs : s.IsOpening) {ops : List StageOp}
    (hops : ∀ op ∈ ops, op.IsDirection) {outcomes : List (Outcome Value)} {t : Stage}
    (hrun : performAll fuel ops s = (outcomes, t)) :
    ∃ dialogues, Dialogue.Told s.director [] ops outcomes dialogues ∧
      (t.bus.announced.filter fun e ↦ e.type.isOfDialogue) = dialogues.flatMap Dialogue.events ∧
      (t.director.isEnabled = true ↔ t.playback.state = .loaded ∨ t.playback.state = .active) ∧
      (t.director.isEnabled = true ↔ ∃ dialogue, dialogues.getLast? = some dialogue ∧
        dialogue.isOver = false) := by
  obtain ⟨dialogues, htold, ht⟩ := exists_told hfuel hops hs.hasTold
  rw [hrun] at htold ht
  obtain ⟨hstate, hlast⟩ := isEnabled_iff ht.course
  exact ⟨dialogues, htold, ht.course.trace, hstate, hlast⟩

/-- A stage with a handler that fails whenever a line is shown or an action is pressed. -/
def nervous : Stage where
  bus := {
    lists := [(.lineShown, [⟨.int 0, .handler 0, .bool false, false, 0⟩]),
      (.actionPressed, [⟨.int 5, .handler 0, .bool false, false, 1⟩])]
    count := 2 }
  handlers := [{ behaviour := fun _ _ ↦ .fail (.alarm "boom") }]
  speaker := .recorder

theorem isOpening_nervous : nervous.IsOpening where
  calm := by
    refine ⟨⟨?_, ?_, nofun, ?_⟩, rfl, rfl⟩
    · intro handler hmem call event
      rw [List.mem_singleton.mp hmem]
      exact .fail _
    · intro type
      cases type <;> decide
    · decide
  history := rfl
  disabled := rfl
  playback := rfl

/-- Two presses, a step and a dialogue that is broken off. -/
def presses : List StageOp :=
  [.start ⟨0, [Recital.guardLine 0 1, Recital.guardLine 1 noId]⟩ (.text "gate"),
    .publish (Input.actionEvent .actionPressed .confirm),
    .publish (Input.actionEvent .actionPressed .cancel),
    .advance,
    .start ⟨7, [Recital.guardLine 7 7]⟩ (.text "well"),
    .stop]

theorem performAll_tells_dialogues_of_presses :
    ∃ outcomes t dialogues, performAll 4 presses nervous = (outcomes, t) ∧
      Dialogue.Told nervous.director [] presses outcomes dialogues ∧
      (t.bus.announced.filter fun e ↦ e.type.isOfDialogue) = dialogues.flatMap Dialogue.events ∧
      (dialogues.flatMap Dialogue.events).map (·.type) =
        [.dialogStarted, .nodeEntered, .lineShown, .nodeEntered, .lineShown, .dialogEnded,
          .dialogStarted, .nodeEntered, .lineShown, .dialogEnded] ∧
      t.director.isEnabled = false := by
  have htypes : ((performAll 4 presses nervous).2.bus.announced.filter fun e ↦
      e.type.isOfDialogue).map (·.type) =
        [.dialogStarted, .nodeEntered, .lineShown, .nodeEntered, .lineShown, .dialogEnded,
          .dialogStarted, .nodeEntered, .lineShown, .dialogEnded] := by decide +kernel
  have hops : ∀ op ∈ presses, op.IsDirection := by
    intro op hop
    simp only [presses, List.mem_cons, List.not_mem_nil, or_false] at hop
    rcases hop with rfl | rfl | rfl | rfl | rfl | rfl
    · trivial
    · rfl
    · rfl
    · trivial
    · trivial
    · trivial
  have hdisabled : (performAll 4 presses nervous).2.director.isEnabled = false := by decide +kernel
  rcases hrun : performAll 4 presses nervous with ⟨outcomes, t⟩
  rw [hrun] at htypes hdisabled
  obtain ⟨dialogues, htold, htrace, -, -⟩ :=
    performAll_tells_dialogues (Nat.le_refl 4) isOpening_nervous hops hrun
  rw [htrace] at htypes
  exact ⟨outcomes, t, dialogues, rfl, htold, htrace, htypes, hdisabled⟩

end Stage

end LinearDialogue
