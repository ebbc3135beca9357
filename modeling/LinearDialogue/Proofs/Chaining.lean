import LinearDialogue.Proofs.Awaiting
import LinearDialogue.Proofs.LatePresses

/-!
# Dialogues in a chain

A handler that hears of the end of a dialogue starts another one.  Where the end is announced from
outside of a step, by a press or because the dialogue has been broken off, the other one begins as
any dialogue does: its first line has been shown when the operation is over.  A step that is not
inside a delivery announces the end from its inside, though, where the first step of the other
dialogue is refused.
-/

namespace LinearDialogue

namespace Stage

variable {i fuel : Nat} {graph : CompiledGraph} {id : Value} {s t u : Stage} {event : Event}
  {loud : Prop}

/-- A stage with a cast between two operations, whose starter has not been called. -/
structure IsPoised (i : Nat) (graph : CompiledGraph) (id : Value) (s : Stage) : Prop where
  cast : s.IsCast i graph id []
  calls : s.callsOf i = 0
  queue : s.bus.queue = []
  current : s.bus.current = none

theorem IsPoised.published (hs : s.IsPoised i graph id) (event : Event) (loud : Prop) :
    s.IsAwaiting i graph id event loud [] { s with bus := s.bus.record (.published event) } where
  cast := hs.cast.of_mem (hs.cast.wired.record _) rfl (fun _ _ hr ↦ .inl hr)
    (Bus.staysWith_of_current rfl)
  speaker := rfl
  waiting e he := by
    rw [show (s.bus.record (.published event)).queue = [] from hs.queue] at he
    cases he
  current d hd := by
    rw [show (s.bus.record (.published event)).current = none from hs.current] at hd
    cases hd
  course := by
    refine .waits hs.calls rfl ?_ (Nat.zero_le _) (.inr ⟨rfl, rfl, rfl⟩)
    exact Bus.announced_published event s.bus

/-- The delivery of the published event itself may go on to the director. -/
theorem IsPoised.begun (hs : s.IsPoised i graph id)
    (hloud : event.type = .dialogEnded ∨ event.type = .actionPressed → loud) {b : Bus StageListener}
    (hb : b = (s.bus.record (.published event)).opening event) :
    s.IsAwaiting i graph id event loud (b.registrations event.type)
      { s with bus := b.begin event } := by
  have hopened : s.IsAwaiting i graph id event loud [] { s with bus := b } := by
    rw [hb]
    exact ((hs.published event loud).attend (.pin event.type)).attend (.record (.begun event) rfl)
  refine ⟨hopened.cast.begin event, rfl, hopened.waiting, fun d hd htype ↦ ?_, ?_⟩
  · cases hd
    exact hloud htype
  · have hone := Nat.le_trans (hopened.cast.wired.lists event.type) (allowance_le_one _ _)
    have hannounced : (b.begin event).announced = s.bus.announced ++ [event] := by
      rw [hb]
      simp [Bus.announced, Bus.opening, Bus.pin_eq, Bus.begin, Bus.record, Moment.published?]
    refine .waits hs.calls rfl hannounced ?_ (.inr ⟨rfl, rfl, rfl⟩)
    rw [List.length_nil, Nat.zero_add]
    exact Nat.mul_le_mul_left 4 hone

/-- Every publication comes to its end. -/
theorem exists_publish_poised (hs : s.IsPoised i graph id) (hfuel : 9 ≤ fuel) (event : Event)
    (loud : Prop) (hready : loud → s.playback.advancing = false)
    (hloud : event.type = .dialogEnded ∨ event.type = .actionPressed → loud) :
    ∃ e t, handling.publish fuel event s = (.returned e, t) ∧
      s.IsAwaiting i graph id event loud [] t ∧ t.bus.queue = [] ∧ t.bus.current = none := by
  obtain ⟨publication, outcome, t, hpublish, -, hpublishes, ht, -, hend⟩ :=
    (awaiting_obeys hready).publish_of_begun fuel rfl (hs.published event loud) (hs.begun hloud rfl)
  rcases hend with ⟨⟨e, rfl⟩, hqueue⟩ | ⟨rfl, hlater, hqueue⟩
  · exact ⟨e, t, hpublish, ht, hqueue, hpublishes.current hs.current⟩
  · -- too few events are announced for that
    have hposted := congrArg List.length hpublishes.queue
    have htold : t.bus.announced = s.bus.announced ++
        publication.first.event :: publication.rounds.flatMap Round.posted := by
      have hhistory : t.bus.history = s.bus.history ++ publication.moments := hpublishes.history
      rw [Bus.announced, hhistory, List.filterMap_append, Publication.filterMap_published?]
      rfl
    have hlength := ht.course.length_le
    have hwaits : 0 < t.bus.queue.length := List.length_pos_iff.mpr hqueue
    rw [get_bus, hs.queue, List.nil_append, List.length_append, List.length_map, hlater] at hposted
    rw [htold, List.length_append, List.length_cons, hposted] at hlength
    simp only [get_bus] at hlength
    omega

/-- What an operation has come to for the starter: it has not been called, or its dialogue has begun
and nothing has been announced after that. -/
def HasChained (i : Nat) (graph : CompiledGraph) (id : Value) (s t : Stage) : Prop :=
  t.callsOf i = 0 ∨
    ∃ (call : Call StageListener) (earlier : List Event), t.Begins i graph id call ∧
      call.moments <:+: t.bus.history ∧
      t.bus.announced = s.bus.announced ++ (earlier ++ call.posted)

theorem IsAwaiting.hasChained (h : s.IsAwaiting i graph id event loud [] t) :
    s.HasChained i graph id t := by
  cases h.course with
  | waits hcalls => exact .inl hcalls
  | begun _ _ hbegun =>
      obtain ⟨call, earlier, hbegins, hcall, hannounced, -⟩ := hbegun
      exact .inr ⟨call, earlier, hbegins, hcall, hannounced⟩

/-- What has happened before an operation of which this is known. -/
theorem HasChained.of_announced (h : u.HasChained i graph id t) {told : List Event}
    (htold : u.bus.announced = s.bus.announced ++ told) : s.HasChained i graph id t := by
  rcases h with hcalls | ⟨call, earlier, hbegins, hcall, hannounced⟩
  · exact .inl hcalls
  · refine .inr ⟨call, told ++ earlier, hbegins, hcall, ?_⟩
    rw [hannounced, htold, List.append_assoc, List.append_assoc]

theorem exists_operate_press_poised (hs : s.IsPoised i graph id) (hfuel : 9 ≤ fuel)
    (hidle : s.playback.advancing = false) (event : Event) :
    ∃ answer t, operate fuel (.publish event) s = (.returned answer, t) ∧ t.bus.queue = [] ∧
      s.HasChained i graph id t := by
  obtain ⟨e, t, hpublish, ht, hqueue, -⟩ :=
    exists_publish_poised hs hfuel event True (fun _ ↦ hidle) fun _ ↦ trivial
  exact ⟨e.consumed, t, Act.bind_of_returned hpublish _, hqueue, ht.hasChained⟩

theorem stopsQuietly_poised (hfuel : 9 ≤ fuel) :
    (handling.publish fuel).StopsQuietly (IsPoised i graph id) where
  publish {s event} hs htype := by
    obtain ⟨e, t, hpublish, ht, hqueue, hcurrent⟩ :=
      exists_publish_poised hs hfuel event False False.elim (by simp [htype])
    refine ⟨e, t, hpublish, ?_⟩
    cases ht.course with
    | begun hloud => exact hloud.elim
    | waits hcalls _ hannounced _ hquiet =>
        obtain ⟨rfl, hdirector, hplayback⟩ := hquiet.resolve_left not_false
        exact ⟨⟨ht.cast, hcalls, hqueue, hcurrent⟩, hdirector, hplayback, ht.speaker, hannounced⟩
  keep hs hbus hhandlers henabled :=
    ⟨hs.cast.of_same hbus hhandlers henabled, by rw [callsOf, hhandlers]; exact hs.calls,
      by rw [hbus]; exact hs.queue, by rw [hbus]; exact hs.current⟩

theorem IsPoised.ignored (hs : s.IsPoised i graph id) :
    IsPoised i graph id { s with
      bus := s.bus.unsubscribe s.holds .actionPressed .director
      director := { s.director with isEnabled := false } } where
  cast := hs.cast.ignored
  calls := hs.calls
  queue := by
    rw [Bus.unsubscribe_queue]
    exact hs.queue
  current := by
    have hmoves : Bus.Moves (fun _ ↦ False) s.bus []
        (s.bus.unsubscribe s.holds .actionPressed .director) := .unsubscribe _ _ _ .refl
    exact hmoves.current_eq_none hs.current

/-- A dialogue that is broken off is announced when nothing is going on any more. -/
theorem exists_close_poised (hs : s.IsPoised i graph id) (hfuel : 9 ≤ fuel)
    (hidle : s.playback.advancing = false) (speaker : Speaker) :
    ∃ t, Director.close (wiring (handling.publish fuel) speaker) s = (.returned (), t) ∧
      t.bus.queue = [] ∧ s.HasChained i graph id t := by
  obtain ⟨silent, hdisable, hsilent, hplayback, hsame⟩ : ∃ silent,
      Director.disable (wiring (handling.publish fuel) speaker) s = (.returned (), silent) ∧
      silent.IsPoised i graph id ∧ silent.playback = s.playback ∧
      silent.bus.announced = s.bus.announced := by
    rw [disable_apply]
    split
    · exact ⟨_, rfl, hs.ignored, rfl, by simp [Bus.announced]⟩
    · exact ⟨s, rfl, hs, rfl, rfl⟩
  obtain ⟨voices, u, hstop, hu, hstopped, -, -⟩ :=
    exists_stopVoice (stopsQuietly_poised hfuel) hsilent speaker
  have htold : u.bus.announced = s.bus.announced ++ voices := by rw [hstopped.announced, hsame]
  have hready : u.playback.advancing = false := by rw [hstopped.playback, hplayback, hidle]
  rw [Director.close, Act.bind_of_returned (Part.read_apply s), Act.bind_of_returned hdisable,
    Act.bind_of_returned hstop, get_director]
  cases s.director.isEnabled with
  | false => exact ⟨u, rfl, hu.queue, .inl hu.calls⟩
  | true =>
      obtain ⟨e, t, hpublish, ht, hqueue, -⟩ := exists_publish_poised hu hfuel
        (Director.dialogueEvent .dialogEnded u.director.dialogueId) True (fun _ ↦ hready)
        fun _ ↦ trivial
      exact ⟨t, Act.bind_of_returned hpublish _, hqueue, ht.hasChained.of_announced htold⟩

theorem exists_operate_stop_poised (hs : s.IsPoised i graph id) (hfuel : 9 ≤ fuel)
    (hidle : s.playback.advancing = false) :
    ∃ answer t, operate fuel .stop s = (.returned answer, t) ∧ t.bus.queue = [] ∧
      s.HasChained i graph id t := by
  let unloaded : Stage := { s with
    playback := { s.playback with table := [], cursor := noId, state := .unloaded } }
  have hunloaded : unloaded.IsPoised i graph id :=
    ⟨hs.cast.of_same rfl rfl rfl, hs.calls, hs.queue, hs.current⟩
  have hidle' : unloaded.playback.advancing = false := hidle
  obtain ⟨t, hclose, hqueue, hchained⟩ := exists_close_poised hunloaded hfuel hidle' s.speaker
  exact ⟨.null, t, Act.bind_of_returned hclose _, hqueue, hchained⟩

/-- Dialogues can be chained.  A handler starts a dialogue when it hears of the end of another one,
which has been broken off or has come to its end by a press.  Once that operation is over, the entry
record of the new dialogue has been executed, its line has been announced after the beginning of the
dialogue and nothing after the line, the cursor is on the record that follows, and the director
listens; the handler has not failed.  Otherwise it has not been called, or has failed at a voice
clip. -/
theorem operate_chains_dialogues (hs : s.IsPoised i graph id) (hfuel : 9 ≤ fuel)
    (hidle : s.playback.advancing = false) {op : StageOp}
    (hop : op = .stop ∨ ∃ event, op = .publish event) {record : Record} {line : SpokenLine}
    (hrecord : (atEntry graph).current? = some record)
    (hline : record.playableLine? = some line) :
    ∃ answer t, operate fuel op s = (.returned answer, t) ∧ t.bus.queue = [] ∧
      (t.callsOf i = 0 ∨
        ∃ (call : Call StageListener) (earlier voices : List Event),
          call.entry.listener = .handler i ∧ call.moments <:+: t.bus.history ∧
          t.bus.announced = s.bus.announced ++ (earlier ++ call.posted) ∧
          (∀ e ∈ voices, e.IsVoice) ∧
          (call.posted = Director.dialogueEvent .dialogStarted id ::
                (voices ++ [Director.nodeEvent record.id, Director.lineEvent line]) ∧
              call.failure = none ∧ t.director.isEnabled = true ∧ t.director.dialogueId = id ∧
              t.playback = { atEntry graph with cursor := record.successor, state := .active } ∨
            call.posted = Director.dialogueEvent .dialogStarted id :: voices ∧
              ∃ failure, call.failure = some failure ∧ IsFileFailure failure)) := by
  obtain ⟨answer, t, hrun, hqueue, hchained⟩ :
      ∃ answer t, operate fuel op s = (.returned answer, t) ∧
        t.bus.queue = [] ∧ s.HasChained i graph id t := by
    rcases hop with rfl | ⟨event, rfl⟩
    · exact exists_operate_stop_poised hs hfuel hidle
    · exact exists_operate_press_poised hs hfuel hidle event
  refine ⟨answer, t, hrun, hqueue, hchained.imp_right ?_⟩
  rintro ⟨call, earlier, hbegins, hcall, hannounced⟩
  obtain ⟨first, outcome, voices, es, hsteps, hposted, hfailure, -, hvoices⟩ := hbegins.steps
  refine ⟨call, earlier, voices, hbegins.listener, hcall, hannounced, hvoices, ?_⟩
  generalize hdirector : t.director = d at hsteps
  generalize hplayback : t.playback = p at hsteps
  cases hsteps with
  | refused hinside => cases hinside
  | executed _ hcurrent hspoken =>
      rw [hrecord] at hcurrent
      cases hcurrent
      rw [hline] at hspoken
      cases hspoken
      exact .inl ⟨hposted, hfailure, rfl, rfl, rfl⟩
  | failed _ hcurrent hbalks =>
      rw [hrecord] at hcurrent
      cases hcurrent
      rcases hbalks with ⟨hnone, -⟩ | ⟨-, hfile⟩
      · rw [hline] at hnone
        cases hnone
      · rw [List.append_nil] at hposted
        exact .inr ⟨hposted, _, hfailure, hfile⟩
  | ended _ hcurrent =>
      rw [hrecord] at hcurrent
      cases hcurrent

/-- A compiled graph of two lines. -/
def twoLines : CompiledGraph := ⟨0, [Recital.guardLine 0 1, Recital.guardLine 1 noId]⟩

/-- Start a dialogue on the first call. -/
def startNext : Behaviour StageOp := .ofScript [.perform (.start twoLines (.text "next"))] (some 1)

/-- A stage with a dialogue at its end and a handler that starts another one when it hears of
that. -/
def relay : Stage where
  bus := {
    lists := [(.dialogEnded, [⟨.int 0, .handler 0, .bool false, false, 0⟩]),
      (.actionPressed, [⟨.int 0, .director, .bool false, true, 1⟩])]
    count := 2 }
  handlers := [{ behaviour := startNext }]
  director := { isEnabled := true, dialogueId := .text "first" }
  playback := { table := twoLines.records, state := .active }

theorem haveStarter_relay : HaveStarter 0 twoLines (.text "next") relay.handlers where
  starter := ⟨_, rfl, fun _ ↦ .start (fun _ ↦ rfl) fun _ ↦ rfl⟩
  others := by
    intro j handler hj call event hcall
    have hzero : j = 0 := by
      have hlength := (List.getElem?_eq_some_iff.mp hj).1
      exact Nat.lt_one_iff.mp hlength
    rw [hzero] at hj
    cases hj
    have hquiet : startNext call event = .done := if_neg (by simpa using hcall hzero)
    change (startNext call event).IsGuest _
    rw [hquiet]
    exact .done

theorem isPoised_relay : relay.IsPoised 0 twoLines (.text "next") where
  cast := {
    wired := {
      guests := by
        intro handler hmem call event
        rw [List.mem_singleton.mp hmem]
        dsimp only [startNext, Behaviour.ofScript]
        split
        · refine .perform trivial fun answer ↦ ?_
          cases answer with
          | ok value => exact .done
          | error failure => exact .fail failure
        · exact .done
      lists := by
        intro type
        cases type <;> decide
      rest := nofun
      priorities := by decide }
    handlers := haveStarter_relay
    lists := by
      intro type htype
      cases type <;> first | exact absurd rfl htype | decide
    rest := nofun }
  calls := rfl
  queue := rfl
  current := rfl

theorem operate_chains_dialogues_of_relay :
    ∃ answer t, operate 9 press relay = (.returned answer, t) ∧
      t.bus.announced.map (·.type) =
        [.actionPressed, .dialogEnded, .dialogStarted, .nodeEntered, .lineShown] ∧
      t.playback.cursor = 1 ∧
      ∃ (call : Call StageListener) (earlier : List Event), call.entry.listener = .handler 0 ∧
        call.moments <:+: t.bus.history ∧ t.bus.announced = earlier ++ call.posted := by
  have hcalls : (operate 9 press relay).2.callsOf 0 = 1 := by decide +kernel
  have htypes : (operate 9 press relay).2.bus.announced.map (·.type) =
      [.actionPressed, .dialogEnded, .dialogStarted, .nodeEntered, .lineShown] := by decide +kernel
  have hcursor : (operate 9 press relay).2.playback.cursor = 1 := by decide +kernel
  have hop : press = .stop ∨ ∃ event, press = .publish event := .inr ⟨_, rfl⟩
  have hrecord : (atEntry twoLines).current? = some (Recital.guardLine 0 1) := rfl
  obtain ⟨answer, t, hrun, -, hchained⟩ :=
    operate_chains_dialogues isPoised_relay (Nat.le_refl 9) rfl hop hrecord rfl
  rw [hrun] at hcalls htypes hcursor
  refine ⟨answer, t, hrun, htypes, hcursor, ?_⟩
  rcases hchained with hnone | ⟨call, earlier, voices, hlistener, hcall, hannounced, -⟩
  · rw [hnone] at hcalls
    cases hcalls
  · exact ⟨call, earlier, hlistener, hcall, hannounced⟩

/-- A step from outside that ends the dialogue, be it the first of a dialogue without records,
announces the end from its inside.  The first step of the other dialogue is refused there, and no
line of it is shown. -/
theorem exists_chain_refused :
    relay.IsPoised 0 twoLines (.text "next") ∧
    (atEntry twoLines).current? = some (Recital.guardLine 0 1) ∧
    ∀ op ∈ [StageOp.advance, .start ⟨noId, []⟩ (.text "none")],
      (operate 9 op relay).2.callsOf 0 = 1 ∧
      .returned (some .alreadyAdvancing) ∈ (operate 9 op relay).2.bus.history ∧
      ((operate 9 op relay).2.bus.announced.map (·.type)).drop
        ((operate 9 op relay).2.bus.announced.length - 2) = [.dialogEnded, .dialogStarted] ∧
      (operate 9 op relay).2.playback = atEntry twoLines :=
  ⟨isPoised_relay, rfl, by decide +kernel⟩

end Stage

end LinearDialogue
