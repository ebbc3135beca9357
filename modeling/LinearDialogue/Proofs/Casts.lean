import LinearDialogue.Proofs.Performances

/-!
# Casts with a starter

Handlers of which one starts a dialogue when it hears of the end of another one, and the others only
look on.  Inside a delivery a dialogue is started as anywhere: its events wait.
-/

namespace LinearDialogue

/-- A program that starts a dialogue and fails if that fails.  It may also consume the event at hand
and note things. -/
inductive Program.Starts (graph : CompiledGraph) (id : Value) : Program StageOp → Prop
  | start {next : Except Failure Value → Program StageOp} (hok : ∀ value, next (.ok value) = .done)
      (herror : ∀ failure, next (.error failure) = .fail failure) :
      Starts graph id (.perform (.start graph id) next)
  | consume {next : Program StageOp} (h : Starts graph id next) : Starts graph id (.consume next)
  | note {item : Note} {next : Program StageOp} (h : Starts graph id next) :
      Starts graph id (.note item next)

namespace Stage

/-- How often a handler has been called. -/
def callsOf (i : Nat) (s : Stage) : Nat := ((s.handlers[i]?).map (·.calls)).getD 0

/-- One of several handlers starts a dialogue when it is called first.  Apart from that none of them
does anything. -/
structure HaveStarter (i : Nat) (graph : CompiledGraph) (id : Value)
    (handlers : List StageHandler) : Prop where
  starter : ∃ handler, handlers[i]? = some handler ∧
    ∀ event, (handler.behaviour 0 event).Starts graph id
  others : ∀ j handler, handlers[j]? = some handler → ∀ call event, (j = i → call ≠ 0) →
    (handler.behaviour call event).IsGuest fun _ ↦ False

/-- The handlers only look on, but for one that starts a dialogue and is registered for the ends of
dialogues only. -/
structure IsCast (i : Nat) (graph : CompiledGraph) (id : Value)
    (rest : List (Registration StageListener)) (s : Stage) : Prop where
  wired : s.IsWired (fun v ↦ v.isNumber = true) (fun _ ↦ True) rest
  handlers : HaveStarter i graph id s.handlers
  lists : ∀ type, type ≠ .dialogEnded → ∀ r ∈ s.bus.registrations type, r.listener ≠ .handler i
  rest : ∀ d, s.bus.current = some d → d.event.type ≠ .dialogEnded →
    ∀ r ∈ rest, r.listener ≠ .handler i

variable {i : Nat} {graph : CompiledGraph} {id : Value} {s t u : Stage} {d : Delivery StageListener}
  {entry : Registration StageListener} {rest : List (Registration StageListener)} {es : List Event}

theorem HaveStarter.of_behaviours {handlers handlers' : List StageHandler}
    (h : HaveStarter i graph id handlers)
    (hsame : handlers'.map (·.behaviour) = handlers.map (·.behaviour)) :
    HaveStarter i graph id handlers' := by
  have hget (j : Nat) : (handlers'[j]?).map (·.behaviour) = (handlers[j]?).map (·.behaviour) := by
    rw [← List.getElem?_map, hsame, List.getElem?_map]
  obtain ⟨starter, hstarter, hstarts⟩ := h.starter
  refine ⟨?_, fun j handler hj ↦ ?_⟩
  · have hi := hget i
    rw [hstarter] at hi
    obtain ⟨handler, hhandler, hbehaviour⟩ := Option.map_eq_some_iff.mp hi
    exact ⟨handler, hhandler, by rwa [hbehaviour]⟩
  · have hold := hget j
    rw [hj] at hold
    obtain ⟨old, hold, hbehaviour⟩ := Option.map_eq_some_iff.mp hold.symm
    have hsame : handler.behaviour = old.behaviour := hbehaviour.symm
    rw [hsame]
    exact h.others j old hold

/-- The cast stays when lists lose registrations, or get ones of the director. -/
theorem IsCast.of_mem (hs : s.IsCast i graph id rest)
    (ht : t.IsWired (fun v ↦ v.isNumber = true) (fun _ ↦ True) rest)
    (hbehaviours : t.handlers.map (·.behaviour) = s.handlers.map (·.behaviour))
    (hlists : ∀ type, ∀ r ∈ t.bus.registrations type,
      r ∈ s.bus.registrations type ∨ r.listener = .director)
    (hcurrent : s.bus.StaysWith t.bus) : t.IsCast i graph id rest where
  wired := ht
  handlers := hs.handlers.of_behaviours hbehaviours
  lists type htype r hr := by
    rcases hlists type r hr with hold | hdirector
    · exact hs.lists type htype r hold
    · rw [hdirector]
      exact StageListener.noConfusion
  rest e he htype := by
    obtain ⟨d, hd, hsame⟩ := hcurrent e he
    exact hs.rest d hd (hsame.type ▸ htype)

theorem IsCast.of_moves (hs : s.IsCast i graph id rest)
    (ht : t.IsWired (fun v ↦ v.isNumber = true) (fun _ ↦ True) rest)
    (hbehaviours : t.handlers.map (·.behaviour) = s.handlers.map (·.behaviour))
    (hmoves : Bus.Moves (fun _ ↦ False) s.bus es t.bus) : t.IsCast i graph id rest :=
  hs.of_mem ht hbehaviours (fun type _ hr ↦ .inl ((hmoves.sublist type).subset hr)) hmoves.staysWith

theorem IsCast.of_same (hs : s.IsCast i graph id rest) (hbus : t.bus = s.bus)
    (hhandlers : t.handlers = s.handlers)
    (henabled : t.director.isEnabled = s.director.isEnabled) : t.IsCast i graph id rest :=
  hs.of_mem (hs.wired.of_same hbus hhandlers henabled) (by rw [hhandlers])
    (fun _ _ hr ↦ .inl (hbus ▸ hr)) (Bus.staysWith_of_current (by rw [hbus]))

theorem IsCast.attend (hs : s.IsCast i graph id rest) {b : Bus StageListener}
    (h : s.bus.Attends b) :
    IsCast i graph id rest { s with bus := b } := by
  refine hs.of_mem (hs.wired.attend h) rfl (fun type r hr ↦ .inl ?_) (Bus.staysWith_attends h)
  rwa [Bus.registrations_congr (Bus.lists_attends h)] at hr

theorem IsCast.begin (hs : s.IsCast i graph id []) (event : Event) :
    IsCast i graph id (s.bus.registrations event.type) { s with bus := s.bus.begin event } where
  wired := hs.wired.begin event
  handlers := hs.handlers
  lists := hs.lists
  rest d hd htype := by
    cases hd
    exact hs.lists event.type htype

theorem IsCast.finish (hs : s.IsCast i graph id []) : IsCast i graph id [] (handling.finish s) :=
  hs.of_mem hs.wired.finish rfl
    (fun type _ hr ↦ .inl ((Bus.finish_sublist _ type).subset hr)) (Bus.staysWith_finish _)

theorem IsCast.tail (hs : s.IsCast i graph id (entry :: rest)) : s.IsCast i graph id rest where
  wired := hs.wired.tail
  handlers := hs.handlers
  lists := hs.lists
  rest d hd htype r hr := hs.rest d hd htype r (List.mem_cons_of_mem entry hr)

theorem IsCast.nil (hs : s.IsCast i graph id rest) : s.IsCast i graph id [] where
  wired := hs.wired.nil
  handlers := hs.handlers
  lists := hs.lists
  rest _ _ _ _ hr := absurd hr List.not_mem_nil

theorem IsCast.ignored (hs : s.IsCast i graph id []) :
    IsCast i graph id [] { s with
      bus := s.bus.unsubscribe s.holds .actionPressed .director
      director := { s.director with isEnabled := false } } :=
  hs.of_moves (hs.wired.ignored rfl) rfl (.unsubscribe s.holds .actionPressed .director .refl)

theorem IsCast.listening (hs : s.IsCast i graph id []) (hdisabled : s.director.isEnabled = false) :
    s.listening.IsCast i graph id [] := by
  refine hs.of_mem (hs.wired.listening rfl hdisabled) rfl (fun type r hr ↦ ?_)
    (Bus.staysWith_of_current rfl)
  rw [Stage.listening, Bus.registrations_subscribe] at hr
  split at hr
  next htype =>
    rcases Bus.mem_insert_iff.mp hr with rfl | hr
    · exact .inr rfl
    · exact .inl (htype ▸ hr)
  next => exact .inl hr

/-! ## The start -/

theorem isQuiet_post_cast (b : Bus StageListener) (handlers : List StageHandler) :
    (Bus.post StageListener : Publisher Stage).IsQuiet fun t ↦
      (∃ es, Bus.Moves (fun v ↦ v.isNumber = true) b es t.bus) ∧ t.handlers = handlers ∧
        t.IsCast i graph id [] := by
  refine isQuiet_post b handlers (fun s event hs ↦ ?_) (fun s hs ↦ hs.ignored)
    fun _ _ hs ↦ hs.of_same
  have hmoves : Bus.Moves (fun _ ↦ False) s.bus _ (s.bus.enqueue event) := .enqueue event .refl
  exact hs.of_moves (hs.wired.moves hmoves rfl rfl) rfl hmoves

theorem admits_post_cast (b : Bus StageListener) (handlers : List StageHandler) :
    Admits fun t ↦ (∃ es, Bus.Moves (fun v ↦ v.isNumber = true) b es t.bus) ∧
      t.handlers = handlers ∧ t.IsCast i graph id [] := by
  rintro s ⟨⟨es, hmoves⟩, hhandlers, hs⟩ hdisabled
  exact ⟨hasPlaceFor_of_isNumber rfl hs.wired.priorities,
    ⟨es, hmoves.subscribe _ _ _ _ rfl⟩, hhandlers, hs.listening hdisabled⟩

/-- The playback when a graph has been loaded. -/
def atEntry (graph : CompiledGraph) : Playback :=
  { table := Playback.tableOf graph.records, cursor := graph.entry, state := .loaded }

/-- A call has started a dialogue and taken its first step, which has brought a stage about. -/
structure Begins (i : Nat) (graph : CompiledGraph) (id : Value) (call : Call StageListener)
    (t : Stage) : Prop where
  listener : call.entry.listener = .handler i
  steps : ∃ (first : Director) (outcome : Outcome Bool) (voices es : List Event),
    Steps { first with dialogueId := id, isEnabled := true } (atEntry graph) outcome es t.director
      t.playback ∧
    call.posted = Director.dialogueEvent .dialogStarted id :: (voices ++ es) ∧
    call.failure = outcome.failure? ∧ voices.length ≤ 2 ∧ ∀ e ∈ voices, e.IsVoice

theorem Begins.length_le {call : Call StageListener} (h : t.Begins i graph id call) :
    call.posted.length ≤ 5 := by
  obtain ⟨first, outcome, voices, es, hsteps, hposted, -, hlength, -⟩ := h.steps
  have hes := hsteps.length_le
  rw [hposted, List.length_cons, List.length_append]
  omega

theorem Begins.types {call : Call StageListener} (h : t.Begins i graph id call) :
    ∀ e ∈ call.posted, e.type ≠ .actionPressed := by
  obtain ⟨first, outcome, voices, es, hsteps, hposted, -, -, hvoices⟩ := h.steps
  intro e he
  rw [hposted] at he
  rcases List.mem_cons.mp he with rfl | he
  · nofun
  · rcases List.mem_append.mp he with he | he
    · rcases hvoices e he with htype | htype <;> simp [htype]
    · exact steps_types hsteps e he

theorem perform_start (publish : Publisher Stage) (s : Stage) :
    perform publish (.start graph id) s =
      (Director.start (wiring publish s.speaker) graph id >>= fun _ ↦ pure .null) s := rfl

/-- Inside a delivery the program of the starter comes to its end. -/
theorem exists_run_starts {program : Program StageOp} (hprogram : program.Starts graph id)
    (hs : s.IsCast i graph id []) (hidle : s.playback.advancing = false) :
    ∃ answer es t,
      (program.run (perform (Bus.post StageListener)) consumeCurrent).attempt s =
        (.returned answer, t) ∧
      Bus.Moves (fun v ↦ v.isNumber = true) s.bus es t.bus ∧ t.handlers = s.handlers ∧
      t.IsCast i graph id [] ∧ t.speaker = s.speaker ∧
      ∀ entry : Registration StageListener, entry.listener = .handler i →
        t.Begins i graph id ⟨entry, es, failureOf? answer⟩ := by
  induction hprogram generalizing s with
  | @start next hok herror =>
      obtain ⟨outcome, voices, es, t, hstart, ⟨⟨posted, hmoves⟩, hhandlers, ht⟩, hbecomes, hlength,
        hvoices, -, hsteps⟩ := exists_start (isQuiet_post_cast s.bus s.handlers)
          (admits_post_cast s.bus s.handlers) ⟨⟨[], .refl⟩, rfl, hs⟩ s.speaker graph id
      have hposted : posted = Director.dialogueEvent .dialogStarted id :: (voices ++ es) :=
        Bus.eq_of_announced_moves hmoves hbecomes.announced
      have hentry : ({ s.playback with
          table := Playback.tableOf graph.records
          cursor := graph.entry
          state := .loaded } : Playback) = atEntry graph := by
        simp only [atEntry, hidle]
      rw [hentry] at hsteps
      have hperform : perform (Bus.post StageListener) (.start graph id) s =
          (outcome.map fun _ ↦ .null, t) := by
        rw [perform_start, Act.bind_pure_apply, hstart, Outcome.map_map]
        rfl
      have hbegins (answer : Except Failure Unit) (hanswer : failureOf? answer = outcome.failure?)
          (entry : Registration StageListener) (hlistener : entry.listener = .handler i) :
          t.Begins i graph id ⟨entry, posted, failureOf? answer⟩ :=
        ⟨hlistener, _, outcome, voices, es, hsteps, hposted, hanswer, hlength, hvoices⟩
      rcases hsteps.returned_or_failed with ⟨b, rfl⟩ | ⟨failure, rfl⟩
      · refine ⟨.ok (), posted, t, ?_, hmoves, hhandlers, ht, hbecomes.speaker,
          hbegins (.ok ()) rfl⟩
        simp only [Program.run, Act.attempt_apply, Act.bind_apply, hperform, Outcome.map, hok]
        rfl
      · refine ⟨.error failure, posted, t, ?_, hmoves, hhandlers, ht, hbecomes.speaker,
          hbegins (.error failure) rfl⟩
        simp only [Program.run, Act.attempt_apply, Act.bind_apply, hperform, Outcome.map, herror]
        rfl
  | @consume next _ ih =>
      have hmoves : Bus.Moves (fun _ ↦ False) s.bus [] s.bus.consume := .consume .refl
      obtain ⟨answer, es, t, hrun, hothers, ht⟩ := ih (s := { s with bus := s.bus.consume })
        (hs.of_moves (hs.wired.moves hmoves rfl rfl) rfl hmoves) hidle
      exact ⟨answer, es, t, hrun, (hmoves.mono fun _ ↦ False.elim).trans hothers, ht⟩
  | @note item next _ ih =>
      exact ih (s := { s with journal.notes := s.journal.notes ++ [item] }) (hs.of_same rfl rfl rfl)
        hidle

end Stage

end LinearDialogue
