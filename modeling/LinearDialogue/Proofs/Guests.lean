import LinearDialogue.Proofs.Deliveries
import LinearDialogue.Proofs.Directing

/-!
# Guests

Handlers on a stage that leave the dialogue alone.  They may watch, fail, consume events and, where
they are allowed to, publish, clear lists and use the input devices, but they do not operate on the
director.  Whatever they do, only the director's own listener makes a delivery go on with the
dialogue, and it is called only for pressed actions, while a dialogue is running, and only once.
-/

namespace LinearDialogue

/-- A program that returns or fails, and performs only some of the operations. -/
inductive Program.IsGuest (may : StageOp → Prop) : Program StageOp → Prop
  | done : IsGuest may .done
  | fail (failure : Failure) : IsGuest may (.fail failure)
  | consume {next : Program StageOp} (h : IsGuest may next) : IsGuest may (.consume next)
  | note {item : Note} {next : Program StageOp} (h : IsGuest may next) :
      IsGuest may (.note item next)
  | perform {op : StageOp} {next : Except Failure Value → Program StageOp} (hop : may op)
      (h : ∀ answer, IsGuest may (next answer)) : IsGuest may (.perform op next)

/-- An operation that is not one on the director or on playback. -/
def StageOp.IsExternal : StageOp → Prop
  | .publish _ | .clear _ | .input _ => True
  | _ => False

/-! ## Input devices -/

/-- The types of events that come from input devices. -/
def EventType.IsInput : EventType → Prop
  | .actionPressed | .actionReleased | .gamepadConnected | .gamepadDisconnected => True
  | _ => False

namespace InputOp

variable {σ : Type} {p q : Publisher σ} {P : ∀ {α : Type}, Act σ α → Act σ α → Prop}

theorem couples_announce (hP : Act.Couples P) (type : EventType) (htype : type.IsInput)
    (hpublish : ∀ event : Event, event.type.IsInput → P (p event) (q event))
    (actions : List Action) :
    P (Input.announce p type actions) (Input.announce q type actions) := by
  induction actions with
  | nil => exact hP.pure _
  | cons a rest ih => exact hP.bind (hpublish _ htype) fun _ ↦ ih

variable [Part Input σ]

/-- Input devices change nothing but themselves, and publish. -/
theorem couples_perform (hP : Act.Couples P)
    (hupdate : ∀ f, P (Part.update Input f : Act σ Unit) (Part.update Input f))
    (hpublish : ∀ event : Event, event.type.IsInput → P (p event) (q event)) (op : InputOp) :
    P (op.perform p) (op.perform q) := by
  have hchange (f : Input → Value → Input) (code : Option Value) :
      P (change f code : Act σ Value) (change f code) := by
    cases code with
    | none => exact hP.fail _
    | some code => exact hP.bind (hupdate _) fun _ ↦ hP.pure _
  have hkeyed (f : Input → Value → Input) (code : Option Value) :
      P (changeKeyed f code : Act σ Value) (changeKeyed f code) := by
    rw [changeKeyed]
    split
    · exact hchange f code
    · exact hP.fail _
  have hsettle {m : Act σ Value} (hm : P m m) (isSound : Input → Bool) :
      P (settle m isSound) (settle m isSound) := by
    refine hP.bind hm fun result ↦ hP.bind (hP.read Input) fun input ↦ ?_
    split
    · exact hP.pure _
    · exact hP.fail _
  have hgamepads (type : EventType) (htype : type.IsInput) (reported : Option (List Value)) :
      P (Input.changeGamepads p type reported) (Input.changeGamepads q type reported) := by
    refine hP.bind (hupdate _) fun _ ↦ hP.bind (hP.read Input) fun input ↦ ?_
    have htold := hP.bind (hpublish { type } htype) fun _ ↦ hP.pure ()
    dsimp only
    split
    · exact hP.bind (hP.fail _) fun _ ↦ htold
    · exact htold
  cases op with
  | keyDown key => exact hkeyed _ key
  | keyUp key => exact hsettle (hkeyed _ key) _
  | buttonDown button => exact hchange _ button
  | buttonUp button => exact hchange _ button
  | connect reported =>
      exact hP.bind (hgamepads .gamepadConnected trivial reported) fun _ ↦ hP.pure _
  | disconnect reported =>
      exact hP.bind (hgamepads .gamepadDisconnected trivial reported) fun _ ↦ hP.pure _
  | move => exact hP.pure _
  | update =>
      refine hP.bind (hP.bind (hupdate _) fun _ ↦ hP.bind (hP.read Input) fun input ↦ ?_) fun _ ↦
        hP.pure _
      refine hP.bind (couples_announce hP .actionPressed trivial hpublish _) fun _ ↦ ?_
      refine hP.bind (hP.read Input) fun input ↦ ?_
      exact hP.bind (couples_announce hP .actionReleased trivial hpublish _) fun _ ↦ hupdate _
  | bindKey a key => exact hsettle (hP.bind (hupdate _) fun _ ↦ hP.pure _) _
  | unbindKey a key => exact hsettle (hP.bind (hupdate _) fun _ ↦ hP.pure _) _
  | bindings a => exact hP.bind (hP.read Input) fun _ ↦ hP.pure _
  | query a => exact hP.bind (hP.read Input) fun _ ↦ hP.pure _

theorem closed_perform {P : ∀ {α : Type}, Act σ α → Prop} (hP : Act.Closed P)
    (hupdate : ∀ f, P (Part.update Input f : Act σ Unit))
    (hpublish : ∀ event : Event, event.type.IsInput → P (p event)) (op : InputOp) :
    P (op.perform p) :=
  (couples_perform hP.couples (fun f ↦ ⟨rfl, hupdate f⟩) (fun event h ↦ ⟨rfl, hpublish event h⟩)
    op).2

end InputOp

namespace Stage

/-- What a guest has done to a stage when it has posted some events. -/
structure Hosts (s : Stage) (es : List Event) (t : Stage) : Prop where
  moves : Bus.Moves (fun _ ↦ False) s.bus es t.bus
  handlers : t.handlers = s.handlers
  director : t.director = s.director
  playback : t.playback = s.playback
  speaker : t.speaker = s.speaker

theorem Hosts.refl (s : Stage) : s.Hosts [] s := ⟨.refl, rfl, rfl, rfl, rfl⟩

theorem Hosts.trans {s t u : Stage} {es fs : List Event} (hst : s.Hosts es t) (htu : t.Hosts fs u) :
    s.Hosts (es ++ fs) u where
  moves := hst.moves.trans htu.moves
  handlers := htu.handlers.trans hst.handlers
  director := htu.director.trans hst.director
  playback := htu.playback.trans hst.playback
  speaker := htu.speaker.trans hst.speaker

theorem hosts_chains : Act.Chains fun s t : Stage ↦ ∃ es, s.Hosts es t where
  refl s := ⟨[], .refl s⟩
  trans := by
    rintro s t u ⟨es, hst⟩ ⟨fs, htu⟩
    exact ⟨es ++ fs, hst.trans htu⟩

/-- Inside a delivery an external operation returns or fails. -/
theorem exists_perform {op : StageOp} (hop : op.IsExternal) (s : Stage) :
    ∃ answer es t, (perform (Bus.post StageListener) op).attempt s = (.returned answer, t) ∧
      s.Hosts es t := by
  have hclosed := hosts_chains.closed.and Act.closed_ends
  have hpost (event : Event) : (Bus.post StageListener event : Act Stage Event).Along
      (fun s t ↦ ∃ es, s.Hosts es t) ∧ (Bus.post StageListener event : Act Stage Event).Ends
      fun _ ↦ True :=
    ⟨fun s ↦ ⟨[event], .enqueue event .refl, rfl, rfl, rfl, rfl⟩, fun s ↦ .inl ⟨_, rfl⟩⟩
  have hperform : (perform (Bus.post StageListener) op).Along (fun s t ↦ ∃ es, s.Hosts es t) ∧
      (perform (Bus.post StageListener) op).Ends fun _ ↦ True := by
    cases op with
    | publish event => exact hclosed.bind (hpost event) fun _ ↦ hclosed.pure _
    | clear type =>
        exact ⟨fun s ↦ ⟨[], .clear type .refl, rfl, rfl, rfl, rfl⟩, fun s ↦ .inl ⟨_, rfl⟩⟩
    | input op =>
        refine InputOp.closed_perform hclosed (fun f ↦ ?_) (fun event _ ↦ hpost event) op
        exact ⟨fun s ↦ ⟨[], .refl, rfl, rfl, rfl, rfl⟩, .update f⟩
    | _ => exact hop.elim
  obtain ⟨answer, hrun⟩ := hperform.2.exists_attempt s
  obtain ⟨es, hhosts⟩ := hperform.1 s
  exact ⟨answer, es, _, hrun, hhosts⟩

variable {may : StageOp → Prop}

/-- A guest's program returns or fails. -/
theorem exists_run {program : Program StageOp} (hprogram : program.IsGuest may)
    (hmay : ∀ op, may op → op.IsExternal) (s : Stage) :
    ∃ answer es t,
      (program.run (perform (Bus.post StageListener)) consumeCurrent).attempt s =
        (.returned answer, t) ∧
      s.Hosts es t ∧ ((∀ op, ¬may op) → es = []) := by
  induction hprogram generalizing s with
  | done => exact ⟨.ok (), [], s, rfl, .refl s, fun _ ↦ rfl⟩
  | fail failure => exact ⟨.error failure, [], s, rfl, .refl s, fun _ ↦ rfl⟩
  | @consume next _ ih =>
      obtain ⟨answer, es, t, hrun, hhosts, hquiet⟩ := ih { s with bus := s.bus.consume }
      have hconsumed : s.Hosts [] { s with bus := s.bus.consume } :=
        ⟨.consume .refl, rfl, rfl, rfl, rfl⟩
      exact ⟨answer, es, t, hrun, hconsumed.trans hhosts, hquiet⟩
  | @note item next _ ih =>
      obtain ⟨answer, es, t, hrun, hhosts, hquiet⟩ :=
        ih { s with journal.notes := s.journal.notes ++ [item] }
      have hnoted : s.Hosts [] { s with journal.notes := s.journal.notes ++ [item] } :=
        ⟨.refl, rfl, rfl, rfl, rfl⟩
      exact ⟨answer, es, t, hrun, hnoted.trans hhosts, hquiet⟩
  | @perform op next hop _ ih =>
      obtain ⟨first, es, t, hfirst, hhosts⟩ := exists_perform (hmay op hop) s
      obtain ⟨answer, fs, u, hrun, hrest, -⟩ := ih first t
      refine ⟨answer, es ++ fs, u, ?_, hhosts.trans hrest, fun h ↦ (h op hop).elim⟩
      rw [Act.attempt_apply] at hrun ⊢
      rw [Program.run, Act.bind_of_returned hfirst]
      exact hrun

/-! ## Who is registered -/

/-- How often the director may be registered in the list of a type. -/
def allowance (isEnabled : Bool) (type : EventType) : Nat :=
  if type = .actionPressed ∧ isEnabled = true then 1 else 0

theorem allowance_le_one (isEnabled : Bool) (type : EventType) : allowance isEnabled type ≤ 1 := by
  rw [allowance]
  split <;> omega

theorem allowance_le_true (isEnabled : Bool) (type : EventType) :
    allowance isEnabled type ≤ allowance true type := by
  cases isEnabled with
  | true => exact Nat.le_refl _
  | false => simp [allowance]

theorem allowance_of_ne {type : EventType} (h : type ≠ .actionPressed) (isEnabled : Bool) :
    allowance isEnabled type = 0 := if_neg fun hand ↦ h hand.1

/-- How often the director is registered among some others. -/
def directors (list : List (Registration StageListener)) : Nat :=
  list.countP fun r ↦ r.listener == .director

theorem directors_le {list list' : List (Registration StageListener)} (h : list.Sublist list') :
    directors list ≤ directors list' := h.countP_le

theorem directors_le_cons (entry : Registration StageListener)
    (rest : List (Registration StageListener)) : directors rest ≤ directors (entry :: rest) :=
  directors_le (List.sublist_cons_self entry rest)

theorem directors_cons_of_director {entry : Registration StageListener}
    (h : entry.listener = .director) (rest : List (Registration StageListener)) :
    directors (entry :: rest) = directors rest + 1 := List.countP_cons_of_pos (by simp [h])

/-- The handlers are guests, and the director is registered for pressed actions only, while a
dialogue is running, once.  The same is true of the registrations that a delivery is still to
visit. -/
structure IsWired (ok : Value → Prop) (may : StageOp → Prop)
    (rest : List (Registration StageListener)) (s : Stage) : Prop where
  guests : ∀ handler ∈ s.handlers, ∀ call event, (handler.behaviour call event).IsGuest may
  lists : ∀ type, directors (s.bus.registrations type) ≤ allowance s.director.isEnabled type
  rest : ∀ d, s.bus.current = some d → directors rest ≤ allowance s.director.isEnabled d.event.type
  priorities : ∀ r ∈ s.bus.registrations .actionPressed, ok r.priority

variable {ok : Value → Prop} {entry : Registration StageListener}
  {rest : List (Registration StageListener)} {s t : Stage} {es : List Event}

theorem IsWired.list_eq_zero (hs : s.IsWired ok may rest) {type : EventType}
    (htype : type ≠ .actionPressed) : directors (s.bus.registrations type) = 0 :=
  Nat.le_zero.mp (allowance_of_ne htype _ ▸ hs.lists type)

theorem IsWired.rest_eq_zero (hs : s.IsWired ok may rest) {d : Delivery StageListener}
    (hd : s.bus.current = some d) (htype : d.event.type ≠ .actionPressed) : directors rest = 0 :=
  Nat.le_zero.mp (allowance_of_ne htype _ ▸ hs.rest d hd)

theorem exists_same_behaviour {handlers handlers' : List StageHandler}
    (h : handlers'.map (·.behaviour) = handlers.map (·.behaviour)) {handler : StageHandler}
    (hmem : handler ∈ handlers') : ∃ old ∈ handlers, old.behaviour = handler.behaviour := by
  have hbehaviour := List.mem_map_of_mem (f := (·.behaviour)) hmem
  rw [h] at hbehaviour
  exact List.mem_map.mp hbehaviour

/-- Only lists that have more registrations, or deliveries of another type, can spoil the wiring. -/
theorem IsWired.of_sublist (hs : s.IsWired ok may rest)
    (hbehaviours : t.handlers.map (·.behaviour) = s.handlers.map (·.behaviour))
    (henabled : t.director.isEnabled = s.director.isEnabled)
    (hlists : ∀ type, (t.bus.registrations type).Sublist (s.bus.registrations type))
    (hcurrent : s.bus.StaysWith t.bus) : t.IsWired ok may rest where
  guests handler hmem := by
    obtain ⟨old, hold, hsame⟩ := exists_same_behaviour hbehaviours hmem
    rw [← hsame]
    exact hs.guests old hold
  lists type := by
    rw [henabled]
    exact Nat.le_trans (directors_le (hlists type)) (hs.lists type)
  rest e he := by
    obtain ⟨d, hd, hsame⟩ := hcurrent e he
    rw [henabled, hsame.type]
    exact hs.rest d hd
  priorities r hr := hs.priorities r ((hlists _).subset hr)

theorem IsWired.moves (hs : s.IsWired ok may rest)
    (hmoves : Bus.Moves (fun _ ↦ False) s.bus es t.bus)
    (hbehaviours : t.handlers.map (·.behaviour) = s.handlers.map (·.behaviour))
    (henabled : t.director.isEnabled = s.director.isEnabled) : t.IsWired ok may rest :=
  hs.of_sublist hbehaviours henabled hmoves.sublist hmoves.staysWith

theorem IsWired.attend (hs : s.IsWired ok may rest) {b : Bus StageListener}
    (h : s.bus.Attends b) : IsWired ok may rest { s with bus := b } := by
  refine hs.of_sublist rfl rfl (fun type ↦ ?_) (Bus.staysWith_attends h)
  rw [Bus.registrations_congr (Bus.lists_attends h)]

theorem IsWired.record (hs : s.IsWired ok may rest) (moment : Moment StageListener) :
    IsWired ok may rest { s with bus := s.bus.record moment } :=
  hs.of_sublist rfl rfl (fun _ ↦ List.Sublist.refl _) (Bus.staysWith_of_current rfl)

theorem IsWired.of_same (hs : s.IsWired ok may rest) (hbus : t.bus = s.bus)
    (hhandlers : t.handlers = s.handlers)
    (henabled : t.director.isEnabled = s.director.isEnabled) : t.IsWired ok may rest :=
  hs.of_sublist (by rw [hhandlers]) henabled (fun type ↦ by rw [hbus])
    (Bus.staysWith_of_current (by rw [hbus]))

theorem IsWired.tail (hs : s.IsWired ok may (entry :: rest)) : s.IsWired ok may rest where
  guests := hs.guests
  lists := hs.lists
  rest d hd := Nat.le_trans (directors_le_cons entry rest) (hs.rest d hd)
  priorities := hs.priorities

theorem IsWired.nil (hs : s.IsWired ok may rest) : s.IsWired ok may [] :=
  ⟨hs.guests, hs.lists, fun _ _ ↦ Nat.zero_le _, hs.priorities⟩

/-- In a delivery that does not go on to the director. -/
theorem IsWired.of_nil (hs : s.IsWired ok may []) (hrest : directors rest = 0) :
    s.IsWired ok may rest :=
  ⟨hs.guests, hs.lists, fun _ _ ↦ hrest ▸ Nat.zero_le _, hs.priorities⟩

theorem IsWired.begin (hs : s.IsWired ok may []) (event : Event) :
    IsWired ok may (s.bus.registrations event.type) { s with bus := s.bus.begin event } where
  guests := hs.guests
  lists := hs.lists
  rest d hd := by
    cases hd
    exact hs.lists event.type
  priorities := hs.priorities

theorem IsWired.finish (hs : s.IsWired ok may []) : IsWired ok may [] (handling.finish s) :=
  hs.of_sublist rfl rfl (Bus.finish_sublist _) (Bus.staysWith_finish _)

/-- The director's listener is removed, and nothing more. -/
theorem IsWired.ignored (hs : s.IsWired ok may rest) (hrest : directors rest = 0) :
    IsWired ok may rest { s with
      bus := s.bus.unsubscribe s.holds .actionPressed .director
      director := { s.director with isEnabled := false } } := by
  have hsublist := Bus.unsubscribe_sublist (b := s.bus) s.holds .actionPressed .director
  refine ⟨hs.guests, fun type ↦ ?_, fun d _ ↦ ?_, fun r hr ↦ ?_⟩
  · by_cases htype : type = .actionPressed
    · rw [htype, Bus.registrations_unsubscribe, if_pos rfl, directors, List.countP_filter]
      simp [Bus.isLive, holds]
    · rw [allowance_of_ne htype, ← hs.list_eq_zero htype]
      exact directors_le (hsublist type)
  · rw [hrest]
    exact Nat.zero_le _
  · exact hs.priorities r ((hsublist _).subset hr)

/-- The director's listener is registered where it was not. -/
theorem IsWired.listening (hs : s.IsWired ok may []) (hok : ok (.int 0))
    (hdisabled : s.director.isEnabled = false) : s.listening.IsWired ok may [] := by
  have hinsert : (Bus.insert ⟨.int 0, .director, .bool false, true, s.bus.count⟩
      (s.bus.registrations .actionPressed)).Perm
      (⟨.int 0, .director, .bool false, true, s.bus.count⟩ :: s.bus.registrations .actionPressed) :=
    Bus.perm_insert _ _
  refine ⟨hs.guests, fun type ↦ ?_, fun _ _ ↦ Nat.zero_le _, fun r hr ↦ ?_⟩
  · have hlist := hs.lists type
    rw [hdisabled] at hlist
    rw [Stage.listening, Bus.registrations_subscribe]
    by_cases htype : EventType.actionPressed = type
    · rw [if_pos htype, directors, hinsert.countP_eq, List.countP_cons_of_pos rfl,
        ← directors, htype]
      rw [allowance, if_neg (by simp)] at hlist
      rw [allowance, if_pos ⟨htype.symm, rfl⟩]
      omega
    · rw [if_neg htype]
      exact Nat.le_trans hlist (allowance_le_true _ _)
  · rw [Stage.listening, Bus.registrations_subscribe, if_pos rfl, hinsert.mem_iff] at hr
    rcases List.mem_cons.mp hr with rfl | hr
    · exact hok
    · exact hs.priorities r hr

theorem behaviours_countCall (index : Nat) (handlers : List StageHandler) :
    (countCall index handlers).map (·.behaviour) = handlers.map (·.behaviour) := by
  apply List.ext_getElem?
  intro i
  rw [countCall, List.getElem?_map, List.getElem?_map, List.getElem?_modify]
  split <;> cases handlers[i]? <;> rfl

/-! ## Calls -/

/-- The stage when the call of a listener has been counted. -/
def counting (s : Stage) : StageListener → Stage
  | .handler index => { s with handlers := countCall index s.handlers }
  | _ => s

@[simp] theorem counting_bus (listener : StageListener) : (s.counting listener).bus = s.bus := by
  cases listener <;> rfl

@[simp] theorem counting_director (listener : StageListener) :
    (s.counting listener).director = s.director := by
  cases listener <;> rfl

@[simp] theorem counting_playback (listener : StageListener) :
    (s.counting listener).playback = s.playback := by
  cases listener <;> rfl

@[simp] theorem counting_speaker (listener : StageListener) :
    (s.counting listener).speaker = s.speaker := by
  cases listener <;> rfl

theorem counting_behaviours (listener : StageListener) :
    (s.counting listener).handlers.map (·.behaviour) = s.handlers.map (·.behaviour) := by
  cases listener with
  | handler index => exact behaviours_countCall index s.handlers
  | _ => rfl

theorem countCall_of_none {index : Nat} {handlers : List StageHandler}
    (h : handlers[index]? = none) : countCall index handlers = handlers := by
  apply List.ext_getElem?
  intro i
  rw [countCall, List.getElem?_modify]
  split
  next heq => rw [← heq, h]; rfl
  next => exact congrFun Option.map_id _

theorem call_of_handler {index : Nat} {handler : StageHandler} {d : Delivery StageListener}
    (hd : s.bus.current = some d) (hhandler : s.handlers[index]? = some handler) :
    call (.handler index) s =
      (handler.behaviour handler.calls d.event).run (perform (Bus.post StageListener))
        consumeCurrent (s.counting (.handler index)) := by
  simp only [call, hd, hhandler]
  rfl

/-- A guest is called.  It is known what its program may do. -/
theorem exists_call_guest {d : Delivery StageListener} (hd : s.bus.current = some d)
    {listener : StageListener} (hguest : listener ≠ .director)
    (hprogram : ∀ index handler, listener = .handler index → s.handlers[index]? = some handler →
      (handler.behaviour handler.calls d.event).IsGuest may)
    (hmay : ∀ op, may op → op.IsExternal) :
    ∃ answer es t, (call listener).attempt s = (.returned answer, t) ∧
      (s.counting listener).Hosts es t ∧ ((∀ op, ¬may op) → es = []) := by
  cases listener with
  | director => exact absurd rfl hguest
  | observer =>
      refine ⟨.ok (), [], { s with journal.notes := s.journal.notes ++ [.event d.event] }, ?_,
        ⟨.refl, rfl, rfl, rfl, rfl⟩, fun _ ↦ rfl⟩
      simp [Act.attempt_apply, call, hd, Journal.note]
  | handler index =>
      cases hhandler : s.handlers[index]? with
      | none =>
          have hsame : s.counting (.handler index) = s := by
            rw [counting, countCall_of_none hhandler]
          refine ⟨.ok (), [], s, ?_, by rw [hsame]; exact .refl s, fun _ ↦ rfl⟩
          simp [Act.attempt_apply, call, hd, hhandler]
      | some handler =>
          obtain ⟨answer, es, t, hrun, hhosts, hquiet⟩ :=
            exists_run (hprogram index handler rfl hhandler) hmay (s.counting (.handler index))
          refine ⟨answer, es, t, ?_, hhosts, hquiet⟩
          rw [Act.attempt_apply, call_of_handler hd hhandler, ← Act.attempt_apply, hrun]

/-- What the call of the director's listener for an event comes to. -/
inductive Hears (s : Stage) (event : Event) : Option Failure → List Event → Stage → Prop
  | other {t : Stage} (hother : event.get "action" ≠ .action s.director.settings.advanceAction)
      (hdirector : t.director = s.director) (hplayback : t.playback = s.playback) :
      Hears s event none [] t
  | press {t : Stage} {outcome : Outcome Bool} {voices es : List Event}
      (hpress : event.get "action" = .action s.director.settings.advanceAction)
      (hlength : voices.length ≤ 2) (hvoices : ∀ e ∈ voices, e.IsVoice)
      (hsteps : Steps s.director s.playback outcome es t.director t.playback) :
      Hears s event outcome.failure? (voices ++ es) t

theorem steps_types {d d' : Director} {p p' : Playback} {outcome : Outcome Bool} {es : List Event}
    (h : Steps d p outcome es d' p') : ∀ e ∈ es, e.type ≠ .actionPressed := by
  cases h with
  | refused | failed => simp
  | executed => simp [Director.nodeEvent, Director.lineEvent]
  | ended =>
      rw [farewell]
      split <;> simp [Director.dialogueEvent]

/-- The director's listener posts at most two events about voice clips and two about the
dialogue. -/
theorem Hears.length_le {event : Event} {failure : Option Failure}
    (h : s.Hears event failure es t) :
    es.length ≤ 4 := by
  cases h with
  | other => exact Nat.zero_le _
  | press _ hlength _ hsteps =>
      rw [List.length_append]
      exact Nat.add_le_add hlength hsteps.length_le

theorem Hears.types {event : Event} {failure : Option Failure} (h : s.Hears event failure es t) :
    ∀ e ∈ es, e.type ≠ .actionPressed := by
  cases h with
  | other => simp
  | press _ _ hvoices hsteps =>
      intro e he
      rcases List.mem_append.mp he with he | he
      · rcases hvoices e he with htype | htype <;> simp [htype]
      · exact steps_types hsteps e he

theorem steps_advancing {d d' : Director} {p p' : Playback} {outcome : Outcome Bool}
    {es : List Event} (h : Steps d p outcome es d' p') : p'.advancing = p.advancing := by
  cases h <;> rfl

theorem hears_advancing {event : Event} {failure : Option Failure} {es : List Event}
    (h : s.Hears event failure es t) :
    t.playback.advancing = s.playback.advancing ∧ t.director.settings = s.director.settings := by
  cases h with
  | other _ hdirector hplayback =>
      rw [hdirector, hplayback]
      exact ⟨rfl, rfl⟩
  | press _ _ _ hsteps => exact ⟨steps_advancing hsteps, hsteps.agrees.settings⟩

/-- Inside a delivery nobody acts on the dialogue before the director is done, and a property is
kept that posting an event and ceasing to listen keep. -/
theorem isQuiet_post {ok : Value → Prop} {K : Stage → Prop} (b : Bus StageListener)
    (handlers : List StageHandler)
    (hpost : ∀ s event, K s → K { s with bus := s.bus.enqueue event })
    (hignore : ∀ s, K s → K { s with
      bus := s.bus.unsubscribe s.holds .actionPressed .director
      director := { s.director with isEnabled := false } })
    (hkeep : ∀ s t, K s → t.bus = s.bus → t.handlers = s.handlers →
      t.director.isEnabled = s.director.isEnabled → K t) :
    (Bus.post StageListener : Publisher Stage).IsQuiet fun t ↦
      (∃ es, Bus.Moves ok b es t.bus) ∧ t.handlers = handlers ∧ K t where
  publish := by
    rintro s event ⟨⟨es, hmoves⟩, hhandlers, hs⟩ -
    refine ⟨event, { s with bus := s.bus.enqueue event }, rfl,
      ⟨⟨_, hmoves.enqueue event⟩, hhandlers, hpost s event hs⟩, rfl, rfl, rfl, ?_⟩
    simp [Bus.announced, Bus.enqueue, Bus.record, Moment.published?]
  ignore := by
    rintro s ⟨⟨es, hmoves⟩, hhandlers, hs⟩
    exact ⟨⟨es, hmoves.unsubscribe s.holds .actionPressed .director⟩, hhandlers, hignore s hs⟩
  keep := by
    rintro s t ⟨⟨es, hmoves⟩, hhandlers, hs⟩ hbus hsame henabled
    exact ⟨⟨es, by rwa [hbus]⟩, hsame.trans hhandlers, hkeep s t hs hbus hsame henabled⟩

theorem exists_call_director (hs : s.IsWired ok may rest) (hrest : directors rest = 0)
    {d : Delivery StageListener} (hd : s.bus.current = some d) :
    ∃ answer es t, (call .director).attempt s = (.returned answer, t) ∧
      Bus.Moves (fun _ ↦ False) s.bus es t.bus ∧ t.handlers = s.handlers ∧ t.IsWired ok may rest ∧
      t.speaker = s.speaker ∧ s.Hears d.event (failureOf? answer) es t := by
  have hrun : call .director s =
      Director.onAction (wiring (Bus.post StageListener) s.speaker) consumeCurrent d.event s := by
    simp only [call, hd]
  by_cases hpress : d.event.get "action" = .action s.director.settings.advanceAction
  · let consumed : Stage := { s with bus := s.bus.consume }
    have hmoves : Bus.Moves (fun _ ↦ False) s.bus [] consumed.bus := .consume .refl
    have hconsumed : consumed.IsWired ok may rest := hs.moves hmoves rfl rfl
    obtain ⟨outcome, voices, es, t, hadvance, ⟨⟨posted, hposted⟩, hhandlers, ht⟩, hbecomes, hlength,
      hvoices, -, hsteps⟩ := exists_advance (isQuiet_post s.bus s.handlers
        (fun _ event hs ↦ hs.moves (.enqueue event .refl) rfl rfl) (fun _ hs ↦ hs.ignored hrest)
        fun _ _ hs ↦ hs.of_same) ⟨⟨[], hmoves⟩, rfl, hconsumed⟩ s.speaker
    rw [Bus.eq_of_announced_moves hposted hbecomes.announced] at hposted
    have hcall : call .director s = (outcome.map fun _ ↦ (), t) := by
      rw [hrun, Director.onAction, Act.bind_of_returned (Part.read_apply s), get_director,
        if_pos hpress]
      have hrest : (do
          consumeCurrent
          let _ ← Director.advance (wiring (Bus.post StageListener) s.speaker) : Act Stage Unit) s =
          (Director.advance (wiring (Bus.post StageListener) s.speaker) >>= fun _ ↦ pure ())
            consumed := rfl
      rw [hrest, Act.bind_pure_apply, hadvance]
    rcases hsteps.returned_or_failed with ⟨b, rfl⟩ | ⟨failure, rfl⟩
    · refine ⟨.ok (), voices ++ es, t, ?_, hposted, hhandlers, ht, hbecomes.speaker,
        .press hpress hlength hvoices hsteps⟩
      rw [Act.attempt_apply, hcall]
      rfl
    · refine ⟨.error failure, voices ++ es, t, ?_, hposted, hhandlers, ht, hbecomes.speaker,
        .press hpress hlength hvoices hsteps⟩
      rw [Act.attempt_apply, hcall]
      rfl
  · refine ⟨.ok (), [], s, ?_, .refl, rfl, hs, rfl, .other hpress rfl rfl⟩
    rw [Act.attempt_apply, hrun, Director.onAction, Act.bind_of_returned (Part.read_apply s),
      get_director, if_neg hpress]
    rfl

/-- The director is called for presses only, while it listens, and once in a delivery. -/
theorem IsWired.of_director (hs : s.IsWired ok may (entry :: rest)) {d : Delivery StageListener}
    (hd : s.bus.current = some d) (hdirector : entry.listener = .director) :
    s.director.isEnabled = true ∧ d.event.type = .actionPressed ∧ directors rest = 0 := by
  have hallowed := hs.rest d hd
  rw [directors_cons_of_director hdirector] at hallowed
  have hrest : directors rest = 0 := by
    have hone := allowance_le_one s.director.isEnabled d.event.type
    omega
  have hrunning : d.event.type = .actionPressed ∧ s.director.isEnabled = true := by
    by_contra hnot
    rw [allowance, if_neg hnot] at hallowed
    omega
  exact ⟨hrunning.2, hrunning.1, hrest⟩

theorem IsWired.counting (hs : s.IsWired ok may rest) (listener : StageListener) :
    (s.counting listener).IsWired ok may rest :=
  hs.of_sublist (counting_behaviours listener) (by simp) (fun _ ↦ by simp)
    (Bus.staysWith_of_current (by simp))

theorem IsWired.hosts (hs : s.IsWired ok may rest) (h : s.Hosts es t) : t.IsWired ok may rest :=
  hs.moves h.moves (by rw [h.handlers]) (by rw [h.director])

/-- The call of a listener, in a delivery that visits some other registrations after its own. -/
theorem exists_call (hs : s.IsWired ok may (entry :: rest))
    (hmay : ∀ op, may op → op.IsExternal) {d : Delivery StageListener}
    (hd : s.bus.current = some d) :
    ∃ answer es t, (call entry.listener).attempt s = (.returned answer, t) ∧
      Bus.Moves (fun _ ↦ False) s.bus es t.bus ∧ t.IsWired ok may rest ∧ t.speaker = s.speaker ∧
      (entry.listener ≠ .director ∧ (s.counting entry.listener).Hosts es t ∧
          ((∀ op, ¬may op) → es = []) ∨
        entry.listener = .director ∧ s.director.isEnabled = true ∧ d.event.type = .actionPressed ∧
          directors rest = 0 ∧ s.Hears d.event (failureOf? answer) es t) := by
  by_cases hguest : entry.listener = .director
  · obtain ⟨henabled, htype, hrest⟩ := hs.of_director hd hguest
    obtain ⟨answer, es, t, hcall, hmoves, -, ht, hspeaker, hhears⟩ :=
      exists_call_director hs.tail hrest hd
    rw [← hguest] at hcall
    exact ⟨answer, es, t, hcall, hmoves, ht, hspeaker,
      .inr ⟨hguest, henabled, htype, hrest, hhears⟩⟩
  · obtain ⟨answer, es, t, hcall, hhosts, hquiet⟩ := exists_call_guest hd hguest
      (fun index handler _ hhandler ↦
        hs.guests handler (List.mem_of_getElem? hhandler) handler.calls d.event) hmay
    refine ⟨answer, es, t, hcall, ?_, (hs.tail.counting entry.listener).hosts hhosts, ?_,
      .inl ⟨hguest, hhosts, hquiet⟩⟩
    · simpa using hhosts.moves
    · simpa using hhosts.speaker

/-! ## Operations in turn -/

/-- Perform operations from outside in turn, each of which delivers at most `fuel` waiting events,
up to one that stalls. -/
def performAll (fuel : Nat) : List StageOp → Stage → List (Outcome Value) × Stage
  | [], s => ([], s)
  | op :: ops, s =>
    match operate fuel op s with
    | (.stalled, t) => ([.stalled], t)
    | (outcome, t) =>
      let (outcomes, u) := performAll fuel ops t
      (outcome :: outcomes, u)

theorem performAll_cons {fuel : Nat} {op : StageOp} (ops : List StageOp) {outcome : Outcome Value}
    (hop : operate fuel op s = (outcome, t)) (hends : outcome ≠ .stalled) :
    performAll fuel (op :: ops) s =
      (outcome :: (performAll fuel ops t).1, (performAll fuel ops t).2) := by
  rw [performAll, hop]
  cases outcome with
  | stalled => exact absurd rfl hends
  | _ => rfl

end Stage

end LinearDialogue
