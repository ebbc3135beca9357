import LinearDialogue.Exchange
import LinearDialogue.Proofs.Deliveries

/-!
# Runs of an exchange

The handlers of an exchange may do anything with the bus, and they may fail, but they do not abort.
Then every event that is published is delivered exactly once, in the order of publication, and one
delivery is over before the next one begins.
-/

namespace LinearDialogue

/-- A program that does not abort, nor do the handlers that it defines.  The priorities of its
registrations are as `ok` says. -/
inductive Program.IsOrdinary (ok : Value → Prop) : Program ExchangeOp → Prop
  | done : IsOrdinary ok .done
  | fail (failure : Failure) : IsOrdinary ok (.fail failure)
  | consume {next : Program ExchangeOp} (h : IsOrdinary ok next) : IsOrdinary ok (.consume next)
  | note {item : Note} {next : Program ExchangeOp} (h : IsOrdinary ok next) :
      IsOrdinary ok (.note item next)
  | perform {op : ExchangeOp} {next : Except Failure Value → Program ExchangeOp}
      (hpriority : ∀ type name priority oneShot weak,
        op = .subscribe type name priority oneShot weak → ok priority)
      (hbehaviour : ∀ name bound behaviour, op = .define name bound behaviour →
        ∀ call event, IsOrdinary ok (behaviour call event))
      (h : ∀ answer, IsOrdinary ok (next answer)) : IsOrdinary ok (.perform op next)

/-- An operation that makes only such handlers and registrations. -/
structure ExchangeOp.IsOrdinary (ok : Value → Prop) (op : ExchangeOp) : Prop where
  priority : ∀ type name priority oneShot weak,
    op = .subscribe type name priority oneShot weak → ok priority
  behaviour : ∀ name bound behaviour, op = .define name bound behaviour →
    ∀ call event, (behaviour call event).IsOrdinary ok

theorem ExchangeOp.IsOrdinary.define {ok : Value → Prop} {name : String} {bound : Bool}
    {behaviour : Behaviour ExchangeOp} (h : ∀ call event, (behaviour call event).IsOrdinary ok) :
    ExchangeOp.IsOrdinary ok (.define name bound behaviour) where
  priority _ _ _ _ _ heq := by cases heq
  behaviour _ _ _ heq := by cases heq; exact h

theorem ExchangeOp.IsOrdinary.subscribe {ok : Value → Prop} {priority : Value} (h : ok priority)
    (type : EventType) (name : String) (oneShot : Value) (weak : Bool) :
    ExchangeOp.IsOrdinary ok (.subscribe type name priority oneShot weak) where
  priority _ _ _ _ _ heq := by cases heq; exact h
  behaviour _ _ _ heq := by cases heq

theorem ExchangeOp.IsOrdinary.unsubscribe (ok : Value → Prop) (type : EventType) (name : String) :
    ExchangeOp.IsOrdinary ok (.unsubscribe type name) where
  priority _ _ _ _ _ heq := by cases heq
  behaviour _ _ _ heq := by cases heq

theorem ExchangeOp.IsOrdinary.drop (ok : Value → Prop) (name : String) :
    ExchangeOp.IsOrdinary ok (.drop name) where
  priority _ _ _ _ _ heq := by cases heq
  behaviour _ _ _ heq := by cases heq

theorem ExchangeOp.IsOrdinary.clear (ok : Value → Prop) (type : Option EventType) :
    ExchangeOp.IsOrdinary ok (.clear type) where
  priority _ _ _ _ _ heq := by cases heq
  behaviour _ _ _ heq := by cases heq

theorem ExchangeOp.IsOrdinary.publish (ok : Value → Prop) (event : Event) :
    ExchangeOp.IsOrdinary ok (.publish event) where
  priority _ _ _ _ _ heq := by cases heq
  behaviour _ _ _ heq := by cases heq

theorem Program.IsOrdinary.of_op {ok : Value → Prop} {op : ExchangeOp}
    {next : Except Failure Value → Program ExchangeOp} (hop : op.IsOrdinary ok)
    (h : ∀ answer, (next answer).IsOrdinary ok) : (Program.perform op next).IsOrdinary ok :=
  .perform hop.priority hop.behaviour h

namespace Exchange

@[simp] theorem get_bus (s : Exchange) : (Part.get s : Bus Listener) = s.bus := rfl

@[simp] theorem set_bus (b : Bus Listener) (s : Exchange) :
    Part.set b s = { s with bus := b } := rfl

@[simp] theorem get_journal (s : Exchange) : (Part.get s : Journal) = s.journal := rfl

@[simp] theorem set_journal (j : Journal) (s : Exchange) :
    Part.set j s = { s with journal := j } := rfl

@[simp] theorem get_handlers (s : Exchange) : (Part.get s : List HandlerState) = s.handlers := rfl

@[simp] theorem set_handlers (handlers : List HandlerState) (s : Exchange) :
    Part.set handlers s = { s with handlers } := rfl

def IsOrdinary (ok : Value → Prop) (s : Exchange) : Prop :=
  ∀ handler ∈ s.handlers, ∀ call event, (handler.behaviour call event).IsOrdinary ok

variable {ok : Value → Prop} {s t : Exchange}

section Handlers

variable {P : Program ExchangeOp → Prop} {handlers : List HandlerState}
  (h : ∀ handler ∈ handlers, ∀ call event, P (handler.behaviour call event))

include h

/-- What is true of the programs of all handlers stays so when a name is let go. -/
theorem forall_letGo (name : String) :
    ∀ handler ∈ letGo name handlers, ∀ call event, P (handler.behaviour call event) := by
  intro handler hmem
  obtain ⟨old, hold, rfl⟩ := List.mem_map.mp hmem
  have hsame : (if old.listener.name == name then { old with held := false } else old).behaviour =
      old.behaviour := by split <;> rfl
  rw [hsame]
  exact h old hold

theorem forall_define {name : String} {bound : Bool} {behaviour : Behaviour ExchangeOp}
    (hbehaviour : ∀ call event, P (behaviour call event)) :
    ∀ handler ∈ define name bound behaviour handlers, ∀ call event,
      P (handler.behaviour call event) := by
  intro handler hmem
  rcases List.mem_append.mp hmem with hold | hnew
  · exact forall_letGo h name handler hold
  · rw [List.mem_singleton.mp hnew]
    exact hbehaviour

theorem forall_countCall (listener : Listener) :
    ∀ handler ∈ countCall listener handlers, ∀ call event, P (handler.behaviour call event) := by
  intro handler hmem
  obtain ⟨old, hold, rfl⟩ := List.mem_map.mp hmem
  have hsame : (if old.listener == listener then { old with calls := old.calls + 1 }
      else old).behaviour = old.behaviour := by split <;> rfl
  rw [hsame]
  exact h old hold

end Handlers

theorem IsOrdinary.letGo (hs : s.IsOrdinary ok) (name : String) :
    ({ s with handlers := letGo name s.handlers } : Exchange).IsOrdinary ok :=
  forall_letGo hs name

theorem IsOrdinary.define (hs : s.IsOrdinary ok) {name : String} {bound : Bool}
    {behaviour : Behaviour ExchangeOp} (h : ∀ call event, (behaviour call event).IsOrdinary ok) :
    ({ s with handlers := define name bound behaviour s.handlers } : Exchange).IsOrdinary ok :=
  forall_define hs h

theorem IsOrdinary.countCall (hs : s.IsOrdinary ok) (listener : Listener) :
    ({ s with handlers := countCall listener s.handlers } : Exchange).IsOrdinary ok :=
  forall_countCall hs listener

def published? : ExchangeOp → Option Event
  | .publish event => some event
  | _ => none

/-- What needs the handler of a name fails where there is none. -/
theorem exists_listenerOf {P : Exchange → Prop} (name : String) (f : Listener → Act Exchange Value)
    (hmissing : P s)
    (h : ∀ listener, ∃ answer t, (f listener).attempt s = (.returned answer, t) ∧ P t) :
    ∃ answer t, (listenerOf name >>= f).attempt s = (.returned answer, t) ∧ P t := by
  cases hname : s.named? name with
  | none =>
      refine ⟨.error (.missingKey (.text name)), s, ?_, hmissing⟩
      simp [Act.attempt_apply, Act.bind_apply, listenerOf, hname]
  | some handler =>
      obtain ⟨answer, t, hrun, ht⟩ := h handler.listener
      refine ⟨answer, t, ?_, ht⟩
      rw [Act.attempt_apply] at hrun ⊢
      simpa [Act.bind_apply, listenerOf, hname] using hrun

/-- An operation that does not publish returns or fails, and posts nothing. -/
theorem exists_perform {op : ExchangeOp} (hop : op.IsOrdinary ok) (hs : s.IsOrdinary ok)
    (publish : Publisher Exchange) (hquiet : published? op = none) :
    ∃ answer t, (perform publish op).attempt s = (.returned answer, t) ∧
      Bus.Moves ok s.bus [] t.bus ∧ t.IsOrdinary ok := by
  cases op with
  | define name bound behaviour =>
      exact ⟨_, _, rfl, .refl, hs.define (hop.behaviour name bound behaviour rfl)⟩
  | drop name =>
      apply exists_listenerOf name _ ⟨.refl, hs⟩
      intro listener
      exact ⟨_, _, rfl, .refl, hs.letGo name⟩
  | subscribe type name priority oneShot weak =>
      apply exists_listenerOf name _ ⟨.refl, hs⟩
      intro listener
      cases hplace : Bus.hasPlaceFor priority (s.bus.registrations type) with
      | false =>
          refine ⟨.error .wrongType, s, ?_, .refl, hs⟩
          simp [Act.attempt_apply, Act.bind_apply, Bus.register, hplace]
      | true =>
          let bus := s.bus.subscribe type listener priority oneShot weak
          have hmoves : Bus.Moves ok s.bus [] bus :=
            .subscribe type listener oneShot weak .refl
              (hop.priority type name priority oneShot weak rfl)
          refine ⟨.ok .null, { s with bus }, ?_, hmoves, hs⟩
          simp [Act.attempt_apply, Act.bind_apply, Bus.register, hplace, bus]
  | unsubscribe type name =>
      apply exists_listenerOf name _ ⟨.refl, hs⟩
      intro listener
      exact ⟨_, _, rfl, .unsubscribe s.holds type listener .refl, hs⟩
  | isSubscribed type name =>
      apply exists_listenerOf name _ ⟨.refl, hs⟩
      intro listener
      exact ⟨_, _, rfl, .refl, hs⟩
  | publish event => cases hquiet
  | clear type => exact ⟨_, _, rfl, .clear type .refl, hs⟩

/-- Inside a delivery every operation returns or fails. -/
theorem exists_perform_post {op : ExchangeOp} (hop : op.IsOrdinary ok) (hs : s.IsOrdinary ok) :
    ∃ answer es t, (perform (Bus.post Listener) op).attempt s = (.returned answer, t) ∧
      Bus.Moves ok s.bus es t.bus ∧ t.IsOrdinary ok := by
  cases hpublished : published? op with
  | none =>
      obtain ⟨answer, t, hrun, hmoves, ht⟩ := exists_perform hop hs (Bus.post Listener) hpublished
      exact ⟨answer, [], t, hrun, hmoves, ht⟩
  | some event =>
      cases op <;> cases hpublished
      exact ⟨_, [event], _, rfl, .enqueue event .refl, hs⟩

theorem exists_run {program : Program ExchangeOp} (hprogram : program.IsOrdinary ok)
    (hs : s.IsOrdinary ok) :
    ∃ answer es t,
      (program.run (perform (Bus.post Listener)) consumeCurrent).attempt s = (.returned answer, t) ∧
      Bus.Moves ok s.bus es t.bus ∧ t.IsOrdinary ok := by
  induction hprogram generalizing s with
  | done => exact ⟨.ok (), [], s, rfl, .refl, hs⟩
  | fail failure => exact ⟨.error failure, [], s, rfl, .refl, hs⟩
  | @consume next _ ih =>
      have hconsumed : ({ s with bus := s.bus.consume } : Exchange).IsOrdinary ok := hs
      obtain ⟨answer, es, t, hrun, hmoves, ht⟩ := ih hconsumed
      exact ⟨answer, es, t, hrun, (Bus.Moves.refl.consume).trans hmoves, ht⟩
  | @note item next _ ih =>
      have hnoted :
          ({ s with journal.notes := s.journal.notes ++ [item] } : Exchange).IsOrdinary ok :=
        hs
      obtain ⟨answer, es, t, hrun, hmoves, ht⟩ := ih hnoted
      exact ⟨answer, es, t, hrun, hmoves, ht⟩
  | @perform op next hpriority hbehaviour _ _ ih =>
      obtain ⟨first, es, t, hop, hmoves, ht⟩ := exists_perform_post ⟨hpriority, hbehaviour⟩ hs
      obtain ⟨answer, fs, u, hrun, hrest, hu⟩ := ih first ht
      refine ⟨answer, es ++ fs, u, ?_, hmoves.trans hrest, hu⟩
      rw [Act.attempt_apply] at hrun ⊢
      rw [Program.run, Act.bind_apply, hop]
      exact hrun

/-- Every handler returns or fails when it is called. -/
theorem exists_call (listener : Listener) (hs : s.IsOrdinary ok) :
    ∃ answer es t, (call listener).attempt s = (.returned answer, t) ∧
      Bus.Moves ok s.bus es t.bus ∧ t.IsOrdinary ok := by
  cases hhandler : s.handler? listener with
  | none =>
      refine ⟨.ok (), [], s, ?_, .refl, hs⟩
      simp [Act.attempt_apply, call, hhandler]
  | some handler =>
      cases hcurrent : s.bus.current with
      | none =>
          refine ⟨.ok (), [], s, ?_, .refl, hs⟩
          simp [Act.attempt_apply, call, hhandler, hcurrent]
      | some d =>
          have hmem : handler ∈ s.handlers := List.mem_of_find?_eq_some hhandler
          obtain ⟨answer, es, t, hrun, hmoves, ht⟩ :=
            exists_run (hs handler hmem handler.calls d.event)
              (s := { s with
                handlers := countCall listener s.handlers
                journal.notes := s.journal.notes ++ [.call listener.name d.event] })
              (hs.countCall listener)
          refine ⟨answer, es, t, ?_, hmoves, ht⟩
          rw [Act.attempt_apply] at hrun ⊢
          simpa [call, hhandler, hcurrent, Act.bind_apply, Journal.note] using hrun

theorem handling_obeys (ok : Value → Prop) :
    handling.Obeys ok (fun _ ↦ True) (fun _ s ↦ s.IsOrdinary ok) (fun _ _ ↦ True) where
  apart _ _ _ := rfl
  journal _ h := h
  attend _ h := h
  wait _ _ := trivial
  begin _ h := h
  finish h := h
  tail h := h
  call {entry} _ _ _ hs _ _ := by
    obtain ⟨answer, es, t, hrun, hmoves, ht⟩ := exists_call entry.listener hs
    exact ⟨answer, es, t, hrun, hmoves, ht, fun _ _ ↦ trivial⟩

/-- An exchange is used from outside: operations are performed in turn, and each comes to an end. -/
inductive Runs : Exchange → List ExchangeOp → Exchange → Prop
  | nil {s : Exchange} : Runs s [] s
  | cons {s t u : Exchange} {op : ExchangeOp} {ops : List ExchangeOp} {outcome : Outcome Value}
      (fuel : Nat) (hop : operate fuel op s = (outcome, t)) (hends : outcome ≠ .stalled)
      (h : Runs t ops u) : Runs s (op :: ops) u

/-- Perform operations in turn, each of which delivers at most `fuel` waiting events. -/
def runAll (fuel : Nat) : List ExchangeOp → Exchange → Option Exchange
  | [], s => some s
  | op :: ops, s =>
    match operate fuel op s with
    | (.stalled, _) => none
    | (_, t) => runAll fuel ops t

theorem runs_of_runAll {fuel : Nat} {ops : List ExchangeOp} (h : runAll fuel ops s = some t) :
    Runs s ops t := by
  induction ops generalizing s with
  | nil =>
      cases h
      exact .nil
  | cons op ops ih =>
      rw [runAll] at h
      split at h
      next => cases h
      next outcome u hends hrun => exact .cons fuel hrun hends (ih h)

theorem moves_of_operate {op : ExchangeOp} {fuel : Nat} {outcome : Outcome Value}
    (hop : op.IsOrdinary ok) (hs : s.IsOrdinary ok) (hquiet : published? op = none)
    (hrun : operate fuel op s = (outcome, t)) : Bus.Moves ok s.bus [] t.bus ∧ t.IsOrdinary ok := by
  obtain ⟨answer, u, hattempt, hmoves, hu⟩ := exists_perform hop hs (handling.publish fuel) hquiet
  have hsame : u = t := by
    rw [operate] at hrun
    rw [Act.attempt_apply, hrun] at hattempt
    cases outcome <;> cases hattempt <;> rfl
  rw [← hsame]
  exact ⟨hmoves, hu⟩

theorem publishes_of_operate {event : Event} {fuel : Nat} {outcome : Outcome Value}
    (hs : s.IsOrdinary ok) (hrun : operate fuel (.publish event) s = (outcome, t))
    (hends : outcome ≠ .stalled) :
    ∃ publication : Publication Listener, publication.first.event = event ∧
      Bus.Publishes ok s.bus publication t.bus ∧ t.bus.queue = [] ∧ t.IsOrdinary ok := by
  obtain ⟨publication, published, u, hpublish, hfirst, hpublishes, hu, -, hend⟩ :=
    (handling_obeys ok).publish (s := s) fuel trivial hs
  rw [operate, perform, Act.bind_apply, hpublish] at hrun
  rcases hend with ⟨⟨e, rfl⟩, hqueue⟩ | ⟨rfl, -, -⟩
  · cases hrun
    exact ⟨publication, hfirst, hpublishes, hqueue, hu⟩
  · cases hrun
    exact absurd rfl hends

/-- What is done from outside is a run of the bus. -/
theorem Runs.exists_bus_runs {ops : List ExchangeOp} (h : Runs s ops t)
    (hops : ∀ op ∈ ops, op.IsOrdinary ok) (hs : s.IsOrdinary ok) :
    ∃ publications : List (Publication Listener), Bus.Runs ok s.bus publications t.bus ∧
      publications.map (·.first.event) = ops.filterMap published? ∧ t.IsOrdinary ok := by
  induction h with
  | nil => exact ⟨[], .nil, rfl, hs⟩
  | @cons s t u op ops outcome fuel hop hends _ ih =>
      have hrest : ∀ op ∈ ops, op.IsOrdinary ok := fun op hop ↦ hops op (List.mem_cons_of_mem _ hop)
      cases hpublished : published? op with
      | none =>
          obtain ⟨hmoves, ht⟩ := moves_of_operate (hops op List.mem_cons_self) hs hpublished hop
          obtain ⟨publications, hruns, hevents, hu⟩ := ih hrest ht
          refine ⟨publications, .move hmoves hruns, ?_, hu⟩
          rw [hevents, List.filterMap_cons_none hpublished]
      | some event =>
          have hevent : op = .publish event := by cases op <;> cases hpublished; rfl
          rw [hevent] at hop
          obtain ⟨publication, hfirst, hpublishes, hqueue, ht⟩ := publishes_of_operate hs hop hends
          obtain ⟨publications, hruns, hevents, hu⟩ := ih hrest ht
          refine ⟨publication :: publications, .publish hpublishes hqueue hruns, ?_, hu⟩
          rw [List.map_cons, hevents, hfirst, List.filterMap_cons_some hpublished]

end Exchange

end LinearDialogue
