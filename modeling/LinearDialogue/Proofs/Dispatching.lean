import LinearDialogue.Proofs.Exchanges

/-!
# Publishing by a look at the bus

Handlers know nothing of deliveries.  Whoever publishes an event looks at the bus: while an event is
delivered, the new one waits; otherwise it is dispatched.  To dispatch an event is to deliver it and
then to dispatch all that waits, each event in the same way.  On a bus on which nothing is going on
this comes to the same as publishing from outside, with handlers whose events always wait and one
loop that delivers them.
-/

namespace LinearDialogue

variable {ρ σ : Type} [DecidableEq ρ] [Part (Bus ρ) σ] [Part Journal σ]

namespace Handling

/-- Dispatch the events that wait.  The first one is delivered, which is followed by a look at what
waits then, and so is every other one. -/
def dispatchWaiting (h : Handling ρ σ) : Nat → Act σ Unit
  | 0 => do
    match (← Part.read (Bus ρ)).queue with
    | [] => return ()
    | _ :: _ => Act.stall
  | fuel + 1 => do
    match (← Part.read (Bus ρ)).queue with
    | [] => return ()
    | event :: rest =>
      Part.update (Bus ρ) fun bus => { bus with queue := rest }
      let _ ← h.deliver event
      h.dispatchWaiting fuel
      h.dispatchWaiting fuel

/-- Dispatch an event, or let it wait while another is delivered. -/
def publishByLook (h : Handling ρ σ) (fuel : Nat) : Publisher σ := fun event => do
  if (← Part.read (Bus ρ)).current.isSome then Bus.post ρ event
  else
    Act.ensure (do
      Part.update (Bus ρ) (Bus.record (.published event))
      let event ← h.deliver event
      h.dispatchWaiting fuel
      return event) fun s => Part.set (Bus.release (Part.get s : Bus ρ)) s

variable {h k : Handling ρ σ}

theorem queue_eq_nil_of_drain {fuel : Nat} {s t : σ} (hrun : h.drain fuel s = (.returned (), t)) :
    (Part.get t : Bus ρ).queue = [] := by
  induction fuel generalizing s with
  | zero =>
      cases hqueue : (Part.get s : Bus ρ).queue <;>
        simp [drain, Act.bind_apply, hqueue] at hrun
      rwa [← hrun]
  | succ fuel ih =>
      cases hqueue : (Part.get s : Bus ρ).queue with
      | nil =>
          simp [drain, Act.bind_apply, hqueue] at hrun
          rwa [← hrun]
      | cons event rest =>
          simp only [drain, Act.bind_apply, Part.read_apply, hqueue, Part.update_apply] at hrun
          split at hrun
          next => exact ih hrun
          all_goals cases hrun

theorem dispatchWaiting_of_queue {fuel : Nat} {s : σ} (hqueue : (Part.get s : Bus ρ).queue = []) :
    h.dispatchWaiting fuel s = (.returned (), s) := by
  cases fuel <;> simp [dispatchWaiting, Act.bind_apply, hqueue]

/-- When an event has been dispatched, nothing waits, so one loop delivers all. -/
theorem dispatchWaiting_eq_drain (fuel : Nat) (s : σ) :
    h.dispatchWaiting fuel s = h.drain fuel s := by
  induction fuel generalizing s with
  | zero => rfl
  | succ fuel ih =>
      cases hqueue : (Part.get s : Bus ρ).queue with
      | nil => simp [dispatchWaiting, drain, Act.bind_apply, hqueue]
      | cons event rest =>
          simp only [dispatchWaiting, drain, Act.bind_apply, Part.read_apply, hqueue,
            Part.update_apply]
          split
          next u hdeliver =>
            rw [ih]
            rcases hdrain : h.drain fuel u with ⟨_ | _ | _ | _, t⟩
            · exact dispatchWaiting_of_queue (queue_eq_nil_of_drain hdrain)
            all_goals rfl
          all_goals rfl

/-- Two handlings agree when a listener is called in a state with a property. -/
structure Agrees (k h : Handling ρ σ) (I : List (Registration ρ) → σ → Prop) : Prop where
  held : k.held = h.held
  distinct : k.distinct = h.distinct
  call : ∀ {entry : Registration ρ} {rest : List (Registration ρ)} {s : σ} {d : Delivery ρ},
    I (entry :: rest) s → (Part.get s : Bus ρ).current = some d →
    k.call entry.listener s = h.call entry.listener s

variable {ok : Value → Prop} {E : Event → Prop} {I : List (Registration ρ) → σ → Prop}
  {Q : Event → Call ρ → Prop} {s t : σ} {d : Delivery ρ}

theorem Agrees.visit (ha : k.Agrees h I) (ho : h.Obeys ok E I Q) (type : EventType)
    {entries : List (Registration ρ)} (hI : I entries s)
    (hd : (Part.get s : Bus ρ).current = some d) :
    k.visit type entries s = h.visit type entries s := by
  induction entries generalizing s d with
  | nil => rfl
  | cons entry rest ih =>
      cases hlive : Bus.isLive (h.held s) (Part.get s) entry with
      | false =>
          obtain ⟨hmarked, e, he, -⟩ := ho.gone hI hd
          have hsame := ih hmarked (by rw [Part.get_set, he])
          rw [visit_of_gone rest hlive, visit_of_gone rest (by rw [ha.held, hlive]), hsame]
      | true =>
          obtain ⟨es, failure, c, t, hlogged, -, hget, hafter, ⟨e, he, -⟩, -⟩ :=
            ho.called type hI hd
          have hsame := ih hafter (by rw [Part.get_set, he])
          have hcall := ha.call (d := { d with last := some entry.listener })
            (ho.attend (.record (.called entry) rfl) (ho.attend (.meet (some entry.listener)) hI))
            (by simp [Part.get_set, Bus.record, Bus.meet, Bus.onCurrent, hd])
          have hcalled : k.callLogged type entry
              (Part.set ((Part.get s : Bus ρ).meet (some entry.listener)) s) =
                (.returned (), t) := by
            rw [← hlogged]
            simp only [callLogged, Act.bind_apply, Part.update_apply, Act.attempt_apply, hcall]
          rw [visit_of_called rest hlive hlogged hget,
            visit_of_called rest (by rw [ha.held, hlive]) hcalled hget, hsame]

theorem Agrees.deliver (ha : k.Agrees h I) (ho : h.Obeys ok E I Q) {event : Event} (he : E event)
    (hI : I [] s) :
    k.deliver event s = h.deliver event s := by
  have hopened := ho.opening event hI
  cases hentries : ((Part.get s : Bus ρ).opening event).registrations event.type with
  | nil => rw [deliver_of_nil hentries, deliver_of_nil hentries]
  | cons first others =>
      have hbegun := ho.beginning he hI
      rw [hentries] at hbegun
      obtain ⟨calls, t, hvisit, -⟩ := ho.visit event.type hbegun (d := { event := event })
        (by rw [Part.get_set]; rfl)
      have hsame := ha.visit ho event.type hbegun (d := { event := event })
        (by rw [Part.get_set]; rfl)
      rw [deliver_of_cons hentries hvisit, deliver_of_cons hentries (hsame.trans hvisit), finish,
        finish, ha.distinct]

theorem Agrees.drain (ha : k.Agrees h I) (ho : h.Obeys ok E I Q) (fuel : Nat) (hI : I [] s) :
    k.drain fuel s = h.drain fuel s := by
  induction fuel generalizing s with
  | zero => rfl
  | succ fuel ih =>
      cases hqueue : (Part.get s : Bus ρ).queue with
      | nil => simp [Handling.drain, Act.bind_apply, hqueue]
      | cons event waiting =>
          have hevent : E event := ho.wait hI (by rw [hqueue]; exact List.mem_cons_self)
          have htaken := ho.attend (.take hqueue) hI
          obtain ⟨round, e, u, hdeliver, -, -, hu, -⟩ := ho.deliver hevent htaken
          have hsame := ha.deliver ho hevent htaken
          simp [Handling.drain, Act.bind_apply, hqueue, hsame, hdeliver, ih hu]

theorem Agrees.publish (ha : k.Agrees h I) (ho : h.Obeys ok E I Q) (fuel : Nat)
    {event : Event} (he : E event)
    (hI : I [] (Part.set ((Part.get s : Bus ρ).record (.published event)) s)) :
    k.publish fuel event s = h.publish fuel event s := by
  obtain ⟨round, e, u, hdeliver, -, -, hu, -⟩ := ho.deliver he hI
  have hsame := ha.deliver ho he hI
  simp [Handling.publish, Act.bind_apply, hsame, hdeliver, ha.drain ho fuel hu]

theorem Agrees.publishByLook (ha : k.Agrees h I) (ho : h.Obeys ok E I Q) (fuel : Nat)
    {event : Event} (he : E event)
    (hI : I [] (Part.set ((Part.get s : Bus ρ).record (.published event)) s))
    (hidle : (Part.get s : Bus ρ).current = none) :
    k.publishByLook fuel event s = h.publish fuel event s := by
  rw [← ha.publish ho fuel he hI]
  simp [Handling.publishByLook, Handling.publish, Act.bind_apply, hidle, dispatchWaiting_eq_drain]

end Handling

namespace Exchange

/-- Call a handler; `publish` says how its program publishes events. -/
def callBy (publish : Publisher Exchange) (listener : Listener) : Act Exchange Unit := fun s =>
  match s.handler? listener, s.bus.current with
  | some h, some d =>
    (do
      Journal.note (.call listener.name d.event)
      Part.update (List HandlerState) (countCall listener)
      (h.behaviour h.calls d.event).run (perform publish) consumeCurrent :
      Act Exchange Unit) s
  | _, _ => (.returned (), s)

/-- How the bus of an exchange treats handlers that publish in a given way. -/
def handlingBy (publish : Publisher Exchange) : Handling Listener Exchange :=
  { handling with call := callBy publish }

/-- Publish by a look at the bus, also from the handlers that are called then.  At most `depth`
looks are nested. -/
def publishByLook : (depth fuel : Nat) → Publisher Exchange
  | 0, _ => fun _ => Act.stall
  | depth + 1, fuel => (handlingBy (publishByLook depth fuel)).publishByLook fuel

/-- Perform an operation, where all that publish look at the bus. -/
def operateByLook (depth fuel : Nat) : ExchangeOp → Act Exchange Value :=
  perform (publishByLook depth fuel)

variable {ok : Value → Prop} {s : Exchange}

theorem perform_congr {publish : Publisher Exchange} {op : ExchangeOp}
    (h : ∀ event, publish event s = Bus.post Listener event s) :
    perform publish op s = perform (Bus.post Listener) op s := by
  cases op with
  | publish event => simp only [perform, Act.bind_apply, h]
  | _ => rfl

/-- While an event is delivered, a program whose events wait if they have to lets them wait. -/
theorem run_congr {publish : Publisher Exchange}
    (h : ∀ event (s : Exchange), s.bus.current.isSome = true →
      publish event s = Bus.post Listener event s)
    {program : Program ExchangeOp} (hprogram : program.IsOrdinary ok) (hs : s.IsOrdinary ok)
    {d : Delivery Listener} (hd : s.bus.current = some d) :
    program.run (perform publish) consumeCurrent s =
      program.run (perform (Bus.post Listener)) consumeCurrent s := by
  induction hprogram generalizing s d with
  | done => rfl
  | fail failure => rfl
  | @consume next _ ih =>
      have hconsumed : s.bus.consume.current = some { d with event := d.event.consume } := by
        simp [Bus.consume, Bus.onCurrent, hd]
      exact ih (s := { s with bus := s.bus.consume }) hs hconsumed
  | @note item next _ ih =>
      exact ih (s := { s with journal.notes := s.journal.notes ++ [item] }) hs hd
  | @perform op next hpriority hbehaviour _ _ ih =>
      obtain ⟨answer, es, t, hop, hmoves, ht⟩ := exists_perform_post ⟨hpriority, hbehaviour⟩ hs
      obtain ⟨e, he, -⟩ := hmoves.continues hd
      have hsame : perform publish op s = perform (Bus.post Listener) op s :=
        perform_congr fun event ↦ h event s (by rw [hd, Option.isSome_some])
      have hrest := ih answer ht he
      rw [Act.attempt_apply] at hop
      simp only [Program.run, Act.bind_apply, Act.attempt_apply, hsame]
      simp only [hop, hrest]

theorem handlingBy_agrees (ok : Value → Prop) {publish : Publisher Exchange}
    (h : ∀ event (s : Exchange), s.bus.current.isSome = true →
      publish event s = Bus.post Listener event s) :
    (handlingBy publish).Agrees handling fun _ s ↦ s.IsOrdinary ok where
  held := rfl
  distinct := rfl
  call {entry rest s d} hs hd := by
    cases hhandler : s.handler? entry.listener with
    | none => simp [handlingBy, handling, callBy, call, hhandler]
    | some handler =>
        have hcurrent : s.bus.current = some d := hd
        have hmem : handler ∈ s.handlers := List.mem_of_find?_eq_some hhandler
        have hrun := run_congr h (hs handler hmem handler.calls d.event)
          (s := { s with
            handlers := countCall entry.listener s.handlers
            journal.notes := s.journal.notes ++ [.call entry.listener.name d.event] })
          (hs.countCall entry.listener) hcurrent
        simpa [handlingBy, handling, callBy, call, hhandler, hcurrent, Act.bind_apply,
          Journal.note] using hrun

theorem publishByLook_of_current (depth fuel : Nat) (event : Event)
    (hcurrent : s.bus.current.isSome = true) :
    publishByLook (depth + 1) fuel event s = Bus.post Listener event s := by
  simp [publishByLook, Handling.publishByLook, Act.bind_apply, hcurrent]

/-- Where no event is delivered, to look at the bus is to publish from outside. -/
theorem publishByLook_of_idle (depth fuel : Nat) (event : Event) (hs : s.IsOrdinary ok)
    (hidle : s.bus.current = none) :
    publishByLook (depth + 2) fuel event s = handling.publish fuel event s := by
  have hagrees := handlingBy_agrees ok (fun event s hcurrent ↦
    publishByLook_of_current (s := s) depth fuel event hcurrent)
  exact hagrees.publishByLook (handling_obeys ok) fuel trivial hs hidle

/-- The operations from outside are the same. -/
theorem operateByLook_eq_operate (depth fuel : Nat) (op : ExchangeOp) (hs : s.IsOrdinary ok)
    (hidle : s.bus.current = none) : operateByLook (depth + 2) fuel op s = operate fuel op s := by
  cases op with
  | publish event =>
      simp only [operateByLook, operate, perform, Act.bind_apply,
        publishByLook_of_idle depth fuel event hs hidle]
  | _ => rfl

/-- Events are delivered as they are published.  Whatever is done from outside and whatever the
handlers do, the history is that of one publication after another, each of which is one round after
another: no event is delivered while another one is, every event that has been published has been
delivered once, in the order of publication, and nothing waits or is delivered when an operation is
over.  It comes to the same whether the handlers are told to let their events wait or whoever
publishes looks at the bus.

However many events wait, none is lost: a limit on how deep calls may be nested, which would end a
long chain of deliveries that call one another, is not modelled. -/
theorem Runs.delivers_in_order {ops : List ExchangeOp} (h : Runs {} ops s)
    (hops : ∀ op ∈ ops, op.IsOrdinary fun _ ↦ True) :
    ∃ publications : List (Publication Listener),
      Bus.Runs (fun _ ↦ True) {} publications s.bus ∧
      publications.map (·.first.event) = ops.filterMap published? ∧
      s.bus.history = publications.flatMap Publication.moments ∧
      s.bus.begun = s.bus.announced ∧ s.bus.queue = [] ∧ s.bus.current = none ∧
      ∀ depth fuel op, operateByLook (depth + 2) fuel op s = operate fuel op s := by
  have hempty : ({} : Exchange).IsOrdinary fun _ ↦ True := fun _ hmem ↦ absurd hmem List.not_mem_nil
  obtain ⟨publications, hruns, hevents, hs⟩ := h.exists_bus_runs hops hempty
  have hhistory := hruns.history
  have hidle : s.bus.current = none := hruns.current rfl
  refine ⟨publications, hruns, hevents, by simpa using hhistory,
    hruns.begun_eq_announced rfl rfl, hruns.queue rfl, hidle, ?_⟩
  intro depth fuel op
  exact operateByLook_eq_operate depth fuel op hs hidle

/-- A handler that publishes another event, and one that fails. -/
def chatter : List ExchangeOp :=
  [.define "echo" false fun _ _ ↦ .perform (.publish { type := .lineShown }) fun _ ↦ .done,
    .define "clumsy" false fun _ _ ↦ .fail (.alarm "boom"),
    .subscribe .dialogStarted "echo" (.int 0) (.bool false) true,
    .subscribe .dialogStarted "clumsy" (.int 1) (.bool false) true,
    .subscribe .lineShown "clumsy" (.int 0) (.bool true) true,
    .publish { type := .dialogStarted },
    .publish { type := .lineShown }]

theorem isOrdinary_chatter {ok : Value → Prop} (hok : ∀ n, ok (.int n)) :
    ∀ op ∈ chatter, op.IsOrdinary ok := by
  intro op hop
  simp only [chatter, List.mem_cons, List.not_mem_nil, or_false] at hop
  rcases hop with rfl | rfl | rfl | rfl | rfl | rfl | rfl
  · exact .define fun _ _ ↦ .of_op (.publish ok _) fun _ ↦ .done
  · exact .define fun _ _ ↦ .fail _
  · exact .subscribe (hok _) _ _ _ _
  · exact .subscribe (hok _) _ _ _ _
  · exact .subscribe (hok _) _ _ _ _
  · exact .publish ok _
  · exact .publish ok _

theorem delivers_in_order_of_chatter :
    ∃ (s : Exchange) (publications : List (Publication Listener)), Runs {} chatter s ∧
      publications.map (·.first.event) = [{ type := .dialogStarted }, { type := .lineShown }] ∧
      s.bus.history = publications.flatMap Publication.moments ∧
      s.bus.begun.map (·.type) = [.dialogStarted, .lineShown, .lineShown] ∧
      s.bus.begun = s.bus.announced := by
  have htypes : (runAll 1 chatter {}).map (fun s ↦ s.bus.begun.map (·.type)) =
      some [.dialogStarted, .lineShown, .lineShown] := by decide +kernel
  obtain ⟨s, hrun, htypes⟩ := Option.map_eq_some_iff.mp htypes
  have hs := runs_of_runAll hrun
  obtain ⟨publications, -, hevents, hhistory, hbegun, -⟩ :=
    hs.delivers_in_order (isOrdinary_chatter fun _ ↦ trivial)
  exact ⟨s, publications, hs, hevents, hhistory, htypes, hbegun⟩

end Exchange

end LinearDialogue
