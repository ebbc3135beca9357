import LinearDialogue.Bus

/-!
# Deliveries

Delivering an event: every live registration of its type is called in turn, until one consumes the
event.  A call that fails is logged and the delivery goes on; one that is aborted ends it.  However
it ends, what was marked is removed and the bus is free again.

Publishing from outside delivers the event and then, one after another, all events that wait.
Publishing from inside a delivery lets the event wait.
-/

namespace LinearDialogue

variable {ρ σ : Type} [DecidableEq ρ] [Part (Bus ρ) σ] [Part Journal σ]

/-- A way to publish: the answer is the event after its delivery, or the event as it waits. -/
abbrev Publisher (σ : Type) : Type := Event → Act σ Event

namespace Publisher

def observed : Publisher σ := fun event => do
  Journal.note (.event event)
  return event

def silent : Publisher σ := fun event => pure event

def toObserver (isThere : Bool) : Publisher σ := if isThere then observed else silent

end Publisher

structure Handling (ρ σ : Type) where
  /-- Does the outside keep a listener? -/
  held : σ → ρ → Bool
  /-- Do two equal registrations of a listener that is gone differ? -/
  distinct : σ → ρ → Bool
  call : ρ → Act σ Unit

namespace Bus

/-- Register a listener, which is refused where its priority cannot be compared. -/
def register (type : EventType) (listener : ρ) (priority : Value := .int 0)
    (oneShot : Value := .bool false) (weak : Bool := true) : Act σ Unit := do
  let bus : Bus ρ ← Part.read (Bus ρ)
  if !hasPlaceFor priority (bus.registrations type) then Act.fail .wrongType
  Part.update (Bus ρ) fun bus => bus.subscribe type listener priority oneShot weak

/-- Publish from inside a delivery. -/
def post (ρ : Type) [Part (Bus ρ) σ] : Publisher σ := fun event => do
  Part.update (Bus ρ) fun bus => bus.enqueue event
  return event

end Bus

namespace Handling

def isLive (h : Handling ρ σ) (entry : Registration ρ) : Act σ Bool := fun s =>
  (.returned (Bus.isLive (h.held s) (Part.get s) entry), s)

def callFailed (type : EventType) (failure : Failure) : LogEntry :=
  { level := .error
    reporter := .bus
    message := "Error in event handler for " ++ type.name
    failure := some failure }

def callLogged (h : Handling ρ σ) (type : EventType) (entry : Registration ρ) : Act σ Unit := do
  Part.update (Bus ρ) (Bus.record (.called entry))
  match ← (h.call entry.listener).attempt with
  | .ok () => Part.update (Bus ρ) (Bus.record (.returned none))
  | .error failure =>
    Journal.report (callFailed type failure)
    Part.update (Bus ρ) (Bus.record (.returned (some failure)))

/-- Call the live ones of several registrations, until the event is consumed. -/
def visit (h : Handling ρ σ) (type : EventType) : List (Registration ρ) → Act σ Unit
  | [] => pure ()
  | entry :: rest => do
    if ← h.isLive entry then
      Part.update (Bus ρ) (Bus.meet (some entry.listener))
      h.callLogged type entry
      if entry.oneShot.isTruthy then Part.update (Bus ρ) (Bus.mark entry)
      if (← Part.read (Bus ρ)).isConsumed then return ()
      h.visit type rest
    else
      Part.update (Bus ρ) (Bus.meet none)
      Part.update (Bus ρ) (Bus.mark entry)
      h.visit type rest

def finish (h : Handling ρ σ) (s : σ) : σ :=
  Part.set (Bus.finish (h.distinct s) (Part.get s : Bus ρ)) s

/-- Deliver an event; the answer is the event afterwards. -/
def deliver (h : Handling ρ σ) (event : Event) : Act σ Event := do
  Part.update (Bus ρ) fun bus => (bus.pin event.type).record (.begun event)
  match (← Part.read (Bus ρ)).registrations event.type with
  | [] =>
    Part.update (Bus ρ) (Bus.record (.ended .kept))
    return event
  | entries =>
    Part.update (Bus ρ) fun bus => bus.begin event
    Act.ensure (do
      h.visit event.type entries
      return (((← Part.read (Bus ρ)).current.map (·.event)).getD event)) h.finish

/-- Deliver the events that wait, at most `fuel` of them.  Calls nested in one another, each for the
next event, would deliver the same; how deep calls may be nested is not modelled. -/
def drain (h : Handling ρ σ) : Nat → Act σ Unit
  | 0 => do
    match (← Part.read (Bus ρ)).queue with
    | [] => return ()
    | _ :: _ => Act.stall
  | fuel + 1 => do
    match (← Part.read (Bus ρ)).queue with
    | [] => return ()
    | event :: rest =>
      Part.update (Bus ρ) fun bus => { bus with queue := rest }
      let _ ← h.deliver event
      h.drain fuel

/-- Publish from outside: deliver the event and what waits after it. -/
def publish (h : Handling ρ σ) (fuel : Nat) : Publisher σ := fun event =>
  Act.ensure (do
    Part.update (Bus ρ) (Bus.record (.published event))
    let event ← h.deliver event
    h.drain fuel
    return event) fun s => Part.set (Bus.release (Part.get s : Bus ρ)) s

end Handling

end LinearDialogue
