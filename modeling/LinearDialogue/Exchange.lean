import LinearDialogue.Bus.Delivery
import LinearDialogue.Program

/-!
# Exchanges

An event bus together with a pool of named handlers, which may use the bus themselves.  Giving a
name to a new handler or dropping the name lets go of the handler that had it; it lives on in
registrations that are not weak.
-/

namespace LinearDialogue

/-- A handler, told apart from earlier ones of its name by its generation.  A bound handler belongs
to an object; weak registrations of it are each a reference of their own. -/
structure Listener where
  name : String
  generation : Nat
  bound : Bool
  deriving DecidableEq

/-- The operations on an exchange that handlers can use too. -/
inductive ExchangeOp
  | define (name : String) (bound : Bool) (behaviour : Nat → Event → Program ExchangeOp)
  | drop (name : String)
  | subscribe (type : EventType) (name : String) (priority oneShot : Value) (weak : Bool)
  | unsubscribe (type : EventType) (name : String)
  | isSubscribed (type : EventType) (name : String)
  | publish (event : Event)
  | clear (type : Option EventType)

structure HandlerState where
  listener : Listener
  behaviour : Behaviour ExchangeOp
  /-- How often it has been called. -/
  calls : Nat := 0
  /-- Does its name still stand for it? -/
  held : Bool := true

structure Exchange where
  bus : Bus Listener := {}
  handlers : List HandlerState := []
  journal : Journal := {}

namespace Exchange

instance : Part (Bus Listener) Exchange where
  get s := s.bus
  set bus s := { s with bus }
  get_set _ _ := rfl
  set_get _ := rfl
  set_set _ _ _ := rfl

instance : Part (List HandlerState) Exchange where
  get s := s.handlers
  set handlers s := { s with handlers }
  get_set _ _ := rfl
  set_get _ := rfl
  set_set _ _ _ := rfl

instance : Part Journal Exchange where
  get s := s.journal
  set journal s := { s with journal }
  get_set _ _ := rfl
  set_get _ := rfl
  set_set _ _ _ := rfl

def handler? (s : Exchange) (listener : Listener) : Option HandlerState :=
  s.handlers.find? fun h => h.listener == listener

def named? (s : Exchange) (name : String) : Option HandlerState :=
  s.handlers.find? fun h => h.held && h.listener.name == name

def holds (s : Exchange) (listener : Listener) : Bool :=
  (s.handler? listener).any (·.held)

def letGo (name : String) (handlers : List HandlerState) : List HandlerState :=
  handlers.map fun h => if h.listener.name == name then { h with held := false } else h

def define (name : String) (bound : Bool) (behaviour : Behaviour ExchangeOp)
    (handlers : List HandlerState) : List HandlerState :=
  letGo name handlers ++ [{ listener := ⟨name, handlers.length, bound⟩, behaviour }]

/-- The handler of a name that is known to stand for one. -/
def listenerOf (name : String) : Act Exchange Listener := fun s =>
  match s.named? name with
  | some h => (.returned h.listener, s)
  | none => (.failed (.missingKey (.text name)), s)

/-- Is a gone handler bound, so that its weak registrations are all different? -/
def isDistinct (s : Exchange) (listener : Listener) : Bool :=
  listener.bound && !(s.holds listener || s.bus.keeps listener)

/-- Perform an operation; `publish` says how events are published at this moment. -/
def perform (publish : Publisher Exchange) : ExchangeOp → Act Exchange Value
  | .define name bound behaviour => do
    Part.update (List HandlerState) (define name bound behaviour)
    return .null
  | .drop name => do
    let _ ← listenerOf name
    Part.update (List HandlerState) (letGo name)
    return .null
  | .subscribe type name priority oneShot weak => do
    let listener ← listenerOf name
    Bus.register type listener priority oneShot weak
    return .null
  | .unsubscribe type name => do
    let listener ← listenerOf name
    (fun s => (.returned .null,
      { s with bus := Bus.unsubscribe s.holds s.bus type listener }) : Act Exchange Value)
  | .isSubscribed type name => do
    let listener ← listenerOf name
    (fun s => (.returned (.bool (Bus.isSubscribed s.holds s.bus type listener)), s) :
      Act Exchange Value)
  | .publish event => do
    let event ← publish event
    return event.consumed
  | .clear type => do
    Part.update (Bus Listener) fun bus => bus.clear type
    return .null

def consumeCurrent : Act Exchange Unit := Part.update (Bus Listener) Bus.consume

/-- Count a call of a handler. -/
def countCall (listener : Listener) (handlers : List HandlerState) : List HandlerState :=
  handlers.map fun h => if h.listener == listener then { h with calls := h.calls + 1 } else h

/-- Call a handler with the event that is delivered: the call is noted and counted, and then the
handler's program runs, whose events have to wait. -/
def call (listener : Listener) : Act Exchange Unit := fun s =>
  match s.handler? listener, s.bus.current with
  | some h, some d =>
    (do
      Journal.note (.call listener.name d.event)
      Part.update (List HandlerState) (countCall listener)
      (h.behaviour h.calls d.event).run (perform (Bus.post Listener)) consumeCurrent :
      Act Exchange Unit) s
  | _, _ => (.returned (), s)

def handling : Handling Listener Exchange where
  held := holds
  distinct := isDistinct
  call := call

/-- Perform an operation from outside.  At most `fuel` waiting events are delivered. -/
def operate (fuel : Nat) (op : ExchangeOp) : Act Exchange Value :=
  perform (handling.publish fuel) op

end Exchange

end LinearDialogue
