import LinearDialogue.Act

/-!
# The event bus

Parts of the engine register listeners for types of events and publish events.  Registrations are
called in the order of their priority, those of one priority in the order in which they were made.
Priorities are integers as a rule, and may be any values that can be compared with those that are
there.
A listener that consumes the event ends its delivery; one that fails does not.

An event published while another is delivered waits until that delivery is over, so deliveries never
nest.  A registration that is to be called once, or whose listener is gone, is marked when it is
met and removed when the delivery ends; removal is skipped where the list has lost its place in the
meantime, because listeners have been removed or all of it has been forgotten.

A weak registration does not keep its listener: it is live as long as something else keeps the
listener, which is the outside, a registration that is not weak, or a delivery.  Deliveries keep
listeners until the queue is empty: the one that was called last, those of the registrations that
were removed, and those of a list that has been replaced after a delivery of its type.

A bus has a history of what has happened on it.  It only grows, and nothing else depends on it.
-/

namespace LinearDialogue

variable {ρ σ : Type} [DecidableEq ρ]

structure Registration (ρ : Type) where
  priority : Value
  listener : ρ
  /-- Is it to be called only once?  Any value can say so. -/
  oneShot : Value
  weak : Bool
  /-- Registrations are counted, so that each is told apart from its equals. -/
  serial : Nat
  deriving DecidableEq

/-- What has become of the list of registrations that a delivery works on. -/
inductive Fate
  /-- It is in its place. -/
  | kept
  /-- Another list has taken its place, with some of its registrations. -/
  | thinned
  /-- It has been forgotten. -/
  | cleared
  deriving DecidableEq

/-- What becomes of a list by two changes. -/
def Fate.join : Fate → Fate → Fate
  | .cleared, _ | _, .cleared => .cleared
  | .thinned, _ | _, .thinned => .thinned
  | .kept, .kept => .kept

inductive Moment (ρ : Type)
  /-- An event is published: it is delivered at once, or waits. -/
  | published (event : Event)
  | begun (event : Event)
  | called (entry : Registration ρ)
  /-- The call is over; it may have failed. -/
  | returned (failure : Option Failure)
  | ended (fate : Fate)
  deriving DecidableEq

/-- A delivery under way. -/
structure Delivery (ρ : Type) where
  event : Event
  /-- What has become of its list since the delivery began. -/
  fate : Fate := .kept
  /-- The registrations to be removed when the delivery ends. -/
  marked : List (Registration ρ) := []
  /-- The listener called last, unless a registration without one has been met since. -/
  last : Option ρ := none

structure Bus (ρ : Type) where
  lists : List (EventType × List (Registration ρ)) := []
  queue : List Event := []
  current : Option (Delivery ρ) := none
  /-- The listeners that are kept until the queue is empty. -/
  kept : List ρ := []
  /-- The types whose present list has been used by a delivery since the queue was empty. -/
  pinned : List EventType := []
  /-- How many registrations have been made. -/
  count : Nat := 0
  /-- What has happened, oldest first. -/
  history : List (Moment ρ) := []

namespace Bus

def record (moment : Moment ρ) (bus : Bus ρ) : Bus ρ :=
  { bus with history := bus.history ++ [moment] }

/-- The registrations for a type, if there has been one. -/
def find? (bus : Bus ρ) (type : EventType) : Option (List (Registration ρ)) :=
  (bus.lists.find? fun entry => entry.1 == type).map (·.2)

def registrations (bus : Bus ρ) (type : EventType) : List (Registration ρ) :=
  (bus.find? type).getD []

/-- Set the list of a type; a type that is there keeps its place. -/
def assign (type : EventType) (list : List (Registration ρ)) :
    List (EventType × List (Registration ρ)) → List (EventType × List (Registration ρ))
  | [] => [(type, list)]
  | (t, l) :: rest => if t == type then (t, list) :: rest else (t, l) :: assign type list rest

/-- Insert a registration before the first one of lower priority. -/
def insert (entry : Registration ρ) : List (Registration ρ) → List (Registration ρ)
  | [] => [entry]
  | e :: rest =>
    if entry.priority.greater? e.priority = some true then entry :: e :: rest
    else e :: insert entry rest

/-- Can a priority be compared with those of some registrations, down to the place of its own? -/
def hasPlaceFor (priority : Value) : List (Registration ρ) → Bool
  | [] => true
  | e :: rest =>
    match priority.greater? e.priority with
    | some true => true
    | some false => hasPlaceFor priority rest
    | none => false

def subscribe (bus : Bus ρ) (type : EventType) (listener : ρ) (priority : Value := .int 0)
    (oneShot : Value := .bool false) (weak : Bool := true) : Bus ρ :=
  let entry := ⟨priority, listener, oneShot, weak, bus.count⟩
  { bus with
    lists := assign type (insert entry (bus.registrations type)) bus.lists
    count := bus.count + 1 }

/-- Is a listener kept by a registration that is not weak, or by a delivery? -/
def keeps (bus : Bus ρ) (listener : ρ) : Bool :=
  bus.kept.contains listener ||
    (bus.current.any fun d => d.last == some listener) ||
    bus.lists.any fun entry => entry.2.any fun r => !r.weak && r.listener == listener

/-- Is the listener of a registration there?  `held` says which listeners the outside keeps. -/
def isLive (held : ρ → Bool) (bus : Bus ρ) (entry : Registration ρ) : Bool :=
  !entry.weak || held entry.listener || bus.keeps entry.listener

def keptBy (list : List (Registration ρ)) : List ρ :=
  (list.filter fun r => !r.weak).map (·.listener)

/-- Note that a delivery uses the list of a type, if there is one. -/
def pin (type : EventType) (bus : Bus ρ) : Bus ρ :=
  if (bus.find? type).isSome && !bus.pinned.contains type then
    { bus with pinned := type :: bus.pinned }
  else bus

/-- Note that the lists of some types are about to be replaced.  What a delivery has used is kept
as it was. -/
def replace (bus : Bus ρ) (fate : Fate) (isReplaced : EventType → Bool) : Bus ρ :=
  { bus with
    kept := bus.kept ++
      (bus.pinned.filter isReplaced).flatMap fun type => keptBy (bus.registrations type)
    pinned := bus.pinned.filter fun type => !isReplaced type
    current := bus.current.map fun d =>
      if isReplaced d.event.type then { d with fate := d.fate.join fate } else d }

/-- Remove every live registration of a listener for a type. -/
def unsubscribe (held : ρ → Bool) (bus : Bus ρ) (type : EventType) (listener : ρ) : Bus ρ :=
  match bus.find? type with
  | none => bus
  | some list =>
    let rest := list.filter fun r => !(bus.isLive held r && r.listener == listener)
    { bus.replace .thinned (· == type) with lists := assign type rest bus.lists }

def isSubscribed (held : ρ → Bool) (bus : Bus ρ) (type : EventType) (listener : ρ) : Bool :=
  (bus.registrations type).any fun r => bus.isLive held r && r.listener == listener

/-- Forget the registrations for a type, or all of them. -/
def clear (bus : Bus ρ) : Option EventType → Bus ρ
  | none => { bus.replace .cleared (fun _ => true) with lists := [] }
  | some type =>
    { bus.replace .cleared (· == type) with
      lists := bus.lists.filter fun entry => !(entry.1 == type) }

def enqueue (bus : Bus ρ) (event : Event) : Bus ρ :=
  { bus with queue := bus.queue ++ [event] }.record (.published event)

def begin (bus : Bus ρ) (event : Event) : Bus ρ := { bus with current := some { event } }

def onCurrent (f : Delivery ρ → Delivery ρ) (bus : Bus ρ) : Bus ρ :=
  { bus with current := bus.current.map f }

/-- Remember the listener that is called, or that there is none. -/
def meet (listener : Option ρ) : Bus ρ → Bus ρ := onCurrent fun d => { d with last := listener }

def mark (entry : Registration ρ) : Bus ρ → Bus ρ :=
  onCurrent fun d => { d with marked := d.marked ++ [entry] }

def consume : Bus ρ → Bus ρ := onCurrent fun d => { d with event := d.event.consume }

def isConsumed (bus : Bus ρ) : Bool := bus.current.any fun d => d.event.isConsumed

/-- Are two registrations taken for one?  `distinct` says of which listeners two registrations
differ although they agree in everything. -/
def sameEntry (distinct : ρ → Bool) (a b : Registration ρ) : Bool :=
  a.serial == b.serial ||
    (a.priority.alike b.priority && a.listener == b.listener && a.oneShot.alike b.oneShot &&
      a.weak == b.weak && !(a.weak && distinct a.listener))

/-- Remove the first registration that is taken for the given one. -/
def removeFirst (distinct : ρ → Bool) (entry : Registration ρ) :
    List (Registration ρ) → List (Registration ρ)
  | [] => []
  | r :: rest => if sameEntry distinct entry r then rest else r :: removeFirst distinct entry rest

/-- The listeners that a finished delivery keeps: those of the registrations that it removed and
the one it called last. -/
def Delivery.leaves (d : Delivery ρ) : List ρ := keptBy d.marked ++ d.last.toList

/-- End a delivery: remove what was marked, unless the list has lost its place. -/
def finish (distinct : ρ → Bool) (bus : Bus ρ) : Bus ρ :=
  match bus.current with
  | none => bus
  | some d =>
    let bus := { bus with current := none, kept := bus.kept ++ Delivery.leaves d }.record
      (.ended d.fate)
    if d.fate = .kept then
      let list := d.marked.foldl (fun list entry => removeFirst distinct entry list)
        (bus.registrations d.event.type)
      { bus with lists := assign d.event.type list bus.lists }
    else bus

def release (bus : Bus ρ) : Bus ρ := { bus with kept := [], pinned := [] }

end Bus

end LinearDialogue
