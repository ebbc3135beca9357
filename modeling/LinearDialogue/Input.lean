import LinearDialogue.Bus.Delivery

/-!
# Input

Keys and gamepad buttons as actions.  Keys are bound to actions many to many; an action is pressed
while keys bound to it are held.  What changed between two updates is computed by the update and
announced, the pressed actions before the released ones.

Devices report keys, buttons and gamepads by codes, which are integers as a rule and may be any
value; lists and objects are codes that cannot be looked up.
-/

namespace LinearDialogue

abbrev ActionSet : Type := Action → Bool

namespace ActionSet

def empty : ActionSet := fun _ => false

def insert (s : ActionSet) (a : Action) : ActionSet := fun b => b == a || s b

def erase (s : ActionSet) (a : Action) : ActionSet := fun b => b != a && s b

/-- The actions of a set that are not in another. -/
def minus (s t : ActionSet) : ActionSet := fun a => s a && !t a

def order : List Action := [.cancel, .confirm, .menuDown, .menuUp, .pause, .skip]

def toList (s : ActionSet) : List Action := order.filter s

end ActionSet

/-- The keys to which actions are bound at first. -/
def defaultKeys : Action → List Int
  | .confirm => [13, 32, 122]
  | .cancel => [27, 120]
  | .menuUp => [1073741906, 119]
  | .menuDown => [1073741905, 115]
  | .pause => [112]
  | .skip => [9]

def padButtons : Action → List Int
  | .confirm => [0]
  | .cancel => [1]
  | .skip => [3]
  | .pause => [7]
  | _ => []

def Value.isAmong (code : Value) (codes : List Value) : Bool := codes.any fun c => c.alike code

/-- Some codes and one more, unless it is among them. -/
def Value.addTo (code : Value) (codes : List Value) : List Value :=
  if code.isAmong codes then codes else codes ++ [code]

structure Input where
  keys : List Value := []
  pressed : ActionSet := .empty
  justPressed : ActionSet := .empty
  justReleased : ActionSet := .empty
  /-- The actions that were pressed at the last update. -/
  previous : ActionSet := .empty
  bindings : Action → List Value := fun a => (defaultKeys a).map .int
  /-- The actions of every key, as of the last change of the bindings. -/
  reverse : List (Value × List Action) := []
  /-- The gamepads that were reported last. -/
  reported : List Value := []
  gamepads : List Value := []

namespace Input

def addReverse (key : Value) (a : Action) :
    List (Value × List Action) → List (Value × List Action)
  | [] => [(key, [a])]
  | (k, as) :: rest =>
    if k.matchesKey key then (k, as ++ [a]) :: rest else (k, as) :: addReverse key a rest

/-- All bindings, action by action. -/
def pairs (bindings : Action → List Value) : List (Value × Action) :=
  Action.all.flatMap fun a => (bindings a).map fun key => (key, a)

/-- The table from keys to actions, which ends before the first code that can be no key of it. -/
def reverseOf (bindings : Action → List Value) : List (Value × List Action) :=
  ((pairs bindings).takeWhile fun entry => entry.1.isKey).foldl
    (fun table entry => addReverse entry.1 entry.2 table) []

/-- Attach the gamepads that are reported, up to the first that can be no key.  One that is reported
twice counts once. -/
def attach (input : Input) (reported : List Value) : Input :=
  { input with
    reported
    gamepads := (reported.takeWhile (·.isKey)).foldl (fun seen id => id.addTo seen) [] }

def isAttached (input : Input) : Bool := input.reported.all (·.isKey)

/-- The input at first. -/
def start : Input := { reverse := reverseOf fun a => (defaultKeys a).map .int }

/-- The input at first, with some gamepads. -/
def startWith (gamepads : List Value) : Except Failure Input :=
  let input := start.attach gamepads
  if input.isAttached then .ok input else .error .wrongType

def actionsOf (input : Input) (key : Value) : List Action :=
  ((input.reverse.find? fun entry => entry.1.matchesKey key).map (·.2)).getD []

def keyDown (input : Input) (key : Value) : Input :=
  { input with
    keys := key.addTo input.keys
    pressed := (input.actionsOf key).foldl ActionSet.insert input.pressed }

/-- Is one of several codes held, other than a key?  They are looked up in their order until one is
found, so there is no answer where a code that can be no key comes before it. -/
def isOtherHeld? (held : List Value) (key : Value) : List Value → Option Bool
  | [] => some false
  | code :: rest =>
    if code.agrees key then isOtherHeld? held key rest
    else if !code.isKey then none
    else if code.isAmong held then some true
    else isOtherHeld? held key rest

/-- Is a key other than this one held to which an action is bound? -/
def heldOtherwise? (input : Input) (key : Value) (a : Action) : Option Bool :=
  isOtherHeld? input.keys key (input.bindings a)

/-- A key goes up.  Its actions stay pressed where another key bound to them is held, and from the
first one on of which that cannot be told. -/
def keyUp (input : Input) (key : Value) : Input :=
  let input := { input with keys := input.keys.filter fun k => !k.matchesKey key }
  let told := (input.actionsOf key).takeWhile fun a => (input.heldOtherwise? key a).isSome
  let released := told.filter fun a => input.heldOtherwise? key a == some false
  { input with pressed := released.foldl ActionSet.erase input.pressed }

/-- Can be told of all actions of a key whether another key is held? -/
def tellsOthers (input : Input) (key : Value) : Bool :=
  (input.actionsOf key).all fun a => (input.heldOtherwise? key a).isSome

def actionsOfButton (button : Value) : List Action :=
  Action.all.filter fun a => (padButtons a).any fun n => (Value.int n).agrees button

def buttonDown (input : Input) (button : Value) : Input :=
  { input with pressed := (actionsOfButton button).foldl ActionSet.insert input.pressed }

def buttonUp (input : Input) (button : Value) : Input :=
  { input with pressed := (actionsOfButton button).foldl ActionSet.erase input.pressed }

def rebind (input : Input) (a : Action) (keys : List Value) : Input :=
  let bindings := fun b => if b = a then keys else input.bindings b
  { input with bindings, reverse := reverseOf bindings }

def bindKey (input : Input) (a : Action) (key : Value) : Input :=
  input.rebind a (key.addTo (input.bindings a))

def unbindKey (input : Input) (a : Action) (key : Value) : Input :=
  input.rebind a ((input.bindings a).eraseP fun k => k.alike key)

/-- Can every code that is bound to an action be looked up? -/
def isBoundToKeys (input : Input) : Bool := (pairs input.bindings).all fun entry => entry.1.isKey

def compare (input : Input) : Input :=
  { input with
    justPressed := input.pressed.minus input.previous
    justReleased := input.previous.minus input.pressed }

def actionEvent (type : EventType) (a : Action) : Event := { type, data := [("action", .action a)] }

variable {σ : Type} [Part Input σ]

def announce (publish : Publisher σ) (type : EventType) : List Action → Act σ Unit
  | [] => pure ()
  | a :: rest => do
    let _ ← publish (actionEvent type a)
    announce publish type rest

/-- Compute and announce what has changed since the last update. -/
def update (publish : Publisher σ) : Act σ Unit := do
  Part.update Input compare
  announce publish .actionPressed (← Part.read Input).justPressed.toList
  announce publish .actionReleased (← Part.read Input).justReleased.toList
  Part.update Input fun input => { input with previous := input.pressed }

/-- Attach the gamepads that are reported now, which are those of the last report if there is no new
one, and announce it. -/
def changeGamepads (publish : Publisher σ) (type : EventType) (reported : Option (List Value)) :
    Act σ Unit := do
  Part.update Input fun input => input.attach (reported.getD input.reported)
  if !(← Part.read Input).isAttached then Act.fail .wrongType
  let _ ← publish { type }

end Input

/-- The operations on input devices.  An event of a key or button may fail to say which, one of
gamepads which there are now. -/
inductive InputOp
  | keyDown (key : Option Value)
  | keyUp (key : Option Value)
  | buttonDown (button : Option Value)
  | buttonUp (button : Option Value)
  | connect (gamepads : Option (List Value))
  | disconnect (gamepads : Option (List Value))
  | move
  | update
  | bindKey (action : Action) (key : Value)
  | unbindKey (action : Action) (key : Value)
  | bindings (action : Action)
  | query (action : Action)

namespace InputOp

variable {σ : Type} [Part Input σ]

def change (f : Input → Value → Input) : Option Value → Act σ Value
  | some code => do
    Part.update Input fun input => f input code
    return .null
  | none => Act.fail .lacksOperation

def changeKeyed (f : Input → Value → Input) (code : Option Value) : Act σ Value :=
  if code.all (·.isKey) then change f code else Act.fail .wrongType

/-- Apply a change that is complete only if the input is sound afterwards. -/
def settle (change : Act σ Value) (isSound : Input → Bool) : Act σ Value := do
  let result ← change
  if isSound (← Part.read Input) then return result
  Act.fail .wrongType

/-- Change the bindings, all of which are looked up afterwards. -/
def changeBindings (f : Input → Input) : Act σ Value :=
  settle (do
    Part.update Input f
    return .null) Input.isBoundToKeys

def perform (publish : Publisher σ) : InputOp → Act σ Value
  | .keyDown key => changeKeyed Input.keyDown key
  | .keyUp key => settle (changeKeyed Input.keyUp key) fun input => key.all input.tellsOthers
  | .buttonDown button => change Input.buttonDown button
  | .buttonUp button => change Input.buttonUp button
  | .connect reported => do
    Input.changeGamepads publish .gamepadConnected reported
    return .null
  | .disconnect reported => do
    Input.changeGamepads publish .gamepadDisconnected reported
    return .null
  | .move => return .null
  | .update => do
    Input.update publish
    return .null
  | .bindKey a key => changeBindings fun input => input.bindKey a key
  | .unbindKey a key => changeBindings fun input => input.unbindKey a key
  | .bindings a => do
    return .list ((← Part.read Input).bindings a)
  | .query a => do
    let input ← Part.read Input
    return .list
      [.bool (input.pressed a), .bool (input.justPressed a), .bool (input.justReleased a)]

end InputOp

end LinearDialogue
