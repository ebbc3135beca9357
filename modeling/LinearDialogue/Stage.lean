import LinearDialogue.Audio
import LinearDialogue.Director
import LinearDialogue.Input
import LinearDialogue.Program

/-!
# The stage

Everything together: an event bus with a director, playback, audio, input devices and files, an
observer of what is announced, and further handlers, which may use all of it.  Operations from
outside publish at once; those of handlers publish from inside a delivery.
-/

namespace LinearDialogue

inductive StageListener
  | director
  | observer
  | handler (index : Nat)
  deriving DecidableEq

/-- How voice clips are played: not at all, by a recorder of requests, or by audio playback. -/
inductive Speaker
  | absent
  | recorder
  | audio
  deriving DecidableEq

inductive StageOp
  | start (graph : CompiledGraph) (id : Value)
  | play (id : Value)
  | advance
  | stop
  | enable
  | disable
  | publish (event : Event)
  | load (graph : CompiledGraph)
  | unload
  | clear (type : Option EventType)
  | input (op : InputOp)

structure StageHandler where
  behaviour : Behaviour StageOp
  /-- How often it has been called. -/
  calls : Nat := 0

/-- A stage. -/
structure Stage where
  bus : Bus StageListener := {}
  handlers : List StageHandler := []
  director : Director := {}
  playback : Playback := {}
  speaker : Speaker := .absent
  audio : Audio := { voicePath := {} }
  mixer : Mixer := {}
  disk : Disk := {}
  input : Input := .start
  journal : Journal := {}

namespace Stage

instance : Part (Bus StageListener) Stage where
  get s := s.bus
  set bus s := { s with bus }
  get_set _ _ := rfl
  set_get _ := rfl
  set_set _ _ _ := rfl

instance : Part (List StageHandler) Stage where
  get s := s.handlers
  set handlers s := { s with handlers }
  get_set _ _ := rfl
  set_get _ := rfl
  set_set _ _ _ := rfl

instance : Part Director Stage where
  get s := s.director
  set director s := { s with director }
  get_set _ _ := rfl
  set_get _ := rfl
  set_set _ _ _ := rfl

instance : Part Playback Stage where
  get s := s.playback
  set playback s := { s with playback }
  get_set _ _ := rfl
  set_get _ := rfl
  set_set _ _ _ := rfl

instance : Part Audio Stage where
  get s := s.audio
  set audio s := { s with audio }
  get_set _ _ := rfl
  set_get _ := rfl
  set_set _ _ _ := rfl

instance : Part Mixer Stage where
  get s := s.mixer
  set mixer s := { s with mixer }
  get_set _ _ := rfl
  set_get _ := rfl
  set_set _ _ _ := rfl

instance : Part Disk Stage where
  get s := s.disk
  set disk s := { s with disk }
  get_set _ _ := rfl
  set_get _ := rfl
  set_set _ _ _ := rfl

instance : Part Input Stage where
  get s := s.input
  set input s := { s with input }
  get_set _ _ := rfl
  set_get _ := rfl
  set_set _ _ _ := rfl

instance : Part Journal Stage where
  get s := s.journal
  set journal s := { s with journal }
  get_set _ _ := rfl
  set_get _ := rfl
  set_set _ _ _ := rfl

def holds (_ : Stage) (_ : StageListener) : Bool := true

def voice? (publish : Publisher Stage) : Speaker → Option (Voice Stage)
  | .absent => none
  | .recorder => some
    { play := fun handle category volume => Journal.note (.voice (.play handle category volume))
      stop := Journal.note (.voice .stop) }
  | .audio => some
    { play := fun handle category volume => do
        let _ ← Audio.play publish (.text handle) (.text category) (.float volume)
      stop := Audio.stop publish }

/-- What the director works with, where events are published in a given way. -/
def wiring (publish : Publisher Stage) (speaker : Speaker) : Wiring Stage where
  publish := publish
  voice := voice? publish speaker
  listen := Bus.register .actionPressed StageListener.director
  ignore := fun s =>
    (.returned (), { s with bus := Bus.unsubscribe s.holds s.bus .actionPressed .director })

/-- Perform an operation; `publish` says how events are published at this moment. -/
def perform (publish : Publisher Stage) (op : StageOp) : Act Stage Value := fun s =>
  let w := wiring publish s.speaker
  let act : Act Stage Value :=
    match op with
    | .start graph id => do
      Director.start w graph id
      return .null
    | .play id => do
      let found ← Director.play w id
      return .bool found
    | .advance => do
      let executed ← Director.advance w
      return .bool executed
    | .stop => do
      Director.stop w
      return .null
    | .enable => do
      Director.enable w
      return .null
    | .disable => do
      Director.disable w
      return .null
    | .publish event => do
      let event ← publish event
      return event.consumed
    | .load graph => do
      Playback.load graph
      return .null
    | .unload => do
      Playback.unload
      return .null
    | .clear type => do
      Part.update (Bus StageListener) fun bus => bus.clear type
      return .null
    | .input op => op.perform publish
  act s

def consumeCurrent : Act Stage Unit := Part.update (Bus StageListener) Bus.consume

/-- Count a call of a handler. -/
def countCall (index : Nat) (handlers : List StageHandler) : List StageHandler :=
  handlers.modify index fun h => { h with calls := h.calls + 1 }

def call (listener : StageListener) : Act Stage Unit := fun s =>
  match s.bus.current with
  | none => (.returned (), s)
  | some d =>
    let publish : Publisher Stage := Bus.post StageListener
    let act : Act Stage Unit :=
      match listener with
      | .director => Director.onAction (wiring publish s.speaker) consumeCurrent d.event
      | .observer => Journal.note (.event d.event)
      | .handler index =>
        match s.handlers[index]? with
        | none => pure ()
        | some h => do
          Part.update (List StageHandler) (countCall index)
          (h.behaviour h.calls d.event).run (perform publish) consumeCurrent
    act s

def handling : Handling StageListener Stage where
  held := holds
  distinct := fun _ _ => false
  call := call

/-- Perform an operation from outside.  At most `fuel` waiting events are delivered. -/
def operate (fuel : Nat) (op : StageOp) : Act Stage Value :=
  perform (handling.publish fuel) op

/-- The types of events that the observer of a stage sees. -/
def observed : List EventType :=
  [.dialogStarted, .dialogEnded, .nodeEntered, .lineShown, .voiceStarted, .voiceStopped]

/-- The priority of the observer, above that of other listeners. -/
def observerPriority : Value := .int 1000

def observe : Act Stage Unit :=
  observed.forM fun type =>
    Bus.register type StageListener.observer observerPriority (.bool false) false

/-- Add a handler, by a registration that is not weak. -/
def attach (type : EventType) (behaviour : Behaviour StageOp) (priority oneShot : Value) :
    Act Stage Unit := do
  let handler : StageHandler := { behaviour := behaviour }
  let index := (← Part.read (List StageHandler)).length
  Part.update (List StageHandler) fun handlers => handlers ++ [handler]
  Bus.register type (StageListener.handler index) priority oneShot false

def isActive (s : Stage) : Bool := s.director.isEnabled && !s.playback.isTerminated

def isListening (s : Stage) : Bool :=
  Bus.isSubscribed s.holds s.bus .actionPressed .director

def currentVoice (s : Stage) : Option String :=
  match s.speaker with
  | .audio => s.audio.current
  | _ => none

/-- Attach a database of a data directory, loaded. -/
def attachDatabase (dataPath : Path) : Act Stage Unit := do
  let disk ← Part.read Disk
  let (m, database) := ({ dataPath } : Database).loadAll disk .standard
  let _ ← Journal.logged m
  Part.update Director fun d => { d with database := some database }

end Stage

end LinearDialogue
