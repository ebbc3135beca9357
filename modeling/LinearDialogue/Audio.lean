import LinearDialogue.Bus.Delivery
import LinearDialogue.Files.Disk
import LinearDialogue.Volume

/-!
# Audio

Voice clips on a channel of their own, so that a new clip cuts off the one before.  The volume of a
clip is the product of the main volume, that of its category, and its own.  Clips are found by their
handles, among the files or else in the voice directory, and loaded once.

The mixer is a device: every call on it is noted.  It may be up already, and may refuse to start.
-/

namespace LinearDialogue

/-- The sound mixer: is it up, and why does it refuse to start, if it does? -/
structure Mixer where
  isUp : Bool := false
  refusal : Option String := none
  /-- What it has against a file that is to be a clip.  A directory has no content.  By default all
  is taken for a clip that does not begin with BAD. -/
  complaint : Option Content → Option String := fun content? =>
    if content?.all (Content.startsWith ['B', 'A', 'D']) then some "Unrecognized audio format"
    else none

structure Audio where
  voicePath : Path
  main : Binary64 := .one
  categories : List (Value × Binary64) :=
    [(.text "sfx", .one), (.text "ui", .one), (.text "voice", .one)]
  /-- The loaded clips by their handles, with the paths of their files. -/
  cache : List (String × String) := []
  hasChannel : Bool := false
  /-- The handle of the clip started last, unless it has been stopped. -/
  current : Option String := none
  isUp : Bool := false
  deriving DecidableEq

namespace Audio

def entry (level : Level) (message : String) : LogEntry := { level, reporter := .audio, message }

/-- Bring a volume into its range and set the main volume. -/
def setMain (audio : Audio) (volume : Value) : Except Failure Audio := do
  return { audio with main := ← Volume.ofNumber volume }

def assign (category : Value) (volume : Binary64) :
    List (Value × Binary64) → List (Value × Binary64)
  | [] => [(category, volume)]
  | (c, v) :: rest =>
    if c.matchesKey category then (c, volume) :: rest else (c, v) :: assign category volume rest

/-- Bring a volume into its range and set that of a category. -/
def setCategory (audio : Audio) (category volume : Value) : Except Failure Audio := do
  let volume ← Volume.ofNumber volume
  if category.isKey then
    return { audio with categories := assign category volume audio.categories }
  else .error .wrongType

/-- The volume of a category, the main volume included. -/
def volume (audio : Audio) (category : Value) : Except Failure Binary64 :=
  if category.isKey then
    let own := (audio.categories.find? fun entry => entry.1.matchesKey category).map (·.2)
    .ok (audio.main.mul (own.getD .one))
  else .error .wrongType

/-- A factor of a volume: any number, of any size that a fraction can have. -/
def factor : Value → Except Failure Binary64
  | .text _ => .error .wrongType
  | v => Volume.number v

def resolve (audio : Audio) (disk : Disk) (handle : String) : Except Failure Path := do
  let path := Path.ofText handle
  if path.isAbsolute then return path
  return if ← disk.exists? path then path else audio.voicePath.join path

def cached? (audio : Audio) (handle : String) : Option String :=
  (audio.cache.find? fun entry => entry.1 == handle).map (·.2)

variable {σ : Type} [Part Audio σ] [Part Mixer σ] [Part Disk σ] [Part Journal σ]

def voiceChannel : Nat := 0

/-- Start the mixer, unless it is up; the answer is why it refused. -/
def startMixer (frequency size channels buffer : Value) : Act σ (Option String) := do
  let mixer : Mixer ← Part.read Mixer
  if mixer.isUp then return none
  Journal.note (.mixer (.init frequency size channels buffer))
  match mixer.refusal with
  | some reason => return some reason
  | none =>
    Part.update Mixer fun mixer => { mixer with isUp := true }
    return none

def start (frequency size channels buffer : Value) : Act σ Unit := do
  match ← startMixer frequency size channels buffer with
  | some reason => Journal.report (entry .error ("Failed to initialize audio system: " ++ reason))
  | none =>
    Journal.note (.mixer (.setChannelCount 16))
    Journal.note (.mixer (.reserve (voiceChannel + 1)))
    Journal.note (.mixer (.channel voiceChannel))
    Part.update Audio fun audio => { audio with hasChannel := true, isUp := true }
    Journal.report (entry .info "Audio system initialized.")

def startStandard : Act σ Unit := start (.int 44100) (.int (-16)) (.int 2) (.int 512)

def shutDown : Act σ Unit := do
  Journal.note (.mixer .quit)
  Part.update Mixer fun mixer => { mixer with isUp := false }
  Part.update Audio fun audio => { audio with cache := [], hasChannel := false, isUp := false }

/-- Load the clip of a handle from its file, which may be missing or no clip to the mixer. -/
def load (handle : String) : Act σ (Option String) := do
  let disk : Disk ← Part.read Disk
  let path ← Act.ofExcept ((← Part.read Audio).resolve disk handle)
  if !(← Act.ofExcept (disk.exists? path)) then
    Journal.report (entry .warning ("Audio file not found: " ++ path.text))
    return none
  Journal.note (.mixer (.load path.text))
  match (← Part.read Mixer).complaint (disk.content path).toOption with
  | none =>
    Part.update Audio fun audio => { audio with cache := audio.cache ++ [(handle, path.text)] }
    return some path.text
  | some complaint =>
    Journal.report (entry .error ("Failed to load sound " ++ path.text ++ ": " ++ complaint))
    return none

/-- The clip of a handle, loaded where it has not been. -/
def clip? (handle : Value) : Act σ (Option String) := do
  let audio : Audio ← Part.read Audio
  if !audio.isUp then return none
  match handle with
  | .text handle =>
    match audio.cached? handle with
    | some clip => return some clip
    | none => load handle
  | _ => Act.fail .wrongType

def voiceEvent (type : EventType) (handle : String) : Event :=
  { type, data := [("handle", .value (.text handle))] }

/-- Play a voice clip in place of any other; the answer is whether it has been started. -/
def play (publish : Publisher σ) (handle category volume : Value) : Act σ Bool := do
  let clip ← clip? handle
  let audio : Audio ← Part.read Audio
  match clip, audio.hasChannel with
  | some clip, true =>
    let own ← Act.ofExcept (audio.volume category)
    let factor ← Act.ofExcept (factor volume)
    Journal.note (.mixer (.setVolume (own.mul factor)))
    Journal.note (.mixer (.play clip))
    Part.update Audio fun audio => { audio with current := some handle.plain }
    let _ ← publish (voiceEvent .voiceStarted handle.plain)
    return true
  | _, _ => return false

/-- Stop the voice clip that is playing, if there is one. -/
def stop (publish : Publisher σ) : Act σ Unit := do
  let audio : Audio ← Part.read Audio
  match audio.current, audio.hasChannel with
  | some handle, true =>
    Journal.note (.mixer .stop)
    Part.update Audio fun audio => { audio with current := none }
    let _ ← publish (voiceEvent .voiceStopped handle)
    return ()
  | _, _ => return ()

end Audio

end LinearDialogue
