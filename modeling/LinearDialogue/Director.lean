import LinearDialogue.Bus.Delivery
import LinearDialogue.Files.Database
import LinearDialogue.Playback
import LinearDialogue.Settings

/-!
# The director

The director runs dialogues: it loads a compiled graph, listens for the action that asks for the
next line while a dialogue is running, has voice clips played, and announces lines and the beginning
and the end of dialogues.
-/

namespace LinearDialogue

/-- What a director knows. -/
structure Director where
  settings : Settings := {}
  database : Option Database := none
  /-- Does it listen for actions? -/
  isEnabled : Bool := false
  /-- The id of the dialogue started last. -/
  dialogueId : Value := .null

structure Voice (σ : Type) where
  play : (handle category : String) → (volume : Binary64) → Act σ Unit
  stop : Act σ Unit

structure Wiring (σ : Type) where
  publish : Publisher σ
  /-- There may be no voice playback. -/
  voice : Option (Voice σ)
  /-- Register the director's own listener for pressed actions. -/
  listen : Act σ Unit
  /-- Remove that listener. -/
  ignore : Act σ Unit

namespace Director

variable {σ : Type} [Part Director σ] [Part Playback σ] [Part Journal σ]

def warning (message : String) : LogEntry := { level := .warning, reporter := .director, message }

def dialogueEvent (type : EventType) (id : Value) : Event :=
  { type, data := [("dialogue_id", .value id)] }

def nodeEvent (id : Int) : Event :=
  { type := .nodeEntered, data := [("node_id", .value (.int id))] }

def lineEvent (line : SpokenLine) : Event :=
  { type := .lineShown
    data := [("actor", .value (.text line.actor)), ("text", .value (.text line.text)),
      ("audio", .value (.ofOption line.audio)), ("callbacks", .texts line.callbacks)] }

def enable (w : Wiring σ) : Act σ Unit := do
  if (← Part.read Director).isEnabled then return ()
  w.listen
  Part.update Director fun d => { d with isEnabled := true }

def disable (w : Wiring σ) : Act σ Unit := do
  if !(← Part.read Director).isEnabled then return ()
  w.ignore
  Part.update Director fun d => { d with isEnabled := false }

def stopVoice (w : Wiring σ) : Act σ Unit :=
  match w.voice with
  | some voice => voice.stop
  | none => pure ()

/-- Play the voice clip of a line, if it has one. -/
def playVoice (w : Wiring σ) (line : SpokenLine) : Act σ Unit := do
  let settings := (← Part.read Director).settings
  match line.audio, w.voice with
  | some handle, some voice =>
    if handle != "" then voice.play handle settings.voiceCategory settings.voiceVolume
  | _, _ => return ()

def showLine (w : Wiring σ) (id : Int) (line : SpokenLine) : Act σ Unit := do
  playVoice w line
  let _ ← w.publish (nodeEvent id)
  let _ ← w.publish (lineEvent line)

/-- End the dialogue; its end is announced once. -/
def close (w : Wiring σ) : Act σ Unit := do
  let wasEnabled := (← Part.read Director).isEnabled
  disable w
  stopVoice w
  if wasEnabled then
    let _ ← w.publish (dialogueEvent .dialogEnded (← Part.read Director).dialogueId)

def callbacks (w : Wiring σ) (logLines : Bool) : Playback.Callbacks σ where
  onLine := showLine w
  onEnd := close w
  logLines := logLines

def advance (w : Wiring σ) : Act σ Bool := do
  let settings := (← Part.read Director).settings
  if settings.stopVoiceOnAdvance then stopVoice w
  Playback.advance (callbacks w settings.logLines)

/-- Start a dialogue and show its first line.  A dialogue that is running is abandoned. -/
def start (w : Wiring σ) (graph : CompiledGraph) (id : Value) : Act σ Unit := do
  Part.update Director fun d => { d with dialogueId := id }
  Playback.load graph
  enable w
  let _ ← w.publish (dialogueEvent .dialogStarted id)
  let _ ← advance w

/-- Start the dialogue of an id; the answer is whether there is one. -/
def play (w : Wiring σ) (id : Value) : Act σ Bool := do
  match (← Part.read Director).database with
  | none =>
    Journal.report
      (warning ("No dialogue database attached, cannot play '" ++ id.plain ++ "'"))
    return false
  | some db =>
    match ← Act.ofExcept (db.lookup id) with
    | none =>
      Journal.report (warning ("Dialogue not found: " ++ id.plain))
      return false
    | some graph =>
      start w graph id
      return true

def stop (w : Wiring σ) : Act σ Unit := do
  Playback.unload
  close w

def onAction (w : Wiring σ) (consume : Act σ Unit) (event : Event) : Act σ Unit := do
  let wanted := (← Part.read Director).settings.advanceAction
  if event.get "action" = .action wanted then
    consume
    let _ ← advance w

end Director

end LinearDialogue
