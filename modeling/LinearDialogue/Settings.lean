import LinearDialogue.Action
import LinearDialogue.Authored.Document
import LinearDialogue.Volume

/-!
# Settings

The settings of dialogue playback, and how they are read from a document: what the document leaves
out keeps its default, what it holds is turned into the type of the setting.
-/

namespace LinearDialogue

structure Settings where
  advanceAction : Action := .confirm
  voiceCategory : String := "voice"
  voiceVolume : Binary64 := .one
  stopVoiceOnAdvance : Bool := true
  logLines : Bool := true
  dataPath : String := "game/data"
  deriving DecidableEq

namespace Settings

/-- Turn the value of a field of a document into a setting, if the field is there. -/
def read {α : Type} (data : Value) (name : String) (default : α)
    (convert : Value → Except Failure α) : Except Failure α := do
  if ← data.holds name then convert (← data.require name) else return default

def ofDocument (data : Value) : Except Failure Settings := do
  let standard : Settings := {}
  let advanceAction ← read data "advance_action" standard.advanceAction Action.ofValue
  let voiceCategory ← read data "voice_category" standard.voiceCategory fun v => .ok v.plain
  let dataPath ← read data "data_path" standard.dataPath fun v => .ok v.plain
  let voiceVolume ← read data "voice_volume" standard.voiceVolume fun v =>
    (Volume.number v).map Volume.clamp
  let stopVoiceOnAdvance ← read data "stop_voice_on_advance" standard.stopVoiceOnAdvance fun v =>
    .ok v.isTruthy
  let logLines ← read data "log_lines" standard.logLines fun v => .ok v.isTruthy
  return { advanceAction, voiceCategory, voiceVolume, stopVoiceOnAdvance, logLines, dataPath }

end Settings

end LinearDialogue
