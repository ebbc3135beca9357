import LinearDialogue.Audio
import LinearDialogue.Input

/-!
# The booth

Audio and input devices on their own, with an observer of what they announce.
-/

namespace LinearDialogue

/-- Audio with its mixer and files, and input devices. -/
structure Booth where
  disk : Disk := {}
  mixer : Mixer := {}
  audio : Audio := { voicePath := {} }
  input : Input := .start
  /-- Is there an observer of what is announced? -/
  isObserved : Bool := true
  journal : Journal := {}

namespace Booth

instance : Part Disk Booth where
  get s := s.disk
  set disk s := { s with disk }
  get_set _ _ := rfl
  set_get _ := rfl
  set_set _ _ _ := rfl

instance : Part Mixer Booth where
  get s := s.mixer
  set mixer s := { s with mixer }
  get_set _ _ := rfl
  set_get _ := rfl
  set_set _ _ _ := rfl

instance : Part Audio Booth where
  get s := s.audio
  set audio s := { s with audio }
  get_set _ _ := rfl
  set_get _ := rfl
  set_set _ _ _ := rfl

instance : Part Input Booth where
  get s := s.input
  set input s := { s with input }
  get_set _ _ := rfl
  set_get _ := rfl
  set_set _ _ _ := rfl

instance : Part Journal Booth where
  get s := s.journal
  set journal s := { s with journal }
  get_set _ _ := rfl
  set_get _ := rfl
  set_set _ _ _ := rfl

/-- Publish to the observer of a booth, if there is one. -/
def announce : Publisher Booth := fun event s => Publisher.toObserver s.isObserved event s

end Booth

end LinearDialogue
