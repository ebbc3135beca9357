import LinearDialogue.Files.Database
import LinearDialogue.Importer

/-!
# The workshop

An importer, a database and the files they work on.
-/

namespace LinearDialogue

/-- Files, a database and what can be observed. -/
structure Workshop where
  disk : Disk := {}
  database : Database
  journal : Journal := {}

namespace Workshop

instance : Part Disk Workshop where
  get s := s.disk
  set disk s := { s with disk }
  get_set _ _ := rfl
  set_get _ := rfl
  set_set _ _ _ := rfl

instance : Part Database Workshop where
  get s := s.database
  set database s := { s with database }
  get_set _ _ := rfl
  set_get _ := rfl
  set_set _ _ _ := rfl

instance : Part Journal Workshop where
  get s := s.journal
  set journal s := { s with journal }
  get_set _ _ := rfl
  set_get _ := rfl
  set_set _ _ _ := rfl

def loadDatabase : Act Workshop Nat := do
  let disk ← Part.read Disk
  let (m, database) := (← Part.read Database).loadAll disk .standard
  Part.update Database fun _ => database
  Journal.logged m

end Workshop

end LinearDialogue
