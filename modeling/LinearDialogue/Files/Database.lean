import LinearDialogue.Files.Documents
import LinearDialogue.Log

/-!
# The dialogue database

All compiled graphs of a data directory, by the names of their files.  Loading reads every JSON file
in order; one that is broken is logged and skipped.  Bytes that are no text end the loading, and so
does a data directory whose path is too long to look for it.
-/

namespace LinearDialogue

structure Database where
  dataPath : Path
  dialogues : List (String × CompiledGraph) := []
  deriving DecidableEq

namespace Database

def directory (db : Database) : Path := db.dataPath.child "dialogue"

def find? (db : Database) (id : String) : Option CompiledGraph :=
  (db.dialogues.find? fun entry => entry.1 == id).map (·.2)

/-- The graph of an id that may be any value; graphs have texts for their ids. -/
def lookup (db : Database) : Value → Except Failure (Option CompiledGraph)
  | .text id => .ok (db.find? id)
  | id => if id.isKey then .ok none else .error .wrongType

/-- Enter a graph; one with its id is replaced in its place. -/
def enter (id : String) (graph : CompiledGraph) :
    List (String × CompiledGraph) → List (String × CompiledGraph)
  | [] => [(id, graph)]
  | (i, g) :: rest =>
    if i == id then (i, graph) :: rest else (i, g) :: enter id graph rest

def isAssetName (name : String) : Bool := ".json".toList.isSuffixOf name.toList

/-- The files of a directory that hold graphs, in order. -/
def assets (disk : Disk) (directory : Path) : List Path :=
  (((disk.names directory).filter isAssetName).mergeSort fun a b => decide (a ≤ b)).map
    directory.child

/-- Is a failure one of files or dialogues, after which loading goes on? -/
def isSkipped : Failure → Bool
  | .file _ _ => true
  | failure => failure.isDialogueFailure

def entry (level : Level) (message : String) : LogEntry :=
  { level, reporter := .database, message }

/-- Load several files into a table.  The table is kept when loading ends early. -/
def loadFiles (disk : Disk) (registry : Registry) :
    List Path → List (String × CompiledGraph) → Logged Unit × List (String × CompiledGraph)
  | [], table => (pure (), table)
  | path :: rest, table =>
    match disk.loadCompiled registry path with
    | .ok graph => loadFiles disk registry rest (enter path.stem graph table)
    | .error failure =>
      if isSkipped failure then
        let (m, table) := loadFiles disk registry rest table
        let skipped := entry .error ("Failed to load " ++ path.text ++ ": " ++ failure.message)
        ({ m with log := skipped :: m.log }, table)
      else (Logged.fail failure, table)

/-- Load every graph of the data directory; the answer is their number. -/
def loadAll (db : Database) (disk : Disk) (registry : Registry) : Logged Nat × Database :=
  match disk.exists? db.directory with
  | .error failure => (Logged.fail failure, { db with dialogues := [] })
  | .ok true =>
    let (m, dialogues) := loadFiles disk registry (assets disk db.directory) []
    let count := dialogues.length
    (do
      m
      Logged.report (entry .info ("Loaded " ++ toString count ++ " dialogues."))
      return count, { db with dialogues })
  | .ok false =>
    (do
      Logged.report (entry .warning ("Data directory not found: " ++ db.directory.text))
      return 0, { db with dialogues := [] })

end Database

end LinearDialogue
