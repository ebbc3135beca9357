import LinearDialogue.Compiled.Record

/-!
# Loops of records

Every record has at most one successor, so a chain of records either ends or runs into a loop.  The
search follows the chain from every record in turn and stops at records whose chains are known to
end.
-/

namespace LinearDialogue

abbrev SuccessorTable := List (Int × Int)

namespace SuccessorTable

def next? (table : SuccessorTable) (id : Int) : Option Int :=
  (table.find? fun entry => entry.1 == id).map (·.2)

/-- Set a successor; an id that is there keeps its place. -/
def assign (id successor : Int) : SuccessorTable → SuccessorTable
  | [] => [(id, successor)]
  | (i, s) :: rest =>
    if i == id then (i, successor) :: rest else (i, s) :: assign id successor rest

/-- The table of a list of records; of several with one id the last counts. -/
def ofRecords (records : List Record) : SuccessorTable :=
  records.foldl (fun table record => table.assign record.id record.successor) []

/-- Where a chain leads: to its end, or into a loop. -/
inductive Walk
  | ends (path : List Int)
  | loops (cycle : List Int)
  deriving DecidableEq

/-- Follow a chain from an id on; `path` holds the ids passed.  A chain whose ids are all different
is no longer than the table, so `fuel` beyond that length is not used up. -/
def walk (table : SuccessorTable) (finished : List Int) : Nat → List Int → Int → Walk
  | 0, path, _ => .ends path
  | fuel + 1, path, id =>
    if finished.contains id then .ends path
    else match table.next? id with
      | none => .ends path
      | some successor =>
        if path.contains id then .loops (path.dropWhile (· != id))
        else walk table finished fuel (path ++ [id]) successor

/-- Follow the chains from several ids in turn. -/
def search (table : SuccessorTable) : List Int → List Int → List Int
  | _, [] => []
  | finished, start :: rest =>
    match table.walk finished (table.length + 1) [] start with
    | .loops cycle => cycle
    | .ends path => table.search (finished ++ path) rest

/-- The first loop that the chains from the ids of the table run into. -/
def findCycle (table : SuccessorTable) : List Int := table.search [] (table.map (·.1))

end SuccessorTable

/-- The first loop of a list of records, in the order of successors; empty if there is none. -/
def findCycle (records : List Record) : List Int := (SuccessorTable.ofRecords records).findCycle

end LinearDialogue
