import LinearDialogue.Act

/-!
# Playback

Walking a compiled graph one record at a time.  A playback has the table of its records by id, a
cursor on the record to be executed next, and a state.  Executing a spoken line calls back with it;
running out of records terminates the playback and calls back as well.  While a step is going on, a
further step is refused.
-/

namespace LinearDialogue

inductive PlaybackState
  | unloaded
  | loaded
  | active
  | terminated
  deriving DecidableEq

def PlaybackState.name : PlaybackState → String
  | .unloaded => "UNLOADED"
  | .loaded => "LOADED"
  | .active => "ACTIVE"
  | .terminated => "TERMINATED"

/-- A playback. -/
structure Playback where
  table : List Record := []
  cursor : Int := noId
  state : PlaybackState := .unloaded
  /-- Is a step going on? -/
  advancing : Bool := false
  deriving DecidableEq

namespace Playback

def record? (p : Playback) (id : Int) : Option Record := p.table.find? fun r => r.id == id

def current? (p : Playback) : Option Record := p.record? p.cursor

def isTerminated (p : Playback) : Bool := p.state == .terminated

/-- Put a record into a table; one with its id is replaced in its place. -/
def enter (record : Record) : List Record → List Record
  | [] => [record]
  | r :: rest => if r.id == record.id then record :: rest else r :: enter record rest

def duplicateId (id : Int) : LogEntry :=
  { level := .warning
    reporter := .playback
    message := "Duplicate record id " ++ toString id ++ "; keeping the last one" }

/-- The table of several records, added to a table, with the entries about ids that recur. -/
def tabulate : List Record → List Record → List LogEntry × List Record
  | table, [] => ([], table)
  | table, record :: rest =>
    let (log, result) := tabulate (enter record table) rest
    if table.any fun r => r.id == record.id then (duplicateId record.id :: log, result)
    else (log, result)

variable {σ : Type} [Part Playback σ] [Part Journal σ]

/-- Load a compiled graph and put the cursor on its entry. -/
def load (graph : CompiledGraph) : Act σ Unit := do
  let (log, table) := tabulate [] graph.records
  Part.update Journal fun j => { j with log := j.log ++ log }
  Part.update Playback fun p => { p with table, cursor := graph.entry, state := .loaded }

def unload : Act σ Unit :=
  Part.update Playback fun p => { p with table := [], cursor := noId, state := .unloaded }

def ended : LogEntry := { level := .info, reporter := .playback, message := "END DIALOGUE" }

def spoken (line : SpokenLine) : LogEntry :=
  { level := .info, reporter := .playback, message := line.actor ++ ": " ++ line.text }

structure Callbacks (σ : Type) where
  onLine : Int → SpokenLine → Act σ Unit
  onEnd : Act σ Unit
  /-- Are spoken lines logged? -/
  logLines : Bool

def terminate (callbacks : Callbacks σ) : Act σ Unit := do
  Part.update Playback fun p => { p with state := .terminated }
  Journal.report ended
  callbacks.onEnd

/-- Execute a record.  The cursor moves on afterwards, whatever the callback did to it. -/
def execute (callbacks : Callbacks σ) (record : Record) : Act σ Unit := do
  match record.playableLine? with
  | none => Act.fail (.unsupportedKind (.text record.recordClass.name))
  | some line =>
    if callbacks.logLines then Journal.report (spoken line)
    callbacks.onLine record.id line
    Part.update Playback fun p => { p with cursor := record.successor, state := .active }

/-- A step that is known not to be inside another: execute the record under the cursor, or
terminate.  The answer is whether a record was executed. -/
def step (callbacks : Callbacks σ) : Act σ Bool := do
  match (← Part.read Playback).current? with
  | none =>
    terminate callbacks
    return false
  | some record =>
    execute callbacks record
    return true

def setAdvancing (b : Bool) (s : σ) : σ :=
  Part.set { (Part.get s : Playback) with advancing := b } s

/-- A step, refused inside another. -/
def advance (callbacks : Callbacks σ) : Act σ Bool := do
  if (← Part.read Playback).advancing then Act.fail Failure.alreadyAdvancing
  Part.update Playback fun p => { p with advancing := true }
  Act.ensure (step callbacks) (setAdvancing false)

end Playback

end LinearDialogue
