import LinearDialogue.Compiled.Problem
import LinearDialogue.Value

/-!
# Records and compiled graphs

A compiled graph is an entry and a list of records.  A record has an id, the id of its successor
and a kind tag; a record of a speaking class has a spoken line as well.  Ids are integers of 32
bits, and `noId` stands for no record.
-/

namespace LinearDialogue

/-- The id that names no record. -/
def noId : Int := -1

def maxId : Int := 2147483647

/-- A spoken line: the speaker, the handle of a voice clip if there is one, the text, and the names
of signals for the game. -/
structure SpokenLine where
  actor : String
  audio : Option String
  text : String
  callbacks : List String
  deriving DecidableEq, Inhabited

structure RecordClass where
  name : String
  /-- The only tag that records of the class carry; without one every text is a tag. -/
  tag : Option String
  /-- Do records of the class have a spoken line? -/
  speaks : Bool
  /-- Does playback know how to execute records of the class? -/
  executable : Bool
  deriving DecidableEq

namespace RecordClass

def dialogue : RecordClass := ⟨"DialogueNode", some "dialogue", true, true⟩

/-- Records of which no more than the base fields are known. -/
def plain : RecordClass := ⟨"RuntimeNode", none, false, false⟩

/-- Choices, which nothing in this library executes. -/
def choice : RecordClass := ⟨"ChoiceNode", some "choice", false, false⟩

/-- A class of another name that has the fields of a given one.  Without a tag of its own it keeps
the tag of that class; a tag that is no text leaves it without one.  Playback does not know it. -/
def derive (base : RecordClass) (name : String) (tag : Option Value) : RecordClass :=
  let tag :=
    match tag with
    | none => base.tag
    | some (.text t) => some t
    | some _ => none
  ⟨name, tag, base.speaks, false⟩

end RecordClass

/-- A record.  Those of a speaking class have a line, the others have none. -/
structure Record where
  recordClass : RecordClass
  id : Int
  successor : Int
  kind : String
  line : Option SpokenLine
  deriving DecidableEq

/-- The line that playback shows for a record; none where it does not know the class. -/
def Record.playableLine? (record : Record) : Option SpokenLine :=
  if record.recordClass.executable then record.line else none

structure CompiledGraph where
  entry : Int
  records : List Record
  deriving DecidableEq

namespace CompiledGraph

/-- The graph without entry and records. -/
def empty : CompiledGraph := ⟨noId, []⟩

/-- Does the graph start nowhere? -/
def isEmpty (graph : CompiledGraph) : Bool := graph.entry == noId

end CompiledGraph

def Value.ofOption : Option String → Value
  | some s => .text s
  | none => .null

def Record.fields (record : Record) : List (String × Value) :=
  [("id", .int record.id), ("successor_id", .int record.successor), ("kind", .text record.kind)] ++
    match record.line with
    | some line =>
      [("actor", .text line.actor), ("audio", .ofOption line.audio), ("text", .text line.text),
        ("callbacks", .list (line.callbacks.map .text))]
    | none => []

def CompiledGraph.document (graph : CompiledGraph) : Value :=
  .object [("entry_id", .int graph.entry),
    ("records", .list (graph.records.map fun record => .object record.fields))]

end LinearDialogue
