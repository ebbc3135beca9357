import LinearDialogue.Failure

/-!
# Paths

Paths of files: a root, which relative paths lack, and the names along the way.  Empty names and
single points are dropped where a path is read; two points stay.  The stem and the suffix of a name
part at its last point, unless that is the first or the last character.
-/

namespace LinearDialogue

structure Path where
  root : String := ""
  parts : List String := []
  deriving DecidableEq

namespace Path

def splitSlashes : List Char → List (List Char)
  | [] => [[]]
  | '/' :: rest => [] :: splitSlashes rest
  | c :: rest =>
    match splitSlashes rest with
    | [] => [[c]]
    | part :: others => (c :: part) :: others

/-- The root of a written path: two slashes at its start are another root than one or three. -/
def rootOf : List Char → String
  | '/' :: '/' :: '/' :: _ => "/"
  | '/' :: '/' :: _ => "//"
  | '/' :: _ => "/"
  | _ => ""

/-- Does a written path ask for a directory, by a slash or a point at its end? -/
def asksForDirectory (text : String) : Bool :=
  match (splitSlashes text.toList).getLast? with
  | some part => part = [] ∨ part = ['.']
  | none => false

def ofText (text : String) : Path where
  root := rootOf text.toList
  parts := (splitSlashes text.toList).filterMap fun part =>
    if part = [] ∨ part = ['.'] then none else some (String.ofList part)

def text (path : Path) : String :=
  if path.root = "" ∧ path.parts = [] then "." else path.root ++ String.intercalate "/" path.parts

def isAbsolute (path : Path) : Bool := path.root != ""

/-- A path seen from another: an absolute path stays as it is. -/
def join (base path : Path) : Path :=
  if path.isAbsolute then path else { base with parts := base.parts ++ path.parts }

def child (path : Path) (name : String) : Path := { path with parts := path.parts ++ [name] }

def parent (path : Path) : Path := { path with parts := path.parts.dropLast }

def name (path : Path) : String := path.parts.getLast?.getD ""

/-- The parts of a name before and from its last point on. -/
def splitName (name : String) : String × String :=
  let cs := name.toList
  let after := (cs.reverse.takeWhile (· ≠ '.')).length
  if cs.contains '.' && 0 < after && after + 1 < cs.length then
    let before := cs.length - after - 1
    (String.ofList (cs.take before), String.ofList (cs.drop before))
  else (name, "")

def stem (path : Path) : String := (splitName path.name).1

/-- The path with another suffix.  Without a name there is nothing to put it on. -/
def withSuffix (path : Path) (suffix : String) : Except Failure Path :=
  if path.name = "" then .error (.badArgument (.emptyFileName path.text))
  else .ok { path with parts := path.parts.dropLast ++ [path.stem ++ suffix] }

end Path

end LinearDialogue
