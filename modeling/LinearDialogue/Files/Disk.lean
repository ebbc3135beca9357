import LinearDialogue.Act
import LinearDialogue.Files.Path

/-!
# Files

A directory with everything below it.  Paths are followed name by name, so each name on the way must
be that of a directory.  Names and paths have a greatest length, and no path holds a null character.

The directory is all there is of the file system.  A path from the root, or one that leads out of
the directory, comes to a place beyond it: a directory where nothing is found and nothing can be
made.  For paths from the root the directory is to be the root itself; they are then written without
their first slash, and do not lead out of it.

Single changes happen wholly or not at all.  Making several directories, and placing an entry in
directories that are made for it, are acts of several changes: those before one that fails stay.
-/

namespace LinearDialogue

/-- What a file holds: text, or bytes that are none. -/
inductive Content
  | text (s : String)
  | undecodable (bytes : List UInt8)
  deriving DecidableEq

namespace Content

def ofBytes (bytes : List UInt8) : Content :=
  match String.fromUTF8? (ByteArray.mk bytes.toArray) with
  | some s => .text s
  | none => .undecodable bytes

/-- Line ends of all forms as single line feeds. -/
def unifyLines : List Char → List Char
  | '\r' :: '\n' :: rest => '\n' :: unifyLines rest
  | '\r' :: rest => '\n' :: unifyLines rest
  | c :: rest => c :: unifyLines rest
  | [] => []

def exact : Content → Except Failure String
  | .text s => .ok s
  | .undecodable _ => .error .undecodableBytes

def read (content : Content) : Except Failure String :=
  content.exact.map fun s => String.ofList (unifyLines s.toList)

def startsWith (mark : List Char) : Content → Bool
  | .text s => mark.isPrefixOf s.toList
  | .undecodable bytes => (mark.map fun c => c.toNat.toUInt8).isPrefixOf bytes

end Content

inductive FileEntry
  | file (content : Content)
  | directory
  deriving DecidableEq

/-- A directory: what is below it, by the names on the way. -/
structure Disk where
  entries : List (List String × FileEntry) := []
  deriving DecidableEq

/-- Where a path leads: to names from the directory on, or beyond it. -/
inductive Location
  | inside (names : List String)
  | outside
  deriving DecidableEq

namespace Disk

def find? (disk : Disk) (names : List String) : Option FileEntry :=
  if names = [] then some .directory
  else (disk.entries.find? fun e => e.1 == names).map (·.2)

def at? (disk : Disk) : Location → Option FileEntry
  | .inside names => disk.find? names
  | .outside => some .directory

def isNameTooLong (name : String) : Bool := 255 < name.utf8ByteSize

def isPathTooLong (path : String) : Bool := 4095 < path.utf8ByteSize

/-- Where a name leads to.  Beyond the directory nothing is found, and no way leads back. -/
def step (disk : Disk) (location : Location) (name : String) : Except FileFault Location :=
  match location with
  | .outside =>
    if name = ".." then .ok .outside
    else if isNameTooLong name then .error .nameTooLong
    else .error .notFound
  | .inside names =>
    match disk.find? names with
    | some .directory =>
      if name = ".." then .ok (if names = [] then .outside else .inside names.dropLast)
      else if isNameTooLong name then .error .nameTooLong
      else .ok (.inside (names ++ [name]))
    | some (.file _) => .error .notDirectory
    | none => .error .notFound

/-- Where the names of a path lead, one after another.  A path from the root starts beyond the
directory. -/
def follow (disk : Disk) (path : Path) (text : String) : Except Failure Location :=
  if text.toList.contains '\x00' then .error (.badArgument .nullInPath)
  else if isPathTooLong text then .error (.file .nameTooLong text)
  else
    match path.parts.foldlM disk.step (if path.isAbsolute then .outside else .inside []) with
    | .ok location => .ok location
    | .error fault => .error (.file fault text)

/-- Where a path leads.  There may be nothing at its end. -/
def locate (disk : Disk) (path : Path) : Except Failure Location := disk.follow path path.text

def status (disk : Disk) (path : Path) : Except Failure (Option FileEntry) :=
  (disk.locate path).map disk.at?

/-- Does what stands at the end of a path satisfy a test?  Where a path cannot be followed nothing
stands at its end, unless it is too long to tell. -/
def check (disk : Disk) (path : Path) (test : FileEntry → Bool) : Except Failure Bool :=
  match disk.status path with
  | .ok entry => .ok (entry.any test)
  | .error (.file .nameTooLong path) => .error (.file .nameTooLong path)
  | .error _ => .ok false

def exists? (disk : Disk) (path : Path) : Except Failure Bool := disk.check path fun _ => true

def isDirectory (disk : Disk) (path : Path) : Except Failure Bool :=
  disk.check path fun entry => entry == .directory

def content (disk : Disk) (path : Path) : Except Failure Content := do
  match ← disk.status path with
  | some (.file content) => return content
  | some .directory => .error (.file .isDirectory path.text)
  | none => .error (.file .notFound path.text)

/-- Put an entry under several names; one that is there is replaced in its place. -/
def put (disk : Disk) (names : List String) (entry : FileEntry) : Disk :=
  if disk.entries.any fun e => e.1 == names then
    { entries := disk.entries.map fun e => if e.1 == names then (names, entry) else e }
  else { entries := disk.entries ++ [(names, entry)] }

def write (disk : Disk) (path : Path) (content : Content) : Except Failure Disk := do
  let location ← disk.locate path
  match location, disk.at? location with
  | _, some .directory => .error (.file .isDirectory path.text)
  | .inside names, _ => return disk.put names (.file content)
  | .outside, _ => .error (.file .isDirectory path.text)

def makeDirectory (disk : Disk) (path : Path) : Except Failure Disk := do
  let location ← disk.locate path
  match location, disk.at? location with
  | .inside names, none => return disk.put names .directory
  | _, _ => .error (.file .exists path.text)

/-- Remove the file at the end of a path, which is written as a text.  A path that ends in a slash
or a point asks for a directory, and no directory is removed. -/
def delete (disk : Disk) (text : String) : Except Failure Disk := do
  let location ← disk.follow (Path.ofText text) text
  match location, disk.at? location with
  | .inside names, some (.file _) =>
    if Path.asksForDirectory text then .error (.file .notDirectory text)
    else return { entries := disk.entries.filter fun e => !(e.1 == names) }
  | _, some .directory =>
    if text = "" then .error (.file .notFound text) else .error (.file .isDirectory text)
  | _, _ => .error (.file .notFound text)

def names (disk : Disk) (path : Path) : List String :=
  match disk.locate path with
  | .ok (.inside names) =>
    if disk.find? names = some .directory then
      disk.entries.filterMap fun e => if e.1.dropLast = names then e.1.getLast? else none
    else []
  | _ => []

/-- The paths of all files, in order. -/
def files (disk : Disk) : List String :=
  let paths := disk.entries.filterMap fun e =>
    match e.2 with
    | .file _ => some (String.intercalate "/" e.1)
    | .directory => none
  paths.mergeSort fun a b => decide (a ≤ b)

/-- The text of a file, whatever its line ends. -/
def readExact (disk : Disk) (path : Path) : Except Failure String := do
  (← disk.content path).exact

def readText (disk : Disk) (path : Path) : Except Failure String := do
  (← disk.content path).read

def writeText (disk : Disk) (path : Path) (text : String) : Except Failure Disk :=
  disk.write path (.text text)

/-- A disk is a state of its own. -/
instance : Part Disk Disk where
  get disk := disk
  set disk _ := disk
  get_set _ _ := rfl
  set_get _ := rfl
  set_set _ _ _ := rfl

variable {σ : Type} [Part Disk σ]

def change (f : Disk → Except Failure Disk) : Act σ Unit := do
  let disk ← Act.ofExcept (f (← Part.read Disk))
  Part.update Disk fun _ => disk

/-- Fail because a directory could not be made, unless there is one. -/
def unlessDirectory (path : Path) (failure : Failure) : Act σ Unit := do
  if ← Act.ofExcept ((← Part.read Disk : Disk).isDirectory path) then return ()
  Act.fail failure

/-- Make a directory where there may be one. -/
def ensureDirectory (path : Path) : Act σ Unit := do
  match ← (change fun disk => disk.makeDirectory path).attempt with
  | .ok () => return ()
  | .error failure => unlessDirectory path failure

/-- Make a directory together with those above it; `fuel` bounds how many those are. -/
def ensureAll (path : Path) : Nat → Act σ Unit
  | 0 => ensureDirectory path
  | fuel + 1 => do
    match ← (change fun disk => disk.makeDirectory path).attempt with
    | .ok () => return ()
    | .error (.file .notFound _) =>
      ensureAll path.parent fuel
      ensureDirectory path
    | .error failure => unlessDirectory path failure

def ensureDirectories (path : Path) : Act σ Unit := ensureAll path path.parts.length

/-- Put a new entry at the end of a path, making the directories above it. -/
def place (path : Path) (entry : FileEntry) : Act σ Unit := do
  ensureDirectories path.parent
  match entry with
  | .directory => change fun disk => disk.makeDirectory path
  | .file content => change fun disk => disk.write path content

end Disk

end LinearDialogue
