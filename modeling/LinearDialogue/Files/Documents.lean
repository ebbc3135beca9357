import LinearDialogue.Authored.Document
import LinearDialogue.Compiled.Persistence
import LinearDialogue.Files.Disk

/-!
# Graphs in files

Authored and compiled graphs are kept in files, as JSON text.  An authored graph whose document has
no name is named after its file.
-/

namespace LinearDialogue.Disk

def loadAuthored (disk : Disk) (path : Path) : Except Failure Graph := do
  let text ← disk.readText path
  match Json.read text with
  | .error fault => .error (.badJson fault)
  | .ok document =>
    let graph ← Graph.ofDocument document
    match document.field? "name" with
    | some _ => return graph
    | none => return { graph with name := .text path.stem }

def saveAuthored (disk : Disk) (graph : Graph) (path : Path) : Except Failure Disk := do
  disk.writeText path (Json.render (← graph.document))

def loadCompiled (disk : Disk) (registry : Registry) (path : Path) :
    Except Failure CompiledGraph := do
  CompiledGraph.deserialize registry (← disk.readText path)

def saveCompiled (disk : Disk) (graph : CompiledGraph) (path : Path) : Except Failure Disk :=
  disk.writeText path graph.serialize

end LinearDialogue.Disk
