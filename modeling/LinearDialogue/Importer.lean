import LinearDialogue.Bus.Delivery
import LinearDialogue.Compiled.Compilation
import LinearDialogue.Files.Documents

/-!
# The importer

From authored graphs to compiled ones in files.  After every edit the issues of a graph are logged
and announced; an import refuses a graph with issues and announces a graph that it has compiled.
Importing a file writes the compiled graph beside it, or where it is told to.
-/

namespace LinearDialogue.Importer

variable {σ : Type} [Part Disk σ] [Part Journal σ]

/-- The name to report: the given one, or else that of the graph. -/
def reportName (given graphName : Value) : Value := if given.isTruthy then given else graphName

def issueEntry (name : Value) (issue : Issue) : LogEntry :=
  { level := .error
    reporter := .importer
    message := "[" ++ name.plain ++ "] " ++ issue.line }

def issuesEvent (type : EventType) (name : Value) (issues : List Issue) : Event :=
  { type, data := [("name", .value name), ("issues", .issues issues)] }

def graphChanged (publish : Publisher σ) (graph : Graph) (given : Value) :
    Act σ (List Issue) := do
  let name := reportName given graph.name
  let issues ← Act.ofExcept graph.validate
  Part.update Journal fun j => { j with log := j.log ++ issues.map (issueEntry name) }
  let _ ← publish (issuesEvent .graphValidated name issues)
  return issues

/-- Compile a graph unless it has issues. -/
def importGraph (publish : Publisher σ) (graph : Graph) (given : Value) :
    Act σ CompiledGraph := do
  let name := reportName given graph.name
  let issues ← graphChanged publish graph name
  if issues.isEmpty then
    let compiled ← Journal.logged graph.compile
    let _ ← publish
      { type := .graphImported, data := [("name", .value name), ("graph", .graph compiled)] }
    return compiled
  else
    let _ ← publish (issuesEvent .importFailed name issues)
    Act.fail (.validation name issues)

def importedEntry (input output : Path) : LogEntry :=
  { level := .info
    reporter := .importer
    message := "Imported " ++ input.text ++ " -> " ++ output.text }

def suffix : String := ".json"

/-- Import a file; the answer is the path of the written file. -/
def importFile (publish : Publisher σ) (input : Path) (output : Option Path) : Act σ Path := do
  let output ←
    match output with
    | some path => pure path
    | none => Act.ofExcept (input.withSuffix suffix)
  let graph ← Act.ofExcept ((← Part.read Disk).loadAuthored input)
  let compiled ← importGraph publish graph (.text input.stem)
  Disk.ensureDirectories output.parent
  Disk.change fun disk => disk.saveCompiled compiled output
  Journal.report (importedEntry input output)
  return output

end LinearDialogue.Importer
