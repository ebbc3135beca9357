import LinearDialogue.Proofs.Disks
import LinearDialogue.Proofs.PersistedGraphs
import LinearDialogue.Workshop

/-!
# Imports

An import touches the disk only after everything that can be wrong with the document has been found
to be right.  So a document that is unfit leaves the disk as it is.  Otherwise directories are made
and one file is put into them, from which the compiled graph is read back as it was.
-/

namespace LinearDialogue

/-! ## Texts of graphs -/

namespace CompiledGraph

variable {graph : CompiledGraph} {registry : Registry}

/-- The text of a graph has line feeds for its line ends. -/
theorem return_notMem_serialize (hgraph : graph.Persists registry) :
    '\r' ∉ graph.serialize.toList := by
  have htext : graph.serialize.toList = Json.valueChars (some 0) graph.document :=
    String.toList_ofList
  rw [htext]
  exact Json.return_notMem_valueChars (isExact_document hgraph) (some 0)

end CompiledGraph

namespace Importer

/-- A document that cannot be imported: it is not read as a graph, or validation of the graph does
not come out clean, or the graph does not compile. -/
inductive Unfit (disk : Disk) (input : Path) : Prop
  | unread {failure : Failure} (h : disk.loadAuthored input = .error failure)
  | unclean {graph : Graph} (hread : disk.loadAuthored input = .ok graph)
      (h : graph.validate ≠ .ok [])
  | uncompiled {graph : Graph} {failure : Failure} (hread : disk.loadAuthored input = .ok graph)
      (h : graph.compile.result = .error failure)

/-- A document that can be imported, with the graph that it makes. -/
structure Fits (disk : Disk) (input : Path) (graph : Graph) (compiled : CompiledGraph) : Prop where
  read : disk.loadAuthored input = .ok graph
  clean : graph.validate = .ok []
  compiles : graph.compile.result = .ok compiled

/-- What an import leaves of a disk: the text of a graph at the end of a path, perhaps in
directories that are new, and every other entry as it was. -/
structure Leaves (disk disk' : Disk) (path : Path) (compiled : CompiledGraph)
    (names : List String) : Prop where
  located : disk'.locate path = .ok (.inside names)
  holds : disk'.find? names = some (.file (.text compiled.serialize))
  keeps : ∀ other, other ≠ names → ∀ entry, disk.find? other = some entry →
    disk'.find? other = some entry
  news : ∀ other, other ≠ names → disk.find? other = none →
    disk'.find? other = none ∨ disk'.find? other = some .directory

theorem leaves_of_furthers {disk middle disk' : Disk} {path : Path} {compiled : CompiledGraph}
    {names : List String} (h : disk.Furthers middle)
    (h' : middle.Receives disk' path (.text compiled.serialize) names) :
    Leaves disk disk' path compiled names := by
  refine ⟨h'.located, h'.holds, fun other hother entry hfind ↦ ?_, fun other hother hfind ↦ ?_⟩
  · rw [h'.others other hother]
    exact h.keeps hfind
  · rw [h'.others other hother]
    exact h.news hfind

/-- The graph is read back from the file. -/
theorem Leaves.loadCompiled {disk disk' : Disk} {path : Path} {graph : CompiledGraph}
    {names : List String} {registry : Registry} (h : Leaves disk disk' path graph names)
    (hregistry : registry.Registered) (hgraph : graph.Persists registry) :
    disk'.loadCompiled registry path = .ok graph := by
  rw [Disk.loadCompiled, Disk.readText_of_located h.located h.holds
    (CompiledGraph.return_notMem_serialize hgraph)]
  exact CompiledGraph.deserialize_eq_ok hregistry hgraph

/-- Where an import goes: where it is told to, or beside the document. -/
def target (input : Path) (output : Option Path) : Except Failure Path :=
  output.elim (input.withSuffix suffix) .ok

section Compiling

variable {σ : Type} [Part Journal σ] {publish : Publisher σ} {graph : Graph} {given : Value}
  {s t : σ}

theorem validate_of_graphChanged_eq_returned {issues : List Issue}
    (h : graphChanged publish graph given s = (.returned issues, t)) :
    graph.validate = .ok issues := by
  obtain ⟨found, _, hfound, h⟩ := Act.bind_eq_returned_iff.mp h
  obtain ⟨_, _, _, h⟩ := Act.bind_eq_returned_iff.mp h
  obtain ⟨_, _, _, h⟩ := Act.bind_eq_returned_iff.mp h
  cases h
  exact (Act.ofExcept_eq_returned_iff.mp hfound).1

theorem result_of_logged_eq_returned {α : Type} {m : Logged α} {a : α}
    (h : (Journal.logged m : Act σ α) s = (.returned a, t)) : m.result = .ok a := by
  obtain ⟨_, _, _, h⟩ := Act.bind_eq_returned_iff.mp h
  exact (Act.ofExcept_eq_returned_iff.mp h).1

/-- Only a graph without issues is compiled, and the answer is what it compiles to. -/
theorem of_importGraph_eq_returned {compiled : CompiledGraph}
    (h : importGraph publish graph given s = (.returned compiled, t)) :
    graph.validate = .ok [] ∧ graph.compile.result = .ok compiled := by
  obtain ⟨issues, _, hissues, h⟩ := Act.bind_eq_returned_iff.mp h
  split at h
  · next hempty =>
    obtain ⟨made, _, hmade, h⟩ := Act.bind_eq_returned_iff.mp h
    obtain ⟨_, _, _, h⟩ := Act.bind_eq_returned_iff.mp h
    cases h
    obtain rfl := List.isEmpty_iff.mp hempty
    exact ⟨validate_of_graphChanged_eq_returned hissues, result_of_logged_eq_returned hmade⟩
  · obtain ⟨_, _, _, h⟩ := Act.bind_eq_returned_iff.mp h
    cases h

end Compiling

variable {σ : Type} [Part Disk σ] [Part Journal σ] {publish : Publisher σ}

/-- The import of a document to a path. -/
def importTo (publish : Publisher σ) (input path : Path) : Act σ Path := do
  let graph ← Act.ofExcept ((← Part.read Disk).loadAuthored input)
  let compiled ← importGraph publish graph (.text input.stem)
  Disk.ensureDirectories path.parent
  Disk.change fun disk => disk.saveCompiled compiled path
  Journal.report (importedEntry input path)
  return path

theorem importFile_eq (publish : Publisher σ) (input : Path) (output : Option Path) :
    importFile publish input output =
      Act.ofExcept (target input output) >>= importTo publish input := by
  cases output <;> rfl

/-- A publisher that comes to an end and does nothing to the disk. -/
structure SparesDisk (publish : Publisher σ) : Prop where
  along : ∀ event, (publish event).Along fun s t ↦ (Part.get t : Disk) = Part.get s
  ends : ∀ event, (publish event).Ends fun _ ↦ True

/-- States whose disk is no part of their journal. -/
class KeepsApart (σ : Type) [Part Disk σ] [Part Journal σ] : Prop where
  get_disk_set_journal : ∀ (journal : Journal) (s : σ),
    (Part.get (Part.set journal s) : Disk) = Part.get s

/-! ## Before the disk is touched -/

section SameDisk

omit [Part Journal σ] in
theorem chains_sameDisk : Act.Chains fun s t : σ ↦ (Part.get t : Disk) = Part.get s :=
  ⟨fun _ ↦ rfl, fun h h' ↦ h'.trans h⟩

variable [KeepsApart σ]

theorem along_updateJournal (f : Journal → Journal) :
    (Part.update Journal f : Act σ Unit).Along fun s t ↦ (Part.get t : Disk) = Part.get s :=
  fun s ↦ KeepsApart.get_disk_set_journal _ s

theorem along_importGraph (hpublish : SparesDisk publish) (graph : Graph) (given : Value) :
    (importGraph publish graph given).Along fun s t ↦ (Part.get t : Disk) = Part.get s := by
  refine .bind chains_sameDisk (.bind chains_sameDisk (.ofExcept chains_sameDisk _) fun issues ↦
    .bind chains_sameDisk (along_updateJournal _) fun _ ↦
      .bind chains_sameDisk (hpublish.along _) fun _ ↦ .pure chains_sameDisk issues) fun issues ↦ ?_
  split
  · refine .bind chains_sameDisk (.bind chains_sameDisk (along_updateJournal _) fun _ ↦
      .ofExcept chains_sameDisk _) fun compiled ↦ ?_
    exact .bind chains_sameDisk (hpublish.along _) fun _ ↦ .pure chains_sameDisk compiled
  · exact .bind chains_sameDisk (hpublish.along _) fun _ ↦ .fail chains_sameDisk _

omit [KeepsApart σ] in
theorem ends_importGraph (hpublish : SparesDisk publish) (graph : Graph) (given : Value) :
    (importGraph publish graph given).Ends fun _ ↦ True := by
  refine .bind (.bind (.ofExcept fun _ _ ↦ trivial) fun issues ↦ .bind (.update _) fun _ ↦
    .bind (hpublish.ends _) fun _ ↦ .pure issues) fun issues ↦ ?_
  split
  · refine .bind (.bind (.update _) fun _ ↦ .ofExcept fun _ _ ↦ trivial) fun compiled ↦ ?_
    exact .bind (hpublish.ends _) fun _ ↦ .pure compiled
  · exact .bind (hpublish.ends _) fun _ ↦ .fail trivial

/-- The import of an unfit document fails before the disk is touched. -/
theorem exists_importTo_eq_failed (hpublish : SparesDisk publish) {input : Path} (path : Path)
    {s : σ} (h : Unfit (Part.get s) input) :
    ∃ failure t, importTo publish input path s = (.failed failure, t) ∧
      (Part.get t : Disk) = Part.get s := by
  have hcompiling {graph : Graph} (hread : (Part.get s : Disk).loadAuthored input = .ok graph)
      (hunfit : ∀ compiled, ¬ (graph.validate = .ok [] ∧ graph.compile.result = .ok compiled)) :
      ∃ failure t, importTo publish input path s = (.failed failure, t) ∧
        (Part.get t : Disk) = Part.get s := by
    have hsame := along_importGraph hpublish graph (.text input.stem) s
    rw [importTo, Act.bind_of_returned (Part.read_apply s), hread,
      Act.bind_of_returned (show Act.ofExcept (.ok graph) s = (.returned graph, s) from rfl)]
    rcases ends_importGraph hpublish graph (.text input.stem) s with
      ⟨compiled, hreturned⟩ | ⟨failure, hfailed, -⟩
    · exact absurd (of_importGraph_eq_returned (Prod.ext hreturned rfl)) (hunfit compiled)
    · exact ⟨failure, _, Act.bind_of_failed (Prod.ext hfailed rfl) _, hsame⟩
  cases h with
  | @unread failure hread =>
      refine ⟨failure, s, ?_, rfl⟩
      rw [importTo, Act.bind_of_returned (Part.read_apply s), hread]
      rfl
  | unclean hread hissues => exact hcompiling hread fun _ hfit ↦ hissues hfit.1
  | uncompiled hread hfails =>
      exact hcompiling hread fun _ hfit ↦ nomatch hfails.symm.trans hfit.2

/-! ## After the disk is touched -/

theorem of_importTo_eq_returned (hpublish : SparesDisk publish) {input path answer : Path} {s t : σ}
    (h : importTo publish input path s = (.returned answer, t)) :
    answer = path ∧ ∃ graph compiled names, Fits (Part.get s) input graph compiled ∧
      Leaves (Part.get s) (Part.get t) path compiled names := by
  obtain ⟨_, _, hdisk, h⟩ := Act.bind_eq_returned_iff.mp h
  cases hdisk
  obtain ⟨graph, first, hloaded, h⟩ := Act.bind_eq_returned_iff.mp h
  obtain ⟨hread, rfl⟩ := Act.ofExcept_eq_returned_iff.mp hloaded
  obtain ⟨compiled, second, hcompiled, h⟩ := Act.bind_eq_returned_iff.mp h
  obtain ⟨_, third, hmade, h⟩ := Act.bind_eq_returned_iff.mp h
  obtain ⟨_, fourth, hwritten, h⟩ := Act.bind_eq_returned_iff.mp h
  obtain ⟨_, _, hreported, h⟩ := Act.bind_eq_returned_iff.mp h
  cases hreported
  cases h
  obtain ⟨hclean, hcompiles⟩ := of_importGraph_eq_returned hcompiled
  have hsame : (Part.get second : Disk) = Part.get s := by
    have hstep := along_importGraph hpublish graph (.text input.stem) s
    rwa [hcompiled] at hstep
  have hfurthers : (Part.get s : Disk).Furthers (Part.get third) := by
    have hstep := Disk.along_ensureAll path.parent path.parent.parts.length second
    rw [Disk.ensureDirectories] at hmade
    rwa [hmade, hsame] at hstep
  rw [Disk.change_apply] at hwritten
  split at hwritten
  · next disk hwrite =>
    cases hwritten
    obtain ⟨names, hreceives⟩ := Disk.exists_receives_of_write_eq_ok hwrite
    refine ⟨rfl, graph, compiled, names, ⟨hread, hclean, hcompiles⟩, ?_⟩
    rw [KeepsApart.get_disk_set_journal, Part.get_set]
    exact leaves_of_furthers hfurthers hreceives
  · cases hwritten

/-- An import is done wholly or not at all.  If the document is not read as a graph, is not clean or
does not compile, then it fails and the disk is as it was.  If it answers with a path, then the
graph that the document compiles to is read from there, and of what was on the disk all else is as
it was.

Both paths are followed from the directory of the disk.  Beyond it nothing is found and nothing is
made, so an import from there or to there fails; paths from the root are for the disk of the
root. -/
theorem importFile_all_or_nothing (hpublish : SparesDisk publish) (input : Path)
    (output : Option Path) (s : σ) :
    (Unfit (Part.get s) input →
      ∃ failure t, importFile publish input output s = (.failed failure, t) ∧
        (Part.get t : Disk) = Part.get s) ∧
    ∀ path t, importFile publish input output s = (.returned path, t) →
      target input output = .ok path ∧
      ∃ graph compiled names, Fits (Part.get s) input graph compiled ∧
        Leaves (Part.get s) (Part.get t) path compiled names ∧
        ∀ registry : Registry, registry.Registered → registry.find? "dialogue" = some .dialogue →
          (Part.get t : Disk).loadCompiled registry path = .ok compiled := by
  rw [importFile_eq]
  constructor
  · intro hunfit
    cases htarget : target input output with
    | error failure => exact ⟨failure, s, rfl, rfl⟩
    | ok path => exact exists_importTo_eq_failed hpublish path hunfit
  · intro path t h
    obtain ⟨chosen, _, hchosen, h⟩ := Act.bind_eq_returned_iff.mp h
    obtain ⟨htarget, rfl⟩ := Act.ofExcept_eq_returned_iff.mp hchosen
    obtain ⟨rfl, graph, compiled, names, hfits, hleaves⟩ := of_importTo_eq_returned hpublish h
    refine ⟨htarget, graph, compiled, names, hfits, hleaves, fun registry hregistry hdialogue ↦ ?_⟩
    exact hleaves.loadCompiled hregistry
      (CompiledGraph.persists_of_compile_eq_ok hdialogue hfits.compiles)

end SameDisk

/-! ## In the workshop -/

instance : KeepsApart Workshop := ⟨fun _ _ ↦ rfl⟩

theorem sparesDisk_observed : SparesDisk (.observed : Publisher Workshop) :=
  ⟨fun event ↦ .bind chains_sameDisk (along_updateJournal _) fun _ ↦ .pure chains_sameDisk event,
    fun event ↦ .bind (.update _) fun _ ↦ .pure event⟩

/-- An entry, a line and an exit. -/
def sketch : String :=
  "\x7b\"nodes\":[\x7b\"id\":\"e\",\"kind\":\"entry\"\x7d," ++
    "\x7b\"id\":\"l\",\"kind\":\"line\"\x7d,\x7b\"id\":\"x\",\"kind\":\"exit\"\x7d]\x7d"

/-- A disk with a document, and with one that is no graph beside the file of a graph. -/
def inbox : Workshop where
  disk := ⟨[(["in"], .directory), (["in", "a.dialogue"], .file (.text sketch)),
    (["in", "b.dialogue"], .file (.text "[]")), (["in", "b.json"], .file (.text "kept"))]⟩
  database := ⟨⟨"", ["in"]⟩, []⟩

theorem importFile_all_or_nothing_of_inbox :
    let input : Path := ⟨"", ["in", "a.dialogue"]⟩
    let output : Path := ⟨"", ["out", "a.json"]⟩
    let done := importFile .observed input (some output) inbox
    SparesDisk (.observed : Publisher Workshop) ∧ done.1.result? = some output ∧
      (∃ graph compiled, Fits inbox.disk input graph compiled ∧
        done.2.disk.loadCompiled .standard output = .ok compiled) ∧
      Unfit inbox.disk ⟨"", ["in", "b.dialogue"]⟩ ∧
      ∃ failure t, importFile .observed ⟨"", ["in", "b.dialogue"]⟩ none inbox =
        (.failed failure, t) ∧ t.disk = inbox.disk := by
  intro input output done
  have hreturned : done.1.result? = some output := by decide +kernel
  have hunread : inbox.disk.loadAuthored ⟨"", ["in", "b.dialogue"]⟩ = .error .lacksOperation := by
    decide +kernel
  obtain ⟨-, hdone⟩ := importFile_all_or_nothing sparesDisk_observed input (some output) inbox
  obtain ⟨hfails, -⟩ :=
    importFile_all_or_nothing sparesDisk_observed ⟨"", ["in", "b.dialogue"]⟩ none inbox
  obtain ⟨-, graph, compiled, _, hfits, -, hread⟩ :=
    hdone output done.2 (Prod.ext (Outcome.result?_eq_some_iff.mp hreturned) rfl)
  exact ⟨sparesDisk_observed, hreturned, ⟨graph, compiled, hfits, hread _ .standard rfl⟩,
    .unread hunread, hfails (.unread hunread)⟩

end Importer

end LinearDialogue
