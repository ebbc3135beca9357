import LinearDialogue.Proofs.ImportOutcomes
import LinearDialogue.Proofs.ImportedDialogues

/-!
# Sources of imports

An import without an output path writes beside the document, under the stem of its name with the
suffix of compiled graphs.  The document stays as it was, and can be imported again with the same
result, unless its own name has that suffix.  Then the compiled graph takes the place of the
document, and what is read there from now on is a graph without nodes.
-/

namespace LinearDialogue

/-! ## Names -/

namespace Path

variable {path : Path} {name : String}

def suffix (path : Path) : String := (splitName path.name).2

/-- A name parts into what comes before its suffix and the suffix. -/
theorem splitName_append (name : String) : (splitName name).1 ++ (splitName name).2 = name := by
  rw [splitName]
  dsimp only
  split
  · rw [← String.toList_inj, String.toList_append, String.toList_ofList, String.toList_ofList,
      List.take_append_drop]
  · exact String.append_empty

theorem parent_child (path : Path) (name : String) : (path.child name).parent = path := by
  rw [parent, child, List.dropLast_concat]

theorem eq_child_of_name_ne_empty (h : path.name ≠ "") : path = path.parent.child path.name := by
  have hparts : path.parts ≠ [] := by
    intro hnil
    rw [name, hnil] at h
    exact h rfl
  have hname : path.name = path.parts.getLast hparts := by
    rw [name, List.getLast?_eq_some_getLast hparts, Option.getD_some]
  rw [parent, child, hname, List.dropLast_append_getLast]

theorem of_withSuffix_eq_ok {beside : Path} {ending : String}
    (h : path.withSuffix ending = .ok beside) :
    path.name ≠ "" ∧ beside = path.parent.child (path.stem ++ ending) := by
  rw [withSuffix] at h
  split at h
  · cases h
  · next hname =>
    cases h
    exact ⟨hname, rfl⟩

/-- Another suffix makes another name. -/
theorem stem_append_eq_name_iff {ending : String} :
    path.stem ++ ending = path.name ↔ ending = path.suffix := by
  have hname : path.stem ++ path.suffix = path.name := splitName_append path.name
  constructor
  · intro h
    have hlist := congrArg String.toList (h.trans hname.symm)
    rw [String.toList_append, String.toList_append] at hlist
    exact String.toList_inj.mp (List.append_cancel_left hlist)
  · rintro rfl
    exact hname

end Path

/-! ## Walks -/

namespace Disk

variable {disk : Disk} {path : Path} {names : List String} {name : String} {content : Content}

/-- What lies above a place is a directory. -/
def IsAboard (disk : Disk) : Location → Prop
  | .inside names => ∀ above, above <+: names → above ≠ names → disk.find? above = some .directory
  | .outside => True

theorem isAboard_step {start location : Location} (hstart : disk.IsAboard start)
    (h : disk.step start name = .ok location) : disk.IsAboard location := by
  cases start with
  | outside =>
      simp only [step] at h
      split at h
      · cases h
        trivial
      · split at h <;> cases h
  | inside names =>
      simp only [step] at h
      split at h
      · next hdirectory =>
        split at h
        · cases h
          split
          · trivial
          · next hnames =>
            intro above hinitial _
            have hshorter : above ≠ names := by
              rintro rfl
              have hlength := hinitial.length_le
              have hpos := List.length_pos_iff.mpr hnames
              rw [List.length_dropLast] at hlength
              omega
            exact hstart above (hinitial.trans (List.dropLast_prefix names)) hshorter
        · split at h
          · cases h
          · cases h
            intro above hinitial hproper
            rcases List.prefix_concat_iff.mp hinitial with rfl | hinitial
            · exact absurd rfl hproper
            · by_cases hsame : above = names
              · rw [hsame, hdirectory]
              · exact hstart above hinitial hsame
      · cases h
      · cases h

/-- Where a path starts. -/
def outset (path : Path) : Location := if path.isAbsolute then .outside else .inside []

theorem locate_eq_ok_iff {location : Location} : disk.locate path = .ok location ↔
    (¬path.text.toList.contains '\x00' = true ∧ ¬isPathTooLong path.text = true) ∧
      path.parts.foldlM disk.step (outset path) = .ok location := by
  rw [locate, follow, ← outset]
  by_cases hnull : path.text.toList.contains '\x00' = true
  · rw [if_pos hnull]
    exact iff_of_false (by simp) fun h ↦ h.1.1 hnull
  by_cases hlong : isPathTooLong path.text = true
  · rw [if_neg hnull, if_pos hlong]
    exact iff_of_false (by simp) fun h ↦ h.1.2 hlong
  rw [if_neg hnull, if_neg hlong, and_iff_right ⟨hnull, hlong⟩]
  cases path.parts.foldlM disk.step (outset path) <;> simp

/-- A walk that comes to its end is a step and a walk from there. -/
theorem walk_cons_eq_ok_iff {parts : List String} {start last : Location} :
    (name :: parts).foldlM disk.step start = .ok last ↔
      ∃ next, disk.step start name = .ok next ∧ parts.foldlM disk.step next = .ok last := by
  rw [List.foldlM_cons]
  cases disk.step start name with
  | error fault => exact iff_of_false nofun fun ⟨_, h, _⟩ ↦ nomatch h
  | ok next => simp [bind, Except.bind]

theorem walk_concat_eq_ok_iff {parts : List String} {start last : Location} :
    (parts ++ [name]).foldlM disk.step start = .ok last ↔
      ∃ here, parts.foldlM disk.step start = .ok here ∧ disk.step here name = .ok last := by
  rw [List.foldlM_append]
  cases parts.foldlM disk.step start with
  | error fault => exact iff_of_false nofun fun ⟨_, h, _⟩ ↦ nomatch h
  | ok here => cases hlast : disk.step here name <;>
      simp [bind, Except.bind, pure, Except.pure, hlast]

theorem isAboard_of_locate {location : Location} (h : disk.locate path = .ok location) :
    disk.IsAboard location := by
  have hwalk : ∀ (parts : List String) {start last : Location}, disk.IsAboard start →
      parts.foldlM disk.step start = .ok last → disk.IsAboard last := by
    intro parts
    induction parts with
    | nil =>
        intro start last hstart hlast
        cases hlast
        exact hstart
    | cons name parts ih =>
        intro start last hstart hlast
        obtain ⟨next, hnext, hlast⟩ := walk_cons_eq_ok_iff.mp hlast
        exact ih (isAboard_step hstart hnext) hlast
  refine hwalk path.parts ?_ (locate_eq_ok_iff.mp h).2
  rw [outset]
  split
  · trivial
  · intro above hinitial hproper
    exact absurd (List.prefix_nil.mp hinitial) hproper

/-- A step that can be made goes to the same place on every disk. -/
theorem step_unique {disk' : Disk} {start location location' : Location}
    (h : disk.step start name = .ok location) (h' : disk'.step start name = .ok location') :
    location = location' := by
  cases start with
  | outside => exact Except.ok.inj (h.symm.trans h')
  | inside names =>
      simp only [step] at h h'
      split at h <;> split at h' <;>
        first | exact Except.ok.inj (h.symm.trans h') | cases h | cases h'

theorem locate_unique {disk' : Disk} {location location' : Location}
    (h : disk.locate path = .ok location) (h' : disk'.locate path = .ok location') :
    location = location' := by
  have hwalk : ∀ (parts : List String) {start last last' : Location},
      parts.foldlM disk.step start = .ok last → parts.foldlM disk'.step start = .ok last' →
        last = last' := by
    intro parts
    induction parts with
    | nil =>
        intro start last last' hlast hlast'
        cases hlast
        cases hlast'
        rfl
    | cons name parts ih =>
        intro start last last' hlast hlast'
        obtain ⟨next, hnext, hlast⟩ := walk_cons_eq_ok_iff.mp hlast
        obtain ⟨next', hnext', hlast'⟩ := walk_cons_eq_ok_iff.mp hlast'
        obtain rfl := step_unique hnext hnext'
        exact ih hlast hlast'
  exact hwalk path.parts (locate_eq_ok_iff.mp h).2 (locate_eq_ok_iff.mp h').2

/-- A step is the same on all disks that have a directory where it starts. -/
theorem step_of_directory {disk' : Disk} (h : disk.find? names = some .directory)
    (h' : disk'.find? names = some .directory) :
    disk.step (.inside names) name = disk'.step (.inside names) name := by
  simp only [step, h, h']

/-- A path that can be followed leads through the directory above its end. -/
theorem exists_locate_parent {location : Location} (hname : path.name ≠ "")
    (h : disk.locate path = .ok location) :
    ∃ here, disk.locate path.parent = .ok here ∧ disk.step here path.name = .ok location := by
  have hchild := Path.eq_child_of_name_ne_empty hname
  by_cases hparts : path.parent.parts = []
  · obtain ⟨⟨hnull, hlong⟩, hwalk⟩ := locate_eq_ok_iff.mp h
    have hsingle : path.parts = [path.name] := by
      rw [congrArg Path.parts hchild, Path.child, hparts, List.nil_append]
    rw [hsingle] at hwalk
    obtain ⟨next, hstep, hlast⟩ := walk_cons_eq_ok_iff.mp hwalk
    cases hlast
    refine ⟨outset path, locate_eq_ok_iff.mpr ⟨?_, by rw [hparts]; rfl⟩, hstep⟩
    by_cases hroot : path.root = ""
    · have hpoint : path.parent.text = "." := if_pos ⟨hroot, hparts⟩
      rw [hpoint]
      decide +kernel
    · have htext : path.text = path.root ++ path.name := by
        rw [Path.text, if_neg fun hnone ↦ hroot hnone.1, hsingle]
        rfl
      have habove : path.parent.text = path.root := by
        rw [Path.text, if_neg fun hnone ↦ hroot hnone.1, hparts]
        exact String.append_empty
      rw [htext, String.toList_append] at hnull
      rw [htext, isPathTooLong, String.utf8ByteSize_append, decide_eq_true_eq] at hlong
      rw [habove, isPathTooLong, decide_eq_true_eq]
      refine ⟨fun hcontains ↦ hnull ?_, by omega⟩
      exact List.contains_iff_mem.mpr
        (List.mem_append_left _ (List.contains_iff_mem.mp hcontains))
  · rw [hchild] at h
    exact exists_locate_of_child hparts h

/-- A file lies at the end of a path, in a directory at the end of the path above it. -/
structure Lies (disk : Disk) (path : Path) (above : List String) (content : Content) : Prop where
  parent : disk.locate path.parent = .ok (.inside above)
  directory : disk.find? above = some .directory
  step : disk.step (.inside above) path.name = .ok (.inside (above ++ [path.name]))
  located : disk.locate path = .ok (.inside (above ++ [path.name]))
  holds : disk.find? (above ++ [path.name]) = some (.file content)

theorem exists_lies (hname : path.name ≠ "") (hlocated : disk.locate path = .ok (.inside names))
    (hholds : disk.find? names = some (.file content)) :
    ∃ above, names = above ++ [path.name] ∧ disk.Lies path above content := by
  obtain ⟨here, hparent, hstep⟩ := exists_locate_parent hname hlocated
  have haboard := isAboard_of_locate hparent
  have hmove := hstep
  cases here with
  | outside =>
      simp only [step] at hstep
      split at hstep
      · cases hstep
      · split at hstep <;> cases hstep
  | inside above =>
      simp only [step] at hstep
      split at hstep
      · next hdirectory =>
        split at hstep
        · -- two points lead to a directory
          split at hstep
          · cases hstep
          · next habove =>
            cases hstep
            have hshorter : above.dropLast ≠ above := fun hsame ↦ by
              have hlength := congrArg List.length hsame
              have hpos := List.length_pos_iff.mpr habove
              rw [List.length_dropLast] at hlength
              omega
            cases hholds.symm.trans (haboard _ (List.dropLast_prefix above) hshorter)
        · split at hstep
          · cases hstep
          · cases hstep
            exact ⟨above, rfl, hparent, hdirectory, hmove, hlocated, hholds⟩
      · cases hstep
      · cases hstep

/-- Where a file lies in a directory of one disk, it does so on another that has it in the place and
leads to the same directory. -/
theorem Lies.of_parent {disk' : Disk} {above above' : List String} {content' : Content}
    (h : disk.Lies path above content) (hparent : disk'.locate path.parent = .ok (.inside above'))
    (hdirectory : disk'.find? above' = some .directory)
    (hholds : disk'.find? (above ++ [path.name]) = some (.file content')) (hname : path.name ≠ "") :
    disk'.Lies path above content' := by
  have hsame : Location.inside above = .inside above' := locate_unique h.parent hparent
  obtain rfl : above = above' := Location.inside.inj hsame
  have hstep := (step_of_directory hdirectory h.directory).trans h.step
  refine ⟨hparent, hdirectory, hstep, locate_eq_ok_iff.mpr ⟨(locate_eq_ok_iff.mp h.located).1, ?_⟩,
    hholds⟩
  rw [congrArg Path.parts (Path.eq_child_of_name_ne_empty hname)]
  exact walk_concat_eq_ok_iff.mpr ⟨_, (locate_eq_ok_iff.mp hparent).2, hstep⟩

theorem Lies.content_eq {above : List String} (h : disk.Lies path above content) :
    disk.content path = .ok content := content_of_located h.located h.holds

/-! ## Reading and writing again -/

theorem exists_located_of_content (h : disk.content path = .ok content) :
    ∃ names, disk.locate path = .ok (.inside names) ∧ disk.find? names = some (.file content) := by
  obtain ⟨entry, hstatus, h⟩ := bind_eq_ok_iff.mp h
  rw [status] at hstatus
  cases hlocate : disk.locate path with
  | error failure =>
      rw [hlocate] at hstatus
      cases hstatus
  | ok location =>
      rw [hlocate] at hstatus
      cases hstatus
      split at h
      · next hplace =>
        cases h
        cases location with
        | outside => cases hplace
        | inside names => exact ⟨names, rfl, hplace⟩
      · cases h
      · cases h

theorem exists_content_of_loadAuthored_eq_ok {graph : Graph}
    (h : disk.loadAuthored path = .ok graph) : ∃ content, disk.content path = .ok content := by
  obtain ⟨_, htext, -⟩ := bind_eq_ok_iff.mp h
  obtain ⟨content, hcontent, -⟩ := bind_eq_ok_iff.mp htext
  exact ⟨content, hcontent⟩

theorem loadAuthored_of_content_eq {disk' : Disk} (h : disk'.content path = disk.content path) :
    disk'.loadAuthored path = disk.loadAuthored path := by
  simp only [loadAuthored, readText, h]

theorem write_of_located {content' : Content} (hlocated : disk.locate path = .ok (.inside names))
    (hholds : disk.find? names = some (.file content)) :
    disk.write path content' = .ok (disk.put names (.file content')) := by
  rw [write, hlocated]
  simp [bind, Except.bind, at?, hholds, pure, Except.pure]

/-- An entry that is put where it is changes nothing. -/
theorem find?_put_of_find? {entry : FileEntry} (hnames : names ≠ [])
    (h : disk.find? names = some entry) (other : List String) :
    (disk.put names entry).find? other = disk.find? other := by
  rw [find?_put hnames]
  split
  · next hother => rw [hother, h]
  · rfl

/-- There is nothing to make where there is a directory. -/
theorem ensureDirectories_of_directory {σ : Type} [Part Disk σ] {s : σ}
    (hlocated : (Part.get s : Disk).locate path = .ok (.inside names))
    (hdirectory : (Part.get s : Disk).find? names = some .directory) :
    (ensureDirectories path : Act σ Unit) s = (.returned (), s) := by
  have hmake : (change (fun disk ↦ disk.makeDirectory path) : Act σ Unit) s =
      (.failed (.file .exists path.text), s) := by
    rw [change_apply, makeDirectory, hlocated]
    simp [bind, Except.bind, at?, hdirectory]
  have hcheck : (Part.get s : Disk).isDirectory path = .ok true := by
    rw [isDirectory, check, status, hlocated]
    simp [Except.map, at?, hdirectory]
  have hthere (failure : Failure) :
      (unlessDirectory path failure : Act σ Unit) s = (.returned (), s) := by
    rw [unlessDirectory, Act.bind_of_returned (Part.read_apply s), hcheck]
    rfl
  have hattempt : (change (fun disk ↦ disk.makeDirectory path) : Act σ Unit).attempt s =
      (.returned (.error (.file .exists path.text)), s) := by
    rw [Act.attempt_apply, hmake]
  rw [ensureDirectories]
  cases path.parts.length with
  | zero =>
      rw [ensureAll, ensureDirectory, Act.bind_of_returned hattempt]
      exact hthere _
  | succ n =>
      rw [ensureAll, Act.bind_of_returned hattempt]
      exact hthere _

end Disk

/-! ## Importing again -/

theorem Outcome.exists_of_result?_eq_some {σ α : Type} {run : Outcome α × σ} {a : α}
    (h : run.1.result? = some a) : ∃ t, run = (.returned a, t) :=
  ⟨run.2, Prod.ext (result?_eq_some_iff.mp h) rfl⟩

namespace Importer

variable {σ : Type} [Part Disk σ] [Part Journal σ] [KeepsApart σ] {publish : Publisher σ} {s t : σ}
  {input path : Path} {graph : Graph} {compiled : CompiledGraph} {above : List String}

/-- An import that has been done can be done again, and changes nothing. -/
theorem exists_importTo_again (hpublish : SparesDisk publish) (htakes : Takes publish)
    (hfits : Fits (Part.get s) input graph compiled)
    (hlies : (Part.get s : Disk).Lies path above (.text compiled.serialize)) :
    ∃ u, importTo publish input path s = (.returned path, u) ∧
      ∀ names, (Part.get u : Disk).find? names = (Part.get s : Disk).find? names := by
  have hreturned := importGraph_of_compile_eq_ok htakes hfits.clean hfits.compiles
    (.text input.stem) s
  have hsame := along_importGraph hpublish graph (.text input.stem) s
  rcases hrun : importGraph publish graph (.text input.stem) s with ⟨outcome, v⟩
  rw [hrun] at hreturned hsame
  obtain rfl : outcome = .returned compiled := hreturned
  replace hsame : (Part.get v : Disk) = Part.get s := hsame
  have hmade : (Disk.ensureDirectories path.parent : Act σ Unit) v = (.returned (), v) := by
    refine Disk.ensureDirectories_of_directory ?_ (hsame ▸ hlies.directory)
    rw [hsame]
    exact hlies.parent
  let written : σ := Part.set ((Part.get s : Disk).put (above ++ [path.name])
    (.file (.text compiled.serialize))) v
  have hwritten : (Disk.change fun disk ↦ disk.saveCompiled compiled path : Act σ Unit) v =
      (.returned (), written) := by
    rw [Disk.change_apply, hsame, Disk.saveCompiled, Disk.writeText,
      Disk.write_of_located hlies.located hlies.holds]
  obtain ⟨u, hreported, hkept⟩ :
      ∃ u, (Journal.report (importedEntry input path) : Act σ Unit) written = (.returned (), u) ∧
        (Part.get u : Disk) = Part.get written :=
    ⟨_, rfl, KeepsApart.get_disk_set_journal _ written⟩
  refine ⟨u, ?_, fun names ↦ ?_⟩
  · rw [importTo, Act.bind_of_returned (Part.read_apply s), hfits.read,
      Act.bind_of_returned (show Act.ofExcept (.ok graph) s = (.returned graph, s) from rfl),
      Act.bind_of_returned hrun, Act.bind_of_returned hmade, Act.bind_of_returned hwritten,
      Act.bind_of_returned hreported]
    rfl
  · rw [hkept, show (Part.get written : Disk) = _ from Part.get_set _ _]
    exact Disk.find?_put_of_find? (by simp) hlies.holds names

/-- The issues of a graph without nodes. -/
theorem exists_issues_of_blank (name : Value) :
    ∃ issues, issues ≠ [] ∧ ({ name } : Graph).validate = .ok issues :=
  ⟨_, List.cons_ne_nil _ _, rfl⟩

/-- The import of a document with issues reports them under the stem of the document, and leaves the
disk. -/
theorem exists_importTo_of_issues (hpublish : SparesDisk publish) (htakes : Takes publish)
    {issues : List Issue} (hname : input.name ≠ "")
    (hread : (Part.get s : Disk).loadAuthored input = .ok graph)
    (hvalid : graph.validate = .ok issues) (hissues : issues ≠ []) (path : Path) :
    ∃ u, importTo publish input path s = (.failed (.validation (.text input.stem) issues), u) ∧
      (Part.get u : Disk) = Part.get s := by
  have hgiven : reportName (.text input.stem) graph.name = .text input.stem :=
    if_pos (bne_iff_ne.mpr (Path.splitName_fst_ne_empty hname))
  have hfailed := importGraph_of_issues htakes hvalid hissues (.text input.stem) s
  rw [hgiven] at hfailed
  refine ⟨_, ?_, along_importGraph hpublish graph (.text input.stem) s⟩
  rw [importTo, Act.bind_of_returned (Part.read_apply s), hread,
    Act.bind_of_returned (show Act.ofExcept (.ok graph) s = (.returned graph, s) from rfl)]
  exact Act.bind_of_failed (Prod.ext hfailed rfl) _

/-- Where the text of a compiled graph is read as a document, there are no nodes. -/
theorem loadAuthored_of_compiled {disk : Disk} {names : List String} {source : Graph}
    (hcompile : source.compile.result = .ok compiled)
    (hlocated : disk.locate path = .ok (.inside names))
    (hholds : disk.find? names = some (.file (.text compiled.serialize))) :
    disk.loadAuthored path = .ok { name := .text path.stem } := by
  have hpersists : compiled.Persists .standard :=
    CompiledGraph.persists_of_compile_eq_ok rfl hcompile
  have hread : Json.read compiled.serialize = .ok compiled.document :=
    Json.read_render (CompiledGraph.isExact_document hpersists)
  have htext := Disk.readText_of_located hlocated hholds
    (CompiledGraph.return_notMem_serialize hpersists)
  refine bind_eq_ok_iff.mpr ⟨compiled.serialize, htext, ?_⟩
  rw [hread]
  rfl

theorem of_importFile_eq_returned (hpublish : SparesDisk publish)
    (h : importFile publish input none s = (.returned path, t)) :
    input.name ≠ "" ∧ path = input.parent.child (input.stem ++ suffix) ∧
      ∃ graph compiled names, Fits (Part.get s) input graph compiled ∧
        Leaves (Part.get s) (Part.get t) path compiled names := by
  rw [importFile_eq] at h
  obtain ⟨chosen, _, hchosen, h⟩ := Act.bind_eq_returned_iff.mp h
  obtain ⟨htarget, rfl⟩ := Act.ofExcept_eq_returned_iff.mp hchosen
  obtain ⟨rfl, himport⟩ := of_importTo_eq_returned hpublish h
  obtain ⟨hname, hpath⟩ := Path.of_withSuffix_eq_ok htarget
  exact ⟨hname, hpath, himport⟩

omit [KeepsApart σ] in
theorem importFile_beside (hname : input.name ≠ "") (s : σ) :
    importFile publish input none s =
      importTo publish input (input.parent.child (input.stem ++ suffix)) s := by
  have htarget : target input none = .ok (input.parent.child (input.stem ++ suffix)) := if_neg hname
  rw [importFile_eq, htarget]
  rfl

/-- What is not in the place of the compiled graph is still there, and makes the same graph. -/
theorem keeps_source {disk disk' : Disk} {names : List String} (hname : input.name ≠ "")
    (hread : disk.loadAuthored input = .ok graph)
    (hleaves : Leaves disk disk' (input.parent.child (input.stem ++ suffix)) compiled names)
    (hsuffix : input.suffix ≠ suffix) :
    ∃ above content, disk.content input = .ok content ∧ disk'.content input = .ok content ∧
      disk'.Lies (input.parent.child (input.stem ++ suffix)) above (.text compiled.serialize) := by
  have hother : input.stem ++ suffix ≠ input.name :=
    fun h ↦ hsuffix (Path.stem_append_eq_name_iff.mp h).symm
  obtain ⟨content, hcontent⟩ := Disk.exists_content_of_loadAuthored_eq_ok hread
  obtain ⟨_, hlocated, hholds⟩ := Disk.exists_located_of_content hcontent
  obtain ⟨above, rfl, hsource⟩ := Disk.exists_lies hname hlocated hholds
  have hbeside : (input.parent.child (input.stem ++ suffix)).name = input.stem ++ suffix :=
    Path.name_child _ _
  have hnonempty : input.stem ++ suffix ≠ "" := fun h ↦ by
    have hlength := congrArg String.toList h
    simp [suffix] at hlength
  obtain ⟨above', rfl, hlies⟩ :=
    Disk.exists_lies (by rwa [hbeside]) hleaves.located hleaves.holds
  have hplace : above ++ [input.name] ≠
      above' ++ [(input.parent.child (input.stem ++ suffix)).name] := by
    intro hsame
    have hlast := congrArg List.getLast? hsame
    rw [List.getLast?_concat, List.getLast?_concat, hbeside] at hlast
    exact hother (Option.some.inj hlast).symm
  have hparent := hlies.parent
  rw [Path.parent_child] at hparent
  have hkept := hsource.of_parent hparent hlies.directory
    (hleaves.keeps _ hplace _ hsource.holds) hname
  exact ⟨above', content, hcontent, hkept.content_eq, hlies⟩

/-- A document with the suffix of compiled graphs is overwritten with the one that it makes. -/
theorem overwrites_source (hpublish : SparesDisk publish) (htakes : Takes publish)
    (h : importFile publish input none s = (.returned path, t)) (hsuffix : input.suffix = suffix) :
    path = input ∧ (Part.get t : Disk).content input ≠ (Part.get s : Disk).content input ∧
      (Part.get t : Disk).loadAuthored input = .ok { name := .text input.stem } ∧
      ∃ issues u, issues ≠ [] ∧
        importFile publish input none t = (.failed (.validation (.text input.stem) issues), u) ∧
        (Part.get u : Disk) = Part.get t := by
  obtain ⟨hname, rfl, graph, compiled, names, hfits, hleaves⟩ :=
    of_importFile_eq_returned hpublish h
  rw [importFile_beside hname t]
  have hpath : input.parent.child (input.stem ++ suffix) = input := by
    rw [Path.stem_append_eq_name_iff.mpr hsuffix.symm]
    exact (Path.eq_child_of_name_ne_empty hname).symm
  rw [hpath] at hleaves ⊢
  have hblank := loadAuthored_of_compiled hfits.compiles hleaves.located hleaves.holds
  obtain ⟨issues, hissues, hvalidate⟩ := exists_issues_of_blank (.text input.stem)
  obtain ⟨u, hfailed, hsame⟩ :=
    exists_importTo_of_issues hpublish htakes hname hblank hvalidate hissues input
  refine ⟨rfl, fun hcontent ↦ ?_, hblank, issues, u, hissues, hfailed, hsame⟩
  -- the document had no issues
  have hread := (Disk.loadAuthored_of_content_eq hcontent).symm.trans hblank
  obtain rfl := Except.ok.inj (hfits.read.symm.trans hread)
  exact hissues (Except.ok.inj (hvalidate.symm.trans hfits.clean))

/-- An import that writes beside the document spares it, unless the document itself has the suffix
of compiled graphs: it is read as before, makes the same graph, and its import can be repeated,
which leaves the disk as it is.  A document with that suffix is overwritten with the compiled graph,
which is read as a graph without nodes from then on, and whose import fails.

The path of the document is followed from the directory of the disk.  Beyond it nothing is
imported. -/
theorem importFile_spares_source (hpublish : SparesDisk publish) (htakes : Takes publish)
    (h : importFile publish input none s = (.returned path, t)) :
    (input.suffix ≠ suffix →
      (∃ content, (Part.get s : Disk).content input = .ok content ∧
        (Part.get t : Disk).content input = .ok content) ∧
      (Part.get t : Disk).loadAuthored input = (Part.get s : Disk).loadAuthored input ∧
      ∃ u, importFile publish input none t = (.returned path, u) ∧
        ∀ names, (Part.get u : Disk).find? names = (Part.get t : Disk).find? names) ∧
    (input.suffix = suffix → path = input ∧
      (Part.get t : Disk).content input ≠ (Part.get s : Disk).content input ∧
      (Part.get t : Disk).loadAuthored input = .ok { name := .text input.stem } ∧
      ∃ issues u, issues ≠ [] ∧
        importFile publish input none t = (.failed (.validation (.text input.stem) issues), u) ∧
        (Part.get u : Disk) = Part.get t) := by
  refine ⟨fun hsuffix ↦ ?_, overwrites_source hpublish htakes h⟩
  obtain ⟨hname, rfl, graph, compiled, names, hfits, hleaves⟩ :=
    of_importFile_eq_returned hpublish h
  obtain ⟨above, content, hbefore, hafter, hlies⟩ :=
    keeps_source hname hfits.read hleaves hsuffix
  have hsame : (Part.get t : Disk).loadAuthored input = (Part.get s : Disk).loadAuthored input :=
    Disk.loadAuthored_of_content_eq (hafter.trans hbefore.symm)
  rw [importFile_beside hname t]
  exact ⟨⟨content, hbefore, hafter⟩, hsame, exists_importTo_again hpublish htakes
    ⟨hsame.trans hfits.read, hfits.clean, hfits.compiles⟩ hlies⟩

/-- The same document twice, once under the suffix of compiled graphs. -/
def pair : Workshop where
  disk := ⟨[(["in"], .directory), (["in", "a.dialogue"], .file (.text sketch)),
    (["in", "b.json"], .file (.text sketch))]⟩
  database := ⟨⟨"", ["in"]⟩, []⟩

theorem exists_import_pair :
    (∃ t, importFile .observed ⟨"", ["in", "a.dialogue"]⟩ none pair =
        (.returned ⟨"", ["in", "a.json"]⟩, t)) ∧
      ∃ t, importFile .observed ⟨"", ["in", "b.json"]⟩ none pair =
        (.returned ⟨"", ["in", "b.json"]⟩, t) := by
  have hbeside : (importFile .observed ⟨"", ["in", "a.dialogue"]⟩ none pair).1.result? =
      some ⟨"", ["in", "a.json"]⟩ := by decide +kernel
  have hinside : (importFile .observed ⟨"", ["in", "b.json"]⟩ none pair).1.result? =
      some ⟨"", ["in", "b.json"]⟩ := by decide +kernel
  exact ⟨Outcome.exists_of_result?_eq_some hbeside, Outcome.exists_of_result?_eq_some hinside⟩

theorem importFile_spares_source_of_pair :
    SparesDisk (.observed : Publisher Workshop) ∧ Takes (.observed : Publisher Workshop) ∧
    (∃ t u, importFile .observed ⟨"", ["in", "a.dialogue"]⟩ none pair =
        (.returned ⟨"", ["in", "a.json"]⟩, t) ∧
      t.disk.loadAuthored ⟨"", ["in", "a.dialogue"]⟩ =
        pair.disk.loadAuthored ⟨"", ["in", "a.dialogue"]⟩ ∧
      importFile .observed ⟨"", ["in", "a.dialogue"]⟩ none t =
        (.returned ⟨"", ["in", "a.json"]⟩, u) ∧ ∀ names, u.disk.find? names = t.disk.find? names) ∧
    ∃ t, importFile .observed ⟨"", ["in", "b.json"]⟩ none pair =
        (.returned ⟨"", ["in", "b.json"]⟩, t) ∧
      t.disk.loadAuthored ⟨"", ["in", "b.json"]⟩ = .ok { name := .text "b" } := by
  obtain ⟨⟨t, hbeside⟩, t', hinside⟩ := exists_import_pair
  obtain ⟨hspares, -⟩ := importFile_spares_source sparesDisk_observed takes_observed hbeside
  obtain ⟨-, hoverwrites⟩ := importFile_spares_source sparesDisk_observed takes_observed hinside
  obtain ⟨-, hread, u, hagain, hsame⟩ := hspares (by decide +kernel)
  obtain ⟨-, -, hblank, -⟩ := hoverwrites (by decide +kernel)
  exact ⟨sparesDisk_observed, takes_observed, ⟨t, u, hbeside, hread, hagain, hsame⟩, t', hinside,
    hblank⟩

/-- A document with the suffix of compiled graphs is imported, and is gone. -/
theorem exists_source_overwritten :
    ∃ (s t u : Workshop) (input path : Path) (failure : Failure),
      importFile .observed input none s = (.returned path, t) ∧
      t.disk.content input ≠ s.disk.content input ∧
      importFile .observed input none t = (.failed failure, u) := by
  obtain ⟨-, t, hinside⟩ := exists_import_pair
  obtain ⟨-, hcontent, -, issues, u, -, hfails, -⟩ :=
    overwrites_source sparesDisk_observed takes_observed hinside (by decide +kernel)
  exact ⟨pair, t, u, _, _, _, hinside, hcontent, hfails⟩

end Importer

end LinearDialogue
