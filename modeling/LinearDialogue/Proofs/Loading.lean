import LinearDialogue.Files.Database
import LinearDialogue.Proofs.PersistedFormat
import Mathlib.Data.List.Nodup
import Mathlib.Data.String.Basic

/-!
# Loading the database

What a data directory has in the database after it has been loaded.  A file that cannot be read as a
graph is logged and skipped, and every other one is entered under its stem.  Only three things end
the loading: bytes that are no text, an integer of too many digits, and a null character in a path.
-/

namespace LinearDialogue

/-! ## Files that end the loading -/

namespace Disk

variable {disk : Disk} {path : Path} {failure : Failure} {registry : Registry}

/-- A file whose reading fails with no failure of files or dialogues. -/
inductive Stops (disk : Disk) (path : Path) : Prop
  | null (h : '\x00' ∈ path.text.toList)
  | bytes {bytes : List UInt8} (h : disk.content path = .ok (.undecodable bytes))
  | digits {text : String} {fault : Json.Fault} {count : ℕ} (htext : disk.readText path = .ok text)
      (hread : Json.read text = .error fault) (hcause : fault.cause = .tooManyDigits count)

theorem content_of_null (h : '\x00' ∈ path.text.toList) :
    disk.content path = .error (.badArgument .nullInPath) := by
  have hlocate : disk.locate path = .error (.badArgument .nullInPath) := by
    rw [locate, follow, if_pos (List.contains_iff_mem.mpr h)]
  simp [content, status, hlocate, bind, Except.bind, Except.map]

theorem of_content_eq_error (h : disk.content path = .error failure) :
    '\x00' ∈ path.text.toList ∨ ∃ fault text, failure = .file fault text := by
  cases hlocate : disk.locate path with
  | ok location =>
      right
      simp only [content, status, hlocate, Except.map, bind, Except.bind] at h
      split at h
      · cases h
      · cases h
        exact ⟨_, _, rfl⟩
      · cases h
        exact ⟨_, _, rfl⟩
  | error early =>
      simp only [content, status, hlocate, Except.map, bind, Except.bind] at h
      cases h
      rw [locate, follow] at hlocate
      split at hlocate
      · next hnull => exact Or.inl (List.contains_iff_mem.mp hnull)
      · right
        split at hlocate
        · cases hlocate
          exact ⟨_, _, rfl⟩
        · split at hlocate
          · cases hlocate
          · cases hlocate
            exact ⟨_, _, rfl⟩

theorem readText_of_text {s : String} (h : disk.content path = .ok (.text s)) :
    disk.readText path = .ok (String.ofList (Content.unifyLines s.toList)) := by
  rw [readText, h]
  rfl

/-- Loading ends at exactly these files. -/
theorem stops_iff (registry : Registry) :
    disk.Stops path ↔
      ∃ failure, disk.loadCompiled registry path = .error failure ∧
        Database.isSkipped failure = false := by
  constructor
  · intro h
    cases h with
    | null hnull =>
        refine ⟨.badArgument .nullInPath, ?_, rfl⟩
        rw [loadCompiled, readText, content_of_null hnull]
        rfl
    | bytes hbytes =>
        refine ⟨.undecodableBytes, ?_, rfl⟩
        rw [loadCompiled, readText, hbytes]
        rfl
    | @digits text fault count htext hread hcause =>
        refine ⟨.badJson fault, ?_, rfl⟩
        simp only [loadCompiled, htext, bind, Except.bind, CompiledGraph.deserialize, hread,
          Json.Fault.isSyntactic, hcause]
        rfl
  · rintro ⟨failure, h, hskipped⟩
    cases hcontent : disk.content path with
    | error early =>
        rw [loadCompiled, readText, hcontent] at h
        cases h
        rcases of_content_eq_error hcontent with hnull | ⟨fault, text, rfl⟩
        · exact .null hnull
        · cases hskipped
    | ok found =>
        cases found with
        | undecodable bytes => exact .bytes hcontent
        | text s =>
            have htext := readText_of_text hcontent
            rw [loadCompiled, htext] at h
            rcases CompiledGraph.of_deserialize_eq_error h with
              (⟨details, rfl⟩ | ⟨tag, -, rfl⟩ | ⟨tag, cls, problems, -, rfl⟩) |
              ⟨fault, count, -, hread, hcause, -⟩
            · cases hskipped
            · cases hskipped
            · cases hskipped
            · exact .digits htext hread hcause

end Disk

/-! ## Tables of graphs -/

namespace Database

variable {disk : Disk} {registry : Registry} {path : Path} {paths before after : List Path}
  {table : List (String × CompiledGraph)} {graph : CompiledGraph} {id key : String}

theorem find?_enter (dataPath : Path) :
    find? ⟨dataPath, enter key graph table⟩ id =
      if key = id then some graph else find? ⟨dataPath, table⟩ id := by
  induction table with
  | nil => by_cases h : key = id <;> simp [find?, enter, h]
  | cons first rest ih =>
      obtain ⟨name, other⟩ := first
      by_cases hname : name = key
      · by_cases h : name = id <;> simp_all [find?, enter]
      · by_cases h : name = id
        · have hkey : ¬ key = id := fun heq ↦ hname (h.trans heq.symm)
          simp_all [find?, enter]
        · simp_all [find?, enter]

theorem map_fst_enter :
    (enter key graph table).map Prod.fst =
      if key ∈ table.map Prod.fst then table.map Prod.fst else table.map Prod.fst ++ [key] := by
  induction table with
  | nil => rfl
  | cons first rest ih =>
      obtain ⟨name, other⟩ := first
      by_cases hname : name = key
      · simp [enter, hname]
      · have hkey : ¬ key = name := fun heq ↦ hname heq.symm
        rw [enter, if_neg (by simpa using hname), List.map_cons, ih]
        split <;> simp_all

theorem nodup_enter (h : (table.map Prod.fst).Nodup) :
    ((enter key graph table).map Prod.fst).Nodup := by
  rw [map_fst_enter]
  split
  · exact h
  · next hnew => simpa using h.concat hnew

/-! ## Loading -/

/-- The entry about a file that cannot be read as a graph. -/
def complaint? (disk : Disk) (registry : Registry) (path : Path) : Option LogEntry :=
  match disk.loadCompiled registry path with
  | .ok _ => none
  | .error failure =>
    some (entry .error ("Failed to load " ++ path.text ++ ": " ++ failure.message))

/-- The graph that a file gives for an id. -/
def graphUnder? (disk : Disk) (registry : Registry) (id : String) (path : Path) :
    Option CompiledGraph :=
  if path.stem = id then (disk.loadCompiled registry path).toOption else none

/-- A table with the graph of one file more. -/
def enterFile (disk : Disk) (registry : Registry) (table : List (String × CompiledGraph))
    (path : Path) : List (String × CompiledGraph) :=
  match disk.loadCompiled registry path with
  | .ok graph => enter path.stem graph table
  | .error _ => table

theorem find?_enterFile (dataPath : Path) :
    find? ⟨dataPath, enterFile disk registry table path⟩ id =
      (graphUnder? disk registry id path).or (find? ⟨dataPath, table⟩ id) := by
  rw [enterFile, graphUnder?]
  cases disk.loadCompiled registry path with
  | ok graph =>
      simp only [find?_enter, Except.toOption]
      split <;> rfl
  | error failure => simp [Except.toOption]

/-- Of several files with one stem the last one counts. -/
theorem find?_foldl_enterFile (dataPath : Path) :
    find? ⟨dataPath, paths.foldl (enterFile disk registry) table⟩ id =
      (paths.filterMap (graphUnder? disk registry id)).getLast?.or
        (find? ⟨dataPath, table⟩ id) := by
  induction paths using List.reverseRecOn with
  | nil => rfl
  | append_singleton paths path ih =>
      rw [List.foldl_concat, find?_enterFile, ih, List.filterMap_append, List.getLast?_append]
      cases h : graphUnder? disk registry id path <;> simp [h]

theorem nodup_foldl_enterFile (h : (table.map Prod.fst).Nodup) :
    ((paths.foldl (enterFile disk registry) table).map Prod.fst).Nodup := by
  induction paths generalizing table with
  | nil => exact h
  | cons path rest ih =>
      refine ih ?_
      rw [enterFile]
      split
      · exact nodup_enter h
      · exact h

/-- Files that do not end the loading are entered or logged, one after another. -/
theorem loadFiles_append (registry : Registry) (after : List Path)
    (table : List (String × CompiledGraph)) (h : ∀ path ∈ before, ¬ disk.Stops path) :
    loadFiles disk registry (before ++ after) table =
      (⟨before.filterMap (complaint? disk registry) ++
          (loadFiles disk registry after (before.foldl (enterFile disk registry) table)).1.log,
        (loadFiles disk registry after (before.foldl (enterFile disk registry) table)).1.result⟩,
        (loadFiles disk registry after (before.foldl (enterFile disk registry) table)).2) := by
  induction before generalizing table with
  | nil => rfl
  | cons path rest ih =>
      have hrest := fun other hother ↦ h other (List.mem_cons_of_mem path hother)
      rw [List.cons_append, loadFiles]
      cases hload : disk.loadCompiled registry path with
      | ok graph =>
          have hcomplaint : complaint? disk registry path = none := by rw [complaint?, hload]
          have henter : enterFile disk registry table path = enter path.stem graph table := by
            rw [enterFile, hload]
          rw [List.filterMap_cons_none hcomplaint, List.foldl_cons, henter]
          exact ih _ hrest
      | error failure =>
          have hskipped : isSkipped failure = true := by
            by_contra hnot
            exact h path List.mem_cons_self
              ((Disk.stops_iff registry).mpr ⟨failure, hload, Bool.eq_false_iff.mpr hnot⟩)
          have hcomplaint : complaint? disk registry path = some (entry .error
              ("Failed to load " ++ path.text ++ ": " ++ failure.message)) := by
            rw [complaint?, hload]
          have henter : enterFile disk registry table path = table := by
            rw [enterFile, hload]
          simp only [hskipped, if_true, List.filterMap_cons_some hcomplaint,
            List.foldl_cons, henter]
          rw [ih _ hrest]
          rfl

/-! ## Assets -/

/-- The files are loaded in the order of their names. -/
theorem exists_assets_eq_map (disk : Disk) (directory : Path) :
    ∃ names : List String, assets disk directory = names.map directory.child ∧
      names.Pairwise (· ≤ ·) ∧
      ∀ name, name ∈ names ↔ name ∈ disk.names directory ∧ isAssetName name = true := by
  have htrans : ∀ a b c : String, decide (a ≤ b) = true → decide (b ≤ c) = true →
      decide (a ≤ c) = true := by
    intro a b c hab hbc
    exact decide_eq_true (le_trans (of_decide_eq_true hab) (of_decide_eq_true hbc))
  have htotal : ∀ a b : String, (decide (a ≤ b) || decide (b ≤ a)) = true := by
    intro a b
    simpa using le_total a b
  refine ⟨_, rfl, ?_, fun name ↦ ?_⟩
  · exact (List.pairwise_mergeSort htrans htotal _).imp of_decide_eq_true
  · rw [List.mem_mergeSort, List.mem_filter]

/-- Files to be loaded are in a directory that is there. -/
theorem exists?_of_mem_assets {directory : Path} (h : path ∈ assets disk directory) :
    disk.exists? directory = .ok true := by
  obtain ⟨names, hassets, -, hnames⟩ := exists_assets_eq_map disk directory
  rw [hassets] at h
  obtain ⟨name, hname, -⟩ := List.mem_map.mp h
  have hthere := ((hnames name).mp hname).1
  rw [Disk.names] at hthere
  split at hthere
  · next location hlocate =>
    split at hthere
    · next hdirectory =>
      simp [Disk.exists?, Disk.check, Disk.status, hlocate, Except.map, Disk.at?, hdirectory]
    · cases hthere
  · cases hthere

/-! ## The whole directory -/

/-- Without a file that ends it, loading the directory enters or logs every file. -/
theorem loadAll_of_not_stops (registry : Registry) {db : Database} {there : Bool}
    (hthere : disk.exists? db.directory = .ok there)
    (h : ∀ path ∈ assets disk db.directory, ¬ disk.Stops path) :
    ∃ last : LogEntry, last.level ≠ .error ∧ db.loadAll disk registry =
      (⟨(assets disk db.directory).filterMap (complaint? disk registry) ++ [last],
        .ok ((assets disk db.directory).foldl (enterFile disk registry) []).length⟩,
        { db with
          dialogues := (assets disk db.directory).foldl (enterFile disk registry) [] }) := by
  cases there with
  | false =>
      have hnone : assets disk db.directory = [] := by
        by_contra hsome
        obtain ⟨path, hpath⟩ := List.exists_mem_of_ne_nil _ hsome
        cases hthere.symm.trans (exists?_of_mem_assets hpath)
      refine ⟨entry .warning ("Data directory not found: " ++ db.directory.text), nofun, ?_⟩
      rw [hnone, loadAll, hthere]
      rfl
  | true =>
      have hloads : loadFiles disk registry (assets disk db.directory) [] =
          (⟨(assets disk db.directory).filterMap (complaint? disk registry), .ok ()⟩,
            (assets disk db.directory).foldl (enterFile disk registry) []) := by
        rw [← List.append_nil (assets disk db.directory), loadFiles_append registry [] [] h]
        simp [loadFiles]
      refine ⟨entry .info ("Loaded " ++ toString
        ((assets disk db.directory).foldl (enterFile disk registry) []).length ++ " dialogues."),
        nofun, ?_⟩
      rw [loadAll, hthere]
      simp only [hloads]
      rfl

/-- A file that ends the loading leaves what was loaded before it. -/
theorem loadAll_of_stops {db : Database} {failure : Failure}
    (hassets : assets disk db.directory = before ++ path :: after)
    (hbefore : ∀ path ∈ before, ¬ disk.Stops path)
    (hload : disk.loadCompiled registry path = .error failure)
    (hskipped : isSkipped failure = false) :
    db.loadAll disk registry = (⟨before.filterMap (complaint? disk registry), .error failure⟩,
      { db with dialogues := before.foldl (enterFile disk registry) [] }) := by
  have hpath : path ∈ assets disk db.directory := by simp [hassets]
  have hloads :
      loadFiles disk registry (path :: after) (before.foldl (enterFile disk registry) []) =
        (Logged.fail failure, before.foldl (enterFile disk registry) []) := by
    simp [loadFiles, hload, hskipped]
  rw [loadAll, exists?_of_mem_assets hpath, hassets]
  simp only [loadFiles_append registry _ _ hbefore, hloads]
  simp [Logged.fail, Bind.bind, Logged.bind]

/-- Where some file ends the loading, there is a first one. -/
theorem exists_first_stop (h : ¬ ∀ path ∈ paths, ¬ disk.Stops path) :
    ∃ before path after, paths = before ++ path :: after ∧
      (∀ other ∈ before, ¬ disk.Stops other) ∧ disk.Stops path := by
  induction paths with
  | nil => exact absurd (List.forall_mem_nil _) h
  | cons first rest ih =>
      by_cases hfirst : disk.Stops first
      · exact ⟨[], first, rest, rfl, List.forall_mem_nil _, hfirst⟩
      · have hrest : ¬ ∀ path ∈ rest, ¬ disk.Stops path := fun hrest ↦
          h (List.forall_mem_cons.mpr ⟨hfirst, hrest⟩)
        obtain ⟨before, path, after, rfl, hbefore, hpath⟩ := ih hrest
        exact ⟨first :: before, path, after, rfl, List.forall_mem_cons.mpr ⟨hfirst, hbefore⟩, hpath⟩

theorem exists_loadAll_eq_ok_iff (db : Database) (disk : Disk) (registry : Registry) :
    (∃ count, (db.loadAll disk registry).1.result = .ok count) ↔
      (∃ there, disk.exists? db.directory = .ok there) ∧
        ∀ path ∈ assets disk db.directory, ¬ disk.Stops path := by
  constructor
  · rintro ⟨count, hcount⟩
    constructor
    · cases hthere : disk.exists? db.directory with
      | ok there => exact ⟨there, rfl⟩
      | error failure =>
          rw [loadAll, hthere] at hcount
          cases hcount
    · by_contra hstopped
      obtain ⟨before, path, after, hassets, hbefore, hpath⟩ := exists_first_stop hstopped
      obtain ⟨failure, hload, hskipped⟩ := (Disk.stops_iff registry).mp hpath
      rw [loadAll_of_stops hassets hbefore hload hskipped] at hcount
      cases hcount
  · rintro ⟨⟨there, hthere⟩, hstops⟩
    obtain ⟨last, -, hloaded⟩ := loadAll_of_not_stops registry hthere hstops
    rw [hloaded]
    exact ⟨_, rfl⟩

/-- The files of a directory that hold graphs are loaded in the order of their names.  Loading comes
to its end exactly when no file of the directory stops it and the directory can be looked for at
all.  Then the database holds under each id the graph of the last file of that stem that can be
read, and nothing else; each file that cannot be read is logged once, in order; and the answer is
the number of ids.

The path of the directory is followed from that of the disk.  Beyond it there are no files to
load. -/
theorem loadAll_loads_readable (db : Database) (disk : Disk) (registry : Registry) :
    (∃ names : List String, assets disk db.directory = names.map db.directory.child ∧
      names.Pairwise (· ≤ ·) ∧
      ∀ name, name ∈ names ↔ name ∈ disk.names db.directory ∧ isAssetName name = true) ∧
    ((∃ count, (db.loadAll disk registry).1.result = .ok count) ↔
      (∃ there, disk.exists? db.directory = .ok there) ∧
        ∀ path ∈ assets disk db.directory, ¬ disk.Stops path) ∧
    ∀ count, (db.loadAll disk registry).1.result = .ok count →
      count = (db.loadAll disk registry).2.dialogues.length ∧
      ((db.loadAll disk registry).2.dialogues.map Prod.fst).Nodup ∧
      (∀ id, (db.loadAll disk registry).2.find? id =
        ((assets disk db.directory).filterMap (graphUnder? disk registry id)).getLast?) ∧
      ∃ last : LogEntry, last.level ≠ .error ∧ (db.loadAll disk registry).1.log =
        (assets disk db.directory).filterMap (complaint? disk registry) ++ [last] := by
  refine ⟨exists_assets_eq_map disk db.directory, exists_loadAll_eq_ok_iff db disk registry,
    fun count hcount ↦ ?_⟩
  obtain ⟨⟨there, hthere⟩, hstops⟩ := (exists_loadAll_eq_ok_iff db disk registry).mp ⟨count, hcount⟩
  obtain ⟨last, hlevel, hloaded⟩ := loadAll_of_not_stops registry hthere hstops
  rw [hloaded] at hcount ⊢
  refine ⟨(Except.ok.inj hcount).symm, nodup_foldl_enterFile List.nodup_nil,
    fun id ↦ ?_, last, hlevel, rfl⟩
  rw [find?_foldl_enterFile]
  simp [find?]

/-- A directory with two graphs, and between them a file whose bytes are no text. -/
def mixedDisk : Disk :=
  ⟨[(["data"], .directory), (["data", "dialogue"], .directory),
    (["data", "dialogue", "a.json"], .file (.text "\x7b\"entry_id\": -1, \"records\": []\x7d")),
    (["data", "dialogue", "b.json"], .file (.undecodable [255])),
    (["data", "dialogue", "c.json"], .file (.text "\x7b\"entry_id\": -1, \"records\": []\x7d"))]⟩

def mixedDatabase : Database := ⟨⟨"", ["data"]⟩, []⟩

theorem assets_mixedDisk : assets mixedDisk mixedDatabase.directory =
    ["a.json", "b.json", "c.json"].map mixedDatabase.directory.child := by
  have hnames : (mixedDisk.names mixedDatabase.directory).filter isAssetName =
      ["a.json", "b.json", "c.json"] := by
    decide +kernel
  rw [assets, hnames, List.mergeSort_of_pairwise (by decide)]

/-- The bytes that are no text take the graph after them down with them. -/
theorem exists_asset_lost : ∃ (db : Database) (disk : Disk) (path : Path),
    path ∈ assets disk db.directory ∧
      disk.loadCompiled .standard path = .ok .empty ∧
      (db.loadAll disk .standard).1.result = .error .undecodableBytes ∧
      (db.loadAll disk .standard).1.log = [] ∧
      (db.loadAll disk .standard).2.find? path.stem = none := by
  have hfirst : mixedDisk.loadCompiled .standard (mixedDatabase.directory.child "a.json") =
      .ok .empty := by
    decide +kernel
  have hbytes : mixedDisk.loadCompiled .standard (mixedDatabase.directory.child "b.json") =
      .error .undecodableBytes := by
    decide +kernel
  have hlast : mixedDisk.loadCompiled .standard (mixedDatabase.directory.child "c.json") =
      .ok .empty := by
    decide +kernel
  have hreadable : ∀ path ∈ [mixedDatabase.directory.child "a.json"], ¬ mixedDisk.Stops path := by
    intro path hpath hstop
    obtain ⟨failure, hfailure, -⟩ := (Disk.stops_iff .standard).mp hstop
    rw [List.mem_singleton.mp hpath, hfirst] at hfailure
    cases hfailure
  have hloaded := loadAll_of_stops assets_mixedDisk hreadable hbytes rfl
  refine ⟨mixedDatabase, mixedDisk, mixedDatabase.directory.child "c.json", ?_, hlast, ?_⟩
  · rw [assets_mixedDisk]
    simp
  · rw [hloaded]
    refine ⟨rfl, ?_, ?_⟩
    · simp [complaint?, hfirst]
    · simp only [List.foldl_cons, List.foldl_nil, enterFile, hfirst]
      decide +kernel

end Database

end LinearDialogue
