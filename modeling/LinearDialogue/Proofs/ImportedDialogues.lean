import LinearDialogue.Proofs.Imports
import LinearDialogue.Proofs.Loading
import LinearDialogue.Proofs.LoopAgreement
import LinearDialogue.Proofs.Performances

/-!
# Imported dialogues

Two rules tell under which id an imported graph is found.  The importer puts another suffix on the
name of the document, and the database takes the suffix off again.  The stem is the same, even where
a name has several points, or one at its end, or only one at its start.  So a document that has been
imported into the directory of the database can be played under its own stem, if the loading is not
stopped by another file.
-/

namespace LinearDialogue

/-! ## Names -/

namespace Path

variable {name : String}

/-- A name with the suffix of assets is that suffix or has it for its suffix. -/
theorem splitName_append_suffix (name : String) :
    splitName (name ++ Importer.suffix) =
      if name = "" then (Importer.suffix, "") else (name, Importer.suffix) := by
  have hsuffix : Importer.suffix.toList = ['.', 'j', 's', 'o', 'n'] := rfl
  by_cases hname : name = ""
  · rw [hname, if_pos rfl]
    decide +kernel
  · have hlength : 0 < name.toList.length :=
      List.length_pos_iff.mpr fun hnil ↦ hname (String.toList_eq_nil_iff.mp hnil)
    have hafter : ((name ++ Importer.suffix).toList.reverse.takeWhile (· ≠ '.')).length = 4 := by
      rw [String.toList_append, hsuffix, List.reverse_append]
      rfl
    have hcount : (name ++ Importer.suffix).toList.length = name.toList.length + 5 := by
      rw [String.toList_append, List.length_append, hsuffix]
      rfl
    have hpoint : (name ++ Importer.suffix).toList.contains '.' = true := by
      rw [String.toList_append, hsuffix]
      simp
    rw [if_neg hname, splitName]
    dsimp only
    rw [hafter, hcount, hpoint, if_pos (by simpa using hlength)]
    have hbefore : name.toList.length + 5 - 4 - 1 = name.toList.length := by omega
    rw [hbefore, String.toList_append, List.take_left, List.drop_left, String.ofList_toList,
      String.ofList_toList]

theorem name_child (path : Path) (name : String) : (path.child name).name = name := by
  rw [Path.name, child, List.getLast?_concat, Option.getD_some]

theorem splitName_fst_ne_empty (h : name ≠ "") : (splitName name).1 ≠ "" := by
  rw [splitName]
  dsimp only
  generalize (List.takeWhile _ name.toList.reverse).length = after
  split
  · next hpoint =>
    simp only [Bool.and_eq_true, decide_eq_true_eq] at hpoint
    intro hempty
    have hlength := congrArg (fun s : String ↦ s.toList.length) hempty
    simp only [String.toList_ofList, List.length_take, String.toList_empty,
      List.length_nil] at hlength
    omega
  · exact h

end Path

namespace Database

theorem isAssetName_iff {name : String} :
    isAssetName name = true ↔ ∃ before, name = before ++ Importer.suffix := by
  rw [isAssetName, List.isSuffixOf_iff_suffix]
  constructor
  · rintro ⟨before, hbefore⟩
    refine ⟨String.ofList before, ?_⟩
    rw [← String.toList_inj, String.toList_append, String.toList_ofList, ← hbefore]
    rfl
  · rintro ⟨before, rfl⟩
    exact ⟨before.toList, (String.toList_append).symm⟩

/-- Of all assets of one stem, the one with the suffix put on the stem comes last. -/
theorem lt_of_stem_eq {directory : Path} {name id : String} (hid : id ≠ "")
    (hasset : isAssetName name = true) (hstem : (directory.child name).stem = id)
    (hother : name ≠ id ++ Importer.suffix) : name < id ++ Importer.suffix := by
  obtain ⟨before, rfl⟩ := isAssetName_iff.mp hasset
  rw [Path.stem, Path.name_child, Path.splitName_append_suffix] at hstem
  split at hstem
  · next hempty =>
    subst hempty hstem
    decide +kernel
  · subst hstem
    exact absurd rfl hother

/-- In a list in order, what the last member is mapped to comes last. -/
theorem getLast?_filterMap_of_sorted {β : Type} {names : List String} {f : String → Option β}
    {name : String} {b : β} (hsorted : names.Pairwise (· ≤ ·)) (hmem : name ∈ names)
    (hname : f name = some b)
    (hothers : ∀ other ∈ names, other ≠ name → (f other).isSome → other < name) :
    (names.filterMap f).getLast? = some b := by
  obtain ⟨before, after, rfl⟩ := List.append_of_mem hmem
  have hafter : ∀ c ∈ after.filterMap f, c = b := by
    intro c hc
    obtain ⟨other, hother, hfound⟩ := List.mem_filterMap.mp hc
    have hle : name ≤ other :=
      (List.pairwise_cons.mp (List.pairwise_append.mp hsorted).2.1).1 other hother
    have hsame : other = name := by
      by_contra hne
      exact absurd hle (not_le.mpr (hothers other
        (List.mem_append_right _ (List.mem_cons_of_mem _ hother)) hne (by simp [hfound])))
    rw [hsame, hname] at hfound
    exact (Option.some.inj hfound).symm
  rw [List.filterMap_append, List.filterMap_cons_some hname, List.getLast?_append,
    List.getLast?_cons, Option.some_or, Option.some_inj]
  cases hlast : (after.filterMap f).getLast? with
  | none => rfl
  | some c => exact hafter c (List.mem_of_getLast? hlast)

/-! ## Loading -/

variable {disk : Disk} {registry : Registry} {graph : CompiledGraph} {directory : Path}

theorem stem_child_append_suffix (directory : Path) {id : String} (hid : id ≠ "") :
    (directory.child (id ++ Importer.suffix)).stem = id := by
  rw [Path.stem, Path.name_child, Path.splitName_append_suffix, if_neg hid]

/-- A graph that has the suffix put on its id is what is loaded for the id. -/
theorem find?_foldl_assets {id : String} (hid : id ≠ "")
    (hname : id ++ Importer.suffix ∈ disk.names directory)
    (hload : disk.loadCompiled registry (directory.child (id ++ Importer.suffix)) = .ok graph)
    (dataPath : Path) :
    find? ⟨dataPath, (assets disk directory).foldl (enterFile disk registry) []⟩ id =
      some graph := by
  obtain ⟨names, hassets, hsorted, hnames⟩ := exists_assets_eq_map disk directory
  have hmem : id ++ Importer.suffix ∈ names :=
    (hnames _).mpr ⟨hname, isAssetName_iff.mpr ⟨id, rfl⟩⟩
  have hunder : graphUnder? disk registry id (directory.child (id ++ Importer.suffix)) =
      some graph := by
    rw [graphUnder?, stem_child_append_suffix directory hid, if_pos rfl, hload, Except.toOption]
  rw [find?_foldl_enterFile, hassets, List.filterMap_map]
  have hlast : (names.filterMap (graphUnder? disk registry id ∘ directory.child)).getLast? =
      some graph := by
    refine getLast?_filterMap_of_sorted hsorted hmem hunder fun other hother hne hfound ↦ ?_
    have hstem : (directory.child other).stem = id := by
      by_contra hstem
      simp [graphUnder?, hstem] at hfound
    exact lt_of_stem_eq hid ((hnames other).mp hother).2 hstem hne
  rw [hlast, Option.some_or]

end Database

/-! ## Playing -/

theorem Graph.isDialogue_of_compile_eq_ok {g : Graph} {compiled : CompiledGraph} {record : Record}
    (h : g.compile.result = .ok compiled) (hrecord : record ∈ compiled.records) :
    record.IsDialogue := by
  obtain ⟨node, hnode⟩ := exists_lower_of_mem h hrecord
  obtain ⟨-, hclass, -, -, draft, line, -, hline, -⟩ := of_lower_eq_ok hnode
  exact ⟨hclass, by rw [hline, Option.isSome_some]⟩

namespace Stage

/-- From one stage to the other the dialogue of a graph is started: it is announced, and from the
entry of the graph a step is taken. -/
structure Starts (s : Stage) (graph : CompiledGraph) (id : Value) (step : Outcome Bool)
    (voices es : List Event) (t : Stage) : Prop where
  announced : t.bus.announced =
    s.bus.announced ++ Director.dialogueEvent .dialogStarted id :: (voices ++ es)
  voices : ∀ e ∈ voices, e.IsVoice
  steps : Steps { s.director with dialogueId := id, isEnabled := true }
    { s.playback with
      table := Playback.tableOf graph.records
      cursor := graph.entry
      state := .loaded } step es t.director t.playback

theorem Steps.returned_or_isFileFailure {d d' : Director} {p p' : Playback} {outcome : Outcome Bool}
    {es : List Event} (h : Steps d p outcome es d' p') (hidle : p.advancing = false)
    (hplayable : ∀ record, p.current? = some record → record.playableLine?.isSome) :
    (∃ b, outcome = .returned b) ∨
      ∃ failure, outcome = .failed failure ∧ IsFileFailure failure := by
  cases h with
  | refused hinside => cases hidle.symm.trans hinside
  | executed | ended => exact .inl ⟨_, rfl⟩
  | @failed record failure _ hcurrent hbalks =>
      rcases hbalks with ⟨hunknown, -⟩ | ⟨-, hfile⟩
      · have hsome := hplayable record hcurrent
        rw [hunknown] at hsome
        cases hsome
      · exact .inr ⟨failure, rfl, hfile⟩

/-- A dialogue of spoken lines is started, and only a voice clip that cannot be looked for keeps its
first line from being shown. -/
theorem exists_operate_play_of_find {s : Stage} {graph : CompiledGraph} {id : Value} (hs : s.IsCalm)
    (hidle : s.playback.advancing = false) (hfind : s.director.find? id = .ok (some graph))
    (hrecords : ∀ record ∈ graph.records, record.IsDialogue) (fuel : Nat) :
    ∃ outcome step voices es t, operate fuel (.play id) s = (outcome, t) ∧
      s.Starts graph id step voices es t ∧
      (outcome = .returned (.bool true) ∨
        s.speaker = .audio ∧ ∃ failure, outcome = .failed failure ∧ IsFileFailure failure) := by
  obtain ⟨step, voices, es, t, hrun, -, hbecomes, -, hvoices, haudio, hsteps⟩ :=
    exists_start (isQuiet_publish fuel) admits_isCalm hs s.speaker graph id
  have hact : operate fuel (.play id) s =
      (Director.play (wiring (handling.publish fuel) s.speaker) id >>= fun found ↦
        pure (.bool found)) s := rfl
  refine ⟨step.map fun _ ↦ .bool true, step, voices, es, t, ?_,
    ⟨hbecomes.announced, hvoices, hsteps⟩, ?_⟩
  · rw [hact, Act.bind_pure_apply, play_of_some hfind, Act.bind_pure_apply, hrun, Outcome.map_map,
      Outcome.map_map]
    rfl
  · have hplayable : ∀ record, ({ s.playback with
        table := Playback.tableOf graph.records
        cursor := graph.entry
        state := .loaded } : Playback).current? = some record → record.playableLine?.isSome :=
      fun record hcurrent ↦ (hrecords record
        (Playback.mem_of_mem_tableOf (List.mem_of_find?_eq_some hcurrent))).isSome_playableLine?
    rcases hsteps.returned_or_isFileFailure hidle hplayable with ⟨b, rfl⟩ | ⟨failure, rfl, hfile⟩
    · exact .inl rfl
    · exact .inr ⟨haudio failure rfl hfile, failure, rfl, hfile⟩

end Stage

/-! ## From the document to the dialogue -/

namespace Importer

theorem of_withSuffix_child_eq_ok {directory path : Path} {name : String}
    (h : (directory.child name).withSuffix suffix = .ok path) :
    (directory.child name).stem ≠ "" ∧
      path = directory.child ((directory.child name).stem ++ suffix) := by
  rw [Path.withSuffix] at h
  split at h
  · cases h
  next hname =>
    cases h
    refine ⟨Path.splitName_fst_ne_empty hname, ?_⟩
    simp [Path.child]

variable {σ : Type} [Part Disk σ] [Part Journal σ] [KeepsApart σ] {publish : Publisher σ} {s t : σ}
  {path : Path}

/-- A document in the directory of a database that has been imported is found under its own stem: if
no file beside what has been written stops the loading, then the database has the graph that the
document compiles to.  Where it is played, exactly this graph is started, and the answer is that it
has been, unless the voice clip of the first line is looked for under a path that is too long.

The path of the directory is followed from that of the disk.  Beyond it nothing is imported. -/
theorem imported_dialogue_plays (hpublish : SparesDisk publish) {db : Database} {name : String}
    {registry : Registry} (hregistry : registry.Registered)
    (hdialogue : registry.find? "dialogue" = some .dialogue)
    (himport : importFile publish (db.directory.child name) none s = (.returned path, t))
    (hothers : ∀ asset ∈ Database.assets (Part.get t) db.directory, asset ≠ path →
      ¬ (Part.get t : Disk).Stops asset) :
    let id := (db.directory.child name).stem
    let loading := db.loadAll (Part.get t) registry
    ∃ graph compiled, Fits (Part.get s) (db.directory.child name) graph compiled ∧
      (∃ count, loading.1.result = .ok count) ∧ loading.2.find? id = some compiled ∧
      ∀ (fuel : ℕ) (stage : Stage), stage.IsCalm → stage.playback.advancing = false →
        stage.director.database = some loading.2 →
        ∃ outcome step voices es u, Stage.operate fuel (.play (.text id)) stage = (outcome, u) ∧
          stage.Starts compiled (.text id) step voices es u ∧
          (outcome = .returned (.bool true) ∨ stage.speaker = .audio ∧
            ∃ failure, outcome = .failed failure ∧ Stage.IsFileFailure failure) := by
  intro id loading
  rw [importFile_eq] at himport
  obtain ⟨chosen, _, hchosen, himport⟩ := Act.bind_eq_returned_iff.mp himport
  obtain ⟨htarget, rfl⟩ := Act.ofExcept_eq_returned_iff.mp hchosen
  obtain ⟨rfl, graph, compiled, names, hfits, hleaves⟩ := of_importTo_eq_returned hpublish himport
  obtain ⟨hid, hpath⟩ := of_withSuffix_child_eq_ok htarget
  have hload := hleaves.loadCompiled hregistry
    (CompiledGraph.persists_of_compile_eq_ok hdialogue hfits.compiles)
  subst hpath
  have hname : id ++ suffix ∈ (Part.get t : Disk).names db.directory := by
    refine Disk.mem_names_of_located (List.append_ne_nil_of_right_ne_nil _ (List.cons_ne_nil _ _))
      (fun hup ↦ ?_) hleaves.located hleaves.holds
    have hlength := congrArg (fun s : String ↦ s.toList.length) hup
    simp [suffix] at hlength
  have hstops : ∀ asset ∈ Database.assets (Part.get t) db.directory,
      ¬ (Part.get t : Disk).Stops asset := by
    intro asset hasset hstop
    refine hothers asset hasset ?_ hstop
    rintro rfl
    obtain ⟨failure, hfailure, -⟩ := (Disk.stops_iff registry).mp hstop
    cases hload.symm.trans hfailure
  have hasset : db.directory.child (id ++ suffix) ∈ Database.assets (Part.get t) db.directory := by
    obtain ⟨assetNames, hassets, -, hnames⟩ :=
      Database.exists_assets_eq_map (Part.get t) db.directory
    rw [hassets]
    exact List.mem_map_of_mem ((hnames _).mpr ⟨hname, Database.isAssetName_iff.mpr ⟨id, rfl⟩⟩)
  obtain ⟨_, -, hloaded⟩ := Database.loadAll_of_not_stops registry
    (Database.exists?_of_mem_assets hasset) hstops
  have hfind : loading.2.find? id = some compiled := by
    rw [show loading = _ from hloaded]
    exact Database.find?_foldl_assets hid hname hload db.dataPath
  refine ⟨graph, compiled, hfits, ⟨_, congrArg (fun m ↦ m.1.result) hloaded⟩, hfind, ?_⟩
  intro fuel stage hcalm hidle hdatabase
  refine Stage.exists_operate_play_of_find hcalm hidle ?_
    (fun _ ↦ Graph.isDialogue_of_compile_eq_ok hfits.compiles) fuel
  rw [Director.find?, hdatabase]
  exact congrArg Except.ok hfind

/-- A data directory with a document that has several points in its name, one of them at the end. -/
def shelf : Workshop where
  disk := ⟨[(["data"], .directory), (["data", "dialogue"], .directory),
    (["data", "dialogue", "intro.v2."], .file (.text sketch))]⟩
  database := ⟨⟨"", ["data"]⟩, []⟩

theorem imported_dialogue_plays_of_shelf :
    ∃ t, importFile .observed (shelf.database.directory.child "intro.v2.") none shelf =
        (.returned (shelf.database.directory.child "intro.v2..json"), t) ∧
      SparesDisk (.observed : Publisher Workshop) ∧ Stage.nervous.IsCalm ∧
      ∃ loaded graph compiled, (shelf.database.loadAll t.disk .standard).2 = loaded ∧
        Fits shelf.disk (shelf.database.directory.child "intro.v2.") graph compiled ∧
        loaded.find? "intro.v2." = some compiled ∧
        ∃ step voices es u,
          let stage : Stage := { Stage.nervous with director.database := some loaded }
          Stage.operate 4 (.play (.text "intro.v2.")) stage = (.returned (.bool true), u) ∧
          stage.Starts compiled (.text "intro.v2.") step voices es u := by
  have hreturned : (importFile .observed (shelf.database.directory.child "intro.v2.") none
      shelf).1.result? = some (shelf.database.directory.child "intro.v2..json") := by
    decide +kernel
  have hnames : ((importFile .observed (shelf.database.directory.child "intro.v2.") none
      shelf).2.disk.names shelf.database.directory).filter Database.isAssetName =
        ["intro.v2..json"] := by
    decide +kernel
  have hstem : (shelf.database.directory.child "intro.v2.").stem = "intro.v2." := by
    decide +kernel
  rcases hrun : importFile .observed (shelf.database.directory.child "intro.v2.") none shelf with
    ⟨outcome, t⟩
  rw [hrun] at hreturned hnames
  obtain rfl := Outcome.result?_eq_some_iff.mp hreturned
  have hothers : ∀ asset ∈ Database.assets t.disk shelf.database.directory,
      asset ≠ shelf.database.directory.child "intro.v2..json" → ¬ t.disk.Stops asset := by
    intro asset hasset hother
    rw [Database.assets, hnames, List.mergeSort_singleton, List.map_singleton,
      List.mem_singleton] at hasset
    exact absurd hasset hother
  obtain ⟨graph, compiled, hfits, -, hfind, hplays⟩ :=
    imported_dialogue_plays sparesDisk_observed .standard rfl hrun hothers
  have hcalm : Stage.nervous.IsCalm := Stage.isOpening_nervous.calm
  rcases hloaded : shelf.database.loadAll t.disk .standard with ⟨m, loaded⟩
  rw [show shelf.database.loadAll (Part.get t) .standard = _ from hloaded] at hfind hplays
  rw [hstem] at hfind hplays
  obtain ⟨outcome, step, voices, es, u, hplay, hstarts, rfl | ⟨haudio, -⟩⟩ :=
    hplays 4 { Stage.nervous with director.database := some loaded }
      ⟨hcalm.wired.of_same rfl rfl rfl, rfl, rfl⟩ rfl rfl
  · exact ⟨t, rfl, sparesDisk_observed, hcalm, loaded, graph, compiled, by rw [hloaded], hfits,
      hfind, step, voices, es, u, hplay, hstarts⟩
  · cases haudio

/-- A text that is an integer of too many digits. -/
def longText : String := String.ofList (List.replicate (Json.maxDigits + 1) '9')

theorem stops_of_longText {disk : Disk} {path : Path} {names : List String}
    (hlocated : disk.locate path = .ok (.inside names))
    (hholds : disk.find? names = some (.file (.text longText))) : disk.Stops path := by
  have hnines : ∀ c ∈ List.replicate (Json.maxDigits + 1) '9', c = '9' := fun c ↦
    List.eq_of_mem_replicate
  have hlines : '\r' ∉ longText.toList := by
    rw [longText, String.toList_ofList]
    exact fun hreturn ↦ absurd (hnines _ hreturn) (by decide)
  refine .digits (Disk.readText_of_located hlocated hholds hlines)
    (Json.read_eq_error_of_long ?_ ?_ ?_) rfl
  · intro c hc
    rw [hnines c hc]
    rfl
  · simp [List.replicate_succ]
  · rw [List.length_replicate]
    exact Nat.lt_succ_self _

/-- Beside a document lies a file with an integer of too many digits. -/
def spoiledShelf : Workshop where
  disk := ⟨[(["data"], .directory), (["data", "dialogue"], .directory),
    (["data", "dialogue", "a.json"], .file (.text longText)),
    (["data", "dialogue", "b.dialogue"], .file (.text sketch))]⟩
  database := ⟨⟨"", ["data"]⟩, []⟩

/-- The integer takes the imported graph down with it, though every file is a text. -/
theorem exists_imported_dialogue_lost :
    ∃ t,
      importFile .observed (spoiledShelf.database.directory.child "b.dialogue") none spoiledShelf =
        (.returned (spoiledShelf.database.directory.child "b.json"), t) ∧
      (∀ asset ∈ Database.assets t.disk spoiledShelf.database.directory,
        ∃ text, t.disk.content asset = .ok (.text text)) ∧
      (∃ failure, (spoiledShelf.database.loadAll t.disk .standard).1.result = .error failure) ∧
      (spoiledShelf.database.loadAll t.disk .standard).2.find?
        (spoiledShelf.database.directory.child "b.dialogue").stem = none := by
  have hreturned : (importFile .observed (spoiledShelf.database.directory.child "b.dialogue") none
      spoiledShelf).1.result? = some (spoiledShelf.database.directory.child "b.json") := by
    decide +kernel
  have hnames : ((importFile .observed (spoiledShelf.database.directory.child "b.dialogue") none
      spoiledShelf).2.disk.names spoiledShelf.database.directory).filter Database.isAssetName =
        ["a.json", "b.json"] := by
    decide +kernel
  have hplaces : ["a.json", "b.json"].map (fun name ↦ (importFile .observed
      (spoiledShelf.database.directory.child "b.dialogue") none spoiledShelf).2.disk.locate
        (spoiledShelf.database.directory.child name)) =
      [.ok (.inside ["data", "dialogue", "a.json"]),
        .ok (.inside ["data", "dialogue", "b.json"])] := by
    decide +kernel
  rcases hrun : importFile .observed (spoiledShelf.database.directory.child "b.dialogue") none
    spoiledShelf with ⟨outcome, t⟩
  rw [hrun] at hreturned hnames hplaces
  obtain rfl := Outcome.result?_eq_some_iff.mp hreturned
  simp only [List.map_cons, List.map_nil, List.cons.injEq, and_true] at hplaces
  obtain ⟨hlocated, hlocated'⟩ := hplaces
  have hassets : Database.assets t.disk spoiledShelf.database.directory =
      [] ++ spoiledShelf.database.directory.child "a.json" ::
        [spoiledShelf.database.directory.child "b.json"] := by
    rw [Database.assets, hnames, List.mergeSort_of_pairwise (by decide)]
    rfl
  have himport := hrun
  rw [importFile_eq] at himport
  obtain ⟨_, _, hchosen, himport⟩ := Act.bind_eq_returned_iff.mp himport
  obtain ⟨-, rfl⟩ := Act.ofExcept_eq_returned_iff.mp hchosen
  obtain ⟨rfl, -, compiled, names, -, hleaves⟩ :=
    of_importTo_eq_returned sparesDisk_observed himport
  obtain rfl : names = ["data", "dialogue", "b.json"] := by
    cases hleaves.located.symm.trans hlocated'
    rfl
  have hlong : t.disk.find? ["data", "dialogue", "a.json"] = some (.file (.text longText)) :=
    hleaves.keeps _ (by decide) _ rfl
  obtain ⟨failure, hfailure, hskipped⟩ :=
    (Disk.stops_iff .standard).mp (stops_of_longText hlocated hlong)
  have hloaded := Database.loadAll_of_stops hassets (List.forall_mem_nil _) hfailure hskipped
  refine ⟨t, rfl, fun asset hasset ↦ ?_, ⟨failure, congrArg (fun m ↦ m.1.result) hloaded⟩, ?_⟩
  · rw [hassets, List.nil_append, List.mem_cons, List.mem_singleton] at hasset
    rcases hasset with rfl | rfl
    · exact ⟨longText, Disk.content_of_located hlocated hlong⟩
    · exact ⟨_, Disk.content_of_located hlocated' hleaves.holds⟩
  · rw [hloaded]
    rfl

end Importer

end LinearDialogue
