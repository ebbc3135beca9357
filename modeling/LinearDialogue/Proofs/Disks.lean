import LinearDialogue.Files.Disk
import LinearDialogue.Proofs.Acts
import Mathlib.Data.List.Basic

/-!
# Changes of a disk

What making directories and writing a file leave of a disk.  Directories are only added, a file is
put at the end of one path, and the path leads to it afterwards as it led there before, since
nothing on the way to a file is a file.  What is read at its end is the text that was written, if no
line of the text ends with a carriage return.
-/

namespace LinearDialogue

theorem Content.unifyLines_eq_self {cs : List Char} (h : '\r' ∉ cs) : unifyLines cs = cs := by
  induction cs with
  | nil => rfl
  | cons c cs ih =>
      obtain ⟨hc, hcs⟩ := List.ne_and_not_mem_of_not_mem_cons h
      rw [unifyLines.eq_3 _ _ (fun _ hreturn _ ↦ hc hreturn.symm) (fun hreturn ↦ hc hreturn.symm),
        ih hcs]

namespace Disk

variable {disk disk' : Disk} {path : Path} {names other : List String} {entry : FileEntry}
  {content : Content} {location : Location}

/-! ## Entries -/

theorem find?_put (hnames : names ≠ []) :
    (disk.put names entry).find? other =
      if other = names then some entry else disk.find? other := by
  by_cases hroot : other = []
  · rw [hroot, if_neg hnames.symm]
    rfl
  simp only [find?, if_neg hroot, put]
  split
  · next hany =>
    have hkeys : ((fun e : List String × FileEntry ↦ e.1 == other) ∘
        fun e ↦ if e.1 = names then (names, entry) else e) = fun e ↦ e.1 == other := by
      funext e
      by_cases he : e.1 = names <;> simp [he]
    simp only [beq_iff_eq, List.find?_map, hkeys, Option.map_map]
    by_cases hother : other = names
    · subst hother
      obtain ⟨e, hfind⟩ := Option.isSome_iff_exists.mp
        (List.find?_isSome.mpr (List.any_eq_true.mp hany))
      have he := List.find?_some hfind
      rw [hfind]
      simp [eq_of_beq he]
    · rw [if_neg hother]
      cases hfind : disk.entries.find? fun e ↦ e.1 == other with
      | none => rfl
      | some e =>
          have he := List.find?_some hfind
          simp [eq_of_beq he, hother]
  · next hany =>
    rw [List.find?_append]
    by_cases hother : other = names
    · subst hother
      have hnone : (disk.entries.find? fun e ↦ e.1 == other) = none := by
        rw [← Option.not_isSome_iff_eq_none, List.find?_isSome]
        exact fun hsome ↦ hany (List.any_eq_true.mpr hsome)
      simp [hnone]
    · cases hfind : disk.entries.find? fun e ↦ e.1 == other <;> simp [Ne.symm hother, hother]

/-! ## Directories -/

/-- From one disk to the other directories are made, and nothing else. -/
structure Furthers (disk disk' : Disk) : Prop where
  keeps : ∀ {names entry}, disk.find? names = some entry → disk'.find? names = some entry
  news : ∀ {names}, disk.find? names = none →
    disk'.find? names = none ∨ disk'.find? names = some .directory

theorem Furthers.refl (disk : Disk) : disk.Furthers disk := ⟨id, .inl⟩

theorem Furthers.trans {last : Disk} (h : disk.Furthers disk') (h' : disk'.Furthers last) :
    disk.Furthers last := by
  refine ⟨fun hfind ↦ h'.keeps (h.keeps hfind), fun hfind ↦ ?_⟩
  rcases h.news hfind with hnone | hmade
  · exact h'.news hnone
  · exact .inr (h'.keeps hmade)

theorem furthers_of_makeDirectory_eq_ok (h : disk.makeDirectory path = .ok disk') :
    disk.Furthers disk' := by
  obtain ⟨location, -, h⟩ := bind_eq_ok_iff.mp h
  split at h
  · next names hnone =>
    cases h
    have hnew : disk.find? names = none := hnone
    have hnames : names ≠ [] := by
      rintro rfl
      cases hnew
    constructor
    · intro other entry hfind
      rw [find?_put hnames, if_neg]
      · exact hfind
      · rintro rfl
        cases hnew.symm.trans hfind
    · intro other hfind
      rw [find?_put hnames]
      split
      · exact .inr rfl
      · exact .inl hfind
  · cases h

section Acts

variable {σ : Type} [Part Disk σ]

theorem chains_furthers :
    Act.Chains fun s t : σ ↦ (Part.get s : Disk).Furthers (Part.get t) :=
  ⟨fun _ ↦ .refl _, fun h h' ↦ h.trans h'⟩

theorem change_apply (f : Disk → Except Failure Disk) (s : σ) :
    (change f : Act σ Unit) s =
      match f (Part.get s) with
      | .ok disk => (.returned (), Part.set disk s)
      | .error failure => (.failed failure, s) := by
  rw [change, Act.bind_apply, Part.read_apply]
  dsimp only
  rw [Act.bind_apply]
  cases f (Part.get s) <;> rfl

theorem along_change {R : Disk → Disk → Prop} {f : Disk → Except Failure Disk}
    (hrefl : ∀ disk, R disk disk) (h : ∀ disk disk', f disk = .ok disk' → R disk disk') :
    (change f : Act σ Unit).Along fun s t ↦ R (Part.get s) (Part.get t) := by
  intro s
  rw [change_apply]
  cases hf : f (Part.get s) with
  | error failure => exact hrefl _
  | ok disk' =>
      dsimp only
      rw [Part.get_set]
      exact h _ _ hf

theorem along_makeDirectory (path : Path) :
    (change (fun disk ↦ disk.makeDirectory path) : Act σ Unit).Along
      fun s t ↦ (Part.get s : Disk).Furthers (Part.get t) :=
  along_change Furthers.refl fun _ _ ↦ furthers_of_makeDirectory_eq_ok

theorem along_unlessDirectory (path : Path) (failure : Failure) :
    (unlessDirectory path failure : Act σ Unit).Along
      fun s t ↦ (Part.get s : Disk).Furthers (Part.get t) := by
  refine .bind chains_furthers (.read chains_furthers) fun _ ↦ ?_
  refine .bind chains_furthers (.ofExcept chains_furthers _) fun isThere ↦ ?_
  cases isThere with
  | true => exact .pure chains_furthers ()
  | false => exact .fail chains_furthers failure

theorem along_ensureDirectory (path : Path) :
    (ensureDirectory path : Act σ Unit).Along
      fun s t ↦ (Part.get s : Disk).Furthers (Part.get t) := by
  refine .bind chains_furthers (.attempt (along_makeDirectory path)) fun answer ↦ ?_
  cases answer with
  | ok _ => exact .pure chains_furthers ()
  | error failure => exact along_unlessDirectory path failure

theorem along_ensureAll (path : Path) (fuel : ℕ) :
    (ensureAll path fuel : Act σ Unit).Along
      fun s t ↦ (Part.get s : Disk).Furthers (Part.get t) := by
  induction fuel generalizing path with
  | zero => exact along_ensureDirectory path
  | succ fuel ih =>
      refine .bind chains_furthers (.attempt (along_makeDirectory path)) fun answer ↦ ?_
      split
      · exact .pure chains_furthers ()
      · exact .bind chains_furthers (ih path.parent) fun _ ↦ along_ensureDirectory path
      · exact along_unlessDirectory path _

end Acts

/-! ## Names in directories -/

theorem exists_locate_of_child {name : String} (hparts : path.parts ≠ [])
    (h : disk.locate (path.child name) = .ok location) :
    ∃ here, disk.locate path = .ok here ∧ disk.step here name = .ok location := by
  have htext : (path.child name).text = path.text ++ ("/" ++ name) := by
    simp [Path.text, Path.child, hparts, String.intercalate_append_of_ne_nil hparts,
      String.append_assoc]
  simp only [locate, follow] at h ⊢
  split at h
  · cases h
  next hnull =>
  split at h
  · cases h
  next hlong =>
  split at h
  next last hmade =>
    cases h
    have hnull' : ¬ path.text.toList.contains '\x00' = true := by
      intro hcontains
      rw [htext, String.toList_append] at hnull
      exact hnull (List.contains_iff_mem.mpr
        (List.mem_append_left _ (List.contains_iff_mem.mp hcontains)))
    have hlong' : ¬ isPathTooLong path.text = true := by
      simp only [isPathTooLong, htext, String.utf8ByteSize_append, decide_eq_true_eq] at hlong ⊢
      omega
    have hwalk : (path.parts ++ [name]).foldlM disk.step
        (if path.isAbsolute then .outside else .inside []) = .ok location := hmade
    rw [List.foldlM_append] at hwalk
    cases hhere : path.parts.foldlM disk.step
        (if path.isAbsolute then .outside else .inside []) with
    | error fault =>
        rw [hhere] at hwalk
        cases hwalk
    | ok here =>
        rw [hhere] at hwalk
        refine ⟨here, ?_, ?_⟩
        · rw [if_neg hnull', if_neg hlong']
        · rw [← hwalk]
          exact (bind_pure _).symm
  next => cases h

/-- A file is among the names of the directory that its path goes through. -/
theorem mem_names_of_located {name : String} (hparts : path.parts ≠ []) (hname : name ≠ "..")
    (hlocated : disk.locate (path.child name) = .ok (.inside names))
    (hholds : disk.find? names = some (.file content)) : name ∈ disk.names path := by
  obtain ⟨here, hhere, hstep⟩ := exists_locate_of_child hparts hlocated
  cases here with
  | outside =>
      rw [step, if_neg hname] at hstep
      split at hstep <;> cases hstep
  | inside above =>
      simp only [step, if_neg hname] at hstep
      split at hstep
      · next hdirectory =>
        split at hstep
        · cases hstep
        cases hstep
        rw [find?, if_neg (by simp)] at hholds
        obtain ⟨e, hfind, -⟩ := Option.map_eq_some_iff.mp hholds
        have hsome := List.find?_some hfind
        have hplace : e.1 = above ++ [name] := eq_of_beq hsome
        rw [Disk.names, hhere]
        dsimp only
        rw [if_pos hdirectory]
        refine List.mem_filterMap.mpr ⟨e, List.mem_of_find?_eq_some hfind, ?_⟩
        rw [hplace, List.dropLast_concat, if_pos rfl, List.getLast?_concat]
      · cases hstep
      · cases hstep

/-! ## Files -/

theorem of_write_eq_ok (h : disk.write path content = .ok disk') :
    ∃ names, disk.locate path = .ok (.inside names) ∧ disk.find? names ≠ some .directory ∧
      disk' = disk.put names (.file content) := by
  obtain ⟨location, hlocate, h⟩ := bind_eq_ok_iff.mp h
  split at h
  · cases h
  · next names hplace =>
    cases h
    exact ⟨names, hlocate, hplace, rfl⟩
  · cases h

theorem ne_nil_of_find?_ne_directory (h : disk.find? names ≠ some .directory) : names ≠ [] := by
  rintro rfl
  exact h rfl

/-- A file lies on no way. -/
theorem step_put (h : disk.find? names ≠ some .directory) {start : Location} {name : String}
    (hstep : disk.step start name = .ok location) :
    (disk.put names (.file content)).step start name = .ok location := by
  cases start with
  | outside => exact hstep
  | inside here =>
      simp only [step] at hstep ⊢
      cases hhere : disk.find? here with
      | none =>
          rw [hhere] at hstep
          cases hstep
      | some entry =>
          cases entry with
          | file _ =>
              rw [hhere] at hstep
              cases hstep
          | directory =>
              have hother : here ≠ names := by
                rintro rfl
                exact h hhere
              rw [hhere] at hstep
              rw [find?_put (ne_nil_of_find?_ne_directory h), if_neg hother, hhere]
              exact hstep

theorem locate_put (h : disk.find? names ≠ some .directory)
    (hlocate : disk.locate path = .ok location) :
    (disk.put names (.file content)).locate path = .ok location := by
  have hwalk : ∀ (parts : List String) (start : Location) {last : Location},
      parts.foldlM disk.step start = .ok last →
        parts.foldlM (disk.put names (.file content)).step start = .ok last := by
    intro parts
    induction parts with
    | nil => exact fun _ _ hlast ↦ hlast
    | cons name parts ih =>
        intro start last hlast
        rw [List.foldlM_cons] at hlast ⊢
        cases hstep : disk.step start name with
        | error fault =>
            rw [hstep] at hlast
            cases hlast
        | ok next =>
            rw [hstep] at hlast
            rw [step_put h hstep]
            exact ih next hlast
  simp only [locate, follow] at hlocate ⊢
  split at hlocate
  · cases hlocate
  next hnull =>
  split at hlocate
  · cases hlocate
  next hlong =>
  split at hlocate
  next _ hmade =>
    rw [if_neg hnull, if_neg hlong, hwalk _ _ hmade]
    exact hlocate
  next => cases hlocate

/-- What a file that has been written leaves of the disk. -/
structure Receives (disk disk' : Disk) (path : Path) (content : Content) (names : List String) :
    Prop where
  located : disk'.locate path = .ok (.inside names)
  holds : disk'.find? names = some (.file content)
  others : ∀ other, other ≠ names → disk'.find? other = disk.find? other

theorem exists_receives_of_write_eq_ok (h : disk.write path content = .ok disk') :
    ∃ names, disk.Receives disk' path content names := by
  obtain ⟨names, hlocate, hplace, rfl⟩ := of_write_eq_ok h
  have hnames := ne_nil_of_find?_ne_directory hplace
  refine ⟨names, locate_put hplace hlocate, ?_, fun other hother ↦ ?_⟩
  · rw [find?_put hnames, if_pos rfl]
  · rw [find?_put hnames, if_neg hother]

theorem content_of_located (hlocated : disk.locate path = .ok (.inside names))
    (hholds : disk.find? names = some (.file content)) : disk.content path = .ok content := by
  rw [Disk.content, status, hlocated]
  simp [Except.map, at?, hholds, bind, Except.bind, pure, Except.pure]

/-- A text without carriage returns is read as it is. -/
theorem readText_of_located {s : String} (hlocated : disk.locate path = .ok (.inside names))
    (hholds : disk.find? names = some (.file (.text s))) (hlines : '\r' ∉ s.toList) :
    disk.readText path = .ok s := by
  rw [Disk.readText, content_of_located hlocated hholds]
  change Except.ok (String.ofList (Content.unifyLines s.toList)) = .ok s
  rw [Content.unifyLines_eq_self hlines, String.ofList_toList]

end Disk

end LinearDialogue
