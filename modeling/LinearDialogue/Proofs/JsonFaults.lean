import LinearDialogue.Json.Reader
import Mathlib.Data.List.TakeWhile
import Mathlib.Logic.Relation

/-!
# Why reading stops

The reader goes over the characters from the left, and wherever it looks for a value it stands
outside of all texts.  An integer of more digits than are allowed that stands there is the only
thing that is refused although it is JSON.
-/

namespace LinearDialogue.Json

/-! ## Places outside of texts -/

/-- The characters after a text of which the opening quote has been passed. -/
def afterText : List Char → List Char
  | [] => []
  | '"' :: rest => rest
  | '\\' :: _ :: rest => afterText rest
  | _ :: rest => afterText rest

/-- One step to the right: over a text, over a number, or over any other character. -/
inductive Step : List Char → List Char → Prop
  | text (rest : List Char) : Step ('"' :: rest) (afterText rest)
  | number {cs rest : List Char} {v : Value} (h : number cs = .ok (v, rest)) : Step cs rest
  | other {c : Char} {rest : List Char} (hc : c ≠ '"')
      (h : number (c :: rest) = .error .valueExpected) : Step (c :: rest) rest

/-- So many steps over the characters lead to where only these others are left. -/
def Passes : List Char → List Char → Prop := Relation.ReflTransGen Step

/-- The characters start with an integer of so many digits, more than can be read.  What follows it
goes on with neither digits nor a fraction nor an exponent. -/
def StartsLong (cs : List Char) (count : ℕ) : Prop :=
  maxDigits < count ∧ ∃ digits rest, (cs = digits ++ rest ∨ cs = '-' :: (digits ++ rest)) ∧
    digits.length = count ∧ (∀ c ∈ digits, isDigit c) ∧ (∀ c ∈ rest.head?, ¬ isDigit c) ∧
    (fractionPart rest).1 = [] ∧ (exponentPart rest).1 = none

/-- Outside of the texts stands an integer of so many digits, more than can be read. -/
def HasLongInteger (cs : List Char) (count : ℕ) : Prop :=
  ∃ rest, Passes cs rest ∧ StartsLong rest count

variable {α β : Type} {v : Value} {c : Char} {cs rest : List Char} {count n : ℕ}

theorem HasLongInteger.of_passes (h : HasLongInteger rest count) (hrest : Passes cs rest) :
    HasLongInteger cs count := by
  obtain ⟨place, hplace, hlong⟩ := h
  exact ⟨place, hrest.trans hplace, hlong⟩

theorem Passes.text (rest : List Char) : Passes ('"' :: rest) (afterText rest) :=
  .single (.text rest)

theorem number_of_not_isDigit (hminus : c ≠ '-') (hdigit : isDigit c = false) :
    number (c :: rest) = .error .valueExpected := by
  have hzero : c ≠ '0' := by
    rintro rfl
    cases hdigit
  rw [number.eq_2 _ (by simp [hminus]), magnitude, wholePart?.eq_2 _ (by simp [hzero])]
  simp [hdigit]

/-- A character that starts neither a text nor a number. -/
theorem Passes.cons (hquote : c ≠ '"') (hminus : c ≠ '-') (hdigit : isDigit c = false) :
    Passes (c :: rest) rest :=
  .single (.other hquote (number_of_not_isDigit hminus hdigit))

theorem Passes.append {word : List Char}
    (h : ∀ c ∈ word, c ≠ '"' ∧ c ≠ '-' ∧ isDigit c = false) : Passes (word ++ rest) rest := by
  induction word with
  | nil => exact .refl
  | cons c word ih =>
      obtain ⟨⟨hquote, hminus, hdigit⟩, hword⟩ := List.forall_mem_cons.mp h
      exact (Passes.cons hquote hminus hdigit).trans (ih hword)

theorem passes_skipSpaces (cs : List Char) : Passes cs (skipSpaces cs) := by
  have hspaces : ∀ c ∈ cs.takeWhile isSpace, c ≠ '"' ∧ c ≠ '-' ∧ isDigit c = false := by
    intro c hc
    have hspace := List.mem_takeWhile_imp hc
    simp only [isSpace, Bool.or_eq_true, beq_iff_eq] at hspace
    rcases hspace with ((rfl | rfl) | rfl) | rfl <;> decide
  have hpasses : Passes (cs.takeWhile isSpace ++ skipSpaces cs) (skipSpaces cs) :=
    Passes.append hspaces
  rwa [skipSpaces, List.takeWhile_append_dropWhile] at hpasses

/-! ## What a step of the reader answers -/

/-- Either some characters are left, or the step has stopped; of too many digits it tells only
where there are. -/
inductive Answers (Left : List Char → Prop) (Long : ℕ → Prop) :
    Except Stop (α × List Char) → Prop
  | ok {a : α} {rest : List Char} (hrest : Left rest) : Answers Left Long (.ok (a, rest))
  | error {stop : Stop} (hstop : ∀ count, stop.cause = .tooManyDigits count → Long count) :
      Answers Left Long (.error stop)

namespace Answers

variable {Left Left' : List Char → Prop} {Long Long' : ℕ → Prop}
  {result : Except Stop (α × List Char)} {f : α × List Char → Except Stop (β × List Char)}

/-- Stopping for a cause of syntax. -/
theorem syntactic {cause : Cause} {left : ℕ} (h : ∀ count, cause ≠ .tooManyDigits count) :
    Answers Left Long (.error ⟨cause, left⟩ : Except Stop (α × List Char)) :=
  .error fun count hcount ↦ absurd hcount (h count)

theorem bind (h : Answers Left Long result) (hlong : ∀ count, Long count → Long' count)
    (hf : ∀ a rest, Left rest → Answers Left' Long' (f (a, rest))) :
    Answers Left' Long' (result >>= f) := by
  cases h with
  | ok hrest => exact hf _ _ hrest
  | error hstop => exact .error fun count hcount ↦ hlong count (hstop count hcount)

theorem mono (h : Answers Left Long result) (hleft : ∀ rest, Left rest → Left' rest)
    (hlong : ∀ count, Long count → Long' count) : Answers Left' Long' result := by
  cases h with
  | ok hrest => exact .ok (hleft _ hrest)
  | error hstop => exact .error fun count hcount ↦ hlong count (hstop count hcount)

end Answers

/-! ## Texts -/

theorem afterText_cons (hquote : c ≠ '"') (hbackslash : c ≠ '\\') :
    afterText (c :: rest) = afterText rest :=
  afterText.eq_4 c rest hquote fun _ _ heq ↦ absurd heq hbackslash

theorem afterText_escaped (c : Char) (rest : List Char) :
    afterText ('\\' :: c :: rest) = afterText rest := rfl

theorem afterText_of_hexValue? (h : hexValue? c = some n) :
    afterText (c :: rest) = afterText rest := by
  apply afterText_cons
  all_goals
    rintro rfl
    cases h

theorem afterText_of_unit? (h : unit? cs = some (n, rest)) : afterText cs = afterText rest := by
  unfold unit? at h
  split at h
  · simp only [Option.bind_eq_bind, Option.bind_eq_some_iff] at h
    obtain ⟨a, ha, b, hb, c, hc, d, hd, h⟩ := h
    cases h
    rw [afterText_of_hexValue? ha, afterText_of_hexValue? hb, afterText_of_hexValue? hc,
      afterText_of_hexValue? hd]
  · cases h

/-- Of the characters after a backslash, an escape is read up to where the text goes on. -/
theorem answers_unitEscape (cs : List Char) :
    Answers (afterText cs = afterText ·) (fun _ ↦ False) (unitEscape cs) := by
  rw [unitEscape]
  split
  · exact .syntactic nofun
  · rename_i high rest hunit
    have hrest := afterText_of_unit? hunit
    split
    · split
      · rename_i more
        split
        · exact .ok hrest
        · split
          · exact .syntactic nofun
          · rename_i low after hlow
            split
            · exact .ok ((hrest.trans (afterText_escaped 'u' more)).trans (afterText_of_unit? hlow))
            · exact .ok hrest
      · exact .ok hrest
    · exact .ok hrest

theorem answers_escape (opening : ℕ) (cs : List Char) :
    Answers (afterText ('\\' :: cs) = afterText ·) (fun _ ↦ False) (escape opening cs) := by
  unfold escape
  split
  · exact .syntactic nofun
  · rename_i rest
    rw [afterText_escaped]
    exact answers_unitEscape rest
  · rename_i c rest _
    split
    · exact .ok (afterText_escaped c rest)
    · exact .syntactic nofun

theorem answers_textBody (opening fuel : ℕ) (cs : List Char) :
    Answers (afterText cs = ·) (fun _ ↦ False) (textBody opening fuel cs) := by
  induction fuel generalizing cs with
  | zero => exact .syntactic nofun
  | succ fuel ih =>
      cases cs with
      | nil => exact .syntactic nofun
      | cons c rest =>
          rw [textBody]
          split
          · next hquote =>
            subst hquote
            exact .ok rfl
          · next hquote =>
            split
            · next hbackslash =>
              subst hbackslash
              refine (answers_escape opening rest).bind (fun _ ↦ id) fun e left hleft ↦ ?_
              exact (ih left).bind (fun _ ↦ id) fun body after hafter ↦ .ok (hleft.trans hafter)
            · next hbackslash =>
              split
              · exact .syntactic nofun
              · rw [afterText_cons hquote hbackslash]
                exact (ih rest).bind (fun _ ↦ id) fun body after hafter ↦ .ok hafter

theorem answers_readText (cs : List Char) :
    Answers (afterText cs = ·) (fun _ ↦ False) (readText cs) :=
  (answers_textBody _ _ cs).bind (fun _ ↦ id) fun _ _ hrest ↦ .ok hrest

/-! ## Numbers and words -/

/-- A whole part of more than one digit is all the digits that the characters start with. -/
theorem of_wholePart? {digits : List Char} (h : wholePart? cs = some (digits, rest))
    (hlong : 1 < digits.length) :
    cs = digits ++ rest ∧ (∀ c ∈ digits, isDigit c) ∧ ∀ c ∈ rest.head?, ¬ isDigit c := by
  unfold wholePart? at h
  split at h
  · cases h
    cases Nat.lt_irrefl 1 hlong
  · dsimp only at h
    split at h
    · cases h
    · cases h
      refine ⟨List.takeWhile_append_dropWhile.symm, fun c ↦ List.mem_takeWhile_imp, ?_⟩
      intro c hc
      have hnot := List.head?_dropWhile_not isDigit cs
      rw [hc] at hnot
      simpa using hnot

theorem fractionPart_of_nil (h : (fractionPart cs).1 = []) : (fractionPart cs).2 = cs := by
  revert h
  unfold fractionPart
  split
  · dsimp only
    split
    · exact fun _ ↦ rfl
    · next hdigits => exact fun h ↦ absurd (List.isEmpty_iff.mpr h) hdigits
  · exact fun _ ↦ rfl

theorem of_magnitude_eq_error {negative : Bool}
    (h : magnitude negative cs = .error (.tooManyDigits count)) :
    maxDigits < count ∧ ∃ digits rest, cs = digits ++ rest ∧ digits.length = count ∧
      (∀ c ∈ digits, isDigit c) ∧ (∀ c ∈ rest.head?, ¬ isDigit c) ∧
      (fractionPart rest).1 = [] ∧ (exponentPart rest).1 = none := by
  rw [magnitude] at h
  split at h
  · cases h
  · rename_i whole rest hwhole
    dsimp only at h
    split at h
    · next hplain =>
      split at h
      · next hlong =>
        cases h
        obtain ⟨hcs, hdigits, hend⟩ :=
          of_wholePart? hwhole (Nat.lt_trans (by decide : 1 < maxDigits) hlong)
        simp only [Bool.and_eq_true, List.isEmpty_iff, Option.isNone_iff_eq_none] at hplain
        obtain ⟨hfraction, hexponent⟩ := hplain
        rw [fractionPart_of_nil hfraction] at hexponent
        exact ⟨hlong, whole, rest, hcs, rfl, hdigits, hend, hfraction, hexponent⟩
      · cases h
    · cases h

theorem startsLong_of_number (h : number cs = .error (.tooManyDigits count)) :
    StartsLong cs count := by
  unfold number at h
  split at h
  · obtain ⟨hcount, digits, rest, rfl, hlong⟩ := of_magnitude_eq_error h
    exact ⟨hcount, digits, rest, Or.inr rfl, hlong⟩
  · obtain ⟨hcount, digits, rest, hcs, hlong⟩ := of_magnitude_eq_error h
    exact ⟨hcount, digits, rest, Or.inl hcs, hlong⟩

theorem eq_append_of_afterWord? {word : List Char} (h : afterWord? word cs = some rest) :
    cs = word ++ rest := by
  induction word generalizing cs with
  | nil =>
      cases h
      rfl
  | cons w word ih =>
      cases cs with
      | nil => cases h
      | cons c cs =>
          rw [afterWord?] at h
          split at h
          · next heq => rw [heq, ih h, List.cons_append]
          · cases h

theorem passes_of_word? (h : word? cs = some (v, rest)) : Passes cs rest := by
  obtain ⟨word, hword, hfound⟩ := List.exists_of_findSome?_eq_some h
  obtain ⟨left, hleft, hpair⟩ := Option.map_eq_some_iff.mp hfound
  cases hpair
  rw [eq_append_of_afterWord? hleft]
  have hletters : ∀ word ∈ words, word.1 = "-Infinity".toList ∨
      ∀ c ∈ word.1, c ≠ '"' ∧ c ≠ '-' ∧ isDigit c = false := by simp [words, isDigit]
  rcases hletters word hword with hnegative | hletters
  · -- the sign starts no number, as no digit comes after it
    rw [hnegative]
    have hminus : Passes ("-Infinity".toList ++ rest) ("Infinity".toList ++ rest) :=
      .single (.other (by decide) rfl)
    exact hminus.trans (Passes.append (by simp [isDigit]))
  · exact Passes.append hletters

/-! ## Values -/

/-- A reader of values passes over some characters, or stops; only at an integer does it tell of
too many digits. -/
def Scans (cs : List Char) (result : Except Stop (α × List Char)) : Prop :=
  Answers (Passes cs) (HasLongInteger cs) result

namespace Scans

variable {result : Except Stop (α × List Char)} {f : α × List Char → Except Stop (β × List Char)}

theorem of_passes (h : Scans rest result) (hrest : Passes cs rest) : Scans cs result :=
  h.mono (fun _ ↦ hrest.trans) fun _ hlong ↦ hlong.of_passes hrest

theorem bind (h : Scans cs result) (hf : ∀ a rest, Scans rest (f (a, rest))) :
    Scans cs (result >>= f) :=
  Answers.bind h (fun _ ↦ id) fun a rest hrest ↦ (hf a rest).of_passes hrest

theorem done {a : α} : Scans cs (.ok (a, cs)) := .ok .refl

end Scans

theorem scans_text (rest : List Char) : Scans ('"' :: rest) (readText rest) :=
  (answers_readText rest).mono (fun _ hleft ↦ hleft ▸ Passes.text rest) fun _ ↦ False.elim

theorem scans_scalar (cs : List Char) : Scans cs (scalar cs) := by
  rw [scalar]
  split
  · next hfound => exact .ok (passes_of_word? hfound)
  · split
    · next hfound => exact .ok (.single (.number hfound))
    · next hcause =>
      refine .error fun count hcount ↦ ⟨cs, .refl, startsLong_of_number ?_⟩
      rw [hcause]
      exact congrArg Except.error hcount

theorem scans_separator {closing : Char} (hclosing : closing = ']' ∨ closing = '\x7d')
    (cs : List Char) : Scans cs (separator closing cs) := by
  refine Scans.of_passes ?_ (passes_skipSpaces cs)
  rw [separator]
  split
  · rename_i c rest hcs
    rw [hcs]
    split
    · next heq =>
      subst heq
      rcases hclosing with rfl | rfl
      · exact .ok (Passes.cons (by decide) (by decide) rfl)
      · exact .ok (Passes.cons (by decide) (by decide) rfl)
    · split
      · next heq =>
        subst heq
        exact .ok ((Passes.cons (by decide) (by decide) rfl).trans (passes_skipSpaces rest))
      · exact .syntactic nofun
  · exact .syntactic nofun

theorem scans_fieldName (cs : List Char) : Scans cs (fieldName cs) := by
  unfold fieldName
  split
  · rename_i rest
    refine (scans_text rest).bind fun name left ↦ Scans.of_passes ?_ (passes_skipSpaces left)
    dsimp only
    split
    · rename_i after hafter
      rw [hafter]
      exact .ok ((Passes.cons (by decide) (by decide) rfl).trans (passes_skipSpaces after))
    · exact .syntactic nofun
  · exact .syntactic nofun

/-- The induction is on the fuel, which every call of one of the three readers lowers. -/
theorem scans_value (fuel : ℕ) :
    (∀ cs, Scans cs (value fuel cs)) ∧ (∀ cs, Scans cs (items fuel cs)) ∧
      ∀ before cs, Scans cs (fields fuel before cs) := by
  induction fuel with
  | zero =>
      exact ⟨fun cs ↦ .syntactic nofun, fun cs ↦ .syntactic nofun, fun _ cs ↦ .syntactic nofun⟩
  | succ fuel ih =>
      obtain ⟨ihvalue, ihitems, ihfields⟩ := ih
      refine ⟨fun cs ↦ ?_, fun cs ↦ ?_, fun before cs ↦ ?_⟩
      · unfold value
        split
        · contradiction
        · exact (scans_text _).bind fun s left ↦ .done
        · rename_i hfuel
          cases hfuel
          refine Scans.of_passes ?_
            ((Passes.cons (by decide) (by decide) rfl).trans (passes_skipSpaces _))
          split
          · next hafter =>
            rw [hafter]
            exact .ok (Passes.cons (by decide) (by decide) rfl)
          · exact (ihitems _).bind fun items left ↦ .done
        · rename_i hfuel
          cases hfuel
          refine Scans.of_passes ?_
            ((Passes.cons (by decide) (by decide) rfl).trans (passes_skipSpaces _))
          split
          · next hafter =>
            rw [hafter]
            exact .ok (Passes.cons (by decide) (by decide) rfl)
          · exact (ihfields [] _).bind fun fields left ↦ .done
        · exact scans_scalar _
      · rw [items]
        refine (ihvalue cs).bind fun item left ↦ ?_
        refine (scans_separator (Or.inl rfl) left).bind fun more after ↦ ?_
        dsimp only
        split
        · exact (ihitems after).bind fun others last ↦ .done
        · exact .done
      · rw [fields]
        refine (scans_fieldName cs).bind fun name left ↦ ?_
        refine (ihvalue left).bind fun item after ↦ ?_
        refine (scans_separator (Or.inr rfl) after).bind fun more last ↦ ?_
        dsimp only
        split
        · exact ihfields _ last
        · exact .done

/-- A text is refused for no fault of syntax only where an integer stands in it, outside of its
texts, that has more digits than can be read. -/
theorem hasLongInteger_of_read_eq_error {text : String} {fault : Fault}
    (h : read text = .error fault) (hfault : fault.isSyntactic = false) :
    ∃ count, fault.cause = .tooManyDigits count ∧ HasLongInteger text.toList count := by
  obtain ⟨count, hcount⟩ : ∃ count, fault.cause = .tooManyDigits count := by
    rw [Fault.isSyntactic] at hfault
    split at hfault
    · next count hcount => exact ⟨count, hcount⟩
    · cases hfault
  refine ⟨count, hcount, ?_⟩
  rw [read] at h
  split at h
  · cases h
  · next stop hstop =>
    cases h
    rw [readChars] at hstop
    split at hstop
    · cases hstop
      cases hcount
    · have hvalue :=
        ((scans_value (2 * text.toList.length + 2)).1 (skipSpaces text.toList)).of_passes
          (passes_skipSpaces text.toList)
      cases hread : value (2 * text.toList.length + 2) (skipSpaces text.toList) with
      | error early =>
          rw [hread] at hvalue hstop
          cases hstop
          cases hvalue with
          | error hfound => exact hfound count hcount
      | ok found =>
          rw [hread] at hstop
          simp only [bind, Except.bind] at hstop
          split at hstop
          · cases hstop
          · cases hstop
            cases hcount

end LinearDialogue.Json
