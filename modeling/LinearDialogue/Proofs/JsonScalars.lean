import LinearDialogue.Json.Printer
import LinearDialogue.Json.Reader
import Mathlib.Data.List.Basic

/-!
# Integers and texts in JSON

What the printer writes for an integer or for a text the reader takes for that integer or text
again, whatever comes after it.  After an integer nothing may come that would go on with the number.
-/

namespace LinearDialogue.Json

/-! ## Integers -/

/-- The characters do not go on with a number. -/
def EndsNumber (cs : List Char) : Prop :=
  ∀ c ∈ cs.head?, isDigit c = false ∧ c ≠ '.' ∧ c ≠ 'e' ∧ c ≠ 'E'

theorem isDigit_of_mem_toDigits {n : ℕ} {c : Char} (hc : c ∈ Nat.toDigits 10 n) :
    isDigit c = true := by
  have hdigit := Nat.isDigit_of_mem_toDigits (by decide) (by decide) hc
  simpa [isDigit, Char.isDigit, Char.le_def] using hdigit

/-- Only the number zero is written with a zero in front. -/
theorem head?_toDigits_ne_zero {n : ℕ} (hn : 0 < n) : (Nat.toDigits 10 n).head? ≠ some '0' := by
  induction n using Nat.strongRecOn with
  | ind n ih =>
      by_cases hsmall : n < 10
      · rw [Nat.toDigits_of_lt_base hsmall]
        simp
        omega
      · rw [Nat.toDigits_of_base_le (by decide) (by omega),
          List.head?_append_of_ne_nil _ Nat.toDigits_ne_nil]
        exact ih (n / 10) (by omega) (by omega)

theorem takeWhile_eq_nil_of_endsNumber {cs : List Char} (h : EndsNumber cs) :
    cs.takeWhile isDigit = [] := by
  cases cs with
  | nil => rfl
  | cons c cs => simp [(h c rfl).1]

theorem dropWhile_eq_self_of_endsNumber {cs : List Char} (h : EndsNumber cs) :
    cs.dropWhile isDigit = cs := by
  cases cs with
  | nil => rfl
  | cons c cs => simp [(h c rfl).1]

theorem wholePart?_digits {digits cs : List Char} (hdigits : ∀ c ∈ digits, isDigit c = true)
    (hne : digits ≠ []) (hzero : digits.head? ≠ some '0') (h : EndsNumber cs) :
    wholePart? (digits ++ cs) = some (digits, cs) := by
  have hhead : ∀ rest, digits ++ cs ≠ '0' :: rest := by
    intro rest heq
    have hstart : (digits ++ cs).head? = some '0' := by simp [heq]
    rw [List.head?_append_of_ne_nil _ hne] at hstart
    exact hzero hstart
  rw [wholePart?.eq_2 _ hhead, List.takeWhile_append_of_pos hdigits,
    List.dropWhile_append_of_pos hdigits, takeWhile_eq_nil_of_endsNumber h,
    dropWhile_eq_self_of_endsNumber h, List.append_nil]
  simp [hne]

theorem wholePart?_toDigits (n : ℕ) {cs : List Char} (h : EndsNumber cs) :
    wholePart? (Nat.toDigits 10 n ++ cs) = some (Nat.toDigits 10 n, cs) := by
  rcases Nat.eq_zero_or_pos n with rfl | hn
  · rfl
  exact wholePart?_digits (fun c ↦ isDigit_of_mem_toDigits) Nat.toDigits_ne_nil
    (head?_toDigits_ne_zero hn) h

theorem fractionPart_of_endsNumber {cs : List Char} (h : EndsNumber cs) :
    fractionPart cs = ([], cs) := by
  rw [fractionPart.eq_2]
  rintro rest rfl
  exact (h '.' rfl).2.1 rfl

theorem exponentPart_of_endsNumber {cs : List Char} (h : EndsNumber cs) :
    exponentPart cs = (none, cs) := by
  cases cs with
  | nil => rfl
  | cons c cs => simp [exponentPart, (h c rfl).2.2]

theorem digitsValue_toDigits (n : ℕ) : digitsValue (Nat.toDigits 10 n) = n := by
  have hvalue : Nat.ofDigitChars 10 (Nat.toDigits 10 n) 0 = n := Nat.ofDigitChars_ten_toDigits
  rw [Nat.ofDigitChars_eq_foldl] at hvalue
  simpa only [digitsValue, Nat.mul_comm] using hvalue

/-- An integer whose digits are not too many to be read. -/
def IsShort (n : Int) : Prop := (Nat.toDigits 10 n.natAbs).length ≤ maxDigits

theorem magnitude_toDigits (negative : Bool) {n : ℕ} {cs : List Char}
    (hn : (Nat.toDigits 10 n).length ≤ maxDigits) (h : EndsNumber cs) :
    magnitude negative (Nat.toDigits 10 n ++ cs) =
      .ok (.int (if negative then -(n : Int) else n), cs) := by
  simp [magnitude, wholePart?_toDigits n h, fractionPart_of_endsNumber h,
    exponentPart_of_endsNumber h, Nat.not_lt.mpr hn, digitsValue_toDigits]

theorem number_intChars {n : Int} {cs : List Char} (hn : IsShort n) (h : EndsNumber cs) :
    number (intChars n ++ cs) = .ok (.int n, cs) := by
  by_cases hneg : n < 0
  · have hvalue : -(n.natAbs : Int) = n := by omega
    rw [intChars, if_pos hneg, List.cons_append, number, magnitude_toDigits true hn h, if_pos rfl,
      hvalue]
  · have hvalue : (n.natAbs : Int) = n := by omega
    have hsign : ∀ rest, Nat.toDigits 10 n.natAbs ++ cs ≠ '-' :: rest := by
      intro rest heq
      have hminus : (Nat.toDigits 10 n.natAbs ++ cs).head? = some '-' := by simp [heq]
      rw [List.head?_append_of_ne_nil _ Nat.toDigits_ne_nil] at hminus
      have hdigit := isDigit_of_mem_toDigits (List.mem_of_mem_head? hminus)
      simp [isDigit] at hdigit
    rw [intChars, if_neg hneg, number.eq_2 _ hsign, magnitude_toDigits false hn h,
      if_neg Bool.false_ne_true, hvalue]

theorem word?_of_isDigit {c : Char} (hc : isDigit c = true) (cs : List Char) :
    word? (c :: cs) = none ∧ word? ('-' :: c :: cs) = none := by
  have hletters : ∀ d ∈ ['n', 't', 'f', 'N', 'I', '-'], isDigit d = false := by simp [isDigit]
  have hother : ∀ d ∈ ['n', 't', 'f', 'N', 'I', '-'], d ≠ c := by
    rintro d hd rfl
    simp [hletters d hd] at hc
  simp only [List.forall_mem_cons] at hother
  obtain ⟨hn, ht, hf, hN, hI, hminus, -⟩ := hother
  simp [word?, words, afterWord?, hn, ht, hf, hN, hI, hminus]

/-- The digits that an integer is written with, after a sign or without one. -/
theorem exists_intChars (n : Int) :
    ∃ c digits, isDigit c = true ∧
      (intChars n = c :: digits ∨ intChars n = '-' :: c :: digits) := by
  obtain ⟨c, digits, hdigits⟩ :=
    List.exists_cons_of_ne_nil (@Nat.toDigits_ne_nil n.natAbs 10)
  have hc : isDigit c = true := isDigit_of_mem_toDigits (n := n.natAbs) (by simp [hdigits])
  refine ⟨c, digits, hc, ?_⟩
  rw [intChars, hdigits]
  split
  · exact Or.inr rfl
  · exact Or.inl rfl

theorem scalar_intChars {n : Int} {cs : List Char} (hn : IsShort n) (h : EndsNumber cs) :
    scalar (intChars n ++ cs) = .ok (.int n, cs) := by
  have hword : word? (intChars n ++ cs) = none := by
    obtain ⟨c, digits, hc, heq | heq⟩ := exists_intChars n
    · rw [heq]
      exact (word?_of_isDigit hc _).1
    · rw [heq]
      exact (word?_of_isDigit hc _).2
  rw [scalar, hword, number_intChars hn h]

/-! ## Texts -/

theorem hexValue?_digitChar {n : ℕ} (hn : n < 16) : hexValue? (Nat.digitChar n) = some n := by
  have hall : ∀ n < 16, hexValue? (Nat.digitChar n) = some n := by decide
  exact hall n hn

theorem unit?_hexDigits {n : ℕ} (hn : n < 0x10000) {cs : List Char} (hcs : cs ≠ []) :
    unit? (Text.hexDigits 4 n ++ cs) = some (n, cs) := by
  obtain ⟨e, rest, rfl⟩ := List.exists_cons_of_ne_nil hcs
  have hdigit : ∀ m : ℕ, hexValue? (Nat.digitChar (m % 16)) = some (m % 16) := fun m ↦
    hexValue?_digitChar (Nat.mod_lt m (by decide))
  simp only [Text.hexDigits, List.nil_append, List.cons_append, unit?, hdigit]
  simp
  omega

theorem loneUnit_toNat (c : Char) : loneUnit c.toNat = c ∧ isHighUnit c.toNat = false := by
  have hvalid : c.toNat < 0xd800 ∨ 0xdfff < c.toNat ∧ c.toNat < 0x110000 := c.valid
  have hhigh : isHighUnit c.toNat = false := by simp [isHighUnit]; omega
  have hlow : isLowUnit c.toNat = false := by simp [isLowUnit]; omega
  exact ⟨by simp [loneUnit, hhigh, hlow], hhigh⟩

theorem unitEscape_hexDigits {c : Char} (hc : c.toNat < 0x10000) {cs : List Char} (hcs : cs ≠ []) :
    unitEscape (Text.hexDigits 4 c.toNat ++ cs) = .ok (c, cs) := by
  simp [unitEscape, unit?_hexDigits hc hcs, loneUnit_toNat c]

/-- A character beyond the first plane is written as a pair of code units. -/
theorem unitEscape_pair {c : Char} (hc : 0x10000 ≤ c.toNat) {cs : List Char} (hcs : cs ≠ []) :
    unitEscape (Text.hexDigits 4 (0xd800 + (c.toNat - 0x10000) / 0x400) ++
      (unitText (0xdc00 + (c.toNat - 0x10000) % 0x400) ++ cs)) = .ok (c, cs) := by
  have hbound : c.toNat < 0x110000 := by
    have hvalid : c.toNat < 0xd800 ∨ 0xdfff < c.toNat ∧ c.toNat < 0x110000 := c.valid
    omega
  -- the two units hold ten bits each of what exceeds the first plane
  generalize hn : c.toNat - 0x10000 = n at *
  have hhigh : isHighUnit (0xd800 + n / 0x400) = true := by simp [isHighUnit]; omega
  have hlow : isLowUnit (0xdc00 + n % 0x400) = true := by simp [isLowUnit]; omega
  have hjoin : joinUnits (0xd800 + n / 0x400) (0xdc00 + n % 0x400) = c := by
    have hsum : 0x10000 + (0xd800 + n / 0x400 - 0xd800) * 0x400 + (0xdc00 + n % 0x400 - 0xdc00) =
        c.toNat := by omega
    rw [joinUnits, hsum, Char.ofNat_toNat]
  have hlength : ¬ (Text.hexDigits 4 (0xdc00 + n % 0x400) ++ cs).length < 5 := by
    have hpos := List.length_pos_iff.mpr hcs
    simp [Text.hexDigits]
    omega
  rw [unitEscape, unit?_hexDigits (by omega) (by simp [unitText])]
  simp only [hhigh, if_true, unitText, List.cons_append, hlength, if_false,
    unit?_hexDigits (show 0xdc00 + n % 0x400 < 0x10000 by omega) hcs, hlow, hjoin]

theorem escape_unit (opening : ℕ) (cs : List Char) : escape opening ('u' :: cs) = unitEscape cs :=
  rfl

/-- One character is read from what is written for it. -/
theorem textBody_charText (opening fuel : ℕ) (c : Char) {cs : List Char} (hcs : cs ≠ []) :
    textBody opening (fuel + 1) (charText c ++ cs) =
      (textBody opening fuel cs).map fun body ↦ (c :: body.1, body.2) := by
  have hescape : ∀ {tail : List Char}, escape opening tail = .ok (c, cs) →
      textBody opening (fuel + 1) ('\\' :: tail) =
        (textBody opening fuel cs).map fun body ↦ (c :: body.1, body.2) := by
    intro tail htail
    rw [textBody, if_neg (by decide), if_pos rfl, htail]
    rfl
  rw [charText]
  split_ifs with hquote hbackslash hnewline hreturn htab hfeed hback hplain hplane
  · subst hquote
    exact hescape rfl
  · subst hbackslash
    exact hescape rfl
  · subst hnewline
    exact hescape rfl
  · subst hreturn
    exact hescape rfl
  · subst htab
    exact hescape rfl
  · subst hfeed
    exact hescape rfl
  · subst hback
    exact hescape rfl
  · have hcontrol : ¬ c < ' ' := Char.not_lt.mpr hplain.1
    rw [List.cons_append, List.nil_append, textBody, if_neg hquote, if_neg hbackslash,
      if_neg hcontrol]
    rfl
  · rw [unitText, List.cons_append, List.cons_append]
    apply hescape
    rw [escape_unit, unitEscape_hexDigits hplane hcs]
  · rw [List.append_assoc, unitText, List.cons_append, List.cons_append]
    apply hescape
    rw [escape_unit, unitEscape_pair (Nat.not_lt.mp hplane) hcs]

theorem textBody_flatMap_charText (opening : ℕ) {fuel : ℕ} {text : List Char}
    (hfuel : text.length < fuel) (cs : List Char) :
    textBody opening fuel (text.flatMap charText ++ '"' :: cs) = .ok (text, cs) := by
  induction text generalizing fuel with
  | nil =>
      obtain ⟨fuel, rfl⟩ := Nat.exists_eq_succ_of_ne_zero (Nat.pos_iff_ne_zero.mp hfuel)
      rfl
  | cons c text ih =>
      cases fuel with
      | zero => simp at hfuel
      | succ fuel =>
          rw [List.flatMap_cons, List.append_assoc, textBody_charText opening fuel c (by simp),
            ih (Nat.lt_of_succ_lt_succ hfuel)]
          rfl

theorem charText_ne_nil (c : Char) : charText c ≠ [] := by
  rw [charText]
  split_ifs <;> simp [unitText]

theorem length_le_length_flatMap_charText (text : List Char) :
    text.length ≤ (text.flatMap charText).length := by
  induction text with
  | nil => exact Nat.le_refl 0
  | cons c text ih =>
      have hpos := List.length_pos_iff.mpr (charText_ne_nil c)
      rw [List.flatMap_cons, List.length_append, List.length_cons]
      omega

/-- A text is read from what is written for it, the opening quote apart. -/
theorem readText_flatMap_charText (s : String) (cs : List Char) :
    readText (s.toList.flatMap charText ++ '"' :: cs) = .ok (s, cs) := by
  have hlength := length_le_length_flatMap_charText s.toList
  rw [readText, textBody_flatMap_charText]
  · simp [bind, Except.bind]
  · simp only [List.length_append]
    omega

end LinearDialogue.Json
