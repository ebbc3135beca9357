import LinearDialogue.Proofs.JsonScalars

/-!
# From values to JSON and back

The reader takes what the printer writes for a value for that value, in either layout, provided that
the value holds no fractional numbers, no integers too long to be read, and no name twice in one
object.  The fuel that the reader starts with suffices, since each step of it uses up characters.
-/

namespace LinearDialogue

/-- A value that JSON text holds exactly. -/
inductive Value.IsExact : Value → Prop
  | null : IsExact .null
  | bool (b : Bool) : IsExact (.bool b)
  | int {n : Int} (hn : Json.IsShort n) : IsExact (.int n)
  | text (s : String) : IsExact (.text s)
  | list {items : List Value} (hitems : ∀ item ∈ items, IsExact item) : IsExact (.list items)
  | object {fields : List (String × Value)} (hnames : (fields.map Prod.fst).Nodup)
      (hfields : ∀ field ∈ fields, IsExact field.2) : IsExact (.object fields)

namespace Json

variable {layout : Option ℕ} {v item : Value} {rest : List Value} {cs : List Char} {fuel : ℕ}
  {others before : List (String × Value)}

/-- A character that a value or the name of a field can start with. -/
structure IsOpening (c : Char) : Prop where
  notSpace : isSpace c = false
  notBracket : c ≠ ']'
  notBrace : c ≠ '\x7d'
  notMark : c ≠ '\ufeff'

theorem isOpening_quote : IsOpening '"' := ⟨rfl, by decide, by decide, by decide⟩

/-- The reader takes the text of a value for that value. -/
structure Reads (layout : Option ℕ) (v : Value) : Prop where
  opens : ∃ c cs, valueChars layout v = c :: cs ∧ IsOpening c
  value : ∀ {fuel : ℕ} {cs : List Char}, 2 * (valueChars layout v).length ≤ fuel → EndsNumber cs →
    value fuel (valueChars layout v ++ cs) = .ok (v, cs)

/-- A text that is not empty leaves fuel for a first step. -/
theorem Reads.of_step {c : Char} {tail : List Char} (hchars : valueChars layout v = c :: tail)
    (hc : IsOpening c)
    (hv : ∀ fuel cs, 2 * tail.length < fuel → EndsNumber cs →
      Json.value (fuel + 1) (c :: (tail ++ cs)) = .ok (v, cs)) : Reads layout v := by
  refine ⟨⟨c, tail, hchars, hc⟩, ?_⟩
  intro fuel cs hfuel hcs
  rw [hchars, List.length_cons] at hfuel
  obtain ⟨fuel, rfl⟩ := Nat.exists_eq_add_of_le' (show 1 ≤ fuel by omega)
  rw [hchars, List.cons_append]
  exact hv fuel cs (by omega) hcs

/-! ## Blanks and separators -/

theorem isSpace_of_mem_lineBreak {first : Bool} {c : Char} (hc : c ∈ lineBreak layout first) :
    isSpace c = true := by
  cases layout with
  | none => cases first <;> simp_all [lineBreak, isSpace]
  | some depth =>
      rcases List.mem_cons.mp hc with rfl | hc
      · rfl
      · rw [List.eq_of_mem_replicate hc]
        rfl

theorem skipSpaces_cons {c : Char} (hc : isSpace c = false) (cs : List Char) :
    skipSpaces (c :: cs) = c :: cs := by
  simp [skipSpaces, hc]

theorem skipSpaces_lineBreak_append (layout : Option ℕ) (first : Bool) (cs : List Char) :
    skipSpaces (lineBreak layout first ++ cs) = skipSpaces cs :=
  List.dropWhile_append_of_pos fun _ ↦ isSpace_of_mem_lineBreak

theorem Reads.skipSpaces_append (hv : Reads layout v) (cs : List Char) :
    skipSpaces (valueChars layout v ++ cs) = valueChars layout v ++ cs := by
  obtain ⟨c, tail, hchars, hc⟩ := hv.opens
  rw [hchars, List.cons_append, skipSpaces_cons hc.notSpace]

/-- The text of a field without what goes before it. -/
def fieldChars (layout : Option ℕ) (field : String × Value) : List Char :=
  textChars field.1 ++ ':' :: ' ' :: valueChars layout field.2

theorem skipSpaces_fieldChars (layout : Option ℕ) (field : String × Value) (cs : List Char) :
    skipSpaces (fieldChars layout field ++ cs) = fieldChars layout field ++ cs :=
  skipSpaces_cons isOpening_quote.notSpace _

/-- The break before a closing bracket. -/
def closingBreak (layout : Option ℕ) : List Char :=
  if layout.isSome then lineBreak layout true else []

theorem separator_closing {closing : Char} (hclosing : isSpace closing = false) :
    separator closing (closingBreak layout ++ closing :: cs) = .ok (false, cs) := by
  have hskip : skipSpaces (closingBreak layout ++ closing :: cs) = closing :: cs := by
    rw [closingBreak]
    split
    · rw [skipSpaces_lineBreak_append, skipSpaces_cons hclosing]
    · exact skipSpaces_cons hclosing cs
  simp [separator, hskip]

theorem separator_comma {closing : Char} (hclosing : closing ≠ ',') :
    separator closing (',' :: (lineBreak layout false ++ cs)) = .ok (true, skipSpaces cs) := by
  simp [separator, skipSpaces_cons (show isSpace ',' = false from rfl), hclosing.symm,
    skipSpaces_lineBreak_append]

/-- What follows an item or a field does not go on with a number. -/
theorem endsNumber_closingBreak {closing : Char} (hclosing : EndsNumber (closing :: cs)) :
    EndsNumber (closingBreak layout ++ closing :: cs) := by
  cases layout with
  | none => exact hclosing
  | some depth =>
      rintro c ⟨⟩
      decide

theorem endsNumber_comma (cs : List Char) : EndsNumber (',' :: cs) := by
  rintro c ⟨⟩
  decide

/-! ## Lists -/

theorem itemsChars_nil_append (layout : Option ℕ) (cs : List Char) :
    itemsChars layout [] ++ cs = closingBreak layout ++ ']' :: cs := by
  simp [itemsChars, closingBreak]

theorem itemsChars_cons_append (layout : Option ℕ) (item : Value) (rest : List Value)
    (cs : List Char) :
    itemsChars layout (item :: rest) ++ cs = ',' :: (lineBreak (inner layout) false ++
      (valueChars (inner layout) item ++ (itemsChars layout rest ++ cs))) := by
  simp [itemsChars]

theorem endsNumber_itemsChars (layout : Option ℕ) (rest : List Value) (cs : List Char) :
    EndsNumber (itemsChars layout rest ++ cs) := by
  cases rest with
  | nil =>
      rw [itemsChars_nil_append]
      apply endsNumber_closingBreak
      rintro c ⟨⟩
      decide
  | cons item rest =>
      rw [itemsChars_cons_append]
      exact endsNumber_comma _

/-- The items of a list are read one after another. -/
theorem items_itemsChars (hreads : ∀ v ∈ item :: rest, Reads (inner layout) v)
    (hfuel : 2 * ((valueChars (inner layout) item).length + (itemsChars layout rest).length) <
      fuel) :
    items fuel (valueChars (inner layout) item ++ (itemsChars layout rest ++ cs)) =
      .ok (item :: rest, cs) := by
  induction rest generalizing item fuel with
  | nil =>
      cases fuel with
      | zero => simp at hfuel
      | succ fuel =>
          have hitem := hreads item List.mem_cons_self
          rw [items.eq_2, hitem.value (by omega) (endsNumber_itemsChars layout [] cs),
            itemsChars_nil_append]
          simp [bind, Except.bind, separator_closing (show isSpace ']' = false from rfl)]
  | cons next rest ih =>
      cases fuel with
      | zero => simp at hfuel
      | succ fuel =>
          have hitem := hreads item List.mem_cons_self
          have hnext := hreads next (by simp)
          rw [← List.append_nil (itemsChars layout (next :: rest)), itemsChars_cons_append]
            at hfuel
          simp only [List.length_cons, List.length_append, List.length_nil] at hfuel
          -- the comma makes up for the unit of fuel that this step takes
          have hothers := @ih next fuel (fun v hv ↦ hreads v (List.mem_cons_of_mem item hv))
            (by omega)
          rw [items.eq_2, hitem.value (by omega) (endsNumber_itemsChars layout (next :: rest) cs),
            itemsChars_cons_append]
          simp [bind, Except.bind, separator_comma, hnext.skipSpaces_append, hothers]

theorem value_list_of_items {c : Char} {tail : List Char} (hskip : skipSpaces cs = c :: tail)
    (hc : c ≠ ']') :
    value (fuel + 1) ('[' :: cs) =
      (items fuel (c :: tail)).map fun found ↦ (.list found.1, found.2) := by
  rw [value.eq_3, hskip]
  split
  · rename_i heq
    cases heq
    exact absurd rfl hc
  · cases items fuel (c :: tail) <;> rfl

theorem Reads.list {items : List Value} (hitems : ∀ v ∈ items, Reads (inner layout) v) :
    Reads layout (.list items) := by
  have hbracket : IsOpening '[' := ⟨rfl, by decide, by decide, by decide⟩
  cases items with
  | nil => exact .of_step (by rw [valueChars]) hbracket fun _ _ _ _ ↦ rfl
  | cons item rest =>
      have hchars : valueChars layout (.list (item :: rest)) = '[' ::
          (lineBreak (inner layout) true ++
            (valueChars (inner layout) item ++ itemsChars layout rest)) := by
        simp [valueChars]
      refine .of_step hchars hbracket fun fuel cs hfuel _ ↦ ?_
      have hitem := hitems item List.mem_cons_self
      obtain ⟨c, tail, hopen, hc⟩ := hitem.opens
      have hskip : skipSpaces (lineBreak (inner layout) true ++
          (valueChars (inner layout) item ++ itemsChars layout rest) ++ cs) =
          c :: (tail ++ (itemsChars layout rest ++ cs)) := by
        rw [List.append_assoc, skipSpaces_lineBreak_append, List.append_assoc,
          hitem.skipSpaces_append, hopen, List.cons_append]
      simp only [List.length_append] at hfuel
      rw [value_list_of_items hskip hc.notBracket, ← List.cons_append, ← hopen,
        items_itemsChars hitems (by omega)]
      rfl

/-! ## Objects -/

theorem fieldsChars_nil_append (layout : Option ℕ) (cs : List Char) :
    fieldsChars layout [] ++ cs = closingBreak layout ++ '\x7d' :: cs := by
  simp [fieldsChars, closingBreak]

theorem fieldsChars_cons_append (layout : Option ℕ) (field : String × Value)
    (others : List (String × Value)) (cs : List Char) :
    fieldsChars layout (field :: others) ++ cs = ',' :: (lineBreak (inner layout) false ++
      (fieldChars (inner layout) field ++ (fieldsChars layout others ++ cs))) := by
  simp [fieldsChars, fieldChars]

theorem endsNumber_fieldsChars (layout : Option ℕ) (others : List (String × Value))
    (cs : List Char) : EndsNumber (fieldsChars layout others ++ cs) := by
  cases others with
  | nil =>
      rw [fieldsChars_nil_append]
      apply endsNumber_closingBreak
      rintro c ⟨⟩
      decide
  | cons field others =>
      rw [fieldsChars_cons_append]
      exact endsNumber_comma _

theorem fieldName_fieldChars {field : String × Value} (hfield : Reads layout field.2)
    (cs : List Char) :
    fieldName (fieldChars layout field ++ cs) = .ok (field.1, valueChars layout field.2 ++ cs) := by
  have hvalue : skipSpaces (' ' :: (valueChars layout field.2 ++ cs)) =
      valueChars layout field.2 ++ cs := hfield.skipSpaces_append cs
  have hchars : fieldChars layout field ++ cs = '"' :: (field.1.toList.flatMap charText ++
      '"' :: ':' :: ' ' :: (valueChars layout field.2 ++ cs)) := by
    simp [fieldChars, textChars]
  rw [hchars, fieldName, readText_flatMap_charText]
  simp [bind, Except.bind, skipSpaces_cons (show isSpace ':' = false from rfl), hvalue]

/-- A field under a new name is added behind those before. -/
theorem assign_of_nodup {field : String × Value}
    (hnames : ((before ++ field :: others).map Prod.fst).Nodup) :
    Value.assign field.1 field.2 before = before ++ [field] := by
  induction before with
  | nil => rfl
  | cons first before ih =>
      obtain ⟨hnew, hnames⟩ := List.nodup_cons.mp hnames
      have hne : ¬ first.1 = field.1 := fun heq ↦ hnew (by simp [heq])
      simp [Value.assign, hne, ih hnames]

/-- The fields of an object are read one after another and added to those before. -/
theorem fields_fieldsChars {field : String × Value}
    (hreads : ∀ f ∈ field :: others, Reads (inner layout) f.2)
    (hnames : ((before ++ field :: others).map Prod.fst).Nodup)
    (hfuel : 2 * ((fieldChars (inner layout) field).length + (fieldsChars layout others).length) <
      fuel) :
    fields fuel before (fieldChars (inner layout) field ++ (fieldsChars layout others ++ cs)) =
      .ok (before ++ field :: others, cs) := by
  have hlength : ∀ f : String × Value,
      (valueChars (inner layout) f.2).length ≤ (fieldChars (inner layout) f).length := by
    intro f
    simp only [fieldChars, List.length_append, List.length_cons]
    omega
  induction others generalizing field before fuel with
  | nil =>
      cases fuel with
      | zero => simp at hfuel
      | succ fuel =>
          have hfield := hreads field List.mem_cons_self
          have hassign := assign_of_nodup hnames
          have hbound := hlength field
          rw [fields.eq_2, fieldName_fieldChars hfield]
          simp only [bind, Except.bind]
          rw [hfield.value (by omega) (endsNumber_fieldsChars layout [] cs),
            fieldsChars_nil_append]
          simp [separator_closing (show isSpace '\x7d' = false from rfl), hassign]
  | cons next others ih =>
      cases fuel with
      | zero => simp at hfuel
      | succ fuel =>
          have hfield := hreads field List.mem_cons_self
          have hassign := assign_of_nodup hnames
          have hbound := hlength field
          rw [← List.append_nil (fieldsChars layout (next :: others)), fieldsChars_cons_append]
            at hfuel
          simp only [List.length_cons, List.length_append, List.length_nil] at hfuel
          have hothers := @ih fuel (before ++ [field]) next
            (fun f hf ↦ hreads f (List.mem_cons_of_mem field hf)) (by simpa using hnames) (by omega)
          rw [fields.eq_2, fieldName_fieldChars hfield]
          simp only [bind, Except.bind]
          rw [hfield.value (by omega) (endsNumber_fieldsChars layout (next :: others) cs),
            fieldsChars_cons_append]
          simp [separator_comma, skipSpaces_fieldChars, hassign, hothers]

theorem value_object_of_fields {c : Char} {tail : List Char} (hskip : skipSpaces cs = c :: tail)
    (hc : c ≠ '\x7d') :
    value (fuel + 1) ('\x7b' :: cs) =
      (fields fuel [] (c :: tail)).map fun found ↦ (.object found.1, found.2) := by
  rw [value.eq_4, hskip]
  split
  · rename_i heq
    cases heq
    exact absurd rfl hc
  · cases fields fuel [] (c :: tail) <;> rfl

theorem Reads.object (hnames : (others.map Prod.fst).Nodup)
    (hfields : ∀ field ∈ others, Reads (inner layout) field.2) : Reads layout (.object others) := by
  have hbrace : IsOpening '\x7b' := ⟨rfl, by decide, by decide, by decide⟩
  cases others with
  | nil => exact .of_step (by rw [valueChars]) hbrace fun _ _ _ _ ↦ rfl
  | cons field others =>
      have hchars : valueChars layout (.object (field :: others)) = '\x7b' ::
          (lineBreak (inner layout) true ++
            (fieldChars (inner layout) field ++ fieldsChars layout others)) := by
        simp [valueChars, fieldChars]
      refine .of_step hchars hbrace fun fuel cs hfuel _ ↦ ?_
      obtain ⟨tail, hopen⟩ : ∃ tail, fieldChars (inner layout) field = '"' :: tail := ⟨_, rfl⟩
      have hskip : skipSpaces (lineBreak (inner layout) true ++
          (fieldChars (inner layout) field ++ fieldsChars layout others) ++ cs) =
          '"' :: (tail ++ (fieldsChars layout others ++ cs)) := by
        rw [List.append_assoc, skipSpaces_lineBreak_append, List.append_assoc,
          skipSpaces_fieldChars, hopen, List.cons_append]
      simp only [List.length_append] at hfuel
      rw [value_object_of_fields hskip (by decide), ← List.cons_append, ← hopen,
        fields_fieldsChars hfields hnames (by omega)]
      rfl

/-! ## Values -/

/-- An integer starts like no other kind of value. -/
theorem isOpening_of_number {c : Char} (hc : isDigit c = true ∨ c = '-') :
    IsOpening c ∧ c ≠ '"' ∧ c ≠ '[' ∧ c ≠ '\x7b' := by
  have hothers : ∀ d ∈ [' ', '\t', '\n', '\r', ']', '\x7d', '\ufeff', '"', '[', '\x7b'],
      isDigit d = false ∧ d ≠ '-' := by simp [isDigit]
  have hne : ∀ d ∈ [' ', '\t', '\n', '\r', ']', '\x7d', '\ufeff', '"', '[', '\x7b'], c ≠ d := by
    rintro d hd rfl
    rcases hc with hc | hc
    · simp [(hothers c hd).1] at hc
    · exact (hothers c hd).2 hc
  simp only [List.forall_mem_cons] at hne
  obtain ⟨hspace, htab, hnewline, hreturn, hbracket, hbrace, hmark, hquote, hlist,
    hobject, -⟩ := hne
  exact ⟨⟨by simp [isSpace, hspace, htab, hnewline, hreturn], hbracket, hbrace, hmark⟩, hquote,
    hlist, hobject⟩

theorem Reads.int {n : Int} (hn : IsShort n) : Reads layout (.int n) := by
  obtain ⟨c, digits, hc, hchars⟩ := exists_intChars n
  obtain ⟨d, tail, htail, hd⟩ :
      ∃ d tail, intChars n = d :: tail ∧ (isDigit d = true ∨ d = '-') := by
    rcases hchars with hchars | hchars
    · exact ⟨c, digits, hchars, Or.inl hc⟩
    · exact ⟨'-', c :: digits, hchars, Or.inr rfl⟩
  obtain ⟨hd, hquote, hbracket, hbrace⟩ := isOpening_of_number hd
  refine .of_step (by rw [valueChars, htail]) hd fun fuel cs _ hcs ↦ ?_
  rw [value.eq_5 _ _ (by simp [hquote]) (by simp [hbracket]) (by simp [hbrace]),
    ← List.cons_append, ← htail, scalar_intChars hn hcs]

/-- An integer that stands alone and has too many digits. -/
theorem read_eq_error_of_long {digits : List Char} (hdigits : ∀ c ∈ digits, isDigit c = true)
    (hzero : digits.head? ≠ some '0') (hlong : maxDigits < digits.length) :
    read (String.ofList digits) = .error (Fault.at digits (.tooManyDigits digits.length) 0) := by
  cases digits with
  | nil => cases hlong
  | cons c rest =>
      have hc := hdigits c List.mem_cons_self
      obtain ⟨hopening, hquote, hbracket, hbrace⟩ := isOpening_of_number (.inl hc)
      have hends : EndsNumber [] := nofun
      have hwhole := wholePart?_digits hdigits (List.cons_ne_nil c rest) hzero hends
      rw [List.append_nil] at hwhole
      have hminus : ∀ others, c :: rest ≠ '-' :: others := by
        rintro others heq
        rw [(List.cons.inj heq).1] at hc
        cases hc
      have hnumber : number (c :: rest) = .error (.tooManyDigits (c :: rest).length) := by
        rw [number.eq_2 _ hminus, magnitude, hwhole]
        exact if_pos hlong
      have hvalue (fuel : ℕ) : value (fuel + 1) (c :: rest) =
          .error ⟨.tooManyDigits (c :: rest).length, (c :: rest).length⟩ := by
        rw [value.eq_5 _ _ (by simp [hquote]) (by simp [hbracket]) (by simp [hbrace]), scalar,
          (word?_of_isDigit hc rest).1, hnumber]
      rw [read, String.toList_ofList, readChars, if_neg (by simp [hopening.notMark]),
        skipSpaces_cons hopening.notSpace, hvalue]
      exact congrArg (fun n ↦ Except.error (Fault.at _ _ n)) (Nat.sub_self _)

theorem Reads.text (s : String) : Reads layout (.text s) := by
  have hchars : valueChars layout (.text s) = '"' :: (s.toList.flatMap charText ++ ['"']) := by
    simp [valueChars, textChars]
  refine .of_step hchars isOpening_quote fun fuel cs _ _ ↦ ?_
  rw [List.append_assoc, value.eq_2, List.singleton_append, readText_flatMap_charText]
  rfl

/-- A value that JSON text holds exactly is read from its text in either layout. -/
theorem reads_of_isExact (hv : v.IsExact) (layout : Option ℕ) : Reads layout v := by
  induction hv generalizing layout with
  | null =>
      exact .of_step (by rw [valueChars]; rfl) ⟨rfl, by decide, by decide, by decide⟩
        fun _ _ _ _ ↦ rfl
  | bool b =>
      cases b with
      | false =>
          exact .of_step (by rw [valueChars]; rfl) ⟨rfl, by decide, by decide, by decide⟩
            fun _ _ _ _ ↦ rfl
      | true =>
          exact .of_step (by rw [valueChars]; rfl) ⟨rfl, by decide, by decide, by decide⟩
            fun _ _ _ _ ↦ rfl
  | int hn => exact .int hn
  | text s => exact .text s
  | list _ ih => exact .list fun item hitem ↦ ih item hitem (inner layout)
  | object hnames _ ih => exact .object hnames fun field hfield ↦ ih field hfield (inner layout)

/-- Reading what has been written gives the value back. -/
theorem read_render (hv : v.IsExact) : read (render v) = .ok v := by
  have hreads := reads_of_isExact hv (some 0)
  obtain ⟨c, tail, hchars, hc⟩ := hreads.opens
  have hskip : skipSpaces (valueChars (some 0) v) = valueChars (some 0) v := by
    simpa using hreads.skipSpaces_append []
  have hvalue := @Reads.value _ _ hreads (2 * (valueChars (some 0) v).length + 2) [] (by omega)
    (by simp [EndsNumber])
  rw [List.append_nil] at hvalue
  have hchars' : readChars (valueChars (some 0) v) = .ok v := by
    have hmark : (valueChars (some 0) v).head? ≠ some '\ufeff' := by
      simp [hchars, hc.notMark]
    rw [readChars, if_neg hmark, hskip, hvalue]
    rfl
  simp [read, render, hchars']

/-! ## Line ends -/

theorem return_notMem_hexDigits (length n : ℕ) : '\r' ∉ Text.hexDigits length n := by
  have hdigit : ∀ k < 16, Nat.digitChar k ≠ '\r' := by decide
  induction length generalizing n with
  | zero => simp [Text.hexDigits]
  | succ length ih =>
      rw [Text.hexDigits, List.mem_append, not_or, List.mem_singleton]
      exact ⟨ih _, (hdigit _ (Nat.mod_lt n (by decide))).symm⟩

/-- A carriage return in a text is escaped. -/
theorem return_notMem_charText (c : Char) : '\r' ∉ charText c := by
  have hunit : ∀ n, '\r' ∉ unitText n := by
    intro n
    simp [unitText, return_notMem_hexDigits]
  by_cases hreturn : c = '\r'
  · subst hreturn
    decide
  · unfold charText
    split_ifs <;> simp [hunit, Ne.symm hreturn]

theorem return_notMem_textChars (s : String) : '\r' ∉ textChars s := by
  simp [textChars, return_notMem_charText]

theorem return_notMem_intChars (n : Int) : '\r' ∉ intChars n := by
  have hdigits : '\r' ∉ Nat.toDigits 10 n.natAbs := by
    intro hmem
    have hdigit := isDigit_of_mem_toDigits hmem
    simp [isDigit] at hdigit
  unfold intChars
  split <;> simp [hdigits]

theorem return_notMem_lineBreak (layout : Option ℕ) (first : Bool) :
    '\r' ∉ lineBreak layout first := by
  cases layout with
  | none => cases first <;> simp [lineBreak]
  | some depth => simp [lineBreak, List.mem_replicate]

theorem return_notMem_closingBreak (layout : Option ℕ) : '\r' ∉ closingBreak layout := by
  unfold closingBreak
  split
  · exact return_notMem_lineBreak layout true
  · exact List.not_mem_nil

theorem return_notMem_itemsChars {items : List Value}
    (h : ∀ item ∈ items, '\r' ∉ valueChars (inner layout) item) :
    '\r' ∉ itemsChars layout items := by
  induction items with
  | nil =>
      have hnil := itemsChars_nil_append layout []
      rw [List.append_nil] at hnil
      simp [hnil, return_notMem_closingBreak]
  | cons item items ih =>
      obtain ⟨hitem, hitems⟩ := List.forall_mem_cons.mp h
      have hcons := itemsChars_cons_append layout item items []
      simp only [List.append_nil] at hcons
      simp [hcons, return_notMem_lineBreak, hitem, ih hitems]

theorem return_notMem_fieldsChars {fields : List (String × Value)}
    (h : ∀ field ∈ fields, '\r' ∉ valueChars (inner layout) field.2) :
    '\r' ∉ fieldsChars layout fields := by
  induction fields with
  | nil =>
      have hnil := fieldsChars_nil_append layout []
      rw [List.append_nil] at hnil
      simp [hnil, return_notMem_closingBreak]
  | cons field fields ih =>
      obtain ⟨hfield, hfields⟩ := List.forall_mem_cons.mp h
      have hcons := fieldsChars_cons_append layout field fields []
      simp only [List.append_nil] at hcons
      simp [hcons, fieldChars, return_notMem_lineBreak, return_notMem_textChars, hfield, ih hfields]

/-- The text of a value that JSON text holds exactly has no carriage return. -/
theorem return_notMem_valueChars (hv : v.IsExact) (layout : Option ℕ) :
    '\r' ∉ valueChars layout v := by
  induction hv generalizing layout with
  | null => rw [valueChars]; decide
  | bool b => cases b <;> (rw [valueChars]; decide)
  | int hn =>
      rw [valueChars]
      exact return_notMem_intChars _
  | text s =>
      rw [valueChars]
      exact return_notMem_textChars s
  | @list items _ ih =>
      cases items with
      | nil => rw [valueChars]; decide
      | cons item items =>
          obtain ⟨hitem, hitems⟩ := List.forall_mem_cons.mp ih
          simp [valueChars, return_notMem_lineBreak, hitem (inner layout),
            return_notMem_itemsChars fun other hother ↦ hitems other hother (inner layout)]
  | @object fields _ _ ih =>
      cases fields with
      | nil => rw [valueChars]; decide
      | cons field fields =>
          obtain ⟨hfield, hfields⟩ := List.forall_mem_cons.mp ih
          simp [valueChars, return_notMem_lineBreak, return_notMem_textChars, hfield (inner layout),
            return_notMem_fieldsChars fun other hother ↦ hfields other hother (inner layout)]

end Json

end LinearDialogue
