import LinearDialogue.Input
import LinearDialogue.Proofs.ConnectionPoints
import Mathlib.Data.List.TakeWhile

/-!
# The table of the keys

From the bindings, which list keys under actions, a table is made that lists actions under keys.  It
lists an action under a key once if the key is bound to the action, and not at all if it is not.  So
the actions of a key that goes down or up are found whichever of the two is asked.
-/

namespace LinearDialogue

/-! ## Codes among others -/

namespace Value

variable {a b c code : Value} {codes : List Value}

/-- Keys that name one entry name the same entries. -/
theorem matchesKey_congr (h : a.matchesKey b = true) (c : Value) :
    a.matchesKey c = b.matchesKey c := by
  rw [Bool.eq_iff_iff]
  exact ⟨fun hac ↦ matchesKey_trans (matchesKey_comm a b ▸ h) hac, fun hbc ↦ matchesKey_trans h hbc⟩

theorem isKey_of_matchesKey (h : a.matchesKey b = true) (ha : a.isKey = true) : b.isKey = true := by
  rcases (Bool.or_eq_true _ _).mp h with hagrees | heq
  · rcases agrees_iff.mp hagrees with ⟨-, rfl⟩ | ⟨_, -, rfl⟩ | ⟨_, -, hb⟩
    · rfl
    · rfl
    · cases b <;> first | rfl | cases hb
  · exact of_decide_eq_true heq ▸ ha

theorem isAmong_iff (hcodes : ∀ c ∈ codes, c.isKey = true) :
    code.isAmong codes = true ↔ ∃ c ∈ codes, c.matchesKey code = true := by
  rw [isAmong, List.any_eq_true]
  refine exists_congr fun c ↦ and_congr_right fun hc ↦ ?_
  rw [alike_of_isKey (hcodes c hc)]

theorem isAmong_congr (hcodes : ∀ c ∈ codes, c.isKey = true) (h : a.matchesKey b = true) :
    a.isAmong codes = b.isAmong codes := by
  rw [Bool.eq_iff_iff, isAmong_iff hcodes, isAmong_iff hcodes]
  refine exists_congr fun c ↦ and_congr_right fun _ ↦ ?_
  rw [matchesKey_comm c a, matchesKey_comm c b, matchesKey_congr h]

theorem forall_addTo (hcodes : ∀ c ∈ codes, c.isKey = true) (ha : a.isKey = true) :
    ∀ c ∈ a.addTo codes, c.isKey = true := by
  rw [addTo]
  split
  · exact hcodes
  · simpa [or_imp, forall_and, ha] using hcodes

theorem isAmong_addTo (hcodes : ∀ c ∈ codes, c.isKey = true) (ha : a.isKey = true) :
    code.isAmong (a.addTo codes) = true ↔ code.isAmong codes = true ∨ a.matchesKey code = true := by
  by_cases hold : a.isAmong codes = true
  · rw [addTo, if_pos hold, iff_self_or]
    intro hmatch
    rw [← isAmong_congr hcodes hmatch]
    exact hold
  · rw [isAmong_iff (forall_addTo hcodes ha), isAmong_iff hcodes, addTo, if_neg hold]
    simp [or_and_right, exists_or]

/-- A code is added to codes that are apart, unless it is among them. -/
theorem pairwise_addTo (hcodes : ∀ c ∈ codes, c.isKey = true)
    (h : codes.Pairwise fun k l ↦ k.matchesKey l = false) :
    (a.addTo codes).Pairwise fun k l ↦ k.matchesKey l = false := by
  by_cases hold : a.isAmong codes = true
  · rwa [addTo, if_pos hold]
  · rw [addTo, if_neg hold]
    refine List.pairwise_append.mpr ⟨h, List.pairwise_singleton _ _, fun c hc l hl ↦ ?_⟩
    obtain rfl := List.mem_singleton.mp hl
    by_contra hmatch
    exact hold ((isAmong_iff hcodes).mpr ⟨c, hc, Bool.not_eq_false _ |>.mp hmatch⟩)

theorem isAmong_filter (hcodes : ∀ c ∈ codes, c.isKey = true) :
    code.isAmong (codes.filter fun c ↦ !c.matchesKey a) = true ↔
      code.isAmong codes = true ∧ a.matchesKey code = false := by
  rw [isAmong_iff fun c hc ↦ hcodes c (List.mem_of_mem_filter hc), isAmong_iff hcodes]
  simp only [List.mem_filter, Bool.not_eq_true']
  constructor
  · rintro ⟨c, ⟨hc, hother⟩, hmatch⟩
    refine ⟨⟨c, hc, hmatch⟩, ?_⟩
    rw [matchesKey_comm a code, ← matchesKey_congr hmatch]
    exact hother
  · rintro ⟨⟨c, hc, hmatch⟩, hother⟩
    refine ⟨c, ⟨hc, ?_⟩, hmatch⟩
    rw [matchesKey_congr hmatch, matchesKey_comm]
    exact hother

/-- Of codes that are apart the first that is alike is the only one. -/
theorem isAmong_eraseP (hcodes : ∀ c ∈ codes, c.isKey = true)
    (h : codes.Pairwise fun k l ↦ k.matchesKey l = false) :
    code.isAmong (codes.eraseP fun c ↦ c.alike a) = true ↔
      code.isAmong codes = true ∧ a.matchesKey code = false := by
  have herase : codes.eraseP (fun c ↦ c.alike a) = codes.filter fun c ↦ !c.matchesKey a := by
    induction codes with
    | nil => rfl
    | cons c codes ih =>
        obtain ⟨hc, hrest⟩ := List.forall_mem_cons.mp hcodes
        obtain ⟨hfirst, hapart⟩ := List.pairwise_cons.mp h
        by_cases hmatch : c.matchesKey a = true
        · have hkept : ∀ l ∈ codes, (!l.matchesKey a) = true := by
            intro l hl
            rw [Bool.not_eq_true', matchesKey_comm, ← matchesKey_congr hmatch]
            exact hfirst l hl
          rw [List.eraseP_cons_of_pos (by rw [alike_of_isKey hc]; exact hmatch),
            List.filter_cons_of_neg (by simpa using hmatch), List.filter_eq_self.mpr hkept]
        · rw [List.eraseP_cons_of_neg (by rwa [alike_of_isKey hc]),
            List.filter_cons_of_pos (by simpa using hmatch), ih hrest hapart]
  rw [herase]
  exact isAmong_filter hcodes

end Value

namespace ActionSet

variable {a : Action}

theorem foldl_insert (actions : List Action) (s : ActionSet) :
    (actions.foldl insert s) a = true ↔ a ∈ actions ∨ s a = true := by
  induction actions generalizing s with
  | nil => simp
  | cons b actions ih => simp [ih, insert, or_assoc, or_left_comm]

theorem foldl_erase (actions : List Action) (s : ActionSet) :
    (actions.foldl erase s) a = true ↔ a ∉ actions ∧ s a = true := by
  induction actions generalizing s with
  | nil => simp
  | cons b actions ih => simp [ih, erase, and_assoc, and_left_comm]

end ActionSet

namespace Input

variable {input : Input} {a b : Action} {key code : Value}

/-! ## The table -/

/-- The actions that a table lists under a key. -/
def listed (table : List (Value × List Action)) (key : Value) : List Action :=
  ((table.find? fun entry ↦ entry.1.matchesKey key).map (·.2)).getD []

theorem actionsOf_eq : input.actionsOf key = listed input.reverse key := rfl

theorem listed_cons (entry : Value × List Action) (table : List (Value × List Action)) :
    listed (entry :: table) key =
      if entry.1.matchesKey key then entry.2 else listed table key := by
  by_cases h : entry.1.matchesKey key = true <;> simp [listed, h]

/-- An action that is added under a key is listed last under that key, and under no other. -/
theorem listed_addReverse (table : List (Value × List Action)) :
    listed (addReverse code a table) key =
      listed table key ++ if code.matchesKey key then [a] else [] := by
  induction table with
  | nil => by_cases h : code.matchesKey key = true <;> simp [addReverse, listed, h]
  | cons entry table ih =>
      obtain ⟨k, actions⟩ := entry
      rw [addReverse, listed_cons]
      by_cases hcode : k.matchesKey code = true
      · rw [if_pos hcode, listed_cons, ← Value.matchesKey_congr hcode key]
        split <;> simp
      · rw [if_neg hcode, listed_cons, ih]
        dsimp only
        split
        · next hkey =>
          have hother : code.matchesKey key = false := by
            rw [Value.matchesKey_comm, ← Value.matchesKey_congr hkey]
            exact Bool.not_eq_true _ ▸ hcode
          simp [hother]
        · rfl

theorem listed_foldl (entries : List (Value × Action)) :
    listed (entries.foldl (fun table entry ↦ addReverse entry.1 entry.2 table) []) key =
      (entries.filter fun entry ↦ entry.1.matchesKey key).map (·.2) := by
  induction entries using List.reverseRecOn with
  | nil => rfl
  | append_singleton entries entry ih =>
      rw [List.foldl_append, List.foldl_cons, List.foldl_nil, listed_addReverse, ih,
        List.filter_append, List.map_append]
      by_cases h : entry.1.matchesKey key = true <;> simp [h]

/-- An action is listed under a key as often as the key is among its own. -/
theorem count_listed_reverseOf {bindings : Action → List Value}
    (hkeys : ∀ a, ∀ key ∈ bindings a, key.isKey = true) :
    (listed (reverseOf bindings) key).count a = (bindings a).countP fun k ↦ k.matchesKey key := by
  have hall : (pairs bindings).takeWhile (fun entry ↦ entry.1.isKey) = pairs bindings := by
    refine List.takeWhile_eq_self_iff.mpr fun entry hentry ↦ ?_
    obtain ⟨b, -, hentry⟩ := List.mem_flatMap.mp hentry
    obtain ⟨k, hk, rfl⟩ := List.mem_map.mp hentry
    exact hkeys b k hk
  have hown (b : Action) : ((((bindings b).map fun k ↦ (k, b)).filter fun entry ↦
      entry.1.matchesKey key).map (·.2)).count a =
        if b = a then (bindings b).countP fun k ↦ k.matchesKey key else 0 := by
    rw [List.filter_map, List.map_map]
    simp only [Function.comp_def, List.map_const', List.count_replicate,
      ← List.countP_eq_length_filter, beq_iff_eq]
  rw [reverseOf, hall, listed_foldl, pairs, List.filter_flatMap, List.map_flatMap,
    List.count_flatMap]
  simp only [Function.comp_def, hown]
  cases a <;> simp [Action.all]

/-! ## Input whose keys are in the table -/

/-- The keys that are bound and held can be looked up, no key is bound to an action twice, and the
table is that of the bindings. -/
structure IsTabled (input : Input) : Prop where
  bound : ∀ a, ∀ key ∈ input.bindings a, key.isKey = true
  apart : ∀ a, (input.bindings a).Pairwise fun k l ↦ k.matchesKey l = false
  reverse : input.reverse = reverseOf input.bindings
  held : ∀ key ∈ input.keys, key.isKey = true

namespace IsTabled

/-- The table lists an action under a key once if the key is bound to it, and not otherwise. -/
theorem count_actionsOf (h : input.IsTabled) (a : Action) (key : Value) :
    (input.actionsOf key).count a = if key.isAmong (input.bindings a) then 1 else 0 := by
  rw [actionsOf_eq, h.reverse, count_listed_reverseOf h.bound]
  split
  · next hkey =>
    obtain ⟨k, hk, hmatch⟩ := (Value.isAmong_iff (h.bound a)).mp hkey
    obtain ⟨before, after, hbindings⟩ := List.append_of_mem hk
    have hapart := h.apart a
    rw [hbindings, List.pairwise_append, List.pairwise_cons] at hapart
    obtain ⟨-, ⟨hafter, -⟩, hbefore⟩ := hapart
    have hnone {others : List Value} (hothers : ∀ l ∈ others, k.matchesKey l = false) :
        others.countP (fun l ↦ l.matchesKey key) = 0 := by
      refine List.countP_eq_zero.mpr fun l hl hother ↦ ?_
      rw [Value.matchesKey_comm, ← Value.matchesKey_congr hmatch, hothers l hl] at hother
      cases hother
    have hone : (k :: after).countP (fun l ↦ l.matchesKey key) = 1 := by
      rw [List.countP_cons, hnone hafter, if_pos hmatch]
    rw [hbindings, List.countP_append, hone,
      hnone fun l hl ↦ (Value.matchesKey_comm k l).trans (hbefore l hl k List.mem_cons_self)]
  · next hkey =>
    refine List.countP_eq_zero.mpr fun k hk hmatch ↦ hkey ?_
    exact (Value.isAmong_iff (h.bound a)).mpr ⟨k, hk, hmatch⟩

theorem mem_actionsOf_iff (h : input.IsTabled) :
    a ∈ input.actionsOf key ↔ key.isAmong (input.bindings a) = true := by
  rw [← List.count_pos_iff, h.count_actionsOf]
  split <;> simp_all

theorem isKey_of_isAmong (h : input.IsTabled) (hkey : key.isAmong (input.bindings a) = true) :
    key.isKey = true := by
  obtain ⟨code, hcode, hmatch⟩ := (Value.isAmong_iff (h.bound a)).mp hkey
  exact Value.isKey_of_matchesKey hmatch (h.bound a code hcode)

end IsTabled

/-- Some key that is bound to an action is held. -/
def IsHeld (input : Input) (a : Action) : Prop :=
  ∃ key ∈ input.bindings a, key.isAmong input.keys = true

instance (input : Input) (a : Action) : Decidable (input.IsHeld a) :=
  inferInstanceAs (Decidable (∃ key ∈ input.bindings a, key.isAmong input.keys = true))

/-! ## Keys go down -/

namespace IsTabled

theorem keyDown (h : input.IsTabled) (hkey : key.isKey = true) : (input.keyDown key).IsTabled :=
  ⟨h.bound, h.apart, h.reverse, Value.forall_addTo h.held hkey⟩

theorem isAmong_keys_keyDown (h : input.IsTabled) (hkey : key.isKey = true) :
    code.isAmong (input.keyDown key).keys = true ↔
      code.isAmong input.keys = true ∨ key.matchesKey code = true :=
  Value.isAmong_addTo h.held hkey

theorem pressed_keyDown (h : input.IsTabled) :
    (input.keyDown key).pressed a = true ↔
      key.isAmong (input.bindings a) = true ∨ input.pressed a = true := by
  rw [← h.mem_actionsOf_iff]
  exact ActionSet.foldl_insert _ _

theorem isHeld_keyDown (h : input.IsTabled) (hkey : key.isKey = true) :
    (input.keyDown key).IsHeld a ↔ key.isAmong (input.bindings a) = true ∨ input.IsHeld a := by
  rw [Value.isAmong_iff (h.bound a), IsHeld, IsHeld, or_comm, ← exists_or]
  refine exists_congr fun code ↦ ?_
  rw [h.isAmong_keys_keyDown hkey, Value.matchesKey_comm key code]
  exact and_or_left

/-! ## Keys go up -/

theorem keyUp (h : input.IsTabled) (key : Value) : (input.keyUp key).IsTabled :=
  ⟨h.bound, h.apart, h.reverse, fun k hk ↦ h.held k (List.mem_of_mem_filter hk)⟩

theorem isAmong_keys_keyUp (h : input.IsTabled) :
    code.isAmong (input.keyUp key).keys = true ↔
      code.isAmong input.keys = true ∧ key.matchesKey code = false :=
  Value.isAmong_filter h.held

/-- Where the codes can be looked up, it can be told whether one of them is held, and no code that
agrees with the key is if the key itself is not. -/
theorem isOtherHeld?_eq {held codes : List Value} (hheld : ∀ k ∈ held, k.matchesKey key = false)
    (hkeys : ∀ k ∈ held, k.isKey = true) (hcodes : ∀ code ∈ codes, code.isKey = true) :
    isOtherHeld? held key codes = some (codes.any fun code ↦ code.isAmong held) := by
  induction codes with
  | nil => rfl
  | cons code codes ih =>
      obtain ⟨hcode, hrest⟩ := List.forall_mem_cons.mp hcodes
      rw [isOtherHeld?, ih hrest, List.any_cons]
      by_cases hagrees : code.agrees key = true
      · have hnone : code.isAmong held = false := by
          rw [Bool.eq_false_iff, ne_eq, Value.isAmong_iff hkeys]
          rintro ⟨k, hk, hmatch⟩
          have hsame : code.matchesKey key = true := by simp [Value.matchesKey, hagrees]
          have hother := hheld k hk
          rw [Value.matchesKey_trans hmatch hsame] at hother
          cases hother
        rw [if_pos hagrees, hnone, Bool.false_or]
      · rw [if_neg hagrees, hcode]
        cases code.isAmong held <;> rfl

/-- An action stays pressed when a key goes up unless the key is bound to it and no other one is
held. -/
theorem pressed_keyUp (h : input.IsTabled) :
    (input.keyUp key).pressed a = true ↔
      input.pressed a = true ∧
        (key.isAmong (input.bindings a) = true → (input.keyUp key).IsHeld a) := by
  let up : Input := { input with keys := input.keys.filter fun k ↦ !k.matchesKey key }
  have hup (b : Action) : up.heldOtherwise? key b =
      some ((input.bindings b).any fun code ↦ code.isAmong up.keys) := by
    refine isOtherHeld?_eq (fun k hk ↦ ?_) (fun k hk ↦ h.held k (List.mem_of_mem_filter hk))
      (h.bound b)
    simpa using (List.mem_filter.mp hk).2
  have htold : (up.actionsOf key).takeWhile (fun b ↦ (up.heldOtherwise? key b).isSome) =
      input.actionsOf key :=
    List.takeWhile_eq_self_iff.mpr fun b _ ↦ by rw [hup b]; rfl
  have hpressed : (input.keyUp key).pressed = ((input.actionsOf key).filter fun b ↦
      up.heldOtherwise? key b == some false).foldl ActionSet.erase input.pressed := by
    rw [← htold]
    rfl
  rw [hpressed, ActionSet.foldl_erase, List.mem_filter, h.mem_actionsOf_iff, hup, and_comm,
    and_congr_right_iff]
  intro _
  have hheld : (input.keyUp key).IsHeld a ↔
      ((input.bindings a).any fun code ↦ code.isAmong up.keys) = true := by
    rw [List.any_eq_true]
    rfl
  rw [hheld, not_and]
  cases (input.bindings a).any fun code ↦ code.isAmong up.keys <;> simp

/-- A key that is not bound to an action makes no difference to it. -/
theorem isHeld_keyUp (h : input.IsTabled) (hkey : ¬key.isAmong (input.bindings a) = true) :
    (input.keyUp key).IsHeld a ↔ input.IsHeld a := by
  refine exists_congr fun code ↦ and_congr_right fun hcode ↦ ?_
  rw [h.isAmong_keys_keyUp, and_iff_left]
  by_contra hmatch
  refine hkey ((Value.isAmong_iff (h.bound a)).mpr ⟨code, hcode, ?_⟩)
  rw [Value.matchesKey_comm]
  exact Bool.not_eq_false _ |>.mp hmatch

theorem isHeld_of_keyUp (h : input.IsTabled) (hheld : (input.keyUp key).IsHeld a) :
    input.IsHeld a := by
  obtain ⟨code, hcode, hamong⟩ := hheld
  exact ⟨code, hcode, (h.isAmong_keys_keyUp.mp hamong).1⟩

end IsTabled

/-! ## Keys are bound and unbound -/

theorem bindings_rebind (input : Input) (b : Action) (keys : List Value) (a : Action) :
    (input.rebind b keys).bindings a = if a = b then keys else input.bindings a := rfl

theorem IsHeld.of_unbindKey (hheld : (input.unbindKey b key).IsHeld a) : input.IsHeld a := by
  obtain ⟨code, hcode, hamong⟩ := hheld
  refine ⟨code, ?_, hamong⟩
  rw [unbindKey, bindings_rebind] at hcode
  split at hcode
  · next hab => exact hab ▸ List.mem_of_mem_eraseP hcode
  · exact hcode

namespace IsTabled

theorem rebind (h : input.IsTabled) {keys : List Value} (hkeys : ∀ key ∈ keys, key.isKey = true)
    (hapart : keys.Pairwise fun k l ↦ k.matchesKey l = false) (b : Action) :
    (input.rebind b keys).IsTabled := by
  refine ⟨fun a ↦ ?_, fun a ↦ ?_, rfl, h.held⟩
  · rw [bindings_rebind]
    split
    · exact hkeys
    · exact h.bound a
  · rw [bindings_rebind]
    split
    · exact hapart
    · exact h.apart a

theorem bindKey (h : input.IsTabled) (hkey : key.isKey = true) (b : Action) :
    (input.bindKey b key).IsTabled :=
  h.rebind (Value.forall_addTo (h.bound b) hkey) (Value.pairwise_addTo (h.bound b) (h.apart b)) b

theorem unbindKey (h : input.IsTabled) (b : Action) (key : Value) :
    (input.unbindKey b key).IsTabled :=
  h.rebind (fun k hk ↦ h.bound b k (List.mem_of_mem_eraseP hk))
    ((h.apart b).sublist List.eraseP_sublist) b

theorem isHeld_iff (h : input.IsTabled) :
    input.IsHeld a ↔ ∃ code ∈ input.keys, code.isAmong (input.bindings a) = true := by
  have hboth : (∃ key ∈ input.bindings a, ∃ code ∈ input.keys, code.matchesKey key = true) ↔
      ∃ code ∈ input.keys, ∃ key ∈ input.bindings a, key.matchesKey code = true := by
    constructor
    · rintro ⟨key, hkey, code, hcode, hmatch⟩
      exact ⟨code, hcode, key, hkey, Value.matchesKey_comm code key ▸ hmatch⟩
    · rintro ⟨code, hcode, key, hkey, hmatch⟩
      exact ⟨key, hkey, code, hcode, Value.matchesKey_comm key code ▸ hmatch⟩
  simpa only [IsHeld, Value.isAmong_iff h.held, Value.isAmong_iff (h.bound a)] using hboth

theorem isHeld_bindKey (h : input.IsTabled) (hkey : key.isKey = true) :
    (input.bindKey b key).IsHeld a ↔
      input.IsHeld a ∨ a = b ∧ key.isAmong input.keys = true := by
  by_cases hab : a = b
  · subst hab
    have hkeys : (input.bindKey a key).keys = input.keys := rfl
    have hbindings : (input.bindKey a key).bindings a = key.addTo (input.bindings a) := if_pos rfl
    simp only [(h.bindKey hkey a).isHeld_iff, h.isHeld_iff, hkeys, hbindings,
      Value.isAmong_addTo (h.bound a) hkey, Value.isAmong_iff h.held, true_and, and_or_left,
      exists_or, Value.matchesKey_comm key]
  · have hbindings : (input.bindKey b key).bindings a = input.bindings a := if_neg hab
    simp only [IsHeld, hbindings, hab, false_and, or_false]
    rfl

/-- A key that is not held can be unbound and no action is let go. -/
theorem isHeld_unbindKey (h : input.IsTabled) (hkey : ¬key.isAmong input.keys = true) :
    (input.unbindKey b key).IsHeld a ↔ input.IsHeld a := by
  refine ⟨.of_unbindKey, fun hheld ↦ ?_⟩
  obtain ⟨code, hcode, hamong⟩ := h.isHeld_iff.mp hheld
  refine (h.unbindKey b key).isHeld_iff.mpr ⟨code, hcode, ?_⟩
  rw [Input.unbindKey, bindings_rebind]
  split
  · next hab =>
    refine (Value.isAmong_eraseP (h.bound b) (h.apart b)).mpr ⟨hab ▸ hamong, ?_⟩
    by_contra hmatch
    refine hkey ((Value.isAmong_iff h.held).mpr ⟨code, hcode, ?_⟩)
    rw [Value.matchesKey_comm]
    exact Bool.not_eq_false _ |>.mp hmatch
  · exact hamong

end IsTabled

end Input

end LinearDialogue
