import LinearDialogue.Booth
import LinearDialogue.Proofs.Acts
import LinearDialogue.Proofs.KeyTables

/-!
# Keyboards

What keys have gone down and up, and how they were bound meanwhile, tells which actions are pressed.
A key is held if it has gone down and not gone up since.  As long as keys are bound and unbound only
while they are not held, an action is pressed while a key that is bound to it is held.
-/

namespace LinearDialogue

/-! ## Histories -/

section Histories

variable {α : Type} {ops : List α} {op : α}

/-- Every operation is as `p` says of it and of the operations before it. -/
def Throughout (p : List α → α → Prop) (ops : List α) : Prop :=
  ∀ n, ∀ h : n < ops.length, p (ops.take n) ops[n]

/-- Some operation began something, and no later one has ended it.  What an operation does can
depend on the operations before it. -/
def Since (begins ends : List α → α → Prop) (ops : List α) : Prop :=
  ∃ n, ∃ h : n < ops.length, begins (ops.take n) ops[n] ∧
    ∀ m, ∀ hm : m < ops.length, n < m → ¬ends (ops.take m) ops[m]

instance (p : List α → α → Prop) [∀ before op, Decidable (p before op)] (ops : List α) :
    Decidable (Throughout p ops) := inferInstanceAs (Decidable (∀ n, ∀ _ : n < ops.length, _))

instance (begins ends : List α → α → Prop) [∀ before op, Decidable (begins before op)]
    [∀ before op, Decidable (ends before op)] (ops : List α) : Decidable (Since begins ends ops) :=
  inferInstanceAs (Decidable (∃ n, ∃ h : n < ops.length, begins (ops.take n) ops[n] ∧
    ∀ m, ∀ hm : m < ops.length, n < m → ¬ends (ops.take m) ops[m]))

theorem forall_lt_append_singleton (q : Nat → List α → α → Prop) :
    (∀ n, ∀ h : n < (ops ++ [op]).length, q n ((ops ++ [op]).take n) (ops ++ [op])[n]) ↔
      (∀ n, ∀ h : n < ops.length, q n (ops.take n) ops[n]) ∧ q ops.length ops op := by
  have hearlier (n : Nat) (h : n < ops.length) (hn : n < (ops ++ [op]).length) :
      q n ((ops ++ [op]).take n) (ops ++ [op])[n] = q n (ops.take n) ops[n] := by
    rw [List.take_append_of_le_length h.le, List.getElem_append_left h]
  have hlast (h : ops.length < (ops ++ [op]).length) :
      q ops.length ((ops ++ [op]).take ops.length) (ops ++ [op])[ops.length] =
        q ops.length ops op := by simp
  have hlength : (ops ++ [op]).length = ops.length + 1 := by simp
  constructor
  · intro h
    exact ⟨fun n hn ↦ hearlier n hn (by omega) ▸ h n (by omega), hlast (by omega) ▸ h _ (by omega)⟩
  · rintro ⟨h, hself⟩ n hn
    rcases Nat.lt_or_eq_of_le (Nat.le_of_lt_succ (hlength ▸ hn)) with hlt | rfl
    · exact (hearlier n hlt hn).mpr (h n hlt)
    · exact (hlast hn).mpr hself

theorem exists_lt_append_singleton (q : Nat → List α → α → Prop) :
    (∃ n, ∃ h : n < (ops ++ [op]).length, q n ((ops ++ [op]).take n) (ops ++ [op])[n]) ↔
      (∃ n, ∃ h : n < ops.length, q n (ops.take n) ops[n]) ∨ q ops.length ops op := by
  refine not_iff_not.mp ?_
  simpa only [not_exists, not_or] using
    forall_lt_append_singleton fun n before next ↦ ¬q n before next

variable {p begins ends : List α → α → Prop}

theorem throughout_append_singleton :
    Throughout p (ops ++ [op]) ↔ Throughout p ops ∧ p ops op :=
  forall_lt_append_singleton fun _ ↦ p

theorem not_since_nil : ¬Since begins ends [] := fun ⟨_, h, _⟩ ↦ nomatch h

theorem since_append_singleton :
    Since begins ends (ops ++ [op]) ↔ Since begins ends ops ∧ ¬ends ops op ∨ begins ops op := by
  have hlasts (n : Nat) :
      (∀ m, ∀ h : m < (ops ++ [op]).length, n < m →
          ¬ends ((ops ++ [op]).take m) (ops ++ [op])[m]) ↔
        (∀ m, ∀ h : m < ops.length, n < m → ¬ends (ops.take m) ops[m]) ∧
          (n < ops.length → ¬ends ops op) :=
    forall_lt_append_singleton fun m before next ↦ n < m → ¬ends before next
  simp only [Since, hlasts]
  rw [exists_lt_append_singleton fun n before next ↦ begins before next ∧
    (∀ m, ∀ h : m < ops.length, n < m → ¬ends (ops.take m) ops[m]) ∧
      (n < ops.length → ¬ends ops op)]
  refine or_congr ⟨?_, ?_⟩ (and_iff_left ⟨fun m hm hlt ↦ by omega, fun hlt ↦ by omega⟩)
  · rintro ⟨n, hn, hbegins, hlasts, hlast⟩
    exact ⟨⟨n, hn, hbegins, hlasts⟩, hlast hn⟩
  · rintro ⟨⟨n, hn, hbegins, hlasts⟩, hlast⟩
    exact ⟨n, hn, hbegins, hlasts, fun _ ↦ hlast⟩

/-- What holds after every operation holds at first and after the last one. -/
theorem forall_prefix_append_singleton {q : List α → Prop} :
    (∀ before, before <+: ops ++ [op] → q before) ↔
      (∀ before, before <+: ops → q before) ∧ q (ops ++ [op]) := by
  simp only [List.prefix_concat_iff, or_imp, forall_and, forall_eq, and_comm]

end Histories

/-! ## Operations on their own -/

namespace InputOp

/-- Is every key that an operation binds one that can be looked up? -/
def bindsKeys : InputOp → Bool
  | .bindKey _ key => key.isKey
  | _ => true

/-- Does an operation leave gamepads alone, and bind what can be looked up? -/
def isKeyboard : InputOp → Bool
  | .buttonDown _ | .buttonUp _ | .connect _ | .disconnect _ => false
  | op => op.bindsKeys

/-- Does an operation tell that a key goes down? -/
def isDown (key : Value) : InputOp → Bool
  | .keyDown (some code) => code.isKey && code.matchesKey key
  | _ => false

/-- Does an operation tell that a key goes up? -/
def isUp (key : Value) : InputOp → Bool
  | .keyUp (some code) => code.isKey && code.matchesKey key
  | _ => false

/-- Does an operation reach no key, no button and no binding? -/
def isInert : InputOp → Bool
  | .keyDown code | .keyUp code => !code.any (·.isKey)
  | .buttonDown code | .buttonUp code => code.isNone
  | .bindKey .. | .unbindKey .. => false
  | _ => true

/-- An operation is inert if it is not of a key that can be looked up, a button or a binding. -/
@[elab_as_elim]
theorem cases_isInert {motive : InputOp → Prop} (op : InputOp)
    (inert : ∀ op, op.isInert = true → motive op)
    (keyDown : ∀ key, key.isKey = true → motive (.keyDown (some key)))
    (keyUp : ∀ key, key.isKey = true → motive (.keyUp (some key)))
    (buttonDown : ∀ button, motive (.buttonDown (some button)))
    (buttonUp : ∀ button, motive (.buttonUp (some button)))
    (bindKey : ∀ b key, motive (.bindKey b key))
    (unbindKey : ∀ b key, motive (.unbindKey b key)) : motive op := by
  by_cases h : op.isInert = true
  · exact inert op h
  · match op, h with
    | .keyDown (some key), h => exact keyDown key (by simpa [isInert] using h)
    | .keyUp (some key), h => exact keyUp key (by simpa [isInert] using h)
    | .buttonDown (some button), _ => exact buttonDown button
    | .buttonUp (some button), _ => exact buttonUp button
    | .bindKey b key, _ => exact bindKey b key
    | .unbindKey b key, _ => exact unbindKey b key

theorem isDown_of_isInert {op : InputOp} (h : op.isInert = true) (key : Value) :
    op.isDown key = false := by
  match op, h with
  | .keyDown (some code), h =>
      have hcode : code.isKey = false := by simpa [isInert] using h
      rw [isDown, hcode, Bool.false_and]
  | .keyDown none, _ => rfl
  | .keyUp _, _ | .buttonDown _, _ | .buttonUp _, _ | .connect _, _ | .disconnect _, _ => rfl
  | .move, _ | .update, _ | .bindings _, _ | .query _, _ => rfl

theorem isUp_of_isInert {op : InputOp} (h : op.isInert = true) (key : Value) :
    op.isUp key = false := by
  match op, h with
  | .keyUp (some code), h =>
      have hcode : code.isKey = false := by simpa [isInert] using h
      rw [isUp, hcode, Bool.false_and]
  | .keyUp none, _ => rfl
  | .keyDown _, _ | .buttonDown _, _ | .buttonUp _, _ | .connect _, _ | .disconnect _, _ => rfl
  | .move, _ | .update, _ | .bindings _, _ | .query _, _ => rfl

/-- What is announced of an operation on some input. -/
def tells (input : Input) : InputOp → List Event
  | .update =>
    (input.pressed.minus input.previous).toList.map (Input.actionEvent .actionPressed) ++
      (input.previous.minus input.pressed).toList.map (Input.actionEvent .actionReleased)
  | .connect reported =>
    if (input.attach (reported.getD input.reported)).isAttached then [{ type := .gamepadConnected }]
    else []
  | .disconnect reported =>
    if (input.attach (reported.getD input.reported)).isAttached then
      [{ type := .gamepadDisconnected }]
    else []
  | _ => []

end InputOp

/-- The input after an operation, which may have failed. -/
def Input.after (input : Input) : InputOp → Input
  | .keyDown (some key) => if key.isKey then input.keyDown key else input
  | .keyUp (some key) => if key.isKey then input.keyUp key else input
  | .buttonDown (some button) => input.buttonDown button
  | .buttonUp (some button) => input.buttonUp button
  | .connect reported | .disconnect reported => input.attach (reported.getD input.reported)
  | .update => { input.compare with previous := input.pressed }
  | .bindKey a key => input.bindKey a key
  | .unbindKey a key => input.unbindKey a key
  | _ => input

namespace Input

variable {input : Input} {op : InputOp} {key : Value}

theorem after_keyDown (hkey : key.isKey = true) :
    input.after (.keyDown (some key)) = input.keyDown key := if_pos hkey

theorem after_keyUp (hkey : key.isKey = true) :
    input.after (.keyUp (some key)) = input.keyUp key := if_pos hkey

/-- An inert operation leaves the keys, the actions that are pressed and both tables. -/
theorem after_of_isInert (h : op.isInert = true) (input : Input) :
    ∃ other : Input, input.after op = { other with
      keys := input.keys, pressed := input.pressed, bindings := input.bindings,
      reverse := input.reverse } := by
  refine ⟨input.after op, ?_⟩
  cases op with
  | keyDown code | keyUp code =>
      cases code with
      | none => rfl
      | some code =>
          have hcode : ¬code.isKey = true := by simpa [InputOp.isInert] using h
          rw [after, if_neg hcode]
  | buttonDown code | buttonUp code => cases code <;> first | rfl | cases h
  | bindKey | unbindKey => cases h
  | _ => rfl

end Input

namespace Booth

variable {s : Booth} {ops : List InputOp} {op : InputOp} {key : Value} {a : Action}

/-- A booth in which some events have been announced. -/
def tell (events : List Event) (s : Booth) : Booth :=
  let heard := if s.isObserved then events else []
  { s with journal := { s.journal with notes := s.journal.notes ++ heard.map .event } }

theorem tell_nil (s : Booth) : s.tell [] = s := by simp [tell]

theorem tell_append (events others : List Event) (s : Booth) :
    s.tell (events ++ others) = (s.tell events).tell others := by
  by_cases h : s.isObserved = true <;> simp [tell, h]

theorem announce_apply (event : Event) (s : Booth) :
    announce event s = (.returned event, s.tell [event]) := by
  by_cases h : s.isObserved = true
  · simp only [announce, Publisher.toObserver, tell, if_pos h]
    rfl
  · simp only [announce, Publisher.toObserver, tell, if_neg h, List.map_nil, List.append_nil]
    rfl

theorem announceActions_apply (type : EventType) (actions : List Action) (s : Booth) :
    Input.announce announce type actions s =
      (.returned (), s.tell (actions.map (Input.actionEvent type))) := by
  induction actions generalizing s with
  | nil => exact congrArg (Outcome.returned (), ·) (tell_nil s).symm
  | cons b actions ih =>
      rw [Input.announce, Act.bind_of_returned (announce_apply _ s), ih, ← tell_append]
      rfl

theorem change_apply (f : Input → Value → Input) (code : Option Value) (s : Booth) :
    (InputOp.change f code s).2 = { s with input := code.elim s.input (f s.input) } := by
  cases code <;> rfl

theorem changeKeyed_apply (f : Input → Value → Input) (code : Option Value) (s : Booth) :
    (InputOp.changeKeyed f code s).2 =
      { s with input :=
          if code.all (·.isKey) then code.elim s.input (f s.input) else s.input } := by
  rw [InputOp.changeKeyed]
  split
  · exact change_apply f code s
  · rfl

theorem settle_apply (change : Act Booth Value) (isSound : Input → Bool) (s : Booth) :
    (InputOp.settle change isSound s).2 = (change s).2 := by
  have hthen (result : Value) (t : Booth) :
      ((do
        if isSound (← Part.read Input) then return result
        Act.fail .wrongType : Act Booth Value) t).2 = t := by
    rw [Act.bind_of_returned (Part.read_apply t)]
    split <;> rfl
  rw [InputOp.settle, Act.bind_apply]
  split
  · next result t heq => rw [heq]; exact hthen result t
  all_goals
    rename_i heq
    rw [heq]

theorem changeGamepads_apply (type : EventType) (reported : Option (List Value)) (s : Booth) :
    (Input.changeGamepads announce type reported s).2 =
      ({ s with input := s.input.attach (reported.getD s.input.reported) } : Booth).tell
        (if (s.input.attach (reported.getD s.input.reported)).isAttached then [{ type }]
          else []) := by
  let input := s.input.attach (reported.getD s.input.reported)
  let attached : Booth := { s with input }
  have hattach : Part.update Input (fun input ↦ input.attach (reported.getD input.reported)) s =
      (.returned (), attached) := rfl
  have hread : Part.read Input attached = (.returned input, attached) := rfl
  rw [Input.changeGamepads, Act.bind_of_returned hattach, Act.bind_of_returned hread]
  by_cases h : input.isAttached = true
  · rw [if_pos h, h, Bool.not_true, if_neg Bool.false_ne_true]
    exact congrArg Prod.snd (Act.bind_of_returned (announce_apply { type } attached) _)
  · rw [if_neg h, Bool.not_eq_true _ |>.mp h, Bool.not_false, if_pos rfl, tell_nil]
    rfl

theorem update_apply (s : Booth) :
    (Input.update announce s).2 =
      ({ s with input := s.input.after .update } : Booth).tell (InputOp.update.tells s.input) := by
  let compared : Booth := { s with input := s.input.compare }
  have hcompare : Part.update Input Input.compare s = (.returned (), compared) := rfl
  have hread (events : List Event) : Part.read Input (compared.tell events) =
      (.returned s.input.compare, compared.tell events) := rfl
  have hfirst : Part.read Input compared = (.returned s.input.compare, compared) := rfl
  rw [Input.update, Act.bind_of_returned hcompare, Act.bind_of_returned hfirst,
    Act.bind_of_returned (announceActions_apply ..), Act.bind_of_returned (hread _),
    Act.bind_of_returned (announceActions_apply ..), ← tell_append]
  rfl

/-- An operation changes the input and is announced. -/
theorem perform_apply (op : InputOp) (s : Booth) :
    (op.perform announce s).2 =
      ({ s with input := s.input.after op } : Booth).tell (op.tells s.input) := by
  cases op with
  | keyDown key =>
      refine Eq.trans (changeKeyed_apply Input.keyDown key s) (Eq.trans ?_ (tell_nil _).symm)
      cases key <;> rfl
  | keyUp key =>
      refine Eq.trans (settle_apply _ _ s) (Eq.trans ?_ (tell_nil _).symm)
      refine Eq.trans (changeKeyed_apply Input.keyUp key s) ?_
      cases key <;> rfl
  | buttonDown button =>
      refine Eq.trans (change_apply Input.buttonDown button s) (Eq.trans ?_ (tell_nil _).symm)
      cases button <;> rfl
  | buttonUp button =>
      refine Eq.trans (change_apply Input.buttonUp button s) (Eq.trans ?_ (tell_nil _).symm)
      cases button <;> rfl
  | connect reported =>
      rw [InputOp.perform, Act.bind_pure_apply]
      exact changeGamepads_apply .gamepadConnected reported s
  | disconnect reported =>
      rw [InputOp.perform, Act.bind_pure_apply]
      exact changeGamepads_apply .gamepadDisconnected reported s
  | update =>
      rw [InputOp.perform, Act.bind_pure_apply]
      exact update_apply s
  | bindKey b key => exact (settle_apply _ _ s).trans (tell_nil _).symm
  | unbindKey b key => exact (settle_apply _ _ s).trans (tell_nil _).symm
  | move => exact (tell_nil s).symm
  | bindings b => exact (tell_nil s).symm
  | query b => exact (tell_nil s).symm

/-- A booth after some operations, whether they have failed or not. -/
def operated (s : Booth) (ops : List InputOp) : Booth :=
  ops.foldl (fun s op ↦ (op.perform announce s).2) s

theorem operated_append_singleton (s : Booth) (ops : List InputOp) (op : InputOp) :
    s.operated (ops ++ [op]) = (op.perform announce (s.operated ops)).2 := by
  simp [operated]

theorem input_operated (s : Booth) (ops : List InputOp) (op : InputOp) :
    (s.operated (ops ++ [op])).input = (s.operated ops).input.after op := by
  rw [operated_append_singleton, perform_apply]
  rfl

end Booth

/-! ## Keys that are held -/

/-- A key has gone down, and not gone up since. -/
def KeyHeld (ops : List InputOp) (key : Value) : Prop :=
  Since (fun _ op ↦ op.isDown key = true) (fun _ op ↦ op.isUp key = true) ops

instance (ops : List InputOp) (key : Value) : Decidable (KeyHeld ops key) :=
  inferInstanceAs (Decidable
    (Since (fun _ op ↦ op.isDown key = true) (fun _ op ↦ op.isUp key = true) ops))

namespace Input

variable {input : Input} {op : InputOp} {key : Value} {a : Action}

/-- No key is held and no action is pressed. -/
structure IsIdle (input : Input) : Prop where
  tabled : input.IsTabled
  keys : input.keys = []
  pressed : input.pressed = .empty

theorem isIdle_start : start.IsIdle where
  tabled := by
    refine ⟨fun a ↦ ?_, fun a ↦ ?_, rfl, nofun⟩
    · cases a <;> decide
    · cases a <;> decide
  keys := rfl
  pressed := rfl

namespace IsTabled

theorem after (h : input.IsTabled) (hop : op.bindsKeys = true) : (input.after op).IsTabled := by
  cases op using InputOp.cases_isInert with
  | inert op hinert =>
      obtain ⟨other, hafter⟩ := after_of_isInert hinert input
      rw [hafter]
      exact ⟨h.bound, h.apart, h.reverse, h.held⟩
  | keyDown key hkey => exact after_keyDown hkey ▸ h.keyDown hkey
  | keyUp key hkey => exact after_keyUp hkey ▸ h.keyUp key
  | buttonDown | buttonUp => exact ⟨h.bound, h.apart, h.reverse, h.held⟩
  | bindKey b key => exact h.bindKey hop b
  | unbindKey b key => exact h.unbindKey b key

/-- What is told of a key that is bound to an action is not inert. -/
theorem not_isAmong_of_isInert (h : input.IsTabled)
    (hkey : (InputOp.keyDown (some key)).isInert = true) :
    ¬key.isAmong (input.bindings a) = true := by
  intro hbound
  have hnone : key.isKey = false := by simpa [InputOp.isInert] using hkey
  exact Bool.false_ne_true (hnone ▸ h.isKey_of_isAmong hbound)

theorem isAmong_keys_after (h : input.IsTabled) (op : InputOp) (key : Value) :
    key.isAmong (input.after op).keys = true ↔
      key.isAmong input.keys = true ∧ ¬op.isUp key = true ∨ op.isDown key = true := by
  cases op using InputOp.cases_isInert with
  | inert op hinert =>
      obtain ⟨other, hafter⟩ := after_of_isInert hinert input
      simp [hafter, InputOp.isUp_of_isInert hinert, InputOp.isDown_of_isInert hinert]
  | keyDown code hcode =>
      simp [after_keyDown hcode, InputOp.isUp, InputOp.isDown, hcode, h.isAmong_keys_keyDown hcode]
  | keyUp code hcode =>
      simp [after_keyUp hcode, InputOp.isUp, InputOp.isDown, hcode, h.isAmong_keys_keyUp]
  | buttonDown | buttonUp | bindKey | unbindKey =>
      exact ((or_iff_left Bool.false_ne_true).trans (and_iff_left Bool.false_ne_true)).symm

end IsTabled

end Input

namespace Booth

variable {s : Booth} {ops : List InputOp} {op : InputOp} {key : Value} {a : Action}

theorem isTabled_operated (hs : s.input.IsTabled) (hops : ∀ op ∈ ops, op.bindsKeys = true) :
    (s.operated ops).input.IsTabled := by
  induction ops using List.reverseRecOn with
  | nil => exact hs
  | append_singleton ops op ih =>
      rw [List.forall_mem_append, List.forall_mem_singleton] at hops
      rw [input_operated]
      exact (ih hops.1).after hops.2

theorem isAmong_keys_operated (hs : s.input.IsTabled) (hkeys : s.input.keys = [])
    (hops : ∀ op ∈ ops, op.bindsKeys = true) (key : Value) :
    key.isAmong (s.operated ops).input.keys = true ↔ KeyHeld ops key := by
  induction ops using List.reverseRecOn with
  | nil =>
      refine iff_of_false ?_ not_since_nil
      rw [show (s.operated []).input.keys = [] from hkeys]
      exact Bool.false_ne_true
  | append_singleton ops op ih =>
      rw [List.forall_mem_append, List.forall_mem_singleton] at hops
      rw [input_operated, (isTabled_operated hs hops.1).isAmong_keys_after, ih hops.1, KeyHeld,
        KeyHeld, since_append_singleton]

theorem isHeld_operated (hs : s.input.IsTabled) (hkeys : s.input.keys = [])
    (hops : ∀ op ∈ ops, op.bindsKeys = true) (a : Action) :
    (s.operated ops).input.IsHeld a ↔
      ∃ key ∈ (s.operated ops).input.bindings a, KeyHeld ops key := by
  simp only [Input.IsHeld, isAmong_keys_operated hs hkeys hops]

end Booth

/-! ## Actions that are pressed -/

namespace InputOp

/-- The key that an operation binds or unbinds. -/
def rebound? : InputOp → Option Value
  | .bindKey _ key | .unbindKey _ key => some key
  | _ => none

end InputOp

namespace Input

variable {input : Input} {op : InputOp} {a : Action}

/-- As keys go down and up, and keys that are not held are bound and unbound, the actions that are
pressed stay those of the keys that are held. -/
theorem IsTabled.pressed_after_iff_isHeld (h : input.IsTabled) (hop : op.isKeyboard = true)
    (hfree : ∀ key ∈ op.rebound?, ¬key.isAmong input.keys = true)
    (hpressed : ∀ a, input.pressed a = true ↔ input.IsHeld a) :
    (input.after op).pressed a = true ↔ (input.after op).IsHeld a := by
  cases op using InputOp.cases_isInert with
  | inert op hinert =>
      obtain ⟨other, hafter⟩ := after_of_isInert hinert input
      rw [hafter]
      exact hpressed a
  | keyDown key hkey => rw [after_keyDown hkey, h.pressed_keyDown, h.isHeld_keyDown hkey, hpressed]
  | keyUp key hkey =>
      rw [after_keyUp hkey, h.pressed_keyUp, hpressed]
      by_cases hbound : key.isAmong (input.bindings a) = true
      · exact ⟨fun hheld ↦ hheld.2 hbound, fun hheld ↦ ⟨h.isHeld_of_keyUp hheld, fun _ ↦ hheld⟩⟩
      · rw [h.isHeld_keyUp hbound]
        exact and_iff_left fun hkey ↦ absurd hkey hbound
  | bindKey b key =>
      refine (hpressed a).trans (Iff.trans ?_ (h.isHeld_bindKey hop).symm)
      exact (or_iff_left fun hheld ↦ hfree key rfl hheld.2).symm
  | unbindKey b key => exact (hpressed a).trans (h.isHeld_unbindKey (hfree key rfl)).symm
  | buttonDown | buttonUp => cases hop

end Input

namespace Booth

variable {s : Booth} {ops : List InputOp}

theorem bindsKeys_of_isKeyboard (hops : ∀ op ∈ ops, op.isKeyboard = true) :
    ∀ op ∈ ops, op.bindsKeys = true := by
  intro op hop
  have hkeyboard := hops op hop
  cases op <;> first | rfl | exact hkeyboard

theorem isTabled_of_isKeyboard (hs : s.input.IsIdle) (hops : ∀ op ∈ ops, op.isKeyboard = true) :
    (s.operated ops).input.IsTabled :=
  isTabled_operated hs.tabled (bindsKeys_of_isKeyboard hops)

/-- Where keys are bound and unbound only while they are not held, the table lists an action once
under every key that is bound to it and nowhere else, and an action is pressed just if a key that is
bound to it is held. -/
theorem operated_presses_held_keys (hs : s.input.IsIdle) (hops : ∀ op ∈ ops, op.isKeyboard = true)
    (hfree : Throughout (fun before op ↦ ∀ key ∈ op.rebound?, ¬KeyHeld before key) ops) :
    (∀ a key, ((s.operated ops).input.actionsOf key).count a =
        if key.isAmong ((s.operated ops).input.bindings a) then 1 else 0) ∧
      ∀ a, (s.operated ops).input.pressed a = true ↔
        ∃ key ∈ (s.operated ops).input.bindings a, KeyHeld ops key := by
  have hbinds := bindsKeys_of_isKeyboard hops
  refine ⟨(isTabled_of_isKeyboard hs hops).count_actionsOf, fun a ↦ ?_⟩
  rw [← isHeld_operated hs.tabled hs.keys hbinds]
  induction ops using List.reverseRecOn generalizing a with
  | nil =>
      have hpressed : ¬(s.operated []).input.pressed a = true := by
        rw [operated, List.foldl_nil, hs.pressed]
        exact Bool.false_ne_true
      have hheld : ¬(s.operated []).input.IsHeld a := by
        rw [isHeld_operated hs.tabled hs.keys hbinds]
        rintro ⟨key, -, hkey⟩
        exact not_since_nil hkey
      exact iff_of_false hpressed hheld
  | append_singleton ops op ih =>
      rw [List.forall_mem_append, List.forall_mem_singleton] at hops hbinds
      rw [throughout_append_singleton] at hfree
      rw [input_operated]
      refine (isTabled_of_isKeyboard hs hops.1).pressed_after_iff_isHeld hops.2
        (fun key hkey ↦ ?_) (ih hops.1 hfree.1 hbinds.1)
      rw [isAmong_keys_operated hs.tabled hs.keys hbinds.1]
      exact hfree.2 key hkey

/-- A key is pressed twice and let go, one that was never pressed is let go, and another, which is
bound to a second action meanwhile, is held in the end. -/
def crossing : List InputOp :=
  [.keyDown (some (.int 13)), .keyDown (some (.int 13)), .keyUp (some (.int 99)), .update,
    .unbindKey .confirm (.int 32), .bindKey .skip (.int 27), .keyDown (some (.int 27)),
    .keyUp (some (.int 13))]

theorem operated_presses_held_keys_of_crossing :
    (Input.start.IsIdle ∧ (∀ op ∈ crossing, op.isKeyboard = true) ∧
      Throughout (fun before op ↦ ∀ key ∈ op.rebound?, ¬KeyHeld before key) crossing) ∧
    (∀ a key, ((({} : Booth).operated crossing).input.actionsOf key).count a =
        if key.isAmong ((({} : Booth).operated crossing).input.bindings a) then 1 else 0) ∧
      (∀ a, (({} : Booth).operated crossing).input.pressed a = true ↔
        ∃ key ∈ (({} : Booth).operated crossing).input.bindings a, KeyHeld crossing key) ∧
      (({} : Booth).operated crossing).input.actionsOf (.int 27) = [.cancel, .skip] ∧
      (({} : Booth).operated crossing).input.pressed.toList = [.cancel, .skip] := by
  have hops : ∀ op ∈ crossing, op.isKeyboard = true := by decide
  have hfree : Throughout (fun before op ↦ ∀ key ∈ op.rebound?, ¬KeyHeld before key) crossing := by
    decide +kernel
  obtain ⟨hlisted, hpressed⟩ := operated_presses_held_keys (s := {}) Input.isIdle_start hops hfree
  exact ⟨⟨Input.isIdle_start, hops, hfree⟩, hlisted, hpressed, by decide +kernel, by decide +kernel⟩

end Booth

end LinearDialogue
