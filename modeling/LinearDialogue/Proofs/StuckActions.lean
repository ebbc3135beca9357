import LinearDialogue.Proofs.Keyboards
import LinearDialogue.Proofs.Updates

/-!
# Stuck actions

An action that is pressed is stuck if no key that is bound to it is held.  It gets stuck when the
last of its keys that are held is unbound, and in no other way; it stays stuck until one of its keys
goes down or up or a key that is held is bound to it.  An action that is not stuck is announced as
released by the update after the last of its keys has gone up.
-/

namespace LinearDialogue

/-- An action that has been announced as pressed, and as nothing since, is pressed. -/
theorem Alternates.eq_true_of_getLast? {a : Action} {isPressed : Bool} {events : List Event}
    (h : Alternates a isPressed events)
    (hlast : (edgesOf a events).getLast? = some .actionPressed) : isPressed = true := by
  obtain ⟨n, hn, hodd⟩ := h
  rw [hn] at hlast
  cases n with
  | zero => cases hlast
  | succ n =>
      rw [alternation_succ, List.getLast?_concat] at hlast
      have heven : n % 2 = 0 := by
        by_contra hne
        rw [if_neg hne] at hlast
        cases hlast
      exact hodd.mp (by omega)

namespace Input

variable {input : Input} {op : InputOp} {key : Value} {a : Action}

/-- An action is pressed, and no key that is bound to it is held. -/
def IsStuck (input : Input) (a : Action) : Prop :=
  input.pressed a = true ∧ ¬input.IsHeld a

/-- An operation takes from an action that is pressed the last of its keys that are held. -/
def Orphans (input : Input) (a : Action) : InputOp → Prop
  | .unbindKey b key =>
    input.pressed a = true ∧ input.IsHeld a ∧ ¬(input.unbindKey b key).IsHeld a
  | _ => False

/-- A key of an action goes down or up, or one that is held is bound to it. -/
def Relieves (input : Input) (a : Action) : InputOp → Prop
  | .keyDown (some key) | .keyUp (some key) => key.isAmong (input.bindings a) = true
  | .bindKey b key => a = b ∧ key.isAmong input.keys = true
  | _ => False

namespace IsTabled

theorem isStuck_keyDown (h : input.IsTabled) (hkey : key.isKey = true) :
    (input.keyDown key).IsStuck a ↔
      input.IsStuck a ∧ ¬key.isAmong (input.bindings a) = true := by
  rw [IsStuck, IsStuck, h.pressed_keyDown, h.isHeld_keyDown hkey]
  tauto

theorem isStuck_keyUp (h : input.IsTabled) :
    (input.keyUp key).IsStuck a ↔
      input.IsStuck a ∧ ¬key.isAmong (input.bindings a) = true := by
  rw [IsStuck, IsStuck, h.pressed_keyUp]
  by_cases hbound : key.isAmong (input.bindings a) = true
  · tauto
  · rw [h.isHeld_keyUp hbound]
    tauto

theorem not_relieves_of_isInert (h : input.IsTabled) (hop : op.isInert = true) :
    ¬input.Relieves a op := by
  intro hrelieves
  match op, hrelieves with
  | .keyDown (some key), hbound | .keyUp (some key), hbound =>
      exact h.not_isAmong_of_isInert hop hbound
  | .bindKey _ _, _ => cases hop

/-- An operation of a keyboard leaves an action stuck just if it was and is not relieved, or if the
operation takes its last key. -/
theorem isStuck_after (h : input.IsTabled) (hop : op.isKeyboard = true) :
    (input.after op).IsStuck a ↔ input.IsStuck a ∧ ¬input.Relieves a op ∨ input.Orphans a op := by
  cases op using InputOp.cases_isInert with
  | inert op hinert =>
      have horphans : ¬input.Orphans a op := by
        intro horphans
        match op, horphans with
        | .unbindKey _ _, _ => cases hinert
      obtain ⟨other, hafter⟩ := after_of_isInert hinert input
      rw [hafter, or_iff_left horphans, and_iff_left (h.not_relieves_of_isInert hinert)]
      rfl
  | keyDown key hkey =>
      refine Iff.trans ?_ (or_iff_left id).symm
      rw [after_keyDown hkey, h.isStuck_keyDown hkey, Relieves]
  | keyUp key hkey =>
      refine Iff.trans ?_ (or_iff_left id).symm
      rw [after_keyUp hkey, h.isStuck_keyUp, Relieves]
  | bindKey b key =>
      have hpressed : (input.bindKey b key).pressed = input.pressed := rfl
      refine Iff.trans ?_ (or_iff_left id).symm
      rw [Input.after, Relieves, IsStuck, IsStuck, hpressed, h.isHeld_bindKey hop]
      tauto
  | unbindKey b key =>
      have hpressed : (input.unbindKey b key).pressed = input.pressed := rfl
      have hfewer : (input.unbindKey b key).IsHeld a → input.IsHeld a := .of_unbindKey
      refine Iff.trans ?_ (or_congr_left (and_iff_left id).symm)
      rw [Input.after, Orphans, IsStuck, IsStuck, hpressed]
      tauto
  | buttonDown | buttonUp => cases hop

end IsTabled

/-- Only an update looks at what was pressed at the last one. -/
theorem previous_after (hop : op ≠ .update) : (input.after op).previous = input.previous := by
  cases op with
  | update => exact absurd rfl hop
  | keyDown code | keyUp code =>
      cases code with
      | none => rfl
      | some code =>
          rw [Input.after]
          split <;> rfl
  | buttonDown button | buttonUp button => cases button <;> rfl
  | _ => rfl

end Input

namespace Booth

variable {s : Booth} {ops : List InputOp} {op : InputOp} {a : Action}

/-- The last key of an action that was held has been unbound while the action was pressed, and no
key has come to its relief since. -/
def Stranded (s : Booth) (ops : List InputOp) (a : Action) : Prop :=
  Since (fun before op ↦ (s.operated before).input.Orphans a op)
    (fun before op ↦ (s.operated before).input.Relieves a op) ops

theorem not_isStuck_of_isIdle (hs : s.input.IsIdle) : ¬s.input.IsStuck a := by
  rintro ⟨hpressed, -⟩
  rw [hs.pressed] at hpressed
  cases hpressed

theorem isStuck_operated (hs : s.input.IsIdle) (hops : ∀ op ∈ ops, op.isKeyboard = true) :
    (s.operated ops).input.IsStuck a ↔ s.Stranded ops a := by
  induction ops using List.reverseRecOn with
  | nil => exact iff_of_false (not_isStuck_of_isIdle hs) not_since_nil
  | append_singleton ops op ih =>
      rw [List.forall_mem_append, List.forall_mem_singleton] at hops
      have htabled := isTabled_of_isKeyboard hs hops.1
      rw [input_operated, htabled.isStuck_after hops.2, ih hops.1, Stranded, Stranded,
        since_append_singleton]

/-! ## What is announced -/

/-- The events that have been announced to the observer, oldest first. -/
def announced (s : Booth) : List Event :=
  s.journal.notes.filterMap fun
    | .event event => some event
    | _ => none

theorem announced_tell (s : Booth) (events : List Event) :
    (s.tell events).announced = s.announced ++ if s.isObserved then events else [] := by
  rw [announced, tell, List.filterMap_append, List.filterMap_map]
  simp [announced]

theorem isObserved_operated (s : Booth) (ops : List InputOp) :
    (s.operated ops).isObserved = s.isObserved := by
  induction ops using List.reverseRecOn with
  | nil => rfl
  | append_singleton ops op ih =>
      rw [operated_append_singleton, perform_apply]
      exact ih

theorem announced_operated (hs : s.isObserved = true) (ops : List InputOp) (op : InputOp) :
    (s.operated (ops ++ [op])).announced =
      (s.operated ops).announced ++ op.tells (s.operated ops).input := by
  have hobserved := (isObserved_operated s ops).trans hs
  rw [operated_append_singleton, perform_apply, announced_tell]
  exact congrArg _ (if_pos hobserved)

theorem edgesOf_tells_update (input : Input) (a : Action) :
    edgesOf a (InputOp.update.tells input) =
      (if (input.pressed a && !input.previous a) = true then [.actionPressed] else []) ++
        if (input.previous a && !input.pressed a) = true then [.actionReleased] else [] := by
  rw [InputOp.tells, edgesOf_append, edgesOf_announcement (.inl rfl) (ActionSet.nodup_toList _),
    edgesOf_announcement (.inr rfl) (ActionSet.nodup_toList _)]
  simp only [ActionSet.mem_toList, ActionSet.minus]

theorem edgesOf_tells_of_ne_update {input : Input} (hop : op ≠ .update) :
    edgesOf a (op.tells input) = [] := by
  cases op with
  | update => exact absurd rfl hop
  | connect | disconnect =>
      rw [InputOp.tells]
      split <;> rfl
  | _ => rfl

/-- No key is held, no action is pressed, and none has been announced to the observer. -/
structure IsFresh (s : Booth) : Prop where
  idle : s.input.IsIdle
  previous : s.input.previous = .empty
  observed : s.isObserved = true
  announced : s.announced = []

theorem alternates_operated (hs : s.IsFresh) (ops : List InputOp) (a : Action) :
    Alternates a ((s.operated ops).input.previous a) (s.operated ops).announced := by
  induction ops using List.reverseRecOn with
  | nil =>
      refine ⟨0, ?_, ?_⟩
      · rw [operated, List.foldl_nil, hs.announced]
        rfl
      · simp [operated, hs.previous, ActionSet.empty]
  | append_singleton ops op ih =>
      rw [announced_operated hs.observed, input_operated]
      by_cases hop : op = .update
      · subst hop
        refine ih.update ?_
        rw [edgesOf_append, edgesOf_tells_update]
        rfl
      · obtain ⟨n, hn, hodd⟩ := ih
        rw [Input.previous_after hop]
        refine ⟨n, ?_, hodd⟩
        rw [edgesOf_append, edgesOf_tells_of_ne_update hop, List.append_nil, hn]

/-- The next update tells that an action has been released that was announced as pressed, unless the
action is still pressed. -/
theorem edges_update (hs : s.IsFresh) (ops : List InputOp)
    (hlast : (edgesOf a (s.operated ops).announced).getLast? = some .actionPressed) :
    edgesOf a (s.operated (ops ++ [.update])).announced =
      edgesOf a (s.operated ops).announced ++
        if (s.operated ops).input.pressed a = true then [] else [.actionReleased] := by
  have hprevious := (alternates_operated hs ops a).eq_true_of_getLast? hlast
  rw [announced_operated hs.observed, edgesOf_append, edgesOf_tells_update, hprevious]
  cases (s.operated ops).input.pressed a <;> rfl

theorem not_isStuck_iff_throughout (hs : s.input.IsIdle) (hops : ∀ op ∈ ops, op.isKeyboard = true) :
    (∀ before, before <+: ops → ∀ a, ¬(s.operated before).input.IsStuck a) ↔
      Throughout (fun before op ↦ ∀ a, ¬(s.operated before).input.Orphans a op) ops := by
  induction ops using List.reverseRecOn with
  | nil =>
      refine iff_of_true (fun before hbefore a ↦ ?_) fun n hn ↦ nomatch hn
      rw [List.prefix_nil.mp hbefore]
      exact not_isStuck_of_isIdle hs
  | append_singleton ops op ih =>
      rw [List.forall_mem_append, List.forall_mem_singleton] at hops
      have htabled := isTabled_of_isKeyboard hs hops.1
      rw [forall_prefix_append_singleton, throughout_append_singleton, ← ih hops.1]
      refine and_congr_right fun hnone ↦ forall_congr' fun a ↦ not_congr ?_
      rw [input_operated, htabled.isStuck_after hops.2]
      exact or_iff_right fun hstuck ↦ hnone ops (List.prefix_refl ops) a hstuck.1

/-- When no key of an action is held, the action is pressed just if it is stranded, and if it is
not, then the next update tells of its release if its press is the last that was told of it.  No
action is ever stuck in a run just if no unbinding takes the last key that is held from a pressed
action. -/
theorem operated_strands_orphans (hs : s.IsFresh) (hops : ∀ op ∈ ops, op.isKeyboard = true) :
    (∀ a, (∀ key ∈ (s.operated ops).input.bindings a, ¬KeyHeld ops key) →
      (¬s.Stranded ops a → (s.operated ops).input.pressed a = false ∧
        ((edgesOf a (s.operated ops).announced).getLast? = some .actionPressed →
          edgesOf a (s.operated (ops ++ [.update])).announced =
            edgesOf a (s.operated ops).announced ++ [.actionReleased])) ∧
      (s.Stranded ops a → (s.operated ops).input.pressed a = true ∧
        ((edgesOf a (s.operated ops).announced).getLast? = some .actionPressed →
          edgesOf a (s.operated (ops ++ [.update])).announced =
            edgesOf a (s.operated ops).announced))) ∧
    ((∀ before, before <+: ops → ∀ a, ¬(s.operated before).input.IsStuck a) ↔
      Throughout (fun before op ↦ ∀ a, ¬(s.operated before).input.Orphans a op) ops) := by
  refine ⟨fun a hnone ↦ ?_, not_isStuck_iff_throughout hs.idle hops⟩
  have hheld : ¬(s.operated ops).input.IsHeld a := by
    rw [isHeld_operated hs.idle.tabled hs.idle.keys (bindsKeys_of_isKeyboard hops)]
    rintro ⟨key, hkey, hdown⟩
    exact hnone key hkey hdown
  have hstuck : (s.operated ops).input.pressed a = true ↔ s.Stranded ops a := by
    rw [← isStuck_operated hs.idle hops]
    exact (and_iff_left hheld).symm
  constructor
  · intro hfree
    have hpressed : ¬(s.operated ops).input.pressed a = true := mt hstuck.mp hfree
    refine ⟨Bool.not_eq_true _ |>.mp hpressed, fun hlast ↦ ?_⟩
    rw [edges_update hs ops hlast, if_neg hpressed]
  · intro hstranded
    refine ⟨hstuck.mpr hstranded, fun hlast ↦ ?_⟩
    rw [edges_update hs ops hlast, if_pos (hstuck.mpr hstranded), List.append_nil]

/-- Two keys go down, one of them is unbound, and both go up. -/
def unbound : List InputOp :=
  [.keyDown (some (.int 13)), .keyDown (some (.int 27)), .update, .unbindKey .confirm (.int 13),
    .keyUp (some (.int 13)), .keyUp (some (.int 27))]

theorem isFresh_start : ({} : Booth).IsFresh := ⟨Input.isIdle_start, rfl, rfl, rfl⟩

theorem not_keyHeld_unbound (key : Value) : ¬KeyHeld unbound key := by
  have hkeys : (({} : Booth).operated unbound).input.keys = [] := by rfl
  rw [← isAmong_keys_operated (s := {}) Input.isIdle_start.tabled rfl (by decide), hkeys]
  exact Bool.false_ne_true

/-- The action of the key that was unbound stays pressed, and that of the other is released. -/
theorem operated_strands_orphans_of_unbound :
    ({} : Booth).IsFresh ∧ (∀ op ∈ unbound, op.isKeyboard = true) ∧ (∀ key, ¬KeyHeld unbound key) ∧
      ({} : Booth).Stranded unbound .confirm ∧ ¬({} : Booth).Stranded unbound .cancel ∧
      (({} : Booth).operated unbound).input.pressed .confirm = true ∧
      edgesOf .confirm (({} : Booth).operated (unbound ++ [.update])).announced =
        edgesOf .confirm (({} : Booth).operated unbound).announced ∧
      edgesOf .cancel (({} : Booth).operated (unbound ++ [.update])).announced =
        edgesOf .cancel (({} : Booth).operated unbound).announced ++ [.actionReleased] ∧
      ¬Throughout (fun before op ↦ ∀ a, ¬(({} : Booth).operated before).input.Orphans a op)
        unbound := by
  have hops : ∀ op ∈ unbound, op.isKeyboard = true := by decide
  obtain ⟨hactions, hrun⟩ := operated_strands_orphans isFresh_start hops
  have hstuck : (({} : Booth).operated unbound).input.IsStuck .confirm :=
    ⟨by decide +kernel, by decide +kernel⟩
  have hstranded := (isStuck_operated Input.isIdle_start hops).mp hstuck
  have hfree : ¬({} : Booth).Stranded unbound .cancel := by
    rw [← isStuck_operated Input.isIdle_start hops]
    rintro ⟨hpressed, -⟩
    exact absurd hpressed (by decide +kernel)
  obtain ⟨-, hconfirm⟩ := hactions .confirm fun key _ ↦ not_keyHeld_unbound key
  obtain ⟨hcancel, -⟩ := hactions .cancel fun key _ ↦ not_keyHeld_unbound key
  refine ⟨isFresh_start, hops, not_keyHeld_unbound, hstranded, hfree, (hconfirm hstranded).1,
    (hconfirm hstranded).2 (by decide +kernel), (hcancel hfree).2 (by decide +kernel),
    fun hnone ↦ ?_⟩
  exact hrun.mpr hnone unbound (List.prefix_refl _) .confirm hstuck

/-- A key is unbound while it is held; no key is held in the end, and its action stays pressed,
whatever the next update tells. -/
theorem exists_action_stuck :
    ∃ ops : List InputOp, (∀ op ∈ ops, op.isKeyboard = true) ∧ (∀ key, ¬KeyHeld ops key) ∧
      (({} : Booth).operated ops).input.pressed .confirm = true ∧
      (edgesOf .confirm (({} : Booth).operated ops).announced).getLast? = some .actionPressed ∧
      edgesOf .confirm (({} : Booth).operated (ops ++ [.update])).announced = [.actionPressed] :=
  ⟨unbound, by decide, not_keyHeld_unbound, by decide +kernel, by decide +kernel, by decide +kernel⟩

end Booth

end LinearDialogue
