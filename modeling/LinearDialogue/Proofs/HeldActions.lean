import LinearDialogue.Proofs.Keyboards

/-!
# Held actions

An action is held while a key or a button of it is.  A key that goes up lets go of an action if no
other key of it is held, and a button that goes up lets go of its actions at once.  So an action
that is held lapses when a device lets go of it while another one still holds it, and is not pressed
again before one of its keys or buttons goes down.
-/

namespace LinearDialogue

namespace InputOp

/-- Does an operation leave the bindings as they are? -/
def keepsBindings : InputOp → Bool
  | .bindKey .. | .unbindKey .. => false
  | _ => true

/-- Does an operation tell that a button goes down? -/
def isButtonDown (button : Int) : InputOp → Bool
  | .buttonDown (some code) => (Value.int button).agrees code
  | _ => false

/-- Does an operation tell that a button goes up? -/
def isButtonUp (button : Int) : InputOp → Bool
  | .buttonUp (some code) => (Value.int button).agrees code
  | _ => false

theorem bindsKeys_of_keepsBindings {ops : List InputOp}
    (hops : ∀ op ∈ ops, op.keepsBindings = true) : ∀ op ∈ ops, op.bindsKeys = true := by
  intro op hop
  have hkeeps := hops op hop
  cases op <;> first | rfl | cases hkeeps

end InputOp

/-- A button has gone down, and not gone up since. -/
def ButtonHeld (ops : List InputOp) (button : Int) : Prop :=
  Since (fun _ op ↦ op.isButtonDown button = true) (fun _ op ↦ op.isButtonUp button = true) ops

namespace Input

variable {input : Input} {op : InputOp} {button : Value} {a : Action}

/-- A button of an action. -/
def IsButtonOf (button : Value) (a : Action) : Prop :=
  ∃ n ∈ padButtons a, (Value.int n).agrees button = true

theorem mem_actionsOfButton : a ∈ actionsOfButton button ↔ IsButtonOf button a := by
  rw [actionsOfButton, List.mem_filter, List.any_eq_true]
  refine and_iff_right ?_
  cases a <;> decide

theorem pressed_buttonDown :
    (input.buttonDown button).pressed a = true ↔ IsButtonOf button a ∨ input.pressed a = true := by
  rw [← mem_actionsOfButton]
  exact ActionSet.foldl_insert _ _

theorem pressed_buttonUp :
    (input.buttonUp button).pressed a = true ↔ ¬IsButtonOf button a ∧ input.pressed a = true := by
  rw [← mem_actionsOfButton]
  exact ActionSet.foldl_erase _ _

/-- A key or a button of an action goes down. -/
def Presses (input : Input) (a : Action) : InputOp → Prop
  | .keyDown (some key) => key.isAmong (input.bindings a) = true
  | .buttonDown (some button) => IsButtonOf button a
  | _ => False

/-- A button of an action goes up, or a key of it after which no other one is held. -/
def LetsGo (input : Input) (a : Action) : InputOp → Prop
  | .keyUp (some key) =>
    key.isAmong (input.bindings a) = true ∧ ¬(input.keyUp key).IsHeld a
  | .buttonUp (some button) => IsButtonOf button a
  | _ => False

theorem Presses.not_letsGo (h : input.Presses a op) : ¬input.LetsGo a op := by
  cases op with
  | keyDown code | buttonDown code => exact id
  | _ => cases h

namespace IsTabled

theorem not_presses_of_isInert (h : input.IsTabled) (hop : op.isInert = true) :
    ¬input.Presses a op := by
  intro hpresses
  match op, hpresses with
  | .keyDown (some key), hbound => exact h.not_isAmong_of_isInert hop hbound
  | .buttonDown (some _), _ => cases hop

theorem not_letsGo_of_isInert (h : input.IsTabled) (hop : op.isInert = true) :
    ¬input.LetsGo a op := by
  intro hletsGo
  match op, hletsGo with
  | .keyUp (some key), hlast => exact h.not_isAmong_of_isInert hop hlast.1
  | .buttonUp (some _), _ => cases hop

/-- An action is pressed after an operation if it was and is not let go, or if the operation presses
it. -/
theorem pressed_after (h : input.IsTabled) (hop : op.keepsBindings = true) :
    (input.after op).pressed a = true ↔
      input.pressed a = true ∧ ¬input.LetsGo a op ∨ input.Presses a op := by
  cases op using InputOp.cases_isInert with
  | inert op hinert =>
      obtain ⟨other, hafter⟩ := after_of_isInert hinert input
      rw [hafter, or_iff_left (h.not_presses_of_isInert hinert),
        and_iff_left (h.not_letsGo_of_isInert hinert)]
  | keyDown key hkey =>
      refine Iff.trans ?_ (or_congr_left (and_iff_left id).symm)
      rw [after_keyDown hkey, h.pressed_keyDown, or_comm, Presses]
  | keyUp key hkey =>
      refine Iff.trans ?_ (or_iff_left id).symm
      rw [after_keyUp hkey, h.pressed_keyUp, LetsGo, not_and_not_right]
  | buttonDown button =>
      refine Iff.trans ?_ (or_congr_left (and_iff_left id).symm)
      rw [Input.after, pressed_buttonDown, or_comm, Presses]
  | buttonUp button =>
      refine Iff.trans ?_ (or_iff_left id).symm
      rw [Input.after, pressed_buttonUp, and_comm, LetsGo]
  | bindKey | unbindKey => cases hop

/-- An action of which a key is held keeps one unless it is let go. -/
theorem isHeld_after (h : input.IsTabled) (hop : op.keepsBindings = true) (hheld : input.IsHeld a)
    (hkept : ¬input.LetsGo a op) : (input.after op).IsHeld a := by
  cases op using InputOp.cases_isInert with
  | inert op hinert =>
      obtain ⟨other, hafter⟩ := after_of_isInert hinert input
      exact hafter ▸ hheld
  | keyDown key hkey => exact after_keyDown hkey ▸ (h.isHeld_keyDown hkey).mpr (.inr hheld)
  | keyUp key hkey =>
      rw [after_keyUp hkey]
      by_cases hbound : key.isAmong (input.bindings a) = true
      · by_contra hnone
        exact hkept ⟨hbound, hnone⟩
      · exact (h.isHeld_keyUp hbound).mpr hheld
  | buttonDown | buttonUp => exact hheld
  | bindKey | unbindKey => cases hop

/-- A key of an action is held if one was or the operation presses the action. -/
theorem isHeld_or_presses (h : input.IsTabled) (hop : op.keepsBindings = true)
    (hheld : (input.after op).IsHeld a) : input.IsHeld a ∨ input.Presses a op := by
  cases op using InputOp.cases_isInert with
  | inert op hinert =>
      obtain ⟨other, hafter⟩ := after_of_isInert hinert input
      rw [hafter] at hheld
      exact .inl hheld
  | keyDown key hkey =>
      rw [after_keyDown hkey, h.isHeld_keyDown hkey] at hheld
      exact hheld.symm
  | keyUp key hkey =>
      rw [after_keyUp hkey] at hheld
      exact .inl (h.isHeld_of_keyUp hheld)
  | buttonDown | buttonUp => exact .inl hheld
  | bindKey | unbindKey => cases hop

end IsTabled

theorem bindings_after (hop : op.keepsBindings = true) :
    (input.after op).bindings = input.bindings := by
  cases op using InputOp.cases_isInert with
  | inert op hinert =>
      obtain ⟨other, hafter⟩ := after_of_isInert hinert input
      rw [hafter]
  | keyDown key hkey => rw [after_keyDown hkey, keyDown]
  | keyUp key hkey => rw [after_keyUp hkey, keyUp]
  | buttonDown | buttonUp => rfl
  | bindKey | unbindKey => cases hop

end Input

namespace Booth

variable {s : Booth} {ops : List InputOp} {op : InputOp} {a : Action}

/-- A key that is bound to an action is held, or a button of it. -/
def Holds (s : Booth) (ops : List InputOp) (a : Action) : Prop :=
  (∃ key ∈ s.input.bindings a, KeyHeld ops key) ∨ ∃ button ∈ padButtons a, ButtonHeld ops button

/-- An operation lets go of an action that is still held after it. -/
def Drops (s : Booth) (ops : List InputOp) (a : Action) (op : InputOp) : Prop :=
  (s.operated ops).input.LetsGo a op ∧ s.Holds (ops ++ [op]) a

/-- An action has been let go while it was held, and not pressed since. -/
def Lapsed (s : Booth) (ops : List InputOp) (a : Action) : Prop :=
  Since (fun before op ↦ s.Drops before a op)
    (fun before op ↦ (s.operated before).input.Presses a op) ops

theorem bindings_operated (hops : ∀ op ∈ ops, op.keepsBindings = true) :
    (s.operated ops).input.bindings = s.input.bindings := by
  induction ops using List.reverseRecOn with
  | nil => rfl
  | append_singleton ops op ih =>
      rw [List.forall_mem_append, List.forall_mem_singleton] at hops
      rw [input_operated, Input.bindings_after hops.2, ih hops.1]

theorem holds_iff (hs : s.input.IsIdle) (hops : ∀ op ∈ ops, op.keepsBindings = true) :
    s.Holds ops a ↔
      (s.operated ops).input.IsHeld a ∨ ∃ button ∈ padButtons a, ButtonHeld ops button := by
  rw [isHeld_operated hs.tabled hs.keys (InputOp.bindsKeys_of_keepsBindings hops),
    bindings_operated hops, Holds]

theorem buttonHeld_append_singleton {button : Int} :
    ButtonHeld (ops ++ [op]) button ↔
      ButtonHeld ops button ∧ ¬op.isButtonUp button = true ∨ op.isButtonDown button = true :=
  since_append_singleton

section Step

variable (hs : s.input.IsIdle) (hops : ∀ op ∈ ops, op.keepsBindings = true)
  (hop : op.keepsBindings = true)

include hs hops

theorem isTabled_of_keepsBindings : (s.operated ops).input.IsTabled :=
  isTabled_operated hs.tabled (InputOp.bindsKeys_of_keepsBindings hops)

include hop

theorem holds_append_singleton_iff : s.Holds (ops ++ [op]) a ↔
    ((s.operated ops).input.after op).IsHeld a ∨
      ∃ button ∈ padButtons a, ButtonHeld (ops ++ [op]) button := by
  rw [holds_iff hs (List.forall_mem_append.mpr ⟨hops, List.forall_mem_singleton.mpr hop⟩),
    input_operated]

/-- What is held stays so unless it is let go. -/
theorem Holds.append_singleton (hholds : s.Holds ops a)
    (hkept : ¬(s.operated ops).input.LetsGo a op) : s.Holds (ops ++ [op]) a := by
  rw [holds_append_singleton_iff hs hops hop]
  rcases (holds_iff hs hops).mp hholds with hheld | ⟨button, hbutton, hheld⟩
  · exact .inl ((isTabled_of_keepsBindings hs hops).isHeld_after hop hheld hkept)
  · refine .inr ⟨button, hbutton, buttonHeld_append_singleton.mpr (.inl ⟨hheld, fun hup ↦ ?_⟩)⟩
    refine hkept ?_
    match op, hup with
    | .buttonUp (some _), hup => exact ⟨button, hbutton, hup⟩

/-- What is held was so before or is pressed now. -/
theorem Holds.of_append_singleton (hholds : s.Holds (ops ++ [op]) a) :
    s.Holds ops a ∨ (s.operated ops).input.Presses a op := by
  rw [holds_iff hs hops]
  rcases (holds_append_singleton_iff hs hops hop).mp hholds with hheld | ⟨button, hbutton, hheld⟩
  · exact ((isTabled_of_keepsBindings hs hops).isHeld_or_presses hop hheld).imp_left .inl
  · rcases buttonHeld_append_singleton.mp hheld with ⟨hbefore, -⟩ | hdown
    · exact .inl (.inr ⟨button, hbutton, hbefore⟩)
    · match op, hdown with
      | .buttonDown (some _), hdown => exact .inr ⟨button, hbutton, hdown⟩

theorem holds_of_presses (hpresses : (s.operated ops).input.Presses a op) :
    s.Holds (ops ++ [op]) a := by
  rw [holds_append_singleton_iff hs hops hop]
  match op, hpresses with
  | .keyDown (some key), hbound =>
      have htabled := isTabled_of_keepsBindings hs hops
      have hkey := htabled.isKey_of_isAmong hbound
      rw [Input.after, if_pos hkey]
      exact .inl ((htabled.isHeld_keyDown hkey).mpr (.inl hbound))
  | .buttonDown (some _), ⟨button, hbutton, hagrees⟩ =>
      exact .inr ⟨button, hbutton, buttonHeld_append_singleton.mpr (.inr hagrees)⟩

end Step

theorem pressed_append_singleton (hs : s.input.IsIdle) (hops : ∀ op ∈ ops, op.keepsBindings = true)
    (hop : op.keepsBindings = true) : (s.operated (ops ++ [op])).input.pressed a = true ↔
      (s.operated ops).input.pressed a = true ∧ ¬(s.operated ops).input.LetsGo a op ∨
        (s.operated ops).input.Presses a op := by
  rw [input_operated]
  exact (isTabled_of_keepsBindings hs hops).pressed_after hop

theorem lapsed_append_singleton : s.Lapsed (ops ++ [op]) a ↔
    s.Lapsed ops a ∧ ¬(s.operated ops).input.Presses a op ∨ s.Drops ops a op :=
  since_append_singleton

theorem pressed_iff (hs : s.input.IsIdle) (hops : ∀ op ∈ ops, op.keepsBindings = true)
    (a : Action) : (s.operated ops).input.pressed a = true ↔ s.Holds ops a ∧ ¬s.Lapsed ops a := by
  induction ops using List.reverseRecOn with
  | nil =>
      refine iff_of_false (fun hpressed ↦ ?_) ?_
      · rw [operated, List.foldl_nil, hs.pressed] at hpressed
        cases hpressed
      · rintro ⟨⟨_, -, hheld⟩ | ⟨_, -, hheld⟩, -⟩ <;> exact not_since_nil hheld
  | append_singleton ops op ih =>
      rw [List.forall_mem_append, List.forall_mem_singleton] at hops
      obtain ⟨hops, hop⟩ := hops
      rw [pressed_append_singleton hs hops hop, ih hops, lapsed_append_singleton]
      constructor
      · rintro (⟨⟨hholds, hlasts⟩, hkept⟩ | hpresses)
        · refine ⟨hholds.append_singleton hs hops hop hkept, ?_⟩
          rintro (⟨hlapsed, -⟩ | ⟨hletsGo, -⟩)
          · exact hlasts hlapsed
          · exact hkept hletsGo
        · refine ⟨holds_of_presses hs hops hop hpresses, ?_⟩
          rintro (⟨-, hnone⟩ | ⟨hletsGo, -⟩)
          · exact hnone hpresses
          · exact hpresses.not_letsGo hletsGo
      · rintro ⟨hholds, hlasts⟩
        by_cases hpresses : (s.operated ops).input.Presses a op
        · exact .inr hpresses
        · have hbefore := (hholds.of_append_singleton hs hops hop).resolve_right hpresses
          exact .inl ⟨⟨hbefore, fun hlapsed ↦ hlasts (.inl ⟨hlapsed, hpresses⟩)⟩,
            fun hletsGo ↦ hlasts (.inr ⟨hletsGo, hholds⟩)⟩

theorem pressed_iff_holds_iff (hs : s.input.IsIdle) (hops : ∀ op ∈ ops, op.keepsBindings = true) :
    (∀ before, before <+: ops → ∀ a,
        (s.operated before).input.pressed a = true ↔ s.Holds before a) ↔
      Throughout (fun before op ↦ ∀ a, ¬s.Drops before a op) ops := by
  induction ops using List.reverseRecOn with
  | nil =>
      refine iff_of_true (fun before hbefore a ↦ ?_) fun n hn ↦ nomatch hn
      rw [List.prefix_nil.mp hbefore, pressed_iff hs hops]
      exact and_iff_left not_since_nil
  | append_singleton ops op ih =>
      have hwhole := pressed_iff hs hops
      rw [List.forall_mem_append, List.forall_mem_singleton] at hops
      obtain ⟨hops, hop⟩ := hops
      rw [forall_prefix_append_singleton, throughout_append_singleton, ← ih hops]
      refine and_congr_right fun hexact ↦ forall_congr' fun a ↦ ?_
      rw [hwhole, and_iff_left_iff_imp, lapsed_append_singleton]
      constructor
      · intro hnever hdrops
        exact hnever hdrops.2 (.inr hdrops)
      · rintro hkept hholds (⟨hlapsed, hnone⟩ | hdrops)
        · have hbefore := (hholds.of_append_singleton hs hops hop).resolve_right hnone
          have hpressed := (hexact ops (List.prefix_refl ops) a).mpr hbefore
          exact ((pressed_iff hs hops a).mp hpressed).2 hlapsed
        · exact hkept hdrops

/-- As long as the bindings stay, an action is pressed just if a key or a button of it is held and
it has not lapsed.  In a run the actions that are pressed are always those that are held just if no
device lets go of an action that another one still holds. -/
theorem operated_presses_held_unless_lapsed (hs : s.input.IsIdle)
    (hops : ∀ op ∈ ops, op.keepsBindings = true) :
    (∀ a, (s.operated ops).input.pressed a = true ↔ s.Holds ops a ∧ ¬s.Lapsed ops a) ∧
      ((∀ before, before <+: ops → ∀ a,
          (s.operated before).input.pressed a = true ↔ s.Holds before a) ↔
        Throughout (fun before op ↦ ∀ a, ¬s.Drops before a op) ops) :=
  ⟨pressed_iff hs hops, pressed_iff_holds_iff hs hops⟩

/-- Two keys go down, and a button of the action of one of them goes down and up. -/
def overlapping : List InputOp :=
  [.keyDown (some (.int 13)), .keyDown (some (.int 27)), .buttonDown (some (.int 0)),
    .buttonUp (some (.int 0))]

theorem operated_presses_held_unless_lapsed_of_overlapping :
    Input.start.IsIdle ∧ (∀ op ∈ overlapping, op.keepsBindings = true) ∧
      (({} : Booth).operated overlapping).input.pressed .cancel = true ∧
      ({} : Booth).Holds overlapping .cancel ∧ ¬({} : Booth).Lapsed overlapping .cancel ∧
      ({} : Booth).Holds overlapping .confirm ∧ ({} : Booth).Lapsed overlapping .confirm ∧
      ¬Throughout (fun before op ↦ ∀ a, ¬({} : Booth).Drops before a op) overlapping := by
  have hops : ∀ op ∈ overlapping, op.keepsBindings = true := by decide
  obtain ⟨hpressed, hrun⟩ := operated_presses_held_unless_lapsed (s := {}) Input.isIdle_start hops
  have hcancel : (({} : Booth).operated overlapping).input.pressed .cancel = true := by
    decide +kernel
  have hconfirm : ({} : Booth).Holds overlapping .confirm :=
    .inl ⟨.int 13, by decide, by decide +kernel⟩
  have hreleased : ¬(({} : Booth).operated overlapping).input.pressed .confirm = true := by
    decide +kernel
  refine ⟨Input.isIdle_start, hops, hcancel, ((hpressed .cancel).mp hcancel).1,
    ((hpressed .cancel).mp hcancel).2, hconfirm, ?_, fun hnone ↦ ?_⟩
  · by_contra hlasts
    exact hreleased ((hpressed .confirm).mpr ⟨hconfirm, hlasts⟩)
  · exact hreleased ((hrun.mpr hnone overlapping (List.prefix_refl _) .confirm).mpr hconfirm)

/-- A key is held while a button of its action goes down and up, and the action is not pressed. -/
theorem exists_held_action_released :
    ∃ ops : List InputOp, (∀ op ∈ ops, op.keepsBindings = true) ∧ KeyHeld ops (.int 13) ∧
      (({} : Booth).operated ops).input.bindings .confirm = [.int 13, .int 32, .int 122] ∧
      (({} : Booth).operated ops).input.pressed .confirm = false :=
  ⟨[.keyDown (some (.int 13)), .buttonDown (some (.int 0)), .buttonUp (some (.int 0))],
    by decide, by decide +kernel, rfl, by decide +kernel⟩

end Booth

end LinearDialogue
