import LinearDialogue.Proofs.HeldActions
import LinearDialogue.Proofs.StuckActions

/-!
# Presses within a frame

The keys that go down and up between two updates announce nothing.  The second update compares the
actions that are pressed with those that were at the first, so it tells of a press only if the press
outlasts the frame: no key goes up after it that lets go of the action.
-/

namespace LinearDialogue

namespace InputOp

/-- Does an operation tell that a key goes down or up? -/
def isStroke : InputOp → Bool
  | .keyDown _ | .keyUp _ => true
  | _ => false

variable {op : InputOp}

theorem keepsBindings_of_isStroke (h : op.isStroke = true) : op.keepsBindings = true := by
  cases op <;> first | rfl | cases h

theorem tells_of_isStroke (h : op.isStroke = true) (input : Input) : op.tells input = [] := by
  cases op <;> first | rfl | cases h

theorem ne_update_of_isStroke (h : op.isStroke = true) : op ≠ .update := by
  rintro rfl
  cases h

end InputOp

namespace Booth

variable {s : Booth} {past strokes : List InputOp} {a : Action}

/-- After what is past, a key or button of an action goes down, and nothing after it lets go of the
action. -/
def Outlasts (s : Booth) (past strokes : List InputOp) (a : Action) : Prop :=
  Since (fun before op ↦ (s.operated (past ++ before)).input.Presses a op)
    (fun before op ↦ (s.operated (past ++ before)).input.LetsGo a op) strokes

section Strokes

variable (hstrokes : ∀ op ∈ strokes, op.isStroke = true)

include hstrokes

theorem previous_strokes :
    (s.operated (past ++ strokes)).input.previous = (s.operated past).input.previous := by
  induction strokes using List.reverseRecOn with
  | nil => rw [List.append_nil]
  | append_singleton strokes op ih =>
      rw [List.forall_mem_append, List.forall_mem_singleton] at hstrokes
      rw [← List.append_assoc, input_operated,
        Input.previous_after (InputOp.ne_update_of_isStroke hstrokes.2), ih hstrokes.1]

theorem announced_strokes (hs : s.isObserved = true) :
    (s.operated (past ++ strokes)).announced = (s.operated past).announced := by
  induction strokes using List.reverseRecOn with
  | nil => rw [List.append_nil]
  | append_singleton strokes op ih =>
      rw [List.forall_mem_append, List.forall_mem_singleton] at hstrokes
      rw [← List.append_assoc, announced_operated hs, InputOp.tells_of_isStroke hstrokes.2,
        List.append_nil, ih hstrokes.1]

/-- An action that was not pressed before some strokes is pressed after them just if a press among
them outlasts them. -/
theorem pressed_strokes_iff_outlasts (hs : s.input.IsTabled)
    (hpast : ∀ op ∈ past, op.bindsKeys = true)
    (hreleased : (s.operated past).input.pressed a = false) :
    (s.operated (past ++ strokes)).input.pressed a = true ↔ s.Outlasts past strokes a := by
  induction strokes using List.reverseRecOn with
  | nil =>
      rw [List.append_nil, hreleased]
      exact iff_of_false Bool.false_ne_true not_since_nil
  | append_singleton strokes op ih =>
      rw [List.forall_mem_append, List.forall_mem_singleton] at hstrokes
      have hkeeps : ∀ op ∈ strokes, op.keepsBindings = true :=
        fun op hop ↦ InputOp.keepsBindings_of_isStroke (hstrokes.1 op hop)
      have hbinds := List.forall_mem_append.mpr
        ⟨hpast, InputOp.bindsKeys_of_keepsBindings hkeeps⟩
      rw [← List.append_assoc, input_operated, (isTabled_operated hs hbinds).pressed_after
        (InputOp.keepsBindings_of_isStroke hstrokes.2), ih hstrokes.1, Outlasts, Outlasts,
        since_append_singleton]

end Strokes

/-- The update at the end of a frame of strokes tells that an action has been pressed, and nothing
else of the action, if it was not pressed at the start of the frame and a press among the strokes
outlasts the frame.  If none does, then the update tells nothing of the action, however often its
keys went down. -/
theorem operated_announces_outlasting_press (hs : s.input.IsTabled)
    (hobserved : s.isObserved = true)
    (hpast : ∀ op ∈ past, op.bindsKeys = true) (hstrokes : ∀ op ∈ strokes, op.isStroke = true)
    (hreleased : (s.operated (past ++ [.update])).input.pressed a = false) :
    (s.operated (past ++ [.update] ++ strokes)).announced =
      (s.operated (past ++ [.update])).announced ∧
    (s.Outlasts (past ++ [.update]) strokes a →
      edgesOf a (s.operated (past ++ [.update] ++ strokes ++ [.update])).announced =
        edgesOf a (s.operated (past ++ [.update])).announced ++ [.actionPressed]) ∧
    (¬s.Outlasts (past ++ [.update]) strokes a →
      edgesOf a (s.operated (past ++ [.update] ++ strokes ++ [.update])).announced =
        edgesOf a (s.operated (past ++ [.update])).announced) := by
  have hbinds : ∀ op ∈ past ++ [.update], op.bindsKeys = true :=
    List.forall_mem_append.mpr ⟨hpast, List.forall_mem_singleton.mpr rfl⟩
  have hpressed := pressed_strokes_iff_outlasts hstrokes hs hbinds hreleased
  have hprevious : (s.operated (past ++ [.update] ++ strokes)).input.previous a = false := by
    rw [previous_strokes hstrokes, ← hreleased, input_operated]
    rfl
  have hsilent : (s.operated (past ++ [.update] ++ strokes)).announced =
      (s.operated (past ++ [.update])).announced := announced_strokes hstrokes hobserved
  have hupdate : edgesOf a (s.operated (past ++ [.update] ++ strokes ++ [.update])).announced =
      edgesOf a (s.operated (past ++ [.update])).announced ++
        if (s.operated (past ++ [.update] ++ strokes)).input.pressed a = true
          then [.actionPressed] else [] := by
    rw [announced_operated hobserved, edgesOf_append, hsilent, edgesOf_tells_update, hprevious]
    simp
  refine ⟨hsilent, fun hlasts ↦ ?_, fun hnone ↦ ?_⟩
  · rw [hupdate, if_pos (hpressed.mpr hlasts)]
  · rw [hupdate, if_neg (mt hpressed.mp hnone), List.append_nil]

/-- A key of an action goes down and up, another one of it goes down, and so does the only key of a
second action, which goes up again. -/
def tapped : List InputOp :=
  [.keyDown (some (.int 13)), .keyDown (some (.int 112)), .keyUp (some (.int 13)),
    .keyDown (some (.int 32)), .keyUp (some (.int 112))]

theorem operated_announces_outlasting_press_of_tapped :
    Input.start.IsTabled ∧ (∀ op ∈ tapped, op.isStroke = true) ∧
      ({} : Booth).Outlasts [.update] tapped .confirm ∧
      ¬({} : Booth).Outlasts [.update] tapped .pause ∧
      edgesOf .confirm (({} : Booth).operated (.update :: tapped ++ [.update])).announced =
        [.actionPressed] ∧
      edgesOf .pause (({} : Booth).operated (.update :: tapped ++ [.update])).announced = [] := by
  have hstrokes : ∀ op ∈ tapped, op.isStroke = true := by decide
  have htabled := Input.isIdle_start.tabled
  have hconfirm : ({} : Booth).Outlasts [.update] tapped .confirm :=
    (pressed_strokes_iff_outlasts hstrokes htabled (by decide) (by decide)).mp (by decide +kernel)
  have hpause : ¬({} : Booth).Outlasts [.update] tapped .pause :=
    mt (pressed_strokes_iff_outlasts hstrokes htabled (by decide) (by decide)).mpr
      (by decide +kernel)
  obtain ⟨-, hlasts, -⟩ := @operated_announces_outlasting_press {} [] tapped .confirm htabled rfl
    nofun hstrokes (by decide)
  obtain ⟨-, -, hnone⟩ := @operated_announces_outlasting_press {} [] tapped .pause htabled rfl
    nofun hstrokes (by decide)
  exact ⟨htabled, hstrokes, hconfirm, hpause, hlasts hconfirm, hnone hpause⟩

/-- A key goes down and up between two updates, and the second one tells nothing of its action. -/
theorem exists_press_unannounced :
    ∃ strokes : List InputOp, (∀ op ∈ strokes, op.isStroke = true) ∧
      (({} : Booth).operated [.update]).input.pressed .confirm = false ∧
      (∃ key ∈ (({} : Booth).operated [.update]).input.bindings .confirm,
        .keyDown (some key) ∈ strokes) ∧
      edgesOf .confirm (({} : Booth).operated (.update :: strokes ++ [.update])).announced = [] :=
  ⟨[.keyDown (some (.int 13)), .keyUp (some (.int 13))], by decide, by decide,
    ⟨.int 13, by decide, List.mem_cons_self⟩, by decide +kernel⟩

end Booth

end LinearDialogue
