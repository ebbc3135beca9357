import LinearDialogue.Proofs.Updates

/-!
# Frames

Between two updates keys and buttons go down and up, keys are bound and unbound, and dialogues are
started and broken off.  Over any number of updates an action is announced as pressed, as released,
as pressed again, and so on, and the director goes on by one step for each press that it hears of.
-/

namespace LinearDialogue

/-- Is an operation a raw event of a key or a button, or a change of the bindings? -/
def InputOp.isRaw : InputOp → Bool
  | .keyDown _ | .keyUp _ | .buttonDown _ | .buttonUp _ | .bindKey .. | .unbindKey .. => true
  | _ => false

/-- Can an operation be done between two updates? -/
def StageOp.isInterlude : StageOp → Bool
  | .start .. | .play _ | .advance | .stop => true
  | .input op => op.isRaw
  | _ => false

namespace Stage

variable {first : Director} {count : Nat} {past : List (Moment StageListener)} {fuel : Nat}
  {s t u : Stage}

/-! ## Between updates -/

/-- The input devices have changed, and not what they remember of the last update. -/
def Retunes (s t : Stage) : Prop :=
  ∃ input, t = { s with input } ∧ input.previous = s.input.previous

theorem retunes_chains : Act.Chains Retunes where
  refl s := ⟨s.input, rfl, rfl⟩
  trans := by
    rintro s t u ⟨i, rfl, hi⟩ ⟨j, rfl, hj⟩
    exact ⟨j, rfl, hj.trans hi⟩

/-- A raw operation returns or fails, and changes the input devices only. -/
theorem retunes_perform (publish : Publisher Stage) {op : InputOp} (hop : op.isRaw = true) :
    (op.perform publish : Act Stage Value).Along Retunes ∧
      (op.perform publish : Act Stage Value).Ends fun _ ↦ True := by
  have hR := retunes_chains.closed.and Act.closed_ends
  have hupdate (f : Input → Input) (hf : ∀ input, (f input).previous = input.previous) :
      (Part.update Input f : Act Stage Unit).Along Retunes ∧
        (Part.update Input f : Act Stage Unit).Ends fun _ ↦ True :=
    ⟨fun s ↦ ⟨f s.input, rfl, hf s.input⟩, .update f⟩
  have hchange (f : Input → Value → Input) (hf : ∀ input v, (f input v).previous = input.previous)
      (code : Option Value) : (InputOp.change f code : Act Stage Value).Along Retunes ∧
        (InputOp.change f code : Act Stage Value).Ends fun _ ↦ True := by
    cases code with
    | none => exact hR.fail _
    | some code => exact hR.bind (hupdate _ fun input ↦ hf input code) fun _ ↦ hR.pure _
  have hkeyed (f : Input → Value → Input) (hf : ∀ input v, (f input v).previous = input.previous)
      (code : Option Value) : (InputOp.changeKeyed f code : Act Stage Value).Along Retunes ∧
        (InputOp.changeKeyed f code : Act Stage Value).Ends fun _ ↦ True := by
    rw [InputOp.changeKeyed]
    split
    · exact hchange f hf code
    · exact hR.fail _
  have hsettle {m : Act Stage Value} (hm : m.Along Retunes ∧ m.Ends fun _ ↦ True)
      (isSound : Input → Bool) : (InputOp.settle m isSound).Along Retunes ∧
        (InputOp.settle m isSound).Ends fun _ ↦ True := by
    refine hR.bind hm fun result ↦ hR.bind (hR.read Input) fun input ↦ ?_
    split
    · exact hR.pure _
    · exact hR.fail _
  cases op with
  | keyDown key => exact hkeyed Input.keyDown (fun _ _ ↦ rfl) key
  | keyUp key => exact hsettle (hkeyed Input.keyUp (fun _ _ ↦ rfl) key) _
  | buttonDown button => exact hchange Input.buttonDown (fun _ _ ↦ rfl) button
  | buttonUp button => exact hchange Input.buttonUp (fun _ _ ↦ rfl) button
  | bindKey b key =>
      have hbind := hupdate (fun input ↦ input.bindKey b key) fun _ ↦ rfl
      exact hsettle (hR.bind hbind fun _ ↦ hR.pure _) _
  | unbindKey b key =>
      have hunbind := hupdate (fun input ↦ input.unbindKey b key) fun _ ↦ rfl
      exact hsettle (hR.bind hunbind fun _ ↦ hR.pure _) _
  | _ => cases hop

/-- No press and no release has been announced, and the last update is remembered as it was. -/
structure KeepsEdges (s t : Stage) : Prop where
  previous : t.input.previous = s.input.previous
  edges : ∀ a, edgesOf a t.bus.announced = edgesOf a s.bus.announced

theorem KeepsEdges.trans (hst : s.KeepsEdges t) (htu : t.KeepsEdges u) : s.KeepsEdges u :=
  ⟨htu.previous.trans hst.previous, fun a ↦ (htu.edges a).trans (hst.edges a)⟩

theorem exists_operate_interlude {op : StageOp} (hs : s.IsAttentive first count past)
    (hfuel : 4 ≤ fuel) (hop : op.isInterlude = true) :
    ∃ outcome t, operate fuel op s = (outcome, t) ∧ outcome ≠ .stalled ∧
      t.IsAttentive first count past ∧ s.KeepsEdges t := by
  have hdirected (hdirection : op.IsDirection) (hdirect : ¬op.IsExternal) (hkeeps : op.KeepsLists) :
      ∃ outcome t, operate fuel op s = (outcome, t) ∧ outcome ≠ .stalled ∧
        t.IsAttentive first count past ∧ s.KeepsEdges t := by
    obtain ⟨dialogues, htold⟩ := hs.told
    obtain ⟨outcome, t, dialogues', hrun, ht, htells⟩ := exists_operate hfuel htold hdirection
    have htended := (same_operate id fuel hkeeps s hs.tended).2
    have hspares := spares_operate fuel hdirect s hs.onlooked
    rw [hrun] at htended hspares
    obtain ⟨honlooked, hinput, es, hannounced, hothers⟩ := hspares
    refine ⟨outcome, t, hrun, htells.ne_stalled, ⟨honlooked, ⟨dialogues', ht⟩, htended⟩,
      congrArg Input.previous hinput, fun a ↦ ?_⟩
    rw [hannounced, edgesOf_append, edgesOf_eq_nil a hothers, List.append_nil]
  cases op with
  | start | play | advance | stop => exact hdirected trivial not_false nofun
  | input op =>
      obtain ⟨hretunes, hends⟩ := retunes_perform (handling.publish fuel) hop
      obtain ⟨input, hinput, hprevious⟩ := hretunes s
      refine ⟨_, { s with input }, Prod.ext rfl hinput, ?_, hs.tune input, hprevious, fun _ ↦ rfl⟩
      rcases hends s with ⟨result, hresult⟩ | ⟨failure, hfailure, -⟩
      · exact fun h ↦ nomatch hresult.symm.trans h
      · exact fun h ↦ nomatch hfailure.symm.trans h
  | _ => cases hop

theorem performAll_keeps {ops : List StageOp} (hs : s.IsAttentive first count past)
    (hfuel : 4 ≤ fuel) (hops : ∀ op ∈ ops, op.isInterlude = true) :
    (∀ outcome ∈ (performAll fuel ops s).1, outcome ≠ .stalled) ∧
      (performAll fuel ops s).2.IsAttentive first count past ∧
      s.KeepsEdges (performAll fuel ops s).2 := by
  induction ops generalizing s with
  | nil => exact ⟨by simp [performAll], hs, rfl, fun _ ↦ rfl⟩
  | cons op ops ih =>
      obtain ⟨outcome, t, hrun, hends, ht, hkeeps⟩ :=
        exists_operate_interlude hs hfuel (hops op List.mem_cons_self)
      obtain ⟨hothers, hu, hlater⟩ := ih ht fun op hop ↦ hops op (List.mem_cons_of_mem _ hop)
      rw [performAll_cons ops hrun hends]
      exact ⟨List.forall_mem_cons.mpr ⟨hends, hothers⟩, hu, hkeeps.trans hlater⟩

/-! ## Runs -/

/-- A stage before anything is done: the handlers only look on, the director is not registered, and
no action has been pressed. -/
structure IsPrelude (s : Stage) : Prop where
  opening : s.IsOpening
  onlooked : s.IsOnlooked
  guests : ∀ type, ∀ r ∈ s.bus.registrations type, r.listener ≠ .director ∧ r.serial < s.bus.count
  previous : s.input.previous = .empty

theorem IsPrelude.isAttentive (hs : s.IsPrelude) :
    s.IsAttentive s.director s.bus.count s.bus.history where
  onlooked := hs.onlooked
  told := ⟨[], hs.opening.hasTold⟩
  tended := by
    apply IsFresh.isTended
    refine ⟨fun handler hmem call event ↦ ?_, hs.opening.disabled, hs.guests,
      hs.opening.calm.current⟩
    exact (hs.onlooked handler hmem call event).keepsLists

/-- Stages that come of one by updates and by what is done between them, with the actions that were
pressed at the last update. -/
inductive Reaches (fuel : Nat) (s : Stage) : ActionSet → Stage → Prop
  | refl : Reaches fuel s .empty s
  | perform {last : ActionSet} {t : Stage} {ops : List StageOp} (h : Reaches fuel s last t)
      (hops : ∀ op ∈ ops, op.isInterlude = true) : Reaches fuel s last (performAll fuel ops t).2
  | update {last : ActionSet} {t : Stage} {arrange : ActionSet → List Action}
      (h : Reaches fuel s last t) (harrange : ActionSet.IsArrangement arrange) :
      Reaches fuel s t.input.pressed (Input.updateBy arrange (handling.publish fuel) t).2

theorem Reaches.keeps {last : ActionSet} (h : Reaches fuel s last t) (hfuel : 4 ≤ fuel)
    (hs : s.IsPrelude) :
    t.IsAttentive s.director s.bus.count s.bus.history ∧ t.input.previous = last ∧
      ∀ a, Alternates a (last a) t.bus.announced := by
  induction h with
  | refl =>
      refine ⟨hs.isAttentive, hs.previous, fun a ↦ ⟨0, ?_, by simp [ActionSet.empty]⟩⟩
      rw [Bus.announced, hs.opening.history]
      rfl
  | perform _ hops ih =>
      obtain ⟨ht, hprevious, hedges⟩ := ih
      obtain ⟨-, hu, hkeeps⟩ := performAll_keeps ht hfuel hops
      refine ⟨hu, hkeeps.previous.trans hprevious, fun a ↦ ?_⟩
      obtain ⟨n, hn, hodd⟩ := hedges a
      exact ⟨n, (hkeeps.edges a).trans hn, hodd⟩
  | update _ harrange ih =>
      obtain ⟨ht, hprevious, hedges⟩ := ih
      obtain ⟨u, publications, hrun, hu, hnow, -, hnext⟩ := exists_updates ht hfuel harrange
      rw [hrun]
      rw [hprevious] at hnext
      exact ⟨hu, hnow, fun a ↦ (hedges a).update (hnext a)⟩

/-- One press, one record.  Whatever keys and buttons go down and up, are bound and unbound, and
whatever dialogues are started and broken off, every action is announced as pressed, as released, as
pressed again, and so on; and an update has the director take one step if it listens and its action
is pressed and was not pressed at the last update, and none if not.  Nothing stalls. -/
theorem reaches_advances_once_a_press {last : ActionSet} (hfuel : 4 ≤ fuel) (hs : s.IsPrelude)
    (h : Reaches fuel s last t) :
    (∀ a, Alternates a (last a) t.bus.announced) ∧
      (∀ arrange, ActionSet.IsArrangement arrange → ∃ u publications,
        Input.updateBy arrange (handling.publish fuel) t = (.returned (), u) ∧
        t.Updates s.director.settings.advanceAction arrange last publications u) ∧
      ∀ ops, (∀ op ∈ ops, StageOp.isInterlude op = true) →
        ∀ outcome ∈ (performAll fuel ops t).1, outcome ≠ .stalled := by
  obtain ⟨ht, hprevious, hedges⟩ := h.keeps hfuel hs
  refine ⟨hedges, fun arrange harrange ↦ ?_, fun ops hops ↦ (performAll_keeps ht hfuel hops).1⟩
  obtain ⟨u, publications, hrun, -, -, hupdates, -⟩ := exists_updates ht hfuel harrange
  rw [hprevious] at hupdates
  exact ⟨u, publications, hrun, hupdates⟩

/-- A stage with a handler that takes a note of every press before the director hears of it, and
then fails. -/
def watched : Stage where
  bus := {
    lists := [(.actionPressed, [⟨.int 5, .handler 0, .bool false, false, 0⟩])]
    count := 1 }
  handlers := [{ behaviour := fun _ event ↦ .note (.event event) (.fail (.alarm "boom")) }]
  speaker := .recorder

theorem isPrelude_watched : watched.IsPrelude where
  opening := by
    refine ⟨⟨⟨?_, ?_, nofun, ?_⟩, rfl, rfl⟩, rfl, rfl, rfl⟩
    · intro handler hmem call event
      rw [List.mem_singleton.mp hmem]
      exact .note (.fail _)
    · intro type
      cases type <;> decide
    · decide
  onlooked := by
    intro handler hmem call event
    rw [List.mem_singleton.mp hmem]
    exact .note (.fail _)
  guests type := by cases type <;> decide
  previous := rfl

/-- Some operations and then an update, which announces actions in an order of its own. -/
def frame (ops : List StageOp) (s : Stage) : Stage :=
  (Input.updateBy (fun set ↦ set.toList.reverse) (handling.publish 4) (performAll 4 ops s).2).2

theorem Reaches.frame {last : ActionSet} {ops : List StageOp} (h : Reaches 4 s last t)
    (hops : ∀ op ∈ ops, op.isInterlude = true) :
    Reaches 4 s (performAll 4 ops t).2.input.pressed (t.frame ops) :=
  (h.perform hops).update fun set ↦ set.toList.reverse_perm

def down (key : Int) : StageOp := .input (.keyDown (some (.int key)))

def up (key : Int) : StageOp := .input (.keyUp (some (.int key)))

/-- Two keys of the action that the director wants, and one of another, are held over several
updates and go up one after another; then a third key of that action goes down. -/
def pressedAgain : Stage :=
  let s := ((watched.frame [gate, down 13, down 27, down 32]).frame []).frame [up 13]
  (performAll 4 [down 122] (s.frame [up 32, up 27])).2

theorem reaches_advances_once_a_press_of_keys :
    ∃ last u publications, watched.Reaches 4 last pressedAgain ∧
      (∀ a, Alternates a (last a) pressedAgain.bus.announced) ∧
      edgesOf .confirm pressedAgain.bus.announced = [.actionPressed, .actionReleased] ∧
      Input.updateBy ActionSet.toList (handling.publish 4) pressedAgain = (.returned (), u) ∧
      pressedAgain.Updates .confirm ActionSet.toList last publications u ∧
      (publications.flatMap (·.advances .confirm)).length = 1 ∧
      pressedAgain.bus.announced.map (·.type) = [.dialogStarted, .nodeEntered, .lineShown,
        .actionPressed, .nodeEntered, .lineShown, .actionPressed, .actionReleased,
        .actionReleased] := by
  have hreaches : watched.Reaches 4 _ pressedAgain :=
    .perform
      (.frame (.frame (.frame (.frame .refl (by decide)) (by decide)) (by decide)) (by decide))
      (by decide)
  have hedges :
      edgesOf .confirm pressedAgain.bus.announced = [.actionPressed, .actionReleased] := by
    decide +kernel
  have htypes : pressedAgain.bus.announced.map (·.type) = [.dialogStarted, .nodeEntered, .lineShown,
      .actionPressed, .nodeEntered, .lineShown, .actionPressed, .actionReleased,
      .actionReleased] := by decide +kernel
  obtain ⟨halternates, hupdates, -⟩ :=
    reaches_advances_once_a_press (Nat.le_refl 4) isPrelude_watched hreaches
  obtain ⟨u, publications, hrun, hu⟩ := hupdates _ ActionSet.isArrangement_toList
  refine ⟨_, u, publications, hreaches, halternates, hedges, hrun, hu, hu.advances.trans ?_, htypes⟩
  decide +kernel

end Stage

end LinearDialogue
