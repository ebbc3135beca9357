import LinearDialogue.Proofs.Dispatching
import LinearDialogue.Proofs.Operations
import LinearDialogue.Proofs.Presses

/-!
# Presses that come late

A director that stops listening is taken off the list of those that hear of presses.  A delivery
that has begun goes on with the registrations that it began with, though, so that a press can come
to a director that listens no longer.  Only there: while the list of a delivery keeps its place, a
director that is called listens, whatever the handlers do.  This is put by what would be done in the
place of a call of a director that does not listen, which makes no difference.
-/

namespace LinearDialogue

namespace Stage

/-- How the bus of a stage treats its listeners, with something else in the place of some calls of
the director. -/
def handlingBut (isSkipped : Stage → Bool) (instead : Act Stage Unit) :
    Handling StageListener Stage :=
  { handling with
    call := fun listener s ↦
      if listener = .director ∧ isSkipped s = true then instead s else call listener s }

def operateBut (isSkipped : Stage → Bool) (instead : Act Stage Unit) (fuel : Nat) (op : StageOp) :
    Act Stage Value :=
  perform ((handlingBut isSkipped instead).publish fuel) op

/-- Perform operations from outside in turn, up to one that stalls, with something else in the place
of some calls of the director. -/
def performAllBut (isSkipped : Stage → Bool) (instead : Act Stage Unit) (fuel : Nat) :
    List StageOp → Stage → List (Outcome Value) × Stage
  | [], s => ([], s)
  | op :: ops, s =>
    match operateBut isSkipped instead fuel op s with
    | (.stalled, t) => ([.stalled], t)
    | (outcome, t) =>
      let (outcomes, u) := performAllBut isSkipped instead fuel ops t
      (outcome :: outcomes, u)

/-- The director does not listen. -/
def isDeaf (s : Stage) : Bool := !s.director.isEnabled

/-- The director does not listen, and the list of the delivery under way is in its place. -/
def isDeafInPlace (s : Stage) : Bool :=
  s.isDeaf && s.bus.current.any fun d ↦ d.fate == .kept

/-- A stage on which anything may be done to the dialogue, by the handlers too. -/
def IsOpen (s : Stage) : Prop := s.IsWired (fun _ ↦ True) (fun _ ↦ True) []

variable {s t : Stage} {entry : Registration StageListener}
  {rest : List (Registration StageListener)} {d : Delivery StageListener}

/-! ## Inside a delivery -/

/-- An open stage has moved on. -/
def Strays (s t : Stage) : Prop :=
  s.IsOpen → t.IsOpen ∧ ∃ es, Bus.Moves (fun _ ↦ True) s.bus es t.bus

theorem strays_chains : Act.Chains Strays where
  refl s hs := ⟨hs, [], .refl⟩
  trans := by
    intro s t u hst htu hs
    obtain ⟨ht, es, hmoves⟩ := hst hs
    obtain ⟨hu, fs, hothers⟩ := htu ht
    exact ⟨hu, es ++ fs, hmoves.trans hothers⟩

theorem Retains.strays (h : s.Retains t) : s.Strays t := fun hs ↦
  ⟨hs.of_same h.bus h.handlers h.isEnabled, [], by rw [h.bus]; exact .refl⟩

/-- What moves the bus alone, without subscriptions. -/
theorem strays_of_moves {b : Bus StageListener} {es : List Event}
    (h : Bus.Moves (fun _ ↦ False) s.bus es b) : s.Strays { s with bus := b } := fun hs ↦
  ⟨IsWired.moves hs h rfl rfl, es, h.mono fun _ ↦ False.elim⟩

theorem strays_enable (publish : Publisher Stage) (speaker : Speaker) :
    (Director.enable (wiring publish speaker)).Along Strays := by
  intro s hs
  rw [enable_apply]
  split
  · exact ⟨hs, [], .refl⟩
  next henabled =>
    split
    · exact ⟨IsWired.listening hs trivial (by simpa using henabled), [],
        .subscribe _ _ _ _ .refl trivial⟩
    · exact ⟨hs, [], .refl⟩

theorem strays_disable (publish : Publisher Stage) (speaker : Speaker) :
    (Director.disable (wiring publish speaker)).Along Strays := by
  intro s hs
  rw [disable_apply]
  split
  · exact ⟨IsWired.ignored hs rfl, [], .unsubscribe _ _ _ .refl⟩
  · exact ⟨hs, [], .refl⟩

theorem strays_updateInput (f : Input → Input) :
    (Part.update Input f : Act Stage Unit).Along Strays := fun _ hs ↦
  ⟨IsWired.of_same hs rfl rfl rfl, [], .refl⟩

/-- Inside a delivery every operation returns or fails, and the stage stays open. -/
theorem matches_post :
    Matches (Bus.post StageListener) (Bus.post StageListener) fun m n ↦
      m = n ∧ (m.Along Strays ∧ m.Ends fun _ ↦ True) where
  acts := (strays_chains.closed.and Act.closed_ends).couples
  retains hm hends := ⟨rfl, hm.mono fun _ _ ↦ Retains.strays, hends⟩
  publish event _ := ⟨rfl, fun _ ↦ strays_of_moves (.enqueue event .refl), fun _ ↦ .inl ⟨_, rfl⟩⟩
  publishes event := ⟨rfl, fun _ ↦ strays_of_moves (.enqueue event .refl), fun _ ↦ .inl ⟨_, rfl⟩⟩
  input f := ⟨rfl, strays_updateInput f, .update f⟩
  enable speaker := by
    refine ⟨rfl, strays_enable _ speaker, fun s ↦ ?_⟩
    rw [enable_apply]
    split
    · exact .inl ⟨_, rfl⟩
    · split
      · exact .inl ⟨_, rfl⟩
      · exact .inr ⟨_, rfl, trivial⟩
  disable speaker := by
    refine ⟨rfl, strays_disable _ speaker, fun s ↦ ?_⟩
    rw [disable_apply]
    exact .inl ⟨_, rfl⟩
  clear type := ⟨rfl, fun _ ↦ strays_of_moves (.clear type .refl), .update _⟩
  ensure := by
    rintro α m n f ⟨rfl, hm, hends⟩ hf
    exact ⟨rfl, fun s ↦ strays_chains.trans (hm s) (hf _).strays, hends⟩
  speaker h := ⟨funext fun s ↦ congrFun (h s.speaker).1 s, fun s ↦ (h s.speaker).2.1 s,
    fun s ↦ (h s.speaker).2.2 s⟩

theorem strays_run {program : Program StageOp} (h : program.IsGuest fun _ ↦ True) :
    (program.run (perform (Bus.post StageListener)) consumeCurrent).Along Strays ∧
      (program.run (perform (Bus.post StageListener)) consumeCurrent).Ends fun _ ↦ True := by
  have hclosed := strays_chains.closed.and Act.closed_ends
  induction h with
  | done => exact hclosed.pure _
  | fail failure => exact hclosed.fail failure
  | consume _ ih =>
      exact hclosed.bind ⟨fun _ ↦ strays_of_moves (.consume .refl), .update _⟩ fun _ ↦ ih
  | note _ ih => exact hclosed.bind (matches_post.note _).2 fun _ ↦ ih
  | @perform op next _ _ ih =>
      obtain ⟨-, halong, hends⟩ := matches_post.perform op
      exact hclosed.bind ⟨halong.attempt, hends.attempt⟩ ih

theorem strays_counting (s : Stage) (listener : StageListener) : s.Strays (s.counting listener) :=
  fun hs ↦ ⟨IsWired.counting hs listener, [], by rw [counting_bus]; exact .refl⟩

/-- A call returns or fails, and the stage stays open. -/
theorem exists_call_open (hs : s.IsOpen) (hd : s.bus.current = some d) (listener : StageListener) :
    ∃ answer t, (call listener).attempt s = (.returned answer, t) ∧ s.Strays t := by
  have hdone {m : Act Stage Unit} (u : Stage) (hrun : call listener s = m u) (hu : s.Strays u)
      (hm : m.Along Strays ∧ m.Ends fun _ ↦ True) :
      ∃ answer t, (call listener).attempt s = (.returned answer, t) ∧ s.Strays t := by
    obtain ⟨answer, hanswer⟩ := hm.2.exists_attempt u
    refine ⟨answer, _, ?_, strays_chains.trans hu (hm.1 u)⟩
    rw [Act.attempt_apply, hrun, ← Act.attempt_apply, hanswer]
  have hpost := matches_post
  have hclosed := strays_chains.closed.and Act.closed_ends
  have hrefl := strays_chains.refl s
  cases listener with
  | director =>
      refine hdone (m := Director.onAction (wiring (Bus.post StageListener) s.speaker)
        consumeCurrent d.event) s (by simp only [call, hd]) hrefl ?_
      refine hclosed.bind (hclosed.read Director) fun director ↦ ?_
      dsimp only
      split
      · refine hclosed.bind ⟨fun _ ↦ strays_of_moves (.consume .refl), .update _⟩ fun _ ↦ ?_
        exact hclosed.bind (hpost.advance s.speaker).2 fun _ ↦ hclosed.pure _
      · exact hclosed.pure _
  | observer => exact hdone s (by simp only [call, hd]) hrefl (hpost.note (.event d.event)).2
  | handler index =>
      cases hhandler : s.handlers[index]? with
      | none =>
          exact hdone (m := pure ()) s (by simp only [call, hd, hhandler]) hrefl (hclosed.pure _)
      | some handler =>
          exact hdone _ (call_of_handler hd hhandler) (strays_counting s (.handler index))
            (strays_run (hs.guests handler (List.mem_of_getElem? hhandler) _ _))

/-! ## Deliveries -/

/-- While the list of a delivery is in its place, those that are still to be visited are among
it. -/
structure IsListed (rest : List (Registration StageListener)) (s : Stage) : Prop where
  isOpen : s.IsOpen
  rest : ∀ d, s.bus.current = some d → d.fate = .kept →
    directors rest ≤ directors (s.bus.registrations d.event.type)

theorem IsListed.attend (h : IsListed rest s) {b : Bus StageListener} (hb : s.bus.Attends b) :
    IsListed rest { s with bus := b } := by
  refine ⟨IsWired.attend h.isOpen hb, fun e he hkept ↦ ?_⟩
  cases hb with
  | pin type =>
      rw [Bus.pin_eq] at he ⊢
      exact h.rest e he hkept
  | meet | mark =>
      obtain ⟨d, hd, rfl⟩ := Option.map_eq_some_iff.mp he
      exact h.rest d hd hkept
  | record | take | release => exact h.rest e he hkept

theorem IsListed.strays (h : IsListed (entry :: rest) s) (ht : s.Strays t)
    (hd : s.bus.current = some d) : IsListed rest t := by
  obtain ⟨hopen, es, hmoves⟩ := ht h.isOpen
  refine ⟨hopen, fun e he hkept ↦ ?_⟩
  obtain ⟨e', he', hcontinues, hlist⟩ := hmoves.continues hd
  obtain rfl : e' = e := Option.some.inj (he'.symm.trans he)
  calc directors rest ≤ directors (entry :: rest) := directors_le_cons entry rest
    _ ≤ directors (s.bus.registrations d.event.type) := h.rest d hd (hcontinues.kept hkept)
    _ ≤ directors (t.bus.registrations d.event.type) := directors_le (hlist hkept).1
    _ = directors (t.bus.registrations e'.event.type) := by rw [hcontinues.event.type]

theorem listed_obeys :
    handling.Obeys (fun _ ↦ True) (fun _ ↦ True) IsListed fun _ _ ↦ True where
  apart _ _ _ := rfl
  journal j h := ⟨h.isOpen.of_same rfl rfl rfl, h.rest⟩
  attend hattends h := h.attend hattends
  wait _ _ := trivial
  begin {s event} _ h := by
    refine ⟨(IsWired.begin h.isOpen event).nil, fun d hd _ ↦ ?_⟩
    cases hd
    exact Nat.le_refl _
  finish h := ⟨IsWired.finish h.isOpen, fun _ _ _ ↦ Nat.zero_le _⟩
  tail h := ⟨h.isOpen, fun d hd hkept ↦ Nat.le_trans (directors_le_cons _ _) (h.rest d hd hkept)⟩
  call {entry rest s d} h hd _ := by
    obtain ⟨answer, t, hcall, ht⟩ := exists_call_open h.isOpen hd entry.listener
    obtain ⟨-, es, hmoves⟩ := ht h.isOpen
    exact ⟨answer, es, t, hcall, hmoves, (h.strays ht hd).attend (.record _ rfl), fun _ _ ↦ trivial⟩

/-- A director that is called while the list of the delivery is in its place listens. -/
theorem IsListed.isEnabled (h : IsListed (entry :: rest) s) (hdirector : entry.listener = .director)
    (hd : s.bus.current = some d) (hkept : d.fate = .kept) : s.director.isEnabled = true := by
  have hlist := Nat.le_trans (h.rest d hd hkept) (h.isOpen.lists d.event.type)
  rw [directors_cons_of_director hdirector] at hlist
  by_contra hdisabled
  rw [allowance, if_neg fun hand ↦ hdisabled hand.2] at hlist
  exact Nat.not_succ_le_zero _ hlist

theorem handlingBut_agrees (instead : Act Stage Unit) :
    (handlingBut isDeafInPlace instead).Agrees handling IsListed where
  held := rfl
  distinct := rfl
  call {entry rest s d} h hd := by
    refine if_neg fun hskipped ↦ ?_
    obtain ⟨hdirector, hdeaf⟩ := hskipped
    have hcurrent : s.bus.current = some d := hd
    simp only [isDeafInPlace, isDeaf, hcurrent, Option.any_some, Bool.and_eq_true,
      Bool.not_eq_true', beq_iff_eq] at hdeaf
    rw [h.isEnabled hdirector hcurrent hdeaf.2] at hdeaf
    cases hdeaf.1

/-! ## From outside -/

theorem publishBut_eq_publish (instead : Act Stage Unit) (fuel : Nat) (event : Event)
    (hs : s.IsOpen) :
    (handlingBut isDeafInPlace instead).publish fuel event s = handling.publish fuel event s ∧
      (handling.publish fuel event s).2.IsOpen := by
  have hpublished : IsListed [] { s with bus := s.bus.record (.published event) } :=
    ⟨IsWired.record hs _, fun _ _ _ ↦ Nat.zero_le _⟩
  refine ⟨(handlingBut_agrees instead).publish listed_obeys fuel trivial hpublished, ?_⟩
  obtain ⟨publication, outcome, t, hrun, -, -, ht, -⟩ :=
    listed_obeys.publish fuel trivial hpublished
  rw [hrun]
  exact ht.isOpen

/-- From outside, an operation does the same to an open stage, whatever is done in the place of a
director that does not listen. -/
theorem matches_publish (instead : Act Stage Unit) (fuel : Nat) :
    Matches ((handlingBut isDeafInPlace instead).publish fuel) (handling.publish fuel) fun m n ↦
      ∀ s, s.IsOpen → m s = n s ∧ (n s).2.IsOpen where
  acts := {
    pure := fun _ _ hs ↦ ⟨rfl, hs⟩
    fail := fun _ _ hs ↦ ⟨rfl, hs⟩
    read := fun _ _ _ hs ↦ ⟨rfl, hs⟩
    bind := by
      intro α β m n f g hm hf s hs
      obtain ⟨hsame, ht⟩ := hm s hs
      rw [Act.bind_apply, Act.bind_apply, hsame]
      rcases hn : n s with ⟨_ | _ | _ | _, t⟩
      · rw [hn] at ht
        exact hf _ t ht
      all_goals
        rw [hn] at ht
        exact ⟨rfl, ht⟩ }
  retains hm _ s hs := ⟨rfl, ((hm s).strays hs).1⟩
  publish event _ s hs := publishBut_eq_publish instead fuel event hs
  publishes event s hs := publishBut_eq_publish instead fuel event hs
  input f s hs := ⟨rfl, (strays_updateInput f s hs).1⟩
  enable speaker s hs := ⟨by rw [enable_apply, enable_apply], (strays_enable _ speaker s hs).1⟩
  disable speaker s hs := ⟨by rw [disable_apply, disable_apply], (strays_disable _ speaker s hs).1⟩
  clear type s hs := ⟨rfl, (strays_of_moves (.clear type .refl) hs).1⟩
  ensure := by
    intro α m n f hm hf s hs
    obtain ⟨hsame, ht⟩ := hm s hs
    rw [Act.ensure_apply, Act.ensure_apply, hsame]
    exact ⟨rfl, ((hf _).strays ht).1⟩
  speaker h s hs := h s.speaker s hs

/-- A director is called without listening only in deliveries whose list has been replaced in their
course.  In all others it makes no difference, over any run, what would be done in the place of such
a call: nothing, so that such a press goes unheard, or anything else.  The handlers may start, go on
with and break off dialogues, register the director or not, publish and fail as they like. -/
theorem performAll_calls_listening_director (instead : Act Stage Unit) (fuel : Nat) (hs : s.IsOpen)
    (ops : List StageOp) :
    performAllBut isDeafInPlace instead fuel ops s = performAll fuel ops s := by
  induction ops generalizing s with
  | nil => rfl
  | cons op ops ih =>
      obtain ⟨hsame, ht⟩ := (matches_publish instead fuel).perform op s hs
      rw [performAllBut, performAll, operateBut, operate, hsame]
      rcases hop : perform (handling.publish fuel) op s with ⟨outcome, t⟩
      rw [hop] at ht
      have hrest := ih (s := t) ht
      cases outcome with
      | stalled => rfl
      | _ => simp only [hrest]

/-- A stage with a handler that has the director stop listening when it hears of an event. -/
def muting (type : EventType) (priority : Int) : Stage where
  bus := {
    lists := [(type, [⟨.int priority, .handler 0, .bool false, false, 0⟩])]
    count := 1 }
  handlers := [{ behaviour := fun _ _ ↦ .perform .disable fun _ ↦ .done }]

theorem isOpen_muting (type : EventType) (priority : Int) : (muting type priority).IsOpen where
  guests := by
    intro handler hmem call event
    rw [List.mem_singleton.mp hmem]
    exact .perform trivial fun _ ↦ .done
  lists := by
    intro t
    have hnone : directors ((muting type priority).bus.registrations t) = 0 := by
      rw [Bus.registrations, Bus.find?, muting, List.find?_singleton]
      split <;> rfl
    omega
  rest := nofun
  priorities _ _ := trivial

def press : StageOp := .publish (Input.actionEvent .actionPressed .confirm)

theorem performAll_calls_listening_director_of_muting :
    performAllBut isDeafInPlace .abort 2 [gate, press, press] (muting .lineShown 0) =
        performAll 2 [gate, press, press] (muting .lineShown 0) ∧
      (performAll 2 [gate, press, press] (muting .lineShown 0)).2.director.isEnabled = false ∧
      (performAll 2 [gate, press, press] (muting .lineShown 0)).2.playback.cursor = 1 :=
  ⟨performAll_calls_listening_director .abort 2 (isOpen_muting .lineShown 0) _, by decide +kernel,
    by decide +kernel⟩

/-- A director that has been told to stop listening by a handler of the same press executes the next
record all the same; it would not if it were skipped. -/
theorem exists_press_heard_late :
    (muting .actionPressed 10).IsOpen ∧
    (performAll 2 [gate] (muting .actionPressed 10)).2.playback.cursor = 1 ∧
    (performAllBut isDeaf (pure ()) 2 [gate, press]
      (muting .actionPressed 10)).2.playback.cursor = 1 ∧
    (performAll 2 [gate, press] (muting .actionPressed 10)).2.playback.cursor = noId ∧
    (performAll 2 [gate, press] (muting .actionPressed 10)).2.director.isEnabled = false ∧
    ((performAll 2 [gate, press] (muting .actionPressed 10)).2.bus.history.drop
        (performAll 2 [gate] (muting .actionPressed 10)).2.bus.history.length).take 7 =
      [.published (Input.actionEvent .actionPressed .confirm),
        .begun (Input.actionEvent .actionPressed .confirm),
        .called ⟨.int 10, .handler 0, .bool false, false, 0⟩, .returned none,
        .called ⟨.int 0, .director, .bool false, true, 1⟩,
        .published (Director.nodeEvent 1),
        .published (Director.lineEvent ⟨"Guard", none, "Halt!", []⟩)] :=
  ⟨isOpen_muting .actionPressed 10, by decide +kernel, by decide +kernel, by decide +kernel,
    by decide +kernel, by decide +kernel⟩

end Stage

end LinearDialogue
