import LinearDialogue.Proofs.Lifetimes
import LinearDialogue.Proofs.Turns

/-!
# Priority order

The lists of an exchange are in order at all times: between the operations from outside, when a
delivery begins and ends, before and after every turn, and after every operation of the handler that
is called in it.  So the handlers of an event are called by falling priority, and in the order of
their registration where priorities agree.

Every delivery gives turns to the registrations that were there when it began, whatever the handlers
register, remove or fail with in the meantime.  A handler that is gone when its turn comes is passed
over.
-/

namespace LinearDialogue

/-- All lists are by falling priority, and in the order of registration where priorities agree. -/
def Bus.IsOrdered {ρ : Type} (b : Bus ρ) : Prop :=
  ∀ type, (b.registrations type).Pairwise Registration.Precedes

namespace Exchange

variable {s t u v : Exchange} {listener : Listener} {entry : Registration Listener}
  {program : Program ExchangeOp} {answer : Except Failure Unit} {type : EventType}

/-- The states that a program passes through, one after each of its steps. -/
inductive Passes : Program ExchangeOp → Exchange → Exchange → Prop
  | here {program : Program ExchangeOp} {s : Exchange} : Passes program s s
  | consume {next : Program ExchangeOp} {s u : Exchange}
      (h : Passes next { s with bus := s.bus.consume } u) : Passes (.consume next) s u
  | note {item : Note} {next : Program ExchangeOp} {s u : Exchange}
      (h : Passes next { s with journal.notes := s.journal.notes ++ [item] } u) :
      Passes (.note item next) s u
  | perform {op : ExchangeOp} {next : Except Failure Value → Program ExchangeOp}
      {answer : Except Failure Value} {s t u : Exchange}
      (hop : (perform (Bus.post Listener) op).attempt s = (.returned answer, t))
      (h : Passes (next answer) t u) : Passes (.perform op next) s u

/-- The state in which the program of a called handler begins. -/
def entering (listener : Listener) (event : Event) (s : Exchange) : Exchange :=
  { s with
    handlers := countCall listener s.handlers
    journal.notes := s.journal.notes ++ [.call listener.name event] }

/-- The states during a call of a listener. -/
inductive During (listener : Listener) (s : Exchange) : Exchange → Prop
  | start : During listener s s
  | within {handler : HandlerState} {d : Delivery Listener} {u : Exchange}
      (hhandler : s.handler? listener = some handler) (hd : s.bus.current = some d)
      (h : Passes (handler.behaviour handler.calls d.event) (s.entering listener d.event) u) :
      During listener s u

/-- The handlers abort nothing and register with numbers, the bus is sound, and all that is
registered is known. -/
structure IsRegular (s : Exchange) : Prop where
  ordinary : s.IsOrdinary fun v ↦ v.isNumber = true
  sound : s.bus.IsSound
  staffed : s.IsStaffed

theorem isRegular_empty : IsRegular {} where
  ordinary _ h := absurd h List.not_mem_nil
  sound := Bus.isSound_empty
  staffed := ⟨rfl, fun h ↦ absurd h List.not_mem_nil⟩

/-- To be regular depends on handlers, lists and the number of registrations. -/
theorem IsRegular.of_sublist (hs : s.IsRegular) (hhandlers : t.handlers = s.handlers)
    (hcount : s.bus.count ≤ t.bus.count)
    (hsub : ∀ type, (t.bus.registrations type).Sublist (s.bus.registrations type)) :
    t.IsRegular where
  ordinary handler hmem := hs.ordinary handler (hhandlers ▸ hmem)
  sound := hs.sound.of_sublist hcount hsub
  staffed := hs.staffed.of_subset hhandlers fun type ↦ (hsub type).subset

theorem IsRegular.of_lists (hs : s.IsRegular) (hhandlers : t.handlers = s.handlers)
    (hcount : s.bus.count ≤ t.bus.count) (hlists : t.bus.lists = s.bus.lists) : t.IsRegular :=
  hs.of_sublist hhandlers hcount fun type ↦ by rw [Bus.registrations_congr hlists]

/-! ## Calls -/

theorem snd_attempt {α : Type} (m : Act Exchange α) (s : Exchange) :
    (m.attempt s).2 = (m s).2 := by
  rw [Act.attempt_apply]
  split <;> simp_all

theorem IsRegular.perform {op : ExchangeOp} {answer : Except Failure Value} (hs : s.IsRegular)
    (hop : op.IsOrdinary fun v ↦ v.isNumber = true)
    (hrun : (perform (Bus.post Listener) op).attempt s = (.returned answer, t)) :
    t.IsRegular ∧ s.Ages t := by
  obtain ⟨other, es, u, hattempt, hmoves, hu⟩ := exists_perform_post hop hs.ordinary
  rw [hrun] at hattempt
  cases hattempt
  have hages := perform_ages op hs.staffed
  rw [← snd_attempt, hrun] at hages
  exact ⟨⟨hu, hmoves.isSound hs.sound, hages.1⟩, hages.2⟩

theorem Passes.keeps (h : Passes program s u)
    (hprogram : program.IsOrdinary fun v ↦ v.isNumber = true) (hs : s.IsRegular) :
    u.IsRegular ∧ s.Ages u := by
  induction h with
  | here => exact ⟨hs, .refl _⟩
  | @consume next s u _ ih =>
      cases hprogram with
      | consume hnext =>
          have hages : s.Ages { s with bus := s.bus.consume } :=
            .of_frees rfl (s.bus.frees_onCurrent fun _ ↦ .inr rfl)
          obtain ⟨hu, hrest⟩ := ih hnext (hs.of_lists rfl (Nat.le_refl _) rfl)
          exact ⟨hu, hages.trans hrest⟩
  | @note item next s u _ ih =>
      cases hprogram with
      | note hnext =>
          have hages : s.Ages { s with journal.notes := s.journal.notes ++ [item] } :=
            .of_frees rfl fun _ h ↦ h
          obtain ⟨hu, hrest⟩ := ih hnext (hs.of_lists rfl (Nat.le_refl _) rfl)
          exact ⟨hu, hages.trans hrest⟩
  | perform hop _ ih =>
      cases hprogram with
      | perform hpriority hbehaviour hnext =>
          obtain ⟨ht, hages⟩ := hs.perform ⟨hpriority, hbehaviour⟩ hop
          obtain ⟨hu, hrest⟩ := ih (hnext _) ht
          exact ⟨hu, hages.trans hrest⟩

/-- A program that ends has passed through the state in which it ends. -/
theorem passes_of_run
    (hrun : (program.run (perform (Bus.post Listener)) consumeCurrent).attempt s =
      (.returned answer, t)) : Passes program s t := by
  induction program generalizing s with
  | done =>
      cases hrun
      exact .here
  | fail failure =>
      cases hrun
      exact .here
  | abort => cases hrun
  | consume next ih => exact .consume (ih hrun)
  | note item next ih => exact .note (ih hrun)
  | perform op next ih =>
      rw [Act.attempt_apply, Program.run, Act.bind_apply] at hrun
      rcases hop : (perform (Bus.post Listener) op).attempt s with ⟨outcome, v⟩
      rw [hop] at hrun
      cases outcome with
      | returned first => exact .perform hop (ih first hrun)
      | failed failure =>
          rw [Act.attempt_apply] at hop
          split at hop <;> cases hop
      | aborted => cases hrun
      | stalled => cases hrun

theorem during_of_call (hrun : (call listener).attempt s = (.returned answer, t)) :
    During listener s t := by
  cases hhandler : s.handler? listener with
  | none =>
      simp [Act.attempt_apply, call, hhandler] at hrun
      rw [← hrun.2]
      exact .start
  | some handler =>
      cases hd : s.bus.current with
      | none =>
          simp [Act.attempt_apply, call, hhandler, hd] at hrun
          rw [← hrun.2]
          exact .start
      | some d =>
          apply During.within hhandler hd
          apply passes_of_run
          rw [Act.attempt_apply] at hrun ⊢
          simpa [call, hhandler, hd, Act.bind_apply, Journal.note, entering] using hrun

theorem During.keeps (h : During listener s u) (hs : s.IsRegular) : u.IsRegular ∧ s.Ages u := by
  cases h with
  | start => exact ⟨hs, .refl s⟩
  | @within handler d _ hhandler hd h =>
      have hmem : handler ∈ s.handlers := List.mem_of_find?_eq_some hhandler
      have hsame (handler : HandlerState) :
          (if handler.listener == listener then { handler with calls := handler.calls + 1 }
            else handler).listener = handler.listener := by split <;> rfl
      have hentering : (s.entering listener d.event).IsRegular :=
        ⟨hs.ordinary.countCall listener, hs.sound, hs.staffed.of_map hsame rfl rfl⟩
      have hages : s.Ages (s.entering listener d.event) :=
        ages_of_map hsame (fun handler h ↦ by split at h <;> exact h) rfl rfl
      obtain ⟨hu, hrest⟩ := h.keeps (hs.ordinary handler hmem handler.calls d.event) hentering
      exact ⟨hu, hages.trans hrest⟩

theorem handling_obeys_regular :
    handling.Obeys (fun v ↦ v.isNumber = true) (fun _ ↦ True) (fun _ s ↦ s.IsRegular)
      (fun _ _ ↦ True) where
  apart _ _ _ := rfl
  journal _ h := h.of_lists rfl (Nat.le_refl _) rfl
  attend hattends h :=
    h.of_lists rfl (Nat.le_of_eq (Bus.count_attends hattends).symm) (Bus.lists_attends hattends)
  wait _ _ := trivial
  begin _ h := h.of_lists rfl (Nat.le_refl _) rfl
  finish h := h.of_sublist rfl (Nat.le_of_eq (Bus.count_finish _).symm) (Bus.finish_sublist _)
  tail h := h
  call {entry} _ s _ hs _ _ := by
    obtain ⟨answer, es, t, hrun, hmoves, ht⟩ := exists_call entry.listener hs.ordinary
    have hkept := (during_of_call hrun).keeps hs
    exact ⟨answer, es, t, hrun, hmoves, hkept.1.of_lists rfl (Nat.le_refl _) rfl, fun _ _ ↦ trivial⟩

/-! ## Operations from outside -/

theorem perform_of_quiet {op : ExchangeOp} (hquiet : published? op = none)
    (publish publish' : Publisher Exchange) : perform publish op = perform publish' op := by
  cases op with
  | publish event => cases hquiet
  | _ => rfl

theorem operate_publish {fuel : Nat} {event : Event} {outcome : Outcome Event}
    (hpublish : handling.publish fuel event s = (outcome, t)) :
    operate fuel (.publish event) s = (outcome.map (·.consumed), t) := by
  rw [operate, Exchange.perform, Act.bind_pure_apply, hpublish]

theorem IsRegular.operate {op : ExchangeOp} (hs : s.IsRegular)
    (hop : op.IsOrdinary fun v ↦ v.isNumber = true) (fuel : Nat) :
    (operate fuel op s).2.IsRegular := by
  cases hpublished : published? op with
  | none =>
      obtain ⟨answer, es, t, hrun, -⟩ := exists_perform_post hop hs.ordinary
      have ht := (hs.perform hop hrun).1
      rwa [Exchange.operate, perform_of_quiet hpublished _ (Bus.post Listener), ← snd_attempt, hrun]
  | some event =>
      have hevent : op = .publish event := by cases op <;> cases hpublished; rfl
      have hrecorded : IsRegular { s with bus := s.bus.record (.published event) } :=
        hs.of_lists rfl (Nat.le_refl _) rfl
      obtain ⟨-, outcome, t, hpublish, -, -, ht, -⟩ :=
        handling_obeys_regular.publish fuel trivial hrecorded
      rwa [hevent, operate_publish hpublish]

theorem Runs.isRegular {ops : List ExchangeOp} (h : Runs s ops t)
    (hops : ∀ op ∈ ops, op.IsOrdinary fun v ↦ v.isNumber = true) (hs : s.IsRegular) :
    t.IsRegular := by
  induction h with
  | nil => exact hs
  | cons fuel hop hends _ ih =>
      have hnext := hs.operate (hops _ List.mem_cons_self) fuel
      rw [hop] at hnext
      exact ih (fun op hmem ↦ hops op (List.mem_cons_of_mem _ hmem)) hnext

/-! ## Turns -/

/-- In a turn no other handler than the one that is called can come to be kept. -/
theorem Ages.turn {first : Exchange} (hages : first.Ages s)
    (hs : s.IsRegular) (howned : entry.weak = false → first.isAlive entry.listener = true)
    (hknown : ∃ handler, first.handler? entry.listener = some handler)
    (hturn : handling.turn type entry s = (.returned (), t)) : first.Ages t := by
  cases hlive : Bus.isLive s.holds s.bus entry with
  | false =>
      rw [Handling.turn_of_gone hlive] at hturn
      cases hturn
      have hmeet : s.bus.Frees (s.bus.meet none) := s.bus.frees_onCurrent fun _ ↦ .inl rfl
      have hmark : (s.bus.meet none).Frees ((s.bus.meet none).mark entry) :=
        Bus.frees_onCurrent _ fun _ ↦ .inr rfl
      exact hages.trans (.of_frees rfl fun listener h ↦ hmeet listener (hmark listener h))
  | true =>
      have hcalling : IsRegular { s with bus := s.bus.calling entry } :=
        hs.of_lists rfl (Nat.le_refl _) rfl
      obtain ⟨answer, es, u, hrun, -⟩ := exists_call entry.listener hcalling.ordinary
      obtain ⟨j, hlogged⟩ := Handling.callLogged_of_attempt (h := handling) type
        (s := { s with bus := s.bus.meet (some entry.listener) }) hrun
      rw [Handling.turn_of_called (c := u.bus) hlive hlogged rfl] at hturn
      cases hturn
      have hcalled := hages.calling ((isLive_iff.mp hlive).elim howned (hages.alive hknown))
      have hcall := ((during_of_call hrun).keeps hcalling).2
      exact (hcalled.trans hcall).trans (.of_frees rfl (Bus.frees_afterCall entry _))

/-- Nobody comes back in a delivery. -/
theorem ages_of_takes {first : Exchange} {entries : List (Registration Listener)}
    {turns : List (Turn Listener Exchange)} (h : handling.Takes type s entries turns t)
    (hages : first.Ages s) (hturns : ∀ turn ∈ turns, turn.before.IsRegular)
    (hentries : ∀ r ∈ entries, (r.weak = false → first.isAlive r.listener = true) ∧
      ∃ handler, first.handler? r.listener = some handler) :
    ∀ turn ∈ turns, first.Ages turn.before := by
  induction h with
  | nil => exact fun _ hmem ↦ absurd hmem List.not_mem_nil
  | next hturn hgoes _ ih =>
      obtain ⟨hs, hrest⟩ := List.forall_mem_cons.mp hturns
      obtain ⟨⟨howned, hknown⟩, hothers⟩ := List.forall_mem_cons.mp hentries
      exact List.forall_mem_cons.mpr
        ⟨hages, ih (hages.turn hs howned hknown hturn) hrest hothers⟩
  | last hturn hends => exact List.forall_mem_singleton.mpr hages

/-- A delivery in priority order. -/
structure IsInOrder (d : Dispatch Listener Exchange) : Prop where
  delivers : ∃ event, handling.deliver d.event d.start = (.returned event, d.stop)
  takes : ∃ t, handling.Takes d.event.type
    { d.start with bus := (d.start.bus.opening d.event).begin d.event }
    (d.start.bus.registrations d.event.type) d.turns t
  isPrefix : d.turns.map (·.entry) <+: d.start.bus.registrations d.event.type
  once : (d.turns.map (·.entry.serial)).Nodup
  called : d.stop.bus.called =
    d.start.bus.called ++ (d.turns.filter handling.isCalled).map (·.entry)
  live : ∀ turn ∈ d.turns, handling.isCalled turn = true →
    Bus.isLive d.start.holds d.start.bus turn.entry = true ∧
      ∃ handler, turn.before.handler? turn.entry.listener = some handler
  goes_on : ∀ turn ∈ d.turns.dropLast, handling.isLast turn = false
  all_or_last : d.turns.map (·.entry) = d.start.bus.registrations d.event.type ∨
    ∃ turn, d.turns.getLast? = some turn ∧ handling.isLast turn = true
  ordered : d.start.bus.IsOrdered ∧ d.stop.bus.IsOrdered
  ordered_turns : ∀ turn ∈ d.turns, turn.before.bus.IsOrdered ∧ turn.after.bus.IsOrdered ∧
    ∀ u, During turn.entry.listener
      { turn.before with bus := turn.before.bus.calling turn.entry } u → u.bus.IsOrdered

theorem isInOrder_of_dispatches {d : Dispatch Listener Exchange}
    (hd : handling.Dispatches (fun s ↦ s.IsRegular) d) : IsInOrder d := by
  obtain ⟨t, htakes⟩ := hd.takes
  have hsound := hd.start.sound
  have hstart : d.start.Ages { d.start with bus := (d.start.bus.opening d.event).begin d.event } :=
    .of_frees rfl (Bus.frees_begin d.event)
  have hentries : ∀ r ∈ d.start.bus.registrations d.event.type,
      (r.weak = false → d.start.isAlive r.listener = true) ∧
        ∃ handler, d.start.handler? r.listener = some handler := by
    intro r hr
    refine ⟨fun hweak ↦ ?_, hd.start.staffed.known hr⟩
    rw [isAlive, Bus.keeps_iff.mpr (.inr (.inr (Bus.owns_of_mem hr hweak))), Bool.or_true]
  have hages := ages_of_takes htakes hstart (fun turn hmem ↦ (hd.turns turn hmem).1) hentries
  constructor
  · exact hd.delivers
  · exact ⟨t, htakes⟩
  · exact htakes.isPrefix
  · have hnodup := (hsound.nodup d.event.type).sublist (htakes.isPrefix.sublist.map _)
    rwa [List.map_map] at hnodup
  · exact hd.called
  · intro turn hmem hcalled
    have hturn : turn.entry ∈ d.start.bus.registrations d.event.type :=
      htakes.isPrefix.subset (List.mem_map_of_mem hmem)
    obtain ⟨howned, hknown⟩ := hentries turn.entry hturn
    refine ⟨?_, (hages turn hmem).known hknown⟩
    have halive := isLive_iff.mp hcalled
    exact isLive_iff.mpr (.inr (halive.elim howned ((hages turn hmem).alive hknown)))
  · exact htakes.goes_on
  · exact htakes.all_or_last
  · exact ⟨hsound.ordered, hd.stop.sound.ordered⟩
  · intro turn hmem
    obtain ⟨hbefore, hafter⟩ := hd.turns turn hmem
    refine ⟨hbefore.sound.ordered, hafter.sound.ordered, fun u hduring ↦ ?_⟩
    have hcalling : IsRegular { turn.before with bus := turn.before.bus.calling turn.entry } :=
      hbefore.of_lists rfl (Nat.le_refl _) rfl
    exact (hduring.keeps hcalling).1.sound.ordered

/-- The lists are in priority order at all times, and so are the calls.  Whatever has been done from
outside and whatever the handlers do, a publication is a delivery of its event and of the events
that wait after it, one after another.  Each delivery gives turns to the registrations that were
there when it began, in their order and each once.  Exactly those are called whose handlers are
still alive when their turn comes, and the first call after which the event is consumed is the
last. -/
theorem Runs.calls_in_order {ops : List ExchangeOp} (h : Runs {} ops s)
    (hops : ∀ op ∈ ops, op.IsOrdinary fun v ↦ v.isNumber = true) (fuel : Nat) (event : Event) :
    s.bus.IsOrdered ∧
    ∃ (first : Dispatch Listener Exchange) (later : List (Dispatch Listener Exchange))
      (outcome : Outcome Value) (t : Exchange),
      operate fuel (.publish event) s = (outcome, { t with bus := t.bus.release }) ∧
      ((∃ answer, outcome = .returned answer) ∧ t.bus.queue = [] ∨
        outcome = .stalled ∧ later.length = fuel ∧ t.bus.queue ≠ []) ∧
      first.event = event ∧
      first.start = { s with bus := s.bus.record (.published event) } ∧
      Dispatch.Chain first.stop later t ∧ ∀ d ∈ first :: later, IsInOrder d := by
  have hs := h.isRegular hops isRegular_empty
  have hrecorded : IsRegular { s with bus := s.bus.record (.published event) } :=
    hs.of_lists rfl (Nat.le_refl _) rfl
  obtain ⟨first, later, outcome, t, hpublish, hevent, hstart, hchain, hdispatches, hend⟩ :=
    handling_obeys_regular.publishes fuel trivial hrecorded
  refine ⟨hs.sound.ordered, first, later, _, t, operate_publish hpublish, ?_, hevent,
    hstart, hchain, fun d hmem ↦ isInOrder_of_dispatches (hdispatches d hmem)⟩
  rcases hend with ⟨⟨answer, rfl⟩, hqueue⟩ | ⟨rfl, hlength, hqueue⟩
  · exact .inl ⟨⟨answer.consumed, rfl⟩, hqueue⟩
  · exact .inr ⟨rfl, hlength, hqueue⟩

/-- The handler of the higher priority fails, and the other one is called all the same. -/
theorem calls_in_order_of_chatter :
    ∃ (s : Exchange) (first : Dispatch Listener Exchange)
      (later : List (Dispatch Listener Exchange)),
      Runs {} (chatter.take 5) s ∧ s.bus.IsOrdered ∧
      first.start =
        { s with bus := s.bus.record (.published ({ type := .dialogStarted } : Event)) } ∧
      (first.turns.filter handling.isCalled).map (·.entry.serial) = [1, 0] ∧
      ∀ d ∈ first :: later, IsInOrder d := by
  let event : Event := { type := .dialogStarted }
  have hcalls : (runAll 1 (chatter.take 5) {}).map (fun s ↦
      (s.bus.called.isEmpty, (handling.deliver event
        { s with bus := s.bus.record (.published event) }).2.bus.called.map (·.serial))) =
      some (true, [1, 0]) := by decide +kernel
  obtain ⟨s, hrun, hcalls⟩ := Option.map_eq_some_iff.mp hcalls
  obtain ⟨hnone, hserials⟩ := Prod.mk.inj hcalls
  have hs := runs_of_runAll hrun
  obtain ⟨hordered, first, later, _, _, -, -, hevent, hstart, -, horder⟩ :=
    hs.calls_in_order (fun op hop ↦ isOrdinary_chatter (fun _ ↦ rfl) op (List.mem_of_mem_take hop))
      1 event
  have hfirst := horder first List.mem_cons_self
  obtain ⟨answer, hdeliver⟩ := hfirst.delivers
  have hcalled := hfirst.called
  rw [hevent, hstart] at hdeliver
  rw [hdeliver, hcalled, hstart, Bus.called_record rfl, List.isEmpty_iff.mp hnone] at hserials
  refine ⟨s, first, later, hs, hordered, hstart, ?_, horder⟩
  rwa [List.nil_append, List.map_map] at hserials

/-- A handler whose name stands for it no more, and one that removes all for one type. -/
def ousting : List ExchangeOp :=
  [.define "guest" false fun _ _ ↦ .done,
    .define "clearer" false fun _ _ ↦ .perform (.clear (some .dialogEnded)) fun _ ↦ .done,
    .subscribe .dialogEnded "guest" (.int 0) (.bool false) false,
    .subscribe .dialogStarted "clearer" (.int 1) (.bool false) true,
    .subscribe .dialogStarted "guest" (.int 0) (.bool false) true,
    .drop "guest"]

/-- A handler that is alive when a delivery begins is not called, though no call consumes the event:
a handler that is called before it removes the registration that kept it alive. -/
theorem exists_live_not_called :
    ∃ (ops : List ExchangeOp) (s t : Exchange) (entry : Registration Listener),
      (∀ op ∈ ops, op.IsOrdinary fun v ↦ v.isNumber = true) ∧ Runs {} ops s ∧
      entry ∈ s.bus.registrations .dialogStarted ∧
      Bus.isLive s.holds s.bus entry = true ∧
      operate 0 (.publish { type := .dialogStarted }) s = (.returned (.bool false), t) ∧
      entry ∉ t.bus.called := by
  let entry : Registration Listener := ⟨.int 0, ⟨"guest", 0, false⟩, .bool false, true, 2⟩
  have hordinary : ∀ op ∈ ousting, op.IsOrdinary fun v ↦ v.isNumber = true := by
    intro op hop
    simp only [ousting, List.mem_cons, List.not_mem_nil, or_false] at hop
    rcases hop with rfl | rfl | rfl | rfl | rfl | rfl
    · exact .define fun _ _ ↦ .done
    · exact .define fun _ _ ↦ .of_op (.clear _ _) fun _ ↦ .done
    · exact .subscribe (by rfl) _ _ _ _
    · exact .subscribe (by rfl) _ _ _ _
    · exact .subscribe (by rfl) _ _ _ _
    · exact .drop _ _
  have hanswer : (runAll 0 ousting {}).map (fun s ↦
      (operate 0 (.publish { type := .dialogStarted }) s).1) = some (.returned (.bool false)) := rfl
  have hstates : (runAll 0 ousting {}).map (fun s ↦
      decide (entry ∈ s.bus.registrations .dialogStarted) && Bus.isLive s.holds s.bus entry &&
        decide (entry ∉ (operate 0 (.publish { type := .dialogStarted }) s).2.bus.called)) =
          some true := by
    decide +kernel
  obtain ⟨s, hrun, hstate⟩ := Option.map_eq_some_iff.mp hstates
  rw [hrun, Option.map_some, Option.some_inj] at hanswer
  rw [Bool.and_eq_true, Bool.and_eq_true] at hstate
  obtain ⟨⟨hmem, hlive⟩, hmissed⟩ := hstate
  exact ⟨ousting, s, _, entry, hordinary, runs_of_runAll hrun, of_decide_eq_true hmem, hlive,
    Prod.ext hanswer rfl, of_decide_eq_true hmissed⟩

end Exchange

end LinearDialogue
