import LinearDialogue.Proofs.Deliveries

/-!
# Turns

A delivery gives one registration after another its turn.  A live registration is called, one whose
listener is gone is passed over, and the turns end with the first call after which the event is
consumed, or when all registrations have had one.  Which of the two it is, is settled when the turn
comes.

A publication from outside is a delivery for its event, and one for each event that waits when a
delivery is over.
-/

namespace LinearDialogue

variable {ρ σ : Type}

/-- The turn of a registration, from one state to another. -/
structure Turn (ρ σ : Type) where
  entry : Registration ρ
  before : σ
  after : σ

/-- The delivery of an event, from one state to another. -/
structure Dispatch (ρ σ : Type) where
  event : Event
  start : σ
  turns : List (Turn ρ σ)
  stop : σ

namespace Bus

/-- The registrations that have been called so far. -/
def called (b : Bus ρ) : List (Registration ρ) := b.history.filterMap Moment.called?

theorem called_of_history {b c : Bus ρ} {moments : List (Moment ρ)}
    (h : c.history = b.history ++ moments) :
    c.called = b.called ++ moments.filterMap Moment.called? := by
  rw [called, h, List.filterMap_append]
  rfl

theorem called_eq_of_history {b c : Bus ρ} (h : c.history = b.history) : c.called = b.called := by
  rw [called, h]
  rfl

theorem called_record {b : Bus ρ} {moment : Moment ρ} (h : moment.called? = none) :
    (b.record moment).called = b.called := by
  rw [called_of_history rfl, List.filterMap_cons_none h, List.filterMap_nil, List.append_nil]

theorem called_calling (entry : Registration ρ) (b : Bus ρ) :
    (b.calling entry).called = b.called ++ [entry] := by
  have hhistory : (b.calling entry).history = b.history ++ [.called entry] := rfl
  rw [called_of_history hhistory]
  rfl

theorem called_afterCall (entry : Registration ρ) (failure : Option Failure) (b : Bus ρ) :
    (b.afterCall entry failure).called = b.called := by
  rw [called_of_history (afterCall_history entry failure), List.filterMap_cons_none rfl,
    List.filterMap_nil, List.append_nil]

variable [DecidableEq ρ] {b c : Bus ρ} {ok : Value → Prop} {es : List Event}

theorem Moves.called (h : Moves ok b es c) : c.called = b.called := by
  rw [called_of_history h.history]
  simp [List.filterMap_map, Function.comp_def, Moment.called?]

theorem called_finish (distinct : ρ → Bool) : (b.finish distinct).called = b.called := by
  cases hd : b.current with
  | none => simp only [finish, hd]
  | some d =>
      have hhistory : (b.finish distinct).history = b.history ++ [.ended d.fate] := by
        rw [finish_eq hd]
      rw [called_of_history hhistory, List.filterMap_cons_none rfl, List.filterMap_nil,
        List.append_nil]

end Bus

variable [Part (Bus ρ) σ]

/-- Deliveries of the events that wait, one after another. -/
inductive Dispatch.Chain : σ → List (Dispatch ρ σ) → σ → Prop
  | nil {s : σ} : Chain s [] s
  | cons {d : Dispatch ρ σ} {later : List (Dispatch ρ σ)} {waiting : List Event} {s t : σ}
      (hqueue : (Part.get s : Bus ρ).queue = d.event :: waiting)
      (hstart : d.start = Part.set { (Part.get s : Bus ρ) with queue := waiting } s)
      (hlater : Chain d.stop later t) : Chain s (d :: later) t

variable [DecidableEq ρ] [Part Journal σ]

namespace Handling

variable (h : Handling ρ σ) (type : EventType)

def turn (entry : Registration ρ) : Act σ Unit := do
  if ← h.isLive entry then
    Part.update (Bus ρ) (Bus.meet (some entry.listener))
    h.callLogged type entry
    if entry.oneShot.isTruthy then Part.update (Bus ρ) (Bus.mark entry)
  else
    Part.update (Bus ρ) (Bus.meet none)
    Part.update (Bus ρ) (Bus.mark entry)

/-- Is a registration called in its turn? -/
def isCalled (turn : Turn ρ σ) : Bool :=
  Bus.isLive (h.held turn.before) (Part.get turn.before) turn.entry

/-- Is a turn the last one, because the event is consumed after a call? -/
def isLast (turn : Turn ρ σ) : Bool :=
  h.isCalled turn && (Part.get turn.after : Bus ρ).isConsumed

/-- Registrations take their turns, until one of them is the last. -/
inductive Takes : σ → List (Registration ρ) → List (Turn ρ σ) → σ → Prop
  | nil {s : σ} : Takes s [] [] s
  | next {entry : Registration ρ} {rest : List (Registration ρ)} {turns : List (Turn ρ σ)}
      {s t u : σ} (hturn : h.turn type entry s = (.returned (), t))
      (hgoes : h.isLast ⟨entry, s, t⟩ = false) (hrest : Takes t rest turns u) :
      Takes s (entry :: rest) (⟨entry, s, t⟩ :: turns) u
  | last {entry : Registration ρ} {rest : List (Registration ρ)} {s t : σ}
      (hturn : h.turn type entry s = (.returned (), t)) (hends : h.isLast ⟨entry, s, t⟩ = true) :
      Takes s (entry :: rest) [⟨entry, s, t⟩] t

/-- A delivery is what comes of its event, and all states that are seen in it are as `K` says. -/
structure Dispatches (K : σ → Prop) (d : Dispatch ρ σ) : Prop where
  delivers : ∃ event, h.deliver d.event d.start = (.returned event, d.stop)
  takes : ∃ t, h.Takes d.event.type
    (Part.set (((Part.get d.start : Bus ρ).opening d.event).begin d.event) d.start)
    ((Part.get d.start : Bus ρ).registrations d.event.type) d.turns t
  called : (Part.get d.stop : Bus ρ).called =
    (Part.get d.start : Bus ρ).called ++ (d.turns.filter h.isCalled).map (·.entry)
  start : K d.start
  stop : K d.stop
  turns : ∀ turn ∈ d.turns, K turn.before ∧ K turn.after

variable {h type} {entry : Registration ρ} {entries rest : List (Registration ρ)}
  {turns : List (Turn ρ σ)} {failure : Option Failure} {c : Bus ρ} {s t : σ}

theorem turn_of_gone (hlive : Bus.isLive (h.held s) (Part.get s) entry = false) :
    h.turn type entry s =
      (.returned (), Part.set (((Part.get s : Bus ρ).meet none).mark entry) s) := by
  simp [turn, Act.bind_apply, isLive, hlive, Part.get_set, Part.set_set]

theorem turn_of_called (hlive : Bus.isLive (h.held s) (Part.get s) entry = true)
    (hcall :
      h.callLogged type entry (Part.set ((Part.get s : Bus ρ).meet (some entry.listener)) s) =
        (.returned (), t))
    (ht : (Part.get t : Bus ρ) = c.record (.returned failure)) :
    h.turn type entry s = (.returned (), Part.set (c.afterCall entry failure) t) := by
  simp only [turn, Act.bind_apply, isLive, hlive, if_true, Part.update_apply, hcall]
  cases htruthy : entry.oneShot.isTruthy with
  | true => simp [Bus.afterCall, htruthy, ht]
  | false => simp [Bus.afterCall, htruthy, ← ht, Part.set_get]

/-- The registrations after one that has had its turn are visited unless it was the last. -/
theorem visit_of_turn (rest : List (Registration ρ))
    (hturn : h.turn type entry s = (.returned (), t)) :
    h.visit type (entry :: rest) s =
      if h.isLast ⟨entry, s, t⟩ then (.returned (), t) else h.visit type rest t := by
  cases hlive : Bus.isLive (h.held s) (Part.get s) entry with
  | false =>
      rw [turn_of_gone hlive] at hturn
      cases hturn
      rw [visit_of_gone rest hlive, if_neg (by simp [isLast, isCalled, hlive])]
  | true =>
      have hlast : h.isLast ⟨entry, s, t⟩ = (Part.get t : Bus ρ).isConsumed := by
        simp [isLast, isCalled, hlive]
      simp only [turn, visit, Act.bind_apply, isLive, hlive, if_true, Part.update_apply] at hturn ⊢
      rw [hlast]
      split at hturn
      next u hcall =>
        cases htruthy : entry.oneShot.isTruthy <;> simp [htruthy, Act.bind_apply] at hturn ⊢ <;>
          subst hturn <;> split <;> rfl
      all_goals cases hturn

namespace Takes

theorem visit (htakes : h.Takes type s entries turns t) :
    h.visit type entries s = (.returned (), t) := by
  induction htakes with
  | nil => rfl
  | next hturn hgoes _ ih => rw [visit_of_turn _ hturn, hgoes, if_neg Bool.false_ne_true, ih]
  | last hturn hends => rw [visit_of_turn _ hturn, hends, if_pos rfl]

/-- Registrations have their turns in their order, from the first one on. -/
theorem isPrefix (htakes : h.Takes type s entries turns t) :
    turns.map (·.entry) <+: entries := by
  induction htakes with
  | nil => exact List.prefix_refl []
  | next hturn hgoes _ ih => exact (List.prefix_cons_inj _).mpr ih
  | last hturn hends => exact (List.prefix_cons_inj _).mpr (List.nil_prefix)

/-- Only the last turn can end the delivery. -/
theorem goes_on (htakes : h.Takes type s entries turns t) :
    ∀ turn ∈ turns.dropLast, h.isLast turn = false := by
  induction htakes with
  | nil => exact fun _ hturn ↦ absurd hturn List.not_mem_nil
  | @next _ _ turns _ _ _ hturn hgoes _ ih =>
      intro turn hmem
      cases turns with
      | nil => cases hmem
      | cons second later =>
          rcases List.mem_cons.mp hmem with rfl | hmem
          · exact hgoes
          · exact ih turn hmem
  | last hturn hends => exact fun _ hturn ↦ absurd hturn List.not_mem_nil

/-- All registrations have their turns, or the last turn ends the delivery. -/
theorem all_or_last (htakes : h.Takes type s entries turns t) :
    turns.map (·.entry) = entries ∨
      ∃ turn, turns.getLast? = some turn ∧ h.isLast turn = true := by
  induction htakes with
  | nil => exact .inl rfl
  | @next entry _ turns _ _ _ hturn hgoes _ ih =>
      rcases ih with hall | ⟨turn, hturn, hends⟩
      · exact .inl (congrArg (List.cons entry) hall)
      · exact .inr ⟨turn, by rw [List.getLast?_cons, hturn, Option.getD_some], hends⟩
  | last hturn hends => exact .inr ⟨_, rfl, hends⟩

end Takes

/-- Deliveries one after another leave those called that had been called before. -/
theorem exists_called_of_chain {K : σ → Prop} {later : List (Dispatch ρ σ)}
    (hchain : Dispatch.Chain s later t) (hlater : ∀ d ∈ later, h.Dispatches K d) :
    ∃ called, (Part.get t : Bus ρ).called = (Part.get s : Bus ρ).called ++ called := by
  induction hchain with
  | nil => exact ⟨[], (List.append_nil _).symm⟩
  | @cons d later waiting s t hqueue hstart _ ih =>
      obtain ⟨hd, hothers⟩ := List.forall_mem_cons.mp hlater
      obtain ⟨called, hcalled⟩ := ih hothers
      have htaken : (Part.get d.start : Bus ρ).called = (Part.get s : Bus ρ).called := by
        rw [hstart, Part.get_set]
        rfl
      refine ⟨(d.turns.filter h.isCalled).map (·.entry) ++ called, ?_⟩
      rw [hcalled, hd.called, htaken, List.append_assoc]

namespace Obeys

variable {ok : Value → Prop} {E : Event → Prop} {I : List (Registration ρ) → σ → Prop}
  {Q : Event → Call ρ → Prop} {d : Delivery ρ}

/-- A registration has its turn, in which it is called if it is live. -/
theorem turn (ho : h.Obeys ok E I Q) (type : EventType) (hI : I (entry :: rest) s)
    (hd : (Part.get s : Bus ρ).current = some d) :
    ∃ t, h.turn type entry s = (.returned (), t) ∧ I rest t ∧
      (∃ e, (Part.get t : Bus ρ).current = some e) ∧
      (Part.get t : Bus ρ).called =
        (Part.get s : Bus ρ).called ++ if h.isCalled ⟨entry, s, t⟩ then [entry] else [] := by
  cases hlive : Bus.isLive (h.held s) (Part.get s) entry with
  | false =>
      obtain ⟨hmarked, e, he, -⟩ := ho.gone hI hd
      refine ⟨_, turn_of_gone hlive, hmarked, ⟨e, by rw [Part.get_set, he]⟩, ?_⟩
      simp only [isCalled, hlive, Bool.false_eq_true, if_false, List.append_nil, Part.get_set]
      rfl
  | true =>
      obtain ⟨es, failure, c, t, hlogged, hmoves, hget, hafter, ⟨e, he, -⟩, -⟩ :=
        ho.called type hI hd
      refine ⟨_, turn_of_called hlive hlogged hget, hafter, ⟨e, by rw [Part.get_set, he]⟩, ?_⟩
      simp only [isCalled, hlive, if_true, Part.get_set, Bus.called_afterCall, hmoves.called,
        Bus.called_calling]

theorem takes (ho : h.Obeys ok E I Q) (type : EventType) (hI : I entries s)
    (hd : (Part.get s : Bus ρ).current = some d) :
    ∃ turns t, h.Takes type s entries turns t ∧ I [] t ∧
      (∃ e, (Part.get t : Bus ρ).current = some e) ∧
      (Part.get t : Bus ρ).called =
        (Part.get s : Bus ρ).called ++ (turns.filter h.isCalled).map (·.entry) ∧
      ∀ turn ∈ turns, I [] turn.before ∧ I [] turn.after := by
  induction entries generalizing s d with
  | nil => exact ⟨[], s, .nil, hI, ⟨d, hd⟩, by simp, by simp⟩
  | cons entry rest ih =>
      obtain ⟨t, hturn, ht, ⟨e, he⟩, hcalled⟩ := ho.turn type hI hd
      have hends : I [] s ∧ I [] t := ⟨ho.nil hI, ho.nil ht⟩
      have hfirst : (([⟨entry, s, t⟩] : List (Turn ρ σ)).filter h.isCalled).map (·.entry) =
          if h.isCalled ⟨entry, s, t⟩ then [entry] else [] := by
        cases hcall : h.isCalled ⟨entry, s, t⟩ <;> simp [hcall]
      cases hlast : h.isLast ⟨entry, s, t⟩ with
      | true => exact ⟨_, t, .last hturn hlast, hends.2, ⟨e, he⟩, by rw [hcalled, hfirst], by simpa⟩
      | false =>
          obtain ⟨turns, u, htakes, hu, hcurrent, hrest, hturns⟩ := ih ht he
          refine ⟨_, u, .next hturn hlast htakes, hu, hcurrent, ?_, ?_⟩
          · rw [hrest, hcalled, ← hfirst, List.append_assoc, ← List.map_append,
              ← List.filter_append, List.singleton_append]
          · exact List.forall_mem_cons.mpr ⟨hends, hturns⟩

theorem dispatches (ho : h.Obeys ok E I Q) {event : Event} (he : E event) (hI : I [] s) :
    ∃ d : Dispatch ρ σ, d.event = event ∧ d.start = s ∧ h.Dispatches (I []) d := by
  have hbegun := ho.beginning he hI
  have hsame := (Part.get s : Bus ρ).registrations_opening event event.type
  have hcalled : ((Part.get s : Bus ρ).opening event).called = (Part.get s : Bus ρ).called := by
    rw [Bus.opening, Bus.called_record rfl]
    exact Bus.called_eq_of_history (by rw [Bus.pin_eq])
  cases hentries : ((Part.get s : Bus ρ).opening event).registrations event.type with
  | nil =>
      refine ⟨⟨event, s, [],
        Part.set (((Part.get s : Bus ρ).opening event).record (.ended .kept)) s⟩, rfl, rfl,
        ⟨event, deliver_of_nil hentries⟩,
        ⟨Part.set (((Part.get s : Bus ρ).opening event).begin event) s, ?_⟩, ?_, hI, ?_, by simp⟩
      · rw [← hsame, hentries]
        exact .nil
      · rw [Part.get_set, Bus.called_record rfl, hcalled]
        simp
      · have hended := ho.attend (.record (.ended .kept) rfl) (ho.opening event hI)
        rwa [Part.get_set, Part.set_set] at hended
  | cons first others =>
      rw [hentries] at hbegun
      obtain ⟨turns, t, htakes, ht, -, hturned, hturns⟩ := ho.takes event.type hbegun
        (d := { event := event }) (by rw [Part.get_set]; rfl)
      refine ⟨⟨event, s, turns, h.finish t⟩, rfl, rfl, ⟨_, deliver_of_cons hentries htakes.visit⟩,
        ⟨t, ?_⟩, ?_, hI, ho.finish ht, hturns⟩
      · rw [← hsame, hentries]
        exact htakes
      · rw [Part.get_set] at hturned
        rw [Handling.finish, Part.get_set, Bus.called_finish, hturned, ← hcalled]
        rfl

theorem chain (ho : h.Obeys ok E I Q) (fuel : Nat) (hI : I [] s) :
    ∃ (later : List (Dispatch ρ σ)) (outcome : Outcome Unit) (t : σ),
      h.drain fuel s = (outcome, t) ∧ Dispatch.Chain s later t ∧ I [] t ∧
      (∀ d ∈ later, h.Dispatches (I []) d) ∧
      (outcome = .returned () ∧ (Part.get t : Bus ρ).queue = [] ∨
        outcome = .stalled ∧ later.length = fuel ∧ (Part.get t : Bus ρ).queue ≠ []) := by
  induction fuel generalizing s with
  | zero =>
      cases hqueue : (Part.get s : Bus ρ).queue with
      | nil => exact ⟨[], _, s, drain_of_nil 0 hqueue, .nil, hI, by simp, .inl ⟨rfl, hqueue⟩⟩
      | cons event waiting =>
          exact ⟨[], _, s, drain_zero_of_cons hqueue, .nil, hI, by simp,
            .inr ⟨rfl, rfl, by simp [hqueue]⟩⟩
  | succ fuel ih =>
      cases hqueue : (Part.get s : Bus ρ).queue with
      | nil =>
          exact ⟨[], _, s, drain_of_nil (fuel + 1) hqueue, .nil, hI, by simp, .inl ⟨rfl, hqueue⟩⟩
      | cons event waiting =>
          have he : E event := ho.wait hI (by rw [hqueue]; exact List.mem_cons_self)
          obtain ⟨d, rfl, hstart, hd⟩ := ho.dispatches he (ho.attend (.take hqueue) hI)
          obtain ⟨answer, hdeliver⟩ := hd.delivers
          obtain ⟨later, outcome, t, hdrain, hchain, ht, hlater, hend⟩ := ih hd.stop
          rw [hstart] at hdeliver
          refine ⟨d :: later, outcome, t, (drain_succ_of_cons fuel hqueue hdeliver).trans hdrain,
            .cons hqueue hstart hchain, ht, List.forall_mem_cons.mpr ⟨hd, hlater⟩,
            by simpa using hend⟩

/-- What is published from outside is delivered turn by turn, and so is what waits after it. -/
theorem publishes (ho : h.Obeys ok E I Q) (fuel : Nat) {event : Event} (he : E event)
    (hI : I [] (Part.set ((Part.get s : Bus ρ).record (.published event)) s)) :
    ∃ (first : Dispatch ρ σ) (later : List (Dispatch ρ σ)) (outcome : Outcome Event) (t : σ),
      h.publish fuel event s = (outcome, Part.set (Part.get t : Bus ρ).release t) ∧
      first.event = event ∧
      first.start = Part.set ((Part.get s : Bus ρ).record (.published event)) s ∧
      Dispatch.Chain first.stop later t ∧ (∀ d ∈ first :: later, h.Dispatches (I []) d) ∧
      ((∃ answer, outcome = .returned answer) ∧ (Part.get t : Bus ρ).queue = [] ∨
        outcome = .stalled ∧ later.length = fuel ∧ (Part.get t : Bus ρ).queue ≠ []) := by
  obtain ⟨first, rfl, hstart, hfirst⟩ := ho.dispatches he hI
  obtain ⟨answer, hdeliver⟩ := hfirst.delivers
  obtain ⟨later, outcome, t, hdrain, hchain, -, hlater, hend⟩ := ho.chain fuel hfirst.stop
  rw [hstart] at hdeliver
  refine ⟨first, later, _, t, publish_of_drain hdeliver hdrain, rfl, hstart, hchain,
    List.forall_mem_cons.mpr ⟨hfirst, hlater⟩, ?_⟩
  rcases hend with ⟨rfl, hqueue⟩ | ⟨rfl, hlength, hqueue⟩
  · exact .inl ⟨⟨answer, rfl⟩, hqueue⟩
  · exact .inr ⟨rfl, hlength, hqueue⟩

end Obeys

end Handling

end LinearDialogue
