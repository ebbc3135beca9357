import LinearDialogue.Proofs.Acts
import LinearDialogue.Proofs.Visits

/-!
# Deliveries run to their end

A handling whose listeners always return or fail, and use the bus by its operations only, runs every
delivery to its end.  What its listeners keep true of the state is kept by deliveries and by
publications, and the buses are related as rounds say.  Only a publication can be stalled, when more
events wait than it may deliver.
-/

namespace LinearDialogue

variable {ρ σ : Type}

/-- The failure that an answer tells of. -/
def failureOf? {α : Type} : Except Failure α → Option Failure
  | .ok _ => none
  | .error failure => some failure

/-- A call is logged, whatever comes of it. -/
theorem Handling.callLogged_of_attempt [Part (Bus ρ) σ] [Part Journal σ] {h : Handling ρ σ}
    {entry : Registration ρ} {s t : σ} (type : EventType) {answer : Except Failure Unit}
    (hrun : (h.call entry.listener).attempt
      (Part.set ((Part.get s : Bus ρ).record (.called entry)) s) = (.returned answer, t)) :
    ∃ j : Journal, h.callLogged type entry s =
      (.returned (), Part.set
        ((Part.get (Part.set j t) : Bus ρ).record (.returned (failureOf? answer)))
        (Part.set j t)) := by
  cases answer with
  | ok result =>
      refine ⟨Part.get t, ?_⟩
      simp only [callLogged, Act.bind_apply, Part.update_apply, hrun, Part.set_get, failureOf?]
  | error failure =>
      refine ⟨{ (Part.get t : Journal) with
        log := (Part.get t : Journal).log ++ [callFailed type failure] }, ?_⟩
      simp only [callLogged, Act.bind_apply, Part.update_apply, hrun, Journal.report, failureOf?]

variable [DecidableEq ρ] [Part (Bus ρ) σ] [Part Journal σ]

/-- Every listener returns or fails, moves the bus by its operations only, and keeps a property `I`
of the state, which can speak of the registrations that are still to be visited and of the end of
the call.  The events that wait, and that are delivered, are as `E` says, and of a call on the
delivery of an event `Q` is known. -/
structure Handling.Obeys (h : Handling ρ σ) (ok : Value → Prop) (E : Event → Prop)
    (I : List (Registration ρ) → σ → Prop) (Q : Event → Call ρ → Prop) : Prop where
  apart : ∀ (b : Bus ρ) (j : Journal) (s : σ),
    Part.set b (Part.set j s) = Part.set j (Part.set b s)
  journal : ∀ {rest : List (Registration ρ)} {s : σ} (j : Journal), I rest s → I rest (Part.set j s)
  attend : ∀ {rest : List (Registration ρ)} {s : σ} {b : Bus ρ}, Bus.Attends (Part.get s) b →
    I rest s → I rest (Part.set b s)
  wait : ∀ {s : σ} {event : Event}, I [] s → event ∈ (Part.get s : Bus ρ).queue → E event
  begin : ∀ {s : σ} {event : Event}, E event → I [] s →
    I ((Part.get s : Bus ρ).registrations event.type)
      (Part.set ((Part.get s : Bus ρ).begin event) s)
  finish : ∀ {s : σ}, I [] s → I [] (h.finish s)
  tail : ∀ {entry : Registration ρ} {rest : List (Registration ρ)} {s : σ},
    I (entry :: rest) s → I rest s
  call : ∀ {entry : Registration ρ} {rest : List (Registration ρ)} {s : σ} {d : Delivery ρ},
    I (entry :: rest) s → (Part.get s : Bus ρ).current = some d →
    (∃ before, (Part.get s : Bus ρ).history = before ++ [.called entry]) →
    ∃ (answer : Except Failure Unit) (es : List Event) (t : σ),
      (h.call entry.listener).attempt s = (.returned answer, t) ∧
      Bus.Moves (ρ := ρ) ok (Part.get s) es (Part.get t) ∧
      I rest (Part.set ((Part.get t : Bus ρ).record (.returned (failureOf? answer))) t) ∧
      ∀ event, d.event.SameAs event → Q event ⟨entry, es, failureOf? answer⟩

namespace Handling

variable {h : Handling ρ σ} {type : EventType} {entry : Registration ρ}
  {s t : σ} {failure : Option Failure} {c : Bus ρ}

theorem visit_of_gone (rest : List (Registration ρ))
    (hlive : Bus.isLive (h.held s) (Part.get s) entry = false) :
    h.visit type (entry :: rest) s =
      h.visit type rest (Part.set (((Part.get s : Bus ρ).meet none).mark entry) s) := by
  simp [visit, Act.bind_apply, isLive, hlive, Part.get_set, Part.set_set]

theorem visit_of_called (rest : List (Registration ρ))
    (hlive : Bus.isLive (h.held s) (Part.get s) entry = true)
    (hcall :
      h.callLogged type entry (Part.set ((Part.get s : Bus ρ).meet (some entry.listener)) s) =
        (.returned (), t))
    (ht : (Part.get t : Bus ρ) = c.record (.returned failure)) :
    h.visit type (entry :: rest) s =
      if (c.afterCall entry failure).isConsumed then
        (.returned (), Part.set (c.afterCall entry failure) t)
      else h.visit type rest (Part.set (c.afterCall entry failure) t) := by
  simp only [visit, Act.bind_apply, isLive, hlive, if_true, Part.update_apply, hcall]
  cases htruthy : entry.oneShot.isTruthy with
  | true =>
      have hafter : c.afterCall entry failure = (Part.get t : Bus ρ).mark entry := by
        simp [Bus.afterCall, htruthy, ht]
      rw [hafter]
      simp only [if_true, Act.bind_apply, Part.update_apply, Part.read_apply, Part.get_set]
      split <;> rfl
  | false =>
      have hafter : c.afterCall entry failure = Part.get t := by
        simp [Bus.afterCall, htruthy, ht]
      rw [hafter, Part.set_get]
      simp only [Bool.false_eq_true, if_false, Act.bind_apply, Part.read_apply]
      split <;> rfl

theorem deliver_of_nil {event : Event}
    (hentries : ((Part.get s : Bus ρ).opening event).registrations event.type = []) :
    h.deliver event s =
      (.returned event,
        Part.set (((Part.get s : Bus ρ).opening event).record (.ended .kept)) s) := by
  rw [Bus.opening] at hentries ⊢
  simp [deliver, Act.bind_apply, Part.get_set, Part.set_set, hentries]

theorem deliver_of_cons {event : Event} {entries : List (Registration ρ)} {first : Registration ρ}
    (hentries : ((Part.get s : Bus ρ).opening event).registrations event.type = first :: entries)
    (hvisit : h.visit event.type (first :: entries)
      (Part.set (((Part.get s : Bus ρ).opening event).begin event) s) = (.returned (), t)) :
    h.deliver event s =
      (.returned (((Part.get t : Bus ρ).current.map (·.event)).getD event), h.finish t) := by
  rw [Bus.opening] at hentries hvisit
  simp [deliver, Act.bind_apply, Part.get_set, Part.set_set, hentries, hvisit]

theorem drain_of_nil (fuel : Nat) (hqueue : (Part.get s : Bus ρ).queue = []) :
    h.drain fuel s = (.returned (), s) := by
  cases fuel <;> simp [drain, Act.bind_apply, hqueue]

theorem drain_zero_of_cons {event : Event} {waiting : List Event}
    (hqueue : (Part.get s : Bus ρ).queue = event :: waiting) : h.drain 0 s = (.stalled, s) := by
  simp [drain, Act.bind_apply, hqueue]

theorem drain_succ_of_cons (fuel : Nat) {event answer : Event} {waiting : List Event}
    (hqueue : (Part.get s : Bus ρ).queue = event :: waiting)
    (hdeliver : h.deliver event (Part.set { (Part.get s : Bus ρ) with queue := waiting } s) =
      (.returned answer, t)) : h.drain (fuel + 1) s = h.drain fuel t := by
  simp [drain, Act.bind_apply, hqueue, hdeliver]

/-- A publication ends as the delivery of what waits after its event. -/
theorem publish_of_drain {fuel : Nat} {event answer : Event} {outcome : Outcome Unit} {u : σ}
    (hdeliver : h.deliver event (Part.set ((Part.get s : Bus ρ).record (.published event)) s) =
      (.returned answer, t))
    (hdrain : h.drain fuel t = (outcome, u)) :
    h.publish fuel event s =
      (outcome.map fun _ ↦ answer, Part.set (Part.get u : Bus ρ).release u) := by
  cases outcome <;> simp [publish, Act.bind_apply, hdeliver, hdrain, Outcome.map]

end Handling

namespace Handling.Obeys

variable {h : Handling ρ σ} {ok : Value → Prop} {E : Event → Prop}
  {I : List (Registration ρ) → σ → Prop} {Q : Event → Call ρ → Prop}
  {rest : List (Registration ρ)} {s t : σ} {d : Delivery ρ}

theorem get_bus_set_journal (ho : h.Obeys ok E I Q) (j : Journal) (s : σ) :
    (Part.get (Part.set j s) : Bus ρ) = Part.get s := by
  have hset := ho.apart (Part.get s) j s
  rw [Part.set_get] at hset
  rw [← hset, Part.get_set]

theorem nil (ho : h.Obeys ok E I Q) (hI : I rest s) : I [] s := by
  induction rest with
  | nil => exact hI
  | cons entry rest ih => exact ih (ho.tail hI)

/-- A call that is logged leaves the bus as it says. -/
theorem callLogged (ho : h.Obeys ok E I Q) (type : EventType) {entry : Registration ρ}
    (hI : I (entry :: rest) s) (hd : (Part.get s : Bus ρ).current = some d) :
    ∃ es failure c t, h.callLogged type entry s = (.returned (), t) ∧
      Bus.Moves ok ((Part.get s : Bus ρ).record (.called entry)) es c ∧
      (Part.get t : Bus ρ) = c.record (.returned failure) ∧ I rest t ∧
      ∀ event, d.event.SameAs event → Q event ⟨entry, es, failure⟩ := by
  have hcalled : I (entry :: rest) (Part.set ((Part.get s : Bus ρ).record (.called entry)) s) :=
    ho.attend (.record _ rfl) hI
  obtain ⟨answer, es, t, hcall, hmoves, hrest, hq⟩ := ho.call (d := d) hcalled
    (by rw [Part.get_set]; exact hd) ⟨_, by rw [Part.get_set]; rfl⟩
  rw [Part.get_set] at hmoves
  obtain ⟨j, hlogged⟩ := callLogged_of_attempt type hcall
  rw [ho.get_bus_set_journal] at hlogged
  refine ⟨es, failureOf? answer, Part.get t, _, hlogged, hmoves, Part.get_set _ _, ?_, hq⟩
  rw [ho.apart]
  exact ho.journal j hrest

/-- A live registration is called and marked if it has to be, in a delivery that goes on. -/
theorem called (ho : h.Obeys ok E I Q) (type : EventType) {entry : Registration ρ}
    (hI : I (entry :: rest) s) (hd : (Part.get s : Bus ρ).current = some d) :
    ∃ es failure c t,
      h.callLogged type entry (Part.set ((Part.get s : Bus ρ).meet (some entry.listener)) s) =
        (.returned (), t) ∧
      Bus.Moves ok ((Part.get s : Bus ρ).calling entry) es c ∧
      (Part.get t : Bus ρ) = c.record (.returned failure) ∧
      I rest (Part.set (c.afterCall entry failure) t) ∧
      (∃ e, (c.afterCall entry failure).current = some e ∧ d.event.SameAs e.event) ∧
      ∀ event, d.event.SameAs event → Q event ⟨entry, es, failure⟩ := by
  have hmet : I (entry :: rest) (Part.set ((Part.get s : Bus ρ).meet (some entry.listener)) s) :=
    ho.attend (.meet _) hI
  obtain ⟨es, failure, c, t, hlogged, hmoves, hget, ht, hq⟩ :=
    ho.callLogged type (d := { d with last := some entry.listener }) hmet
      (by simp [Part.get_set, Bus.meet, Bus.onCurrent, hd])
  rw [Part.get_set] at hmoves
  refine ⟨es, failure, c, t, hlogged, hmoves, hget, ?_, ?_, hq⟩
  · rw [Bus.afterCall, ← hget]
    split
    · exact ho.attend (.mark entry) ht
    · rwa [Part.set_get]
  · obtain ⟨e, he, hde, -⟩ := hmoves.continues (d := { d with last := some entry.listener })
      (by simp [Bus.record, Bus.meet, Bus.onCurrent, hd])
    exact ⟨_, Bus.afterCall_current entry failure he, hde.event.symm⟩

/-- A registration whose listener is gone is marked. -/
theorem gone (ho : h.Obeys ok E I Q) {entry : Registration ρ} (hI : I (entry :: rest) s)
    (hd : (Part.get s : Bus ρ).current = some d) :
    I rest (Part.set (((Part.get s : Bus ρ).meet none).mark entry) s) ∧
      ∃ e, (((Part.get s : Bus ρ).meet none).mark entry).current = some e ∧ e.event = d.event := by
  have hmarked := ho.attend (.mark entry) (ho.attend (.meet none) (ho.tail hI))
  rw [Part.get_set, Part.set_set] at hmarked
  exact ⟨hmarked, { d with last := none, marked := d.marked ++ [entry] },
    by simp [Bus.meet, Bus.mark, Bus.onCurrent, hd], rfl⟩

/-- The registrations of a delivery are visited, to the end or until the event is consumed. -/
theorem visit (ho : h.Obeys ok E I Q) (type : EventType) {entries : List (Registration ρ)}
    (hI : I entries s) (hd : (Part.get s : Bus ρ).current = some d) :
    ∃ calls t, h.visit type entries s = (.returned (), t) ∧
      Bus.Visits ok (Part.get s) entries calls (Part.get t) ∧ I [] t ∧
      ∀ call ∈ calls, ∀ event, d.event.SameAs event → Q event call := by
  induction entries generalizing s d with
  | nil => exact ⟨[], s, rfl, .nil, hI, by simp⟩
  | cons entry rest ih =>
      cases hlive : Bus.isLive (h.held s) (Part.get s) entry with
      | false =>
          obtain ⟨hmarked, e, he, hevent⟩ := ho.gone hI hd
          obtain ⟨calls, t, hrun, hvisits, ht, hq⟩ := ih hmarked (by rw [Part.get_set, he])
          rw [Part.get_set] at hvisits
          rw [hevent] at hq
          exact ⟨calls, t, (visit_of_gone rest hlive).trans hrun, .gone hvisits, ht, hq⟩
      | true =>
          obtain ⟨es, failure, c, t, hlogged, hmoves, hget, hafter, ⟨e, he, hevent⟩, hq⟩ :=
            ho.called type hI hd
          have hrun := visit_of_called rest hlive hlogged hget
          cases hconsumed : (c.afterCall entry failure).isConsumed with
          | true =>
              rw [if_pos hconsumed] at hrun
              refine ⟨[⟨entry, es, failure⟩], _, hrun, ?_, ho.nil hafter, by simpa using hq⟩
              rw [Part.get_set]
              exact .call hmoves rfl (by rw [if_pos hconsumed]; exact .nil)
          | false =>
              rw [if_neg (by simp [hconsumed])] at hrun
              obtain ⟨calls, u, hrest, hvisits, hu, hqs⟩ := ih hafter (by rw [Part.get_set, he])
              rw [Part.get_set] at hvisits
              refine ⟨⟨entry, es, failure⟩ :: calls, u, hrun.trans hrest,
                .call hmoves (by rw [if_neg (by simp [hconsumed])]) hvisits, hu, ?_⟩
              intro call hcall other hother
              rcases List.mem_cons.mp hcall with rfl | hcall
              · exact hq other hother
              · exact hqs call hcall other (hevent.symm.trans hother)

theorem opening (ho : h.Obeys ok E I Q) (event : Event) (hI : I [] s) :
    I [] (Part.set ((Part.get s : Bus ρ).opening event) s) := by
  have hrecorded := ho.attend (.record (.begun event) rfl) (ho.attend (.pin event.type) hI)
  rwa [Part.get_set, Part.set_set] at hrecorded

theorem beginning (ho : h.Obeys ok E I Q) {event : Event} (he : E event) (hI : I [] s) :
    I (((Part.get s : Bus ρ).opening event).registrations event.type)
      (Part.set (((Part.get s : Bus ρ).opening event).begin event) s) := by
  have hbegun := ho.begin he (ho.opening event hI)
  rwa [Part.get_set, Part.set_set] at hbegun

/-- An event is delivered, as soon as the property is known of the registrations to be visited. -/
theorem deliver_of_begun (ho : h.Obeys ok E I Q) {event : Event} (hI : I [] s)
    (hbegun : I (((Part.get s : Bus ρ).opening event).registrations event.type)
      (Part.set (((Part.get s : Bus ρ).opening event).begin event) s)) :
    ∃ round e t, h.deliver event s = (.returned e, t) ∧ round.event = event ∧
      Bus.Delivers ok (Part.get s) round (Part.get t) ∧ I [] t ∧
      ∀ call ∈ round.calls, Q event call := by
  have hsame := (Part.get s : Bus ρ).registrations_opening event event.type
  cases hentries : ((Part.get s : Bus ρ).opening event).registrations event.type with
  | nil =>
      refine ⟨⟨event, [], .kept⟩, _, _, deliver_of_nil hentries, rfl, ?_, ?_, by simp⟩
      · rw [Part.get_set]
        exact .unheard (by rw [← hsame, hentries])
      · have hended := ho.attend (.record (.ended .kept) rfl) (ho.opening event hI)
        rwa [Part.get_set, Part.set_set] at hended
  | cons first others =>
      rw [hentries] at hbegun
      obtain ⟨calls, t, hvisit, hvisits, ht, hq⟩ := ho.visit event.type hbegun
        (d := { event := event }) (by rw [Part.get_set]; rfl)
      rw [Part.get_set, ← hentries, hsame] at hvisits
      obtain ⟨d, _, _, _, hvisited, -⟩ := hvisits.exists_visited rfl
      refine ⟨⟨event, calls, d.fate⟩, _, _, deliver_of_cons hentries hvisit, rfl,
        ?_, ?_, fun call hcall ↦ hq call hcall event (Event.SameAs.refl event)⟩
      · rw [Handling.finish, Part.get_set]
        exact .heard _ hvisits hvisited.current
      · exact ho.finish ht

theorem deliver (ho : h.Obeys ok E I Q) {event : Event} (he : E event) (hI : I [] s) :
    ∃ round e t, h.deliver event s = (.returned e, t) ∧ round.event = event ∧
      Bus.Delivers ok (Part.get s) round (Part.get t) ∧ I [] t ∧
      ∀ call ∈ round.calls, Q event call :=
  ho.deliver_of_begun hI (ho.beginning he hI)

/-- Waiting events are delivered until none is left, or as many as may be. -/
theorem drain (ho : h.Obeys ok E I Q) (fuel : Nat) (hI : I [] s) :
    ∃ rounds outcome t, h.drain fuel s = (outcome, t) ∧
      Bus.Drains ok (Part.get s) rounds (Part.get t) ∧ I [] t ∧
      (∀ round ∈ rounds, ∀ call ∈ round.calls, Q round.event call) ∧
      (outcome = .returned () ∧ (Part.get t : Bus ρ).queue = [] ∨
        outcome = .stalled ∧ rounds.length = fuel ∧ (Part.get t : Bus ρ).queue ≠ []) := by
  induction fuel generalizing s with
  | zero =>
      cases hqueue : (Part.get s : Bus ρ).queue with
      | nil => exact ⟨[], _, s, drain_of_nil 0 hqueue, .nil, hI, by simp, .inl ⟨rfl, hqueue⟩⟩
      | cons event waiting =>
          exact ⟨[], _, s, drain_zero_of_cons hqueue, .nil, hI, by simp,
            .inr ⟨rfl, rfl, by simp [hqueue]⟩⟩
  | succ fuel ih =>
      cases hqueue : (Part.get s : Bus ρ).queue with
      | nil =>
          exact ⟨[], _, s, drain_of_nil (fuel + 1) hqueue, .nil, hI, by simp, .inl ⟨rfl, hqueue⟩⟩
      | cons event waiting =>
          obtain ⟨round, e, u, hdeliver, rfl, hround, hu, hq⟩ :=
            ho.deliver (ho.wait hI (by rw [hqueue]; exact List.mem_cons_self))
              (ho.attend (.take hqueue) hI)
          rw [Part.get_set] at hround
          obtain ⟨rounds, outcome, t, hrun, hdrains, ht, hqs, hend⟩ := ih hu
          refine ⟨round :: rounds, outcome, t, (drain_succ_of_cons fuel hqueue hdeliver).trans hrun,
            .cons hqueue hround hdrains, ht, ?_, by simpa using hend⟩
          intro other hother
          rcases List.mem_cons.mp hother with rfl | hother
          · exact hq
          · exact hqs other hother

/-- An event is published from outside, as soon as the property is known of the registrations that
its own delivery visits. -/
theorem publish_of_begun (ho : h.Obeys ok E I Q) (fuel : Nat) {event : Event} {u : σ}
    (hu : u = Part.set ((Part.get s : Bus ρ).record (.published event)) s) (hI : I [] u)
    (hbegun : I (((Part.get u : Bus ρ).opening event).registrations event.type)
      (Part.set (((Part.get u : Bus ρ).opening event).begin event) u)) :
    ∃ publication outcome t, h.publish fuel event s = (outcome, t) ∧
      publication.first.event = event ∧ Bus.Publishes ok (Part.get s) publication (Part.get t) ∧
      I [] t ∧ (∀ round ∈ publication.rounds, ∀ call ∈ round.calls, Q round.event call) ∧
      ((∃ e, outcome = .returned e) ∧ (Part.get t : Bus ρ).queue = [] ∨
        outcome = .stalled ∧ publication.later.length = fuel ∧
          (Part.get t : Bus ρ).queue ≠ []) := by
  obtain ⟨first, e, v, hdeliver, rfl, hfirst, hv, hq⟩ := ho.deliver_of_begun hI hbegun
  obtain ⟨later, outcome, t, hdrain, hdrains, ht, hqs, hend⟩ := ho.drain fuel hv
  rw [hu] at hdeliver hfirst
  rw [Part.get_set] at hfirst
  have hrounds : ∀ round ∈ first :: later, ∀ call ∈ round.calls, Q round.event call := by
    intro round hround
    rcases List.mem_cons.mp hround with rfl | hround
    · exact hq
    · exact hqs round hround
  refine ⟨⟨first, later⟩, _, _, publish_of_drain hdeliver hdrain, rfl, ?_, ho.attend .release ht,
    hrounds, ?_⟩
  · rw [Part.get_set]
    exact ⟨_, _, hfirst, hdrains, rfl⟩
  · rw [Part.get_set]
    rcases hend with ⟨rfl, hqueue⟩ | ⟨rfl, hlength, hqueue⟩
    · exact .inl ⟨⟨e, rfl⟩, hqueue⟩
    · exact .inr ⟨rfl, hlength, hqueue⟩

theorem publish (ho : h.Obeys ok E I Q) (fuel : Nat) {event : Event} (he : E event)
    (hI : I [] (Part.set ((Part.get s : Bus ρ).record (.published event)) s)) :
    ∃ publication outcome t, h.publish fuel event s = (outcome, t) ∧
      publication.first.event = event ∧ Bus.Publishes ok (Part.get s) publication (Part.get t) ∧
      I [] t ∧ (∀ round ∈ publication.rounds, ∀ call ∈ round.calls, Q round.event call) ∧
      ((∃ e, outcome = .returned e) ∧ (Part.get t : Bus ρ).queue = [] ∨
        outcome = .stalled ∧ publication.later.length = fuel ∧
          (Part.get t : Bus ρ).queue ≠ []) :=
  ho.publish_of_begun fuel rfl hI (ho.beginning he hI)

end Handling.Obeys

/-- Whatever a delivery consists of takes the state along a relation, the calls of listeners among
it. -/
structure Handling.Leads (h : Handling ρ σ) (R : σ → σ → Prop) : Prop where
  chains : Act.Chains R
  attend : ∀ {s : σ} {b : Bus ρ}, Bus.Attends (Part.get s) b → R s (Part.set b s)
  begin : ∀ (event : Event) (s : σ), R s (Part.set ((Part.get s : Bus ρ).begin event) s)
  finish : ∀ s : σ, R s (h.finish s)
  report : ∀ entry : LogEntry, (Journal.report entry : Act σ Unit).Along R
  call : ∀ listener : ρ, (h.call listener).Along R

namespace Handling.Leads

variable {h : Handling ρ σ} {R : σ → σ → Prop}

theorem callLogged (hl : h.Leads R) (type : EventType) (entry : Registration ρ) :
    (h.callLogged type entry).Along R := by
  have hreturned (failure : Option Failure) :
      (Part.update (Bus ρ) (Bus.record (.returned failure)) : Act σ Unit).Along R :=
    fun _ ↦ hl.attend (.record _ rfl)
  refine .bind hl.chains (fun _ ↦ hl.attend (.record _ rfl)) fun _ ↦ ?_
  refine .bind hl.chains (hl.call entry.listener).attempt fun answer ↦ ?_
  cases answer with
  | ok _ => exact hreturned none
  | error failure => exact .bind hl.chains (hl.report _) fun _ ↦ hreturned (some failure)

theorem visit (hl : h.Leads R) (type : EventType) (entries : List (Registration ρ)) :
    (h.visit type entries).Along R := by
  induction entries with
  | nil => exact .pure hl.chains ()
  | cons entry rest ih =>
      have hmark : (Part.update (Bus ρ) (Bus.mark entry) : Act σ Unit).Along R :=
        fun _ ↦ hl.attend (.mark entry)
      have hmeet (listener : Option ρ) :
          (Part.update (Bus ρ) (Bus.meet listener) : Act σ Unit).Along R :=
        fun _ ↦ hl.attend (.meet listener)
      have hnext : (do
          if (← Part.read (Bus ρ)).isConsumed then return ()
          h.visit type rest : Act σ Unit).Along R := by
        refine .bind hl.chains (.read hl.chains) fun bus ↦ ?_
        split
        · exact .pure hl.chains ()
        · exact ih
      refine .bind hl.chains (fun s ↦ hl.chains.refl s) fun isLive ↦ ?_
      cases isLive with
      | true =>
          refine .bind hl.chains (hmeet _) fun _ ↦
            .bind hl.chains (hl.callLogged type entry) fun _ ↦ ?_
          cases entry.oneShot.isTruthy with
          | true => exact .bind hl.chains hmark fun _ ↦ hnext
          | false => exact hnext
      | false => exact .bind hl.chains (hmeet none) fun _ ↦ .bind hl.chains hmark fun _ ↦ ih

theorem deliver (hl : h.Leads R) (event : Event) : (h.deliver event).Along R := by
  have hopening : (Part.update (Bus ρ) fun bus ↦ (bus.pin event.type).record (.begun event) :
      Act σ Unit).Along R := by
    intro s
    have hpin := hl.attend (s := s) (.pin event.type)
    have hrecord := hl.attend (s := Part.set ((Part.get s : Bus ρ).pin event.type) s)
      (.record (.begun event) rfl)
    rw [Part.get_set, Part.set_set] at hrecord
    exact hl.chains.trans hpin hrecord
  refine .bind hl.chains hopening fun _ ↦ .bind hl.chains (.read hl.chains) fun bus ↦ ?_
  split
  · exact .bind hl.chains (fun _ ↦ hl.attend (.record (.ended .kept) rfl)) fun _ ↦ .pure hl.chains _
  · refine .bind hl.chains (hl.begin event) fun _ ↦ .ensure hl.chains ?_ hl.finish
    refine .bind hl.chains (hl.visit event.type _) fun _ ↦ ?_
    exact .bind hl.chains (.read hl.chains) fun _ ↦ .pure hl.chains _

theorem drain (hl : h.Leads R) (fuel : Nat) : (h.drain fuel).Along R := by
  induction fuel with
  | zero =>
      refine .bind hl.chains (.read hl.chains) fun bus ↦ ?_
      split
      · exact .pure hl.chains ()
      · exact hl.chains.refl
  | succ fuel ih =>
      intro s
      cases hqueue : (Part.get s : Bus ρ).queue with
      | nil =>
          rw [drain_of_nil (fuel + 1) hqueue]
          exact hl.chains.refl s
      | cons event waiting =>
          have hdelivered : (do
              let _ ← h.deliver event
              h.drain fuel : Act σ Unit).Along R := .bind hl.chains (hl.deliver event) fun _ ↦ ih
          have hdrain : h.drain (fuel + 1) s = (do
              let _ ← h.deliver event
              h.drain fuel : Act σ Unit)
              (Part.set { (Part.get s : Bus ρ) with queue := waiting } s) := by
            simp [Handling.drain, Act.bind_apply, hqueue]
          rw [hdrain]
          exact hl.chains.trans (hl.attend (.take hqueue)) (hdelivered _)

/-- From the moment at which an event is published, its publication leads along the relation. -/
theorem publish (hl : h.Leads R) (fuel : Nat) (event : Event) (s : σ) :
    R (Part.set ((Part.get s : Bus ρ).record (.published event)) s) (h.publish fuel event s).2 := by
  have hdelivered : (do
      let event ← h.deliver event
      h.drain fuel
      return event : Act σ Event).Along R :=
    .bind hl.chains (hl.deliver event) fun _ ↦ .bind hl.chains (hl.drain fuel) fun _ ↦
      .pure hl.chains _
  exact hl.chains.trans (hdelivered _) (hl.attend .release)

end Handling.Leads

end LinearDialogue
