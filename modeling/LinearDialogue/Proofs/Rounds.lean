import LinearDialogue.Bus.Delivery
import LinearDialogue.Proofs.Moves

/-!
# Rounds

The history of a bus falls into rounds.  A round is the delivery of one event: its beginning, the
calls of listeners one after another, each with the events that it posts, and its end.  A
publication from outside is a round for its event and one for each event that waits after it.

Whatever the listeners do, as long as they work on the bus by its operations only and neither abort
nor stall, the runs of `Handling.publish` are those described here by relations between buses.
-/

namespace LinearDialogue

variable {ρ σ : Type}

def Moment.published? : Moment ρ → Option Event
  | .published event => some event
  | _ => none

def Moment.begun? : Moment ρ → Option Event
  | .begun event => some event
  | _ => none

def Moment.called? : Moment ρ → Option (Registration ρ)
  | .called entry => some entry
  | _ => none

/-- A call of the listener of a registration, with the events that it posted and the failure that it
ended with, if it did. -/
structure Call (ρ : Type) where
  entry : Registration ρ
  posted : List Event
  failure : Option Failure

/-- The delivery of an event, with its calls, and what has become of the list that it worked on. -/
structure Round (ρ : Type) where
  event : Event
  calls : List (Call ρ)
  fate : Fate

/-- A publication from outside: a round for its event, and one for each event posted since. -/
structure Publication (ρ : Type) where
  first : Round ρ
  later : List (Round ρ)

def Call.moments (call : Call ρ) : List (Moment ρ) :=
  .called call.entry :: call.posted.map .published ++ [.returned call.failure]

def Round.moments (round : Round ρ) : List (Moment ρ) :=
  .begun round.event :: round.calls.flatMap Call.moments ++ [.ended round.fate]

def Round.posted (round : Round ρ) : List Event := round.calls.flatMap Call.posted

def Publication.rounds (publication : Publication ρ) : List (Round ρ) :=
  publication.first :: publication.later

def Publication.moments (publication : Publication ρ) : List (Moment ρ) :=
  .published publication.first.event :: publication.rounds.flatMap Round.moments

namespace Moment

theorem filterMap_published?_map (events : List Event) :
    (events.map (published (ρ := ρ))).filterMap published? = events := by
  induction events with
  | nil => rfl
  | cons event rest ih =>
      rw [List.map_cons, List.filterMap_cons_some (f := published?) rfl, ih]

theorem filterMap_begun?_map (events : List Event) :
    (events.map (published (ρ := ρ))).filterMap begun? = [] := by
  induction events with
  | nil => rfl
  | cons event rest ih => rw [List.map_cons, List.filterMap_cons_none rfl, ih]

end Moment

theorem Call.filterMap_published? (call : Call ρ) :
    call.moments.filterMap Moment.published? = call.posted := by
  rw [moments, List.cons_append, List.filterMap_cons_none rfl, List.filterMap_append,
    Moment.filterMap_published?_map, List.filterMap_cons_none rfl, List.filterMap_nil,
    List.append_nil]

theorem Call.filterMap_begun? (call : Call ρ) : call.moments.filterMap Moment.begun? = [] := by
  rw [moments, List.cons_append, List.filterMap_cons_none rfl, List.filterMap_append,
    Moment.filterMap_begun?_map, List.filterMap_cons_none rfl, List.filterMap_nil, List.append_nil]

theorem Round.filterMap_published? (round : Round ρ) :
    round.moments.filterMap Moment.published? = round.posted := by
  rw [moments, List.cons_append, List.filterMap_cons_none rfl, List.filterMap_append,
    List.filterMap_flatMap, List.filterMap_cons_none rfl, List.filterMap_nil, List.append_nil]
  simp only [Call.filterMap_published?]
  rfl

theorem Round.filterMap_begun? (round : Round ρ) :
    round.moments.filterMap Moment.begun? = [round.event] := by
  rw [moments, List.cons_append, List.filterMap_cons_some (f := Moment.begun?) rfl,
    List.filterMap_append, List.filterMap_flatMap, List.filterMap_cons_none rfl,
    List.filterMap_nil, List.append_nil]
  simp [Call.filterMap_begun?]

theorem Publication.filterMap_published? (publication : Publication ρ) :
    publication.moments.filterMap Moment.published? =
      publication.first.event :: publication.rounds.flatMap Round.posted := by
  rw [moments, List.filterMap_cons_some (f := Moment.published?) rfl, List.filterMap_flatMap]
  simp only [Round.filterMap_published?]

theorem Publication.filterMap_begun? (publication : Publication ρ) :
    publication.moments.filterMap Moment.begun? = publication.rounds.map Round.event := by
  rw [moments, List.filterMap_cons_none rfl, List.filterMap_flatMap]
  simp only [Round.filterMap_begun?]
  exact List.flatMap_pure_eq_map Round.event publication.rounds

theorem Call.filterMap_called? (call : Call ρ) :
    call.moments.filterMap Moment.called? = [call.entry] := by
  rw [moments, List.cons_append, List.filterMap_cons_some (f := Moment.called?) rfl,
    List.filterMap_append, List.filterMap_map, List.filterMap_cons_none rfl, List.filterMap_nil]
  simp [Function.comp_def, Moment.called?]

theorem Round.filterMap_called? (round : Round ρ) :
    round.moments.filterMap Moment.called? = round.calls.map Call.entry := by
  rw [moments, List.cons_append, List.filterMap_cons_none rfl, List.filterMap_append,
    List.filterMap_flatMap, List.filterMap_cons_none rfl, List.filterMap_nil, List.append_nil]
  simp only [Call.filterMap_called?]
  exact List.flatMap_pure_eq_map Call.entry round.calls

theorem Publication.filterMap_called? (publication : Publication ρ) :
    publication.moments.filterMap Moment.called? =
      publication.rounds.flatMap fun round ↦ round.calls.map Call.entry := by
  rw [moments, List.filterMap_cons_none rfl, List.filterMap_flatMap]
  simp only [Round.filterMap_called?]

namespace Bus

/-- The events published so far. -/
def announced (b : Bus ρ) : List Event := b.history.filterMap Moment.published?

theorem announced_published (event : Event) (b : Bus ρ) :
    (b.record (.published event)).announced = b.announced ++ [event] := by
  simp [announced, record, Moment.published?]

/-- The events whose delivery has begun so far. -/
def begun (b : Bus ρ) : List Event := b.history.filterMap Moment.begun?

/-- A step besides the beginning and the end of a delivery and what listeners do. -/
inductive Attends (b : Bus ρ) : Bus ρ → Prop
  | record (moment : Moment ρ) (h : moment.published? = none) : Attends b (b.record moment)
  | pin (type : EventType) : Attends b (b.pin type)
  | meet (listener : Option ρ) : Attends b (b.meet listener)
  | mark (entry : Registration ρ) : Attends b (b.mark entry)
  | take {event : Event} {rest : List Event} (h : b.queue = event :: rest) :
      Attends b { b with queue := rest }
  | release : Attends b b.release

theorem announced_attends {b c : Bus ρ} (h : b.Attends c) : c.announced = b.announced := by
  cases h with
  | record moment h =>
      rw [Bus.announced, record, List.filterMap_append, List.filterMap_cons_none h,
        List.filterMap_nil, List.append_nil]
      rfl
  | pin type =>
      rw [pin]
      split <;> rfl
  | _ => rfl

theorem queue_attends {b c : Bus ρ} (h : b.Attends c) : c.queue ⊆ b.queue := by
  cases h with
  | pin type =>
      rw [pin]
      split <;> exact List.Subset.refl _
  | take h =>
      rw [h]
      exact List.subset_cons_self _ _
  | _ => exact List.Subset.refl _

theorem lists_attends {b c : Bus ρ} (h : b.Attends c) : c.lists = b.lists := by
  cases h with
  | pin type =>
      rw [pin]
      split <;> rfl
  | _ => rfl

theorem count_attends {b c : Bus ρ} (h : b.Attends c) : c.count = b.count := by
  cases h with
  | pin type =>
      rw [pin]
      split <;> rfl
  | _ => rfl

theorem history_attends {b c : Bus ρ} (h : b.Attends c) : b.history <+: c.history := by
  cases h with
  | record moment => exact List.prefix_append _ _
  | pin type =>
      rw [pin]
      split <;> exact List.prefix_refl _
  | _ => exact List.prefix_refl _

theorem staysWith_attends {b c : Bus ρ} (h : b.Attends c) : b.StaysWith c := by
  cases h with
  | record | take | release => exact staysWith_of_current rfl
  | pin type =>
      refine staysWith_of_current ?_
      rw [pin]
      split <;> rfl
  | meet | mark =>
      intro e he
      obtain ⟨d, hd, rfl⟩ := Option.map_eq_some_iff.mp he
      exact ⟨d, hd, Event.SameAs.refl _⟩

def calling (entry : Registration ρ) (b : Bus ρ) : Bus ρ :=
  (b.meet (some entry.listener)).record (.called entry)

def afterCall (entry : Registration ρ) (failure : Option Failure) (b : Bus ρ) : Bus ρ :=
  if entry.oneShot.isTruthy then (b.record (.returned failure)).mark entry
  else b.record (.returned failure)

/-- The bus when a delivery is about to begin. -/
def opening (event : Event) (b : Bus ρ) : Bus ρ := (b.pin event.type).record (.begun event)

variable {b c : Bus ρ}

theorem pin_eq (type : EventType) :
    b.pin type =
      { b with
        pinned :=
          if ((b.find? type).isSome && !b.pinned.contains type) = true then type :: b.pinned
          else b.pinned } := by
  rw [pin]
  split <;> rfl

theorem registrations_opening (event : Event) (type : EventType) :
    (b.opening event).registrations type = b.registrations type :=
  registrations_congr (by rw [opening, pin_eq, record]) type

theorem announced_moves [DecidableEq ρ] {ok : Value → Prop} {es : List Event}
    (h : Moves ok b es c) :
    c.announced = b.announced ++ es := by
  rw [announced, announced, h.history, List.filterMap_append, Moment.filterMap_published?_map]

/-- The events that a part of a run has announced are those that it has posted. -/
theorem eq_of_announced_moves [DecidableEq ρ] {ok : Value → Prop} {es told : List Event}
    (h : Moves ok b es c) (htold : c.announced = b.announced ++ told) : es = told :=
  List.append_cancel_left ((announced_moves h).symm.trans htold)

theorem announced_finish [DecidableEq ρ] (distinct : ρ → Bool) :
    (b.finish distinct).announced = b.announced := by
  cases hd : b.current with
  | none => simp only [finish, hd]
  | some d =>
      rw [announced, finish_eq hd, List.filterMap_append, List.filterMap_cons_none rfl,
        List.filterMap_nil, List.append_nil]
      rfl

theorem history_finish [DecidableEq ρ] (distinct : ρ → Bool) :
    b.history <+: (b.finish distinct).history := by
  cases hd : b.current with
  | none =>
      simp only [finish, hd]
      exact List.prefix_refl _
  | some d =>
      rw [finish_eq hd]
      exact List.prefix_append _ _

theorem queue_finish [DecidableEq ρ] (distinct : ρ → Bool) :
    (b.finish distinct).queue = b.queue := by
  cases hd : b.current with
  | none => simp only [finish, hd]
  | some d => rw [finish_eq hd]

theorem staysWith_finish [DecidableEq ρ] (distinct : ρ → Bool) :
    b.StaysWith (b.finish distinct) := by
  cases hd : b.current with
  | none => exact staysWith_of_current (by simp only [finish, hd])
  | some d =>
      intro e he
      rw [finish_eq hd] at he
      cases he

theorem afterCall_history (entry : Registration ρ) (failure : Option Failure) :
    (b.afterCall entry failure).history = b.history ++ [.returned failure] := by
  rw [afterCall]
  split <;> rfl

theorem afterCall_queue (entry : Registration ρ) (failure : Option Failure) :
    (b.afterCall entry failure).queue = b.queue := by
  rw [afterCall]
  split <;> rfl

theorem afterCall_current (entry : Registration ρ) (failure : Option Failure) {d : Delivery ρ}
    (hd : b.current = some d) :
    (b.afterCall entry failure).current =
      some { d with marked := d.marked ++ if entry.oneShot.isTruthy then [entry] else [] } := by
  rw [afterCall]
  split <;> simp [mark, onCurrent, record, hd]

theorem afterCall_lists (entry : Registration ρ) (failure : Option Failure) :
    (b.afterCall entry failure).lists = b.lists := by
  rw [afterCall]
  split <;> rfl

theorem afterCall_count (entry : Registration ρ) (failure : Option Failure) :
    (b.afterCall entry failure).count = b.count := by
  rw [afterCall]
  split <;> rfl

variable [DecidableEq ρ]

/-- The registrations of a delivery are visited in turn. -/
inductive Visits (ok : Value → Prop) :
    Bus ρ → List (Registration ρ) → List (Call ρ) → Bus ρ → Prop
  | nil {b : Bus ρ} : Visits ok b [] [] b
  | gone {b c : Bus ρ} {entry : Registration ρ} {rest : List (Registration ρ)}
      {calls : List (Call ρ)} (h : Visits ok ((b.meet none).mark entry) rest calls c) :
      Visits ok b (entry :: rest) calls c
  | call {b c d : Bus ρ} {entry : Registration ρ} {rest visited : List (Registration ρ)}
      {calls : List (Call ρ)} {es : List Event} {failure : Option Failure}
      (hmoves : Moves ok (b.calling entry) es c)
      (hrest : visited = if (c.afterCall entry failure).isConsumed then [] else rest)
      (h : Visits ok (c.afterCall entry failure) visited calls d) :
      Visits ok b (entry :: rest) (⟨entry, es, failure⟩ :: calls) d

inductive Delivers (ok : Value → Prop) (b : Bus ρ) : Round ρ → Bus ρ → Prop
  | unheard {event : Event} (h : b.registrations event.type = []) :
      Delivers ok b ⟨event, [], .kept⟩ ((b.opening event).record (.ended .kept))
  | heard {event : Event} {calls : List (Call ρ)} {c : Bus ρ} {d : Delivery ρ}
      (distinct : ρ → Bool)
      (h : Visits ok ((b.opening event).begin event) (b.registrations event.type) calls c)
      (hd : c.current = some d) : Delivers ok b ⟨event, calls, d.fate⟩ (c.finish distinct)

inductive Drains (ok : Value → Prop) : Bus ρ → List (Round ρ) → Bus ρ → Prop
  | nil {b : Bus ρ} : Drains ok b [] b
  | cons {b c d : Bus ρ} {round : Round ρ} {rounds : List (Round ρ)} {waiting : List Event}
      (hqueue : b.queue = round.event :: waiting)
      (hround : Delivers ok { b with queue := waiting } round c) (h : Drains ok c rounds d) :
      Drains ok b (round :: rounds) d

def Publishes (ok : Value → Prop) (b : Bus ρ) (publication : Publication ρ) (e : Bus ρ) : Prop :=
  ∃ c d, Delivers ok (b.record (.published publication.first.event)) publication.first c ∧
    Drains ok c publication.later d ∧ e = d.release

/-- A bus is used from outside: events are published, and every publication comes to its end. -/
inductive Runs (ok : Value → Prop) : Bus ρ → List (Publication ρ) → Bus ρ → Prop
  | nil {b : Bus ρ} : Runs ok b [] b
  | move {b c d : Bus ρ} {publications : List (Publication ρ)} (hmoves : Moves ok b [] c)
      (h : Runs ok c publications d) : Runs ok b publications d
  | publish {b c d : Bus ρ} {publication : Publication ρ} {publications : List (Publication ρ)}
      (hpublishes : Publishes ok b publication c) (hqueue : c.queue = [])
      (h : Runs ok c publications d) : Runs ok b (publication :: publications) d

variable {ok : Value → Prop}

/-! ## History and queue -/

theorem Visits.history {entries : List (Registration ρ)} {calls : List (Call ρ)}
    (h : Visits ok b entries calls c) : c.history = b.history ++ calls.flatMap Call.moments := by
  induction h with
  | nil => simp
  | gone _ ih => exact ih
  | call hmoves _ _ ih =>
      rw [ih, afterCall_history, hmoves.history]
      simp [calling, record, meet, onCurrent, Call.moments]

theorem Visits.queue {entries : List (Registration ρ)} {calls : List (Call ρ)}
    (h : Visits ok b entries calls c) : c.queue = b.queue ++ calls.flatMap Call.posted := by
  induction h with
  | nil => simp
  | gone _ ih => exact ih
  | call hmoves _ _ ih =>
      rw [ih, afterCall_queue, hmoves.queue]
      simp [calling, record, meet, onCurrent]

theorem Visits.sublist {entries : List (Registration ρ)} {calls : List (Call ρ)}
    (h : Visits ok b entries calls c) : (calls.map Call.entry).Sublist entries := by
  induction h with
  | nil => exact List.Sublist.refl _
  | gone _ ih => exact ih.cons _
  | @call _ _ _ _ rest visited _ _ _ _ hrest _ ih =>
      refine List.Sublist.cons_cons _ (ih.trans ?_)
      rw [hrest]
      split
      · exact List.nil_sublist rest
      · exact List.Sublist.refl rest

theorem Delivers.sublist {round : Round ρ} (h : Delivers ok b round c) :
    (round.calls.map Call.entry).Sublist (b.registrations round.event.type) := by
  cases h with
  | unheard => exact List.nil_sublist _
  | heard distinct hvisits hd => exact hvisits.sublist

theorem Delivers.history {round : Round ρ} (h : Delivers ok b round c) :
    c.history = b.history ++ round.moments := by
  cases h with
  | unheard => simp [opening, pin_eq, record, Round.moments]
  | heard distinct hvisits hd =>
      rw [finish_eq hd, hvisits.history]
      simp [opening, pin_eq, record, begin, Round.moments]

theorem Delivers.queue {round : Round ρ} (h : Delivers ok b round c) :
    c.queue = b.queue ++ round.posted := by
  cases h with
  | unheard => simp [opening, pin_eq, record, Round.posted]
  | heard distinct hvisits hd =>
      rw [finish_eq hd, hvisits.queue]
      simp [opening, pin_eq, record, begin, Round.posted]

theorem Delivers.current {round : Round ρ} (h : Delivers ok b round c) (hb : b.current = none) :
    c.current = none := by
  cases h with
  | unheard => simpa [opening, pin_eq, record] using hb
  | heard distinct hvisits hd => rw [finish_eq hd]

theorem Drains.history {rounds : List (Round ρ)} (h : Drains ok b rounds c) :
    c.history = b.history ++ rounds.flatMap Round.moments := by
  induction h with
  | nil => simp
  | cons _ hround _ ih => rw [ih, hround.history, List.flatMap_cons, List.append_assoc]

/-- Events leave the queue in the order in which they came into it. -/
theorem Drains.queue {rounds : List (Round ρ)} (h : Drains ok b rounds c) :
    b.queue ++ rounds.flatMap Round.posted = rounds.map Round.event ++ c.queue := by
  induction h with
  | nil => simp
  | cons hqueue hround _ ih =>
      rw [hround.queue] at ih
      rw [hqueue, List.flatMap_cons, List.map_cons, List.cons_append, List.cons_append, ← ih,
        List.append_assoc]

theorem Drains.current {rounds : List (Round ρ)} (h : Drains ok b rounds c)
    (hb : b.current = none) : c.current = none := by
  induction h with
  | nil => exact hb
  | cons _ hround _ ih => exact ih (hround.current hb)

theorem Publishes.history {publication : Publication ρ} (h : Publishes ok b publication c) :
    c.history = b.history ++ publication.moments := by
  obtain ⟨d, e, hfirst, hlater, rfl⟩ := h
  rw [release, hlater.history, hfirst.history]
  simp [record, Publication.moments, Publication.rounds]

/-- A publication delivers its event first, and then, in their order, the events that waited and
those that it posts, but for those that wait when it is over. -/
theorem Publishes.queue {publication : Publication ρ} (h : Publishes ok b publication c) :
    b.queue ++ publication.rounds.flatMap Round.posted =
      publication.later.map Round.event ++ c.queue := by
  obtain ⟨d, e, hfirst, hlater, rfl⟩ := h
  rw [release, ← hlater.queue, hfirst.queue]
  simp [record, Publication.rounds]

/-- What is announced after the event of a publication is what its later rounds are about. -/
theorem Publishes.later_eq {publication : Publication ρ} (h : Publishes ok b publication c)
    (hb : b.queue = []) (hc : c.queue = []) {es : List Event}
    (hes : c.announced = b.announced ++ publication.first.event :: es) :
    publication.later.map Round.event = es := by
  have hqueue := h.queue
  rw [hb, hc, List.nil_append, List.append_nil] at hqueue
  rw [announced, announced, h.history, List.filterMap_append,
    Publication.filterMap_published?] at hes
  rw [← hqueue]
  exact (List.cons.inj (List.append_cancel_left hes)).2

theorem Publishes.current {publication : Publication ρ} (h : Publishes ok b publication c)
    (hb : b.current = none) : c.current = none := by
  obtain ⟨d, e, hfirst, hlater, rfl⟩ := h
  exact hlater.current (hfirst.current hb)

variable {publications : List (Publication ρ)}

theorem Runs.history (h : Runs ok b publications c) :
    c.history = b.history ++ publications.flatMap Publication.moments := by
  induction h with
  | nil => simp
  | move hmoves _ ih => rw [ih, hmoves.history, List.map_nil, List.append_nil]
  | publish hpublishes _ _ ih =>
      rw [ih, hpublishes.history, List.flatMap_cons, List.append_assoc]

theorem Runs.queue (h : Runs ok b publications c) (hb : b.queue = []) : c.queue = [] := by
  induction h with
  | nil => exact hb
  | move hmoves _ ih => exact ih (by rw [hmoves.queue, hb, List.append_nil])
  | publish _ hqueue _ ih => exact ih hqueue

theorem Runs.current (h : Runs ok b publications c) (hb : b.current = none) : c.current = none := by
  induction h with
  | nil => exact hb
  | move hmoves _ ih => exact ih (hmoves.current_eq_none hb)
  | publish hpublishes _ _ ih => exact ih (hpublishes.current hb)

/-- Every event is delivered once, in the order of publication. -/
theorem Runs.begun_eq_announced (h : Runs ok b publications c) (hqueue : b.queue = [])
    (hb : b.begun = b.announced) : c.begun = c.announced := by
  induction h with
  | nil => exact hb
  | @move b c d _ hmoves _ ih =>
      have hhistory : c.history = b.history := by
        rw [hmoves.history, List.map_nil, List.append_nil]
      apply ih
      · rw [hmoves.queue, hqueue, List.append_nil]
      · rw [begun, announced, hhistory]
        exact hb
  | @publish b c d publication _ hpublishes hempty _ ih =>
      apply ih hempty
      have hposted :
          publication.rounds.flatMap Round.posted = publication.later.map Round.event := by
        have hevents := hpublishes.queue
        rwa [hqueue, hempty, List.nil_append, List.append_nil] at hevents
      rw [begun, announced, hpublishes.history, List.filterMap_append, List.filterMap_append,
        Publication.filterMap_begun?, Publication.filterMap_published?, hposted]
      rw [begun, announced] at hb
      rw [hb, Publication.rounds, List.map_cons]

end Bus

end LinearDialogue
