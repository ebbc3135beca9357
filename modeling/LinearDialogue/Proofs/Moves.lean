import LinearDialogue.Proofs.Registrations

/-!
# Moves on a bus

What listeners can do to a bus while they are called: register and remove listeners, clear lists,
consume the event at hand, and post events.  A delivery under way goes on through all of that; the
list that it works on only grows, unless it loses its place.
-/

namespace LinearDialogue

variable {ρ : Type}

/-- Two events are one but for whether they have been consumed. -/
structure Event.SameAs (a b : Event) : Prop where
  type : a.type = b.type
  data : a.data = b.data

theorem Event.SameAs.refl (a : Event) : a.SameAs a := ⟨rfl, rfl⟩

theorem Event.SameAs.symm {a b : Event} (h : a.SameAs b) : b.SameAs a := ⟨h.type.symm, h.data.symm⟩

theorem Event.SameAs.trans {a b c : Event} (hab : a.SameAs b) (hbc : b.SameAs c) : a.SameAs c :=
  ⟨hab.type.trans hbc.type, hab.data.trans hbc.data⟩

theorem Event.SameAs.get_eq {a b : Event} (h : a.SameAs b) (key : String) :
    a.get key = b.get key := by
  rw [Event.get, Event.get, Event.find?, Event.find?, h.data]

theorem Fate.join_eq_kept {a b : Fate} : a.join b = .kept ↔ a = .kept ∧ b = .kept := by
  cases a <;> cases b <;> decide

theorem Fate.join_eq_cleared {a b : Fate} : a.join b = .cleared ↔ a = .cleared ∨ b = .cleared := by
  cases a <;> cases b <;> decide

/-- A delivery as it is later on. -/
structure Delivery.Continues (d e : Delivery ρ) : Prop where
  event : e.event.SameAs d.event
  marked : e.marked = d.marked
  kept : e.fate = .kept → d.fate = .kept

theorem Delivery.Continues.refl (d : Delivery ρ) : d.Continues d :=
  ⟨Event.SameAs.refl _, rfl, id⟩

theorem Delivery.Continues.trans {d e f : Delivery ρ} (hde : d.Continues e) (hef : e.Continues f) :
    d.Continues f :=
  ⟨hef.event.trans hde.event, hef.marked.trans hde.marked, hde.kept ∘ hef.kept⟩

namespace Bus

/-- A later bus stays with the delivery of an earlier one: it delivers the same event, or none. -/
def StaysWith (b c : Bus ρ) : Prop :=
  ∀ e, c.current = some e → ∃ d, b.current = some d ∧ e.event.SameAs d.event

variable {b c : Bus ρ}

theorem staysWith_of_current (h : c.current = b.current) : b.StaysWith c := fun e he ↦
  ⟨e, h ▸ he, Event.SameAs.refl _⟩

@[simp] theorem clear_history (type : Option EventType) : (b.clear type).history = b.history := by
  cases type <;> rfl

@[simp] theorem clear_queue (type : Option EventType) : (b.clear type).queue = b.queue := by
  cases type <;> rfl

@[simp] theorem clear_count (type : Option EventType) : (b.clear type).count = b.count := by
  cases type <;> rfl

/-- A delivery goes on when some lists are replaced.  Its own list stays as it is unless it is one
of them. -/
theorem continues_of_replace {fate : Fate} (hfate : fate ≠ .kept) (isReplaced : EventType → Bool)
    {d : Delivery ρ} (hcurrent : c.current = (b.replace fate isReplaced).current)
    (hlists : ∀ t, isReplaced t = false → c.registrations t = b.registrations t)
    (hd : b.current = some d) :
    ∃ e, c.current = some e ∧ d.Continues e ∧
      (e.fate = .kept → c.registrations d.event.type = b.registrations d.event.type) := by
  rw [replace, hd, Option.map_some] at hcurrent
  cases h : isReplaced d.event.type with
  | true =>
      rw [h, if_pos rfl] at hcurrent
      exact ⟨_, hcurrent, ⟨Event.SameAs.refl _, rfl, fun hkept ↦ (Fate.join_eq_kept.mp hkept).1⟩,
        fun hkept ↦ absurd (Fate.join_eq_kept.mp hkept).2 hfate⟩
  | false =>
      rw [h, if_neg Bool.false_ne_true] at hcurrent
      exact ⟨d, hcurrent, Delivery.Continues.refl d, fun _ ↦ hlists _ h⟩

theorem clear_continues (type : Option EventType) {d : Delivery ρ} (hd : b.current = some d) :
    ∃ e, (b.clear type).current = some e ∧ d.Continues e ∧
      (e.fate = .kept →
        (b.clear type).registrations d.event.type = b.registrations d.event.type) := by
  cases type with
  | none => exact continues_of_replace (by decide) (fun _ ↦ true) rfl (by simp) hd
  | some type =>
      refine continues_of_replace (by decide) (· == type) rfl (fun t h ↦ ?_) hd
      rw [registrations_clear, if_neg (Ne.symm (ne_of_beq_false h))]

theorem clear_sublist (type : Option EventType) (t : EventType) :
    ((b.clear type).registrations t).Sublist (b.registrations t) := by
  cases type with
  | none =>
      rw [registrations_clear_all]
      exact List.nil_sublist _
  | some type =>
      rw [registrations_clear]
      split
      · exact List.nil_sublist _
      · exact List.Sublist.refl _

/-- If the list of the delivery under way has been cleared, the registrations for its type have
numbers from `n` on. -/
def Forgets (n : Nat) (b : Bus ρ) : Prop :=
  ∀ d, b.current = some d → d.fate = .cleared → ∀ r ∈ b.registrations d.event.type, n ≤ r.serial

theorem Forgets.onCurrent {n : Nat} {f : Delivery ρ → Delivery ρ} (hb : Forgets n b)
    (hfate : ∀ d, (f d).fate = d.fate) (htype : ∀ d, (f d).event.type = d.event.type) :
    Forgets n (b.onCurrent f) := by
  intro d hd hcleared r hr
  obtain ⟨e, he, rfl⟩ := Option.map_eq_some_iff.mp hd
  rw [hfate] at hcleared
  rw [htype] at hr
  exact hb e he hcleared r hr

/-- Lists that take the place of others have no registrations of their own, and those that are
cleared have none. -/
theorem Forgets.of_replace {n : Nat} (fate : Fate) (isReplaced : EventType → Bool)
    (hb : Forgets n b) (hcurrent : c.current = (b.replace fate isReplaced).current)
    (hsub : ∀ t, (c.registrations t).Sublist (b.registrations t))
    (hnil : fate = .cleared → ∀ t, isReplaced t = true → c.registrations t = []) :
    Forgets n c := by
  intro d hd hcleared r hr
  rw [hcurrent, replace] at hd
  obtain ⟨e, he, rfl⟩ := Option.map_eq_some_iff.mp hd
  cases h : isReplaced e.event.type with
  | false =>
      rw [h, if_neg Bool.false_ne_true] at hcleared hr
      exact hb e he hcleared r ((hsub _).subset hr)
  | true =>
      rw [h, if_pos rfl] at hcleared hr
      rcases Fate.join_eq_cleared.mp hcleared with hold | hnew
      · exact hb e he hold r ((hsub _).subset hr)
      · rw [hnil hnew _ h] at hr
        exact absurd hr List.not_mem_nil

variable [DecidableEq ρ]

theorem unsubscribe_sublist (held : ρ → Bool) (type : EventType) (listener : ρ) (t : EventType) :
    ((b.unsubscribe held type listener).registrations t).Sublist (b.registrations t) := by
  rw [registrations_unsubscribe]
  split
  next htype =>
    rw [htype]
    exact List.filter_sublist
  next => exact List.Sublist.refl _

theorem unsubscribe_current (held : ρ → Bool) {type : EventType} (listener : ρ)
    {list : List (Registration ρ)} (hfind : b.find? type = some list) :
    (b.unsubscribe held type listener).current = (b.replace .thinned (· == type)).current := by
  simp only [unsubscribe, hfind]

theorem unsubscribe_continues (held : ρ → Bool) (type : EventType) (listener : ρ) {d : Delivery ρ}
    (hd : b.current = some d) :
    ∃ e, (b.unsubscribe held type listener).current = some e ∧ d.Continues e ∧
      (e.fate = .kept →
        (b.unsubscribe held type listener).registrations d.event.type =
          b.registrations d.event.type) := by
  cases hfind : b.find? type with
  | none =>
      have hsame : b.unsubscribe held type listener = b := by simp only [unsubscribe, hfind]
      rw [hsame]
      exact ⟨d, hd, Delivery.Continues.refl d, fun _ ↦ rfl⟩
  | some list =>
      refine continues_of_replace (by decide) (· == type)
        (unsubscribe_current held listener hfind) (fun t h ↦ ?_) hd
      rw [registrations_unsubscribe, if_neg (Ne.symm (ne_of_beq_false h))]

/-- A bus comes from one state to another by what listeners do, which posts some events.  Priorities
of new registrations are as `ok` says. -/
inductive Moves (ok : Value → Prop) (b : Bus ρ) : List Event → Bus ρ → Prop
  | refl : Moves ok b [] b
  | subscribe {es : List Event} {c : Bus ρ} (type : EventType) (listener : ρ)
      {priority : Value} (oneShot : Value) (weak : Bool) (h : Moves ok b es c) (hok : ok priority) :
      Moves ok b es (c.subscribe type listener priority oneShot weak)
  | unsubscribe {es : List Event} {c : Bus ρ} (held : ρ → Bool) (type : EventType) (listener : ρ)
      (h : Moves ok b es c) : Moves ok b es (c.unsubscribe held type listener)
  | clear {es : List Event} {c : Bus ρ} (type : Option EventType) (h : Moves ok b es c) :
      Moves ok b es (c.clear type)
  | enqueue {es : List Event} {c : Bus ρ} (event : Event) (h : Moves ok b es c) :
      Moves ok b (es ++ [event]) (c.enqueue event)
  | consume {es : List Event} {c : Bus ρ} (h : Moves ok b es c) : Moves ok b es c.consume

variable {ok : Value → Prop} {es : List Event}

theorem Moves.trans {fs : List Event} {d : Bus ρ} (hbc : Moves ok b es c) (hcd : Moves ok c fs d) :
    Moves ok b (es ++ fs) d := by
  induction hcd with
  | refl => simpa using hbc
  | subscribe type listener oneShot weak _ hok ih =>
    exact ih.subscribe type listener oneShot weak hok
  | unsubscribe held type listener _ ih => exact ih.unsubscribe held type listener
  | clear type _ ih => exact ih.clear type
  | enqueue event _ ih =>
      rw [← List.append_assoc]
      exact ih.enqueue event
  | consume _ ih => exact ih.consume

theorem Moves.mono {ok' : Value → Prop} (hok : ∀ v, ok v → ok' v) (h : Moves ok b es c) :
    Moves ok' b es c := by
  induction h with
  | refl => exact .refl
  | subscribe type listener oneShot weak _ hpriority ih =>
      exact ih.subscribe type listener oneShot weak (hok _ hpriority)
  | unsubscribe held type listener _ ih => exact ih.unsubscribe held type listener
  | clear type _ ih => exact ih.clear type
  | enqueue event _ ih => exact ih.enqueue event
  | consume _ ih => exact ih.consume

/-! ## Fields that moves leave alone -/

@[simp] theorem unsubscribe_history (held : ρ → Bool) (type : EventType) (listener : ρ) :
    (b.unsubscribe held type listener).history = b.history := by
  rw [unsubscribe]
  split <;> rfl

@[simp] theorem unsubscribe_queue (held : ρ → Bool) (type : EventType) (listener : ρ) :
    (b.unsubscribe held type listener).queue = b.queue := by
  rw [unsubscribe]
  split <;> rfl

@[simp] theorem unsubscribe_count (held : ρ → Bool) (type : EventType) (listener : ρ) :
    (b.unsubscribe held type listener).count = b.count := by
  rw [unsubscribe]
  split <;> rfl

theorem Moves.history (h : Moves ok b es c) : c.history = b.history ++ es.map .published := by
  induction h with
  | refl => simp
  | subscribe _ _ _ _ _ _ ih => exact ih
  | unsubscribe _ _ _ _ ih => rw [unsubscribe_history, ih]
  | clear _ _ ih => rw [clear_history, ih]
  | enqueue event _ ih => simp [Bus.enqueue, record, ih]
  | consume _ ih => exact ih

theorem Moves.queue (h : Moves ok b es c) : c.queue = b.queue ++ es := by
  induction h with
  | refl => simp
  | subscribe _ _ _ _ _ _ ih => exact ih
  | unsubscribe _ _ _ _ ih => rw [unsubscribe_queue, ih]
  | clear _ _ ih => rw [clear_queue, ih]
  | enqueue event _ ih => simp [Bus.enqueue, record, ih]
  | consume _ ih => exact ih

theorem Moves.count_le (h : Moves ok b es c) : b.count ≤ c.count := by
  induction h with
  | refl => exact Nat.le_refl _
  | subscribe _ _ _ _ _ _ ih => exact Nat.le_trans ih (Nat.le_succ _)
  | unsubscribe _ _ _ _ ih => rwa [unsubscribe_count]
  | clear _ _ ih => rwa [clear_count]
  | enqueue event _ ih => exact ih
  | consume _ ih => exact ih

theorem Moves.current_eq_none (h : Moves ok b es c) (hb : b.current = none) : c.current = none := by
  induction h with
  | refl => exact hb
  | subscribe _ _ _ _ _ _ ih => exact ih
  | @unsubscribe _ c held type listener _ ih =>
      rw [Bus.unsubscribe]
      split
      · exact ih
      · simp [replace, ih]
  | @clear _ c type _ ih => cases type <;> simp [Bus.clear, replace, ih]
  | enqueue event _ ih => exact ih
  | consume _ ih => simp [Bus.consume, onCurrent, ih]

/-- Without subscriptions the lists only lose registrations. -/
theorem Moves.sublist (h : Moves (fun _ ↦ False) b es c) (type : EventType) :
    (c.registrations type).Sublist (b.registrations type) := by
  induction h with
  | refl => exact List.Sublist.refl _
  | subscribe _ _ _ _ _ hok _ => exact hok.elim
  | unsubscribe held t listener _ ih => exact (unsubscribe_sublist held t listener type).trans ih
  | clear t _ ih => exact (clear_sublist t type).trans ih
  | enqueue event _ ih => exact ih
  | consume _ ih => exact ih

/-! ## A delivery under way -/

/-- Through moves a delivery under way goes on.  Of the registrations that there were, its list
keeps all, unless it loses its place. -/
theorem Moves.continues (h : Moves ok b es c) {d : Delivery ρ} (hd : b.current = some d) :
    ∃ e, c.current = some e ∧ d.Continues e ∧
      (e.fate = .kept →
        (b.registrations d.event.type).Sublist (c.registrations d.event.type) ∧
        ∀ n ≤ b.count, (c.registrations d.event.type).filter (·.serial < n) =
          (b.registrations d.event.type).filter (·.serial < n)) := by
  induction h with
  | refl => exact ⟨d, hd, Delivery.Continues.refl d, fun _ ↦ ⟨List.Sublist.refl _, fun _ _ ↦ rfl⟩⟩
  | @subscribe es c type listener priority oneShot weak h hok ih =>
      obtain ⟨e, he, hde, hlist⟩ := ih
      refine ⟨e, he, hde, fun hkept ↦ ⟨?_, fun n hn ↦ ?_⟩⟩
      · refine (hlist hkept).1.trans ?_
        rw [registrations_subscribe]
        split
        next htype =>
          rw [htype]
          exact sublist_insert _ _
        next => exact List.Sublist.refl _
      · rw [registrations_subscribe, ← (hlist hkept).2 n hn]
        split
        next htype =>
          -- the new number is not below the old count
          have hnew : n ≤ c.count := Nat.le_trans hn h.count_le
          rw [filter_insert (by simpa using hnew), htype]
        next => rfl
  | @unsubscribe es c held type listener h ih =>
      obtain ⟨e, he, hde, hlist⟩ := ih
      obtain ⟨f, hf, hef, hsame⟩ := unsubscribe_continues held type listener he
      refine ⟨f, hf, hde.trans hef, fun hkept ↦ ?_⟩
      rw [← hde.event.type, hsame hkept, hde.event.type]
      exact hlist (hef.kept hkept)
  | @clear es c type h ih =>
      obtain ⟨e, he, hde, hlist⟩ := ih
      obtain ⟨f, hf, hef, hsame⟩ := clear_continues type he
      refine ⟨f, hf, hde.trans hef, fun hkept ↦ ?_⟩
      rw [← hde.event.type, hsame hkept, hde.event.type]
      exact hlist (hef.kept hkept)
  | enqueue event h ih => exact ih
  | @consume es c h ih =>
      obtain ⟨e, he, hde, hlist⟩ := ih
      exact ⟨{ e with event := e.event.consume }, by simp [Bus.consume, onCurrent, he],
        hde.trans ⟨⟨rfl, rfl⟩, rfl, id⟩, hlist⟩

theorem Moves.forgets {n : Nat} (h : Moves ok b es c) (hn : n ≤ b.count) (hb : Forgets n b) :
    Forgets n c := by
  induction h with
  | refl => exact hb
  | @subscribe es c type listener priority oneShot weak h _ ih =>
      intro d hd hcleared r hr
      rw [registrations_subscribe] at hr
      split at hr
      next htype =>
        rcases mem_insert_iff.mp hr with rfl | hr
        · exact Nat.le_trans hn h.count_le
        · exact ih d hd hcleared r (htype ▸ hr)
      next => exact ih d hd hcleared r hr
  | @unsubscribe es c held type listener _ ih =>
      cases hfind : c.find? type with
      | none =>
          have hsame : c.unsubscribe held type listener = c := by simp only [Bus.unsubscribe, hfind]
          rwa [hsame]
      | some list =>
          exact ih.of_replace .thinned (· == type) (unsubscribe_current held listener hfind)
            (unsubscribe_sublist held type listener) fun hcon ↦ by cases hcon
  | @clear es c type _ ih =>
      cases type with
      | none =>
          exact ih.of_replace .cleared (fun _ ↦ true) rfl (clear_sublist none)
            fun _ t _ ↦ registrations_clear_all
      | some type =>
          refine ih.of_replace .cleared (· == type) rfl (clear_sublist (some type)) fun _ t ht ↦ ?_
          rw [registrations_clear, if_pos (beq_iff_eq.mp ht).symm]
  | enqueue event _ ih => exact ih
  | consume _ ih => exact ih.onCurrent (fun _ ↦ rfl) fun _ ↦ rfl

theorem Moves.staysWith (h : Moves ok b es c) : b.StaysWith c := by
  intro e he
  cases hd : b.current with
  | none => rw [h.current_eq_none hd] at he; cases he
  | some d =>
      obtain ⟨e', he', hcontinues, -⟩ := h.continues hd
      rw [he'] at he
      cases he
      exact ⟨d, rfl, hcontinues.event⟩

end Bus

end LinearDialogue
