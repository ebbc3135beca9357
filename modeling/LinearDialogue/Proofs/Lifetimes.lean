import LinearDialogue.Proofs.Acts
import LinearDialogue.Proofs.OneShots
import Mathlib.Data.List.Nodup

/-!
# Lifetimes of handlers

A handler is alive as long as its name stands for it or the bus keeps it.  No operation brings back
a handler that is gone: what is registered is a handler whose name stands for it, and the bus keeps
for later what it has kept until then.
-/

namespace LinearDialogue

namespace Bus

variable {ρ : Type} {b c : Bus ρ} {listener : ρ}

/-- A bus owns the listeners of its registrations that are not weak. -/
def Owns (b : Bus ρ) (listener : ρ) : Prop :=
  ∃ entry ∈ b.lists, ∃ r ∈ entry.2, r.weak = false ∧ r.listener = listener

theorem Owns.of_subset (h : c.Owns listener) (hsub : c.lists ⊆ b.lists) : b.Owns listener := by
  obtain ⟨entry, hentry, hr⟩ := h
  exact ⟨entry, hsub hentry, hr⟩

theorem exists_list_of_mem {type : EventType} {r : Registration ρ} (h : r ∈ b.registrations type) :
    ∃ entry ∈ b.lists, r ∈ entry.2 := by
  rw [registrations, find?] at h
  cases hfind : b.lists.find? fun entry ↦ entry.1 == type with
  | none => simp [hfind] at h
  | some entry => exact ⟨entry, List.mem_of_find?_eq_some hfind, by simpa [hfind] using h⟩

theorem owns_of_mem {type : EventType} {r : Registration ρ} (h : r ∈ b.registrations type)
    (hweak : r.weak = false) : b.Owns r.listener := by
  obtain ⟨entry, hentry, hr⟩ := exists_list_of_mem h
  exact ⟨entry, hentry, r, hr, hweak, rfl⟩

theorem owns_of_mem_keptBy {type : EventType} (h : listener ∈ keptBy (b.registrations type)) :
    b.Owns listener := by
  obtain ⟨r, hr, rfl⟩ := List.mem_map.mp h
  obtain ⟨hmem, hweak⟩ := List.mem_filter.mp hr
  exact owns_of_mem hmem (by simpa using hweak)

theorem mem_assign {type : EventType} {list : List (Registration ρ)}
    {lists : List (EventType × List (Registration ρ))} {entry : EventType × List (Registration ρ)}
    (h : entry ∈ assign type list lists) : entry.2 = list ∨ entry ∈ lists := by
  induction lists with
  | nil =>
      rw [assign, List.mem_singleton] at h
      exact .inl (by rw [h])
  | cons first rest ih =>
      rw [assign] at h
      split at h
      · rcases List.mem_cons.mp h with rfl | h
        · exact .inl rfl
        · exact .inr (List.mem_cons_of_mem first h)
      · rcases List.mem_cons.mp h with rfl | h
        · exact .inr List.mem_cons_self
        · exact (ih h).imp_right (List.mem_cons_of_mem first)

variable [DecidableEq ρ]

theorem keeps_iff :
    b.keeps listener = true ↔
      listener ∈ b.kept ∨ (∃ d, b.current = some d ∧ d.last = some listener) ∨ b.Owns listener := by
  simp only [keeps, Bool.or_eq_true, List.contains_iff_mem, Option.any_eq_true, List.any_eq_true,
    Bool.and_eq_true, Bool.not_eq_true', beq_iff_eq, or_assoc, Owns]

/-- One bus keeps no listener that another one does not. -/
def Frees (b c : Bus ρ) : Prop := ∀ listener, c.keeps listener = true → b.keeps listener = true

/-- What changes in a delivery without meeting another listener keeps no more. -/
theorem frees_onCurrent {f : Delivery ρ → Delivery ρ} (b : Bus ρ)
    (hlast : ∀ d, (f d).last = none ∨ (f d).last = d.last) : b.Frees (b.onCurrent f) := by
  intro listener hkeeps
  rw [keeps_iff] at hkeeps ⊢
  rcases hkeeps with hmem | ⟨e, he, hlistener⟩ | howns
  · exact .inl hmem
  · obtain ⟨d, hd, rfl⟩ := Option.map_eq_some_iff.mp he
    rcases hlast d with hnone | hsame
    · rw [hnone] at hlistener
      cases hlistener
    · exact .inr (.inl ⟨d, hd, hsame.symm.trans hlistener⟩)
  · exact .inr (.inr howns)

/-- A bus keeps the listener that is called, and no other that it did not keep. -/
theorem keeps_calling {entry : Registration ρ} (h : (b.calling entry).keeps listener = true) :
    listener = entry.listener ∨ b.keeps listener = true := by
  rw [keeps_iff] at h ⊢
  rcases h with hmem | ⟨e, he, hlistener⟩ | howns
  · exact .inr (.inl hmem)
  · obtain ⟨d, -, rfl⟩ := Option.map_eq_some_iff.mp he
    exact .inl (Option.some_inj.mp hlistener).symm
  · exact .inr (.inr (.inr howns))

theorem frees_begin (event : Event) : b.Frees ((b.opening event).begin event) := by
  intro listener hkeeps
  rw [keeps_iff, opening, pin_eq] at hkeeps
  rw [keeps_iff]
  rcases hkeeps with hmem | ⟨d, hd, hlistener⟩ | howns
  · exact .inl hmem
  · cases hd
    cases hlistener
  · exact .inr (.inr howns)

theorem frees_afterCall (entry : Registration ρ) (failure : Option Failure) :
    b.Frees (b.afterCall entry failure) := by
  rw [afterCall]
  split
  · exact frees_onCurrent (b.record (.returned failure)) fun _ ↦ .inr rfl
  · exact fun _ h ↦ h

/-- Lists that are replaced are kept, so nothing is kept that was not. -/
theorem frees_of_replace (fate : Fate) (isReplaced : EventType → Bool)
    (h : ∀ listener, c.Owns listener → b.Owns listener)
    (hkept : c.kept = (b.replace fate isReplaced).kept)
    (hcurrent : c.current = (b.replace fate isReplaced).current) : b.Frees c := by
  intro listener hkeeps
  rw [keeps_iff] at hkeeps ⊢
  rcases hkeeps with hmem | ⟨d, hd, hlistener⟩ | howns
  · rw [hkept, replace, List.mem_append, List.mem_flatMap] at hmem
    rcases hmem with hmem | ⟨type, -, hmem⟩
    · exact .inl hmem
    · exact .inr (.inr (owns_of_mem_keptBy hmem))
  · rw [hcurrent, replace] at hd
    obtain ⟨e, he, rfl⟩ := Option.map_eq_some_iff.mp hd
    refine .inr (.inl ⟨e, he, ?_⟩)
    rw [← hlistener]
    split <;> rfl
  · exact .inr (.inr (h listener howns))

theorem frees_unsubscribe (held : ρ → Bool) (type : EventType) (listener : ρ) :
    b.Frees (b.unsubscribe held type listener) := by
  cases hfind : b.find? type with
  | none =>
      have hsame : b.unsubscribe held type listener = b := by simp only [unsubscribe, hfind]
      rw [hsame]
      exact fun _ h ↦ h
  | some list =>
      have hlist : b.registrations type = list := by rw [registrations, hfind, Option.getD_some]
      refine frees_of_replace .thinned (· == type) ?_ (by simp only [unsubscribe, hfind])
        (unsubscribe_current held listener hfind)
      rintro other ⟨entry, hentry, r, hr, hweak, rfl⟩
      simp only [unsubscribe, hfind] at hentry
      rcases mem_assign hentry with hnew | hold
      · rw [hnew] at hr
        exact owns_of_mem (hlist ▸ List.mem_of_mem_filter hr) hweak
      · exact ⟨entry, hold, r, hr, hweak, rfl⟩

theorem frees_clear (type : Option EventType) : b.Frees (b.clear type) := by
  cases type with
  | none =>
      refine frees_of_replace .cleared (fun _ ↦ true) ?_ rfl rfl
      exact fun _ howns ↦ howns.of_subset (List.nil_subset _)
  | some type =>
      refine frees_of_replace .cleared (· == type) ?_ rfl rfl
      exact fun _ howns ↦ howns.of_subset (List.filter_subset_self _)

/-- A bus keeps the listener of a new registration, and no other that it did not keep. -/
theorem keeps_subscribe {type : EventType} {priority oneShot : Value} {weak : Bool}
    {other : ρ} (h : (b.subscribe type listener priority oneShot weak).keeps other = true) :
    other = listener ∨ b.keeps other = true := by
  rw [keeps_iff] at h ⊢
  rcases h with hmem | hlast | ⟨entry, hentry, r, hr, hweak, rfl⟩
  · exact .inr (.inl hmem)
  · exact .inr (.inr (.inl hlast))
  · rcases mem_assign hentry with hnew | hold
    · rw [hnew] at hr
      rcases mem_insert_iff.mp hr with rfl | hr
      · exact .inl rfl
      · exact .inr (.inr (.inr (owns_of_mem hr hweak)))
    · exact .inr (.inr (.inr ⟨entry, hold, r, hr, hweak, rfl⟩))

end Bus

namespace Exchange

variable {s t u : Exchange} {listener : Listener} {name : String} {handler : HandlerState}

def isAlive (s : Exchange) (listener : Listener) : Bool :=
  s.holds listener || s.bus.keeps listener

/-- The handlers of an exchange are numbered, and all that is registered is among them. -/
structure IsStaffed (s : Exchange) : Prop where
  numbered : s.handlers.map (·.listener.generation) = List.range s.handlers.length
  known : ∀ {type : EventType} {r : Registration Listener}, r ∈ s.bus.registrations type →
    ∃ handler, s.handler? r.listener = some handler

/-- An exchange is older than another one: its handlers are still known, and those that are gone
have not come back. -/
structure Ages (s t : Exchange) : Prop where
  known : ∀ {listener : Listener}, (∃ handler, s.handler? listener = some handler) →
    ∃ handler, t.handler? listener = some handler
  alive : ∀ {listener : Listener}, (∃ handler, s.handler? listener = some handler) →
    t.isAlive listener = true → s.isAlive listener = true

theorem Ages.refl (s : Exchange) : s.Ages s := ⟨id, fun _ ↦ id⟩

theorem Ages.trans (hst : s.Ages t) (htu : t.Ages u) : s.Ages u where
  known h := htu.known (hst.known h)
  alive h halive := hst.alive h (htu.alive (hst.known h) halive)

theorem Ages.of_frees (hhandlers : t.handlers = s.handlers) (h : s.bus.Frees t.bus) : s.Ages t := by
  have hsame : ∀ listener, t.handler? listener = s.handler? listener := fun listener ↦ by
    rw [handler?, handler?, hhandlers]
  constructor
  · intro listener hknown
    rwa [hsame]
  · intro listener _ halive
    rw [isAlive, holds, hsame] at halive
    rw [isAlive, holds]
    rcases Bool.or_eq_true_iff.mp halive with hheld | hkeeps
    · rw [hheld, Bool.true_or]
    · rw [h listener hkeeps, Bool.or_true]

theorem isLive_iff {entry : Registration Listener} :
    Bus.isLive s.holds s.bus entry = true ↔
      entry.weak = false ∨ s.isAlive entry.listener = true := by
  rw [Bus.isLive, Bool.or_assoc, Bool.or_eq_true, Bool.not_eq_true', isAlive]

/-- A call brings nobody back if the handler that is called was there. -/
theorem Ages.calling {entry : Registration Listener} (h : s.Ages t)
    (halive : s.isAlive entry.listener = true) :
    s.Ages { t with bus := t.bus.calling entry } := by
  refine ⟨h.known, fun {listener} hknown hlater ↦ ?_⟩
  rcases Bool.or_eq_true_iff.mp hlater with hheld | hkeeps
  · exact h.alive hknown (Bool.or_eq_true_iff.mpr (.inl hheld))
  · rcases Bus.keeps_calling hkeeps with rfl | hkeeps
    · exact halive
    · exact h.alive hknown (Bool.or_eq_true_iff.mpr (.inr hkeeps))

theorem IsStaffed.of_subset (hs : s.IsStaffed) (hhandlers : t.handlers = s.handlers)
    (hsub : ∀ type, t.bus.registrations type ⊆ s.bus.registrations type) : t.IsStaffed where
  numbered := by rw [hhandlers, hs.numbered]
  known {type r} hr := by
    obtain ⟨handler, hhandler⟩ := hs.known (hsub type hr)
    exact ⟨handler, by rw [handler?, hhandlers, ← hhandler, handler?]⟩

/-! ## Handlers by name -/

theorem find?_map_of_same {f : HandlerState → HandlerState}
    (hf : ∀ handler, (f handler).listener = handler.listener) (listener : Listener)
    (handlers : List HandlerState) :
    (handlers.map f).find? (·.listener == listener) =
      (handlers.find? (·.listener == listener)).map f := by
  rw [List.find?_map]
  congr 2
  funext handler
  simp only [Function.comp_apply, hf]

theorem ages_of_map {f : HandlerState → HandlerState}
    (hf : ∀ handler, (f handler).listener = handler.listener)
    (hheld : ∀ handler, (f handler).held = true → handler.held = true)
    (hhandlers : t.handlers = s.handlers.map f) (hbus : t.bus = s.bus) : s.Ages t := by
  have hsame : ∀ listener, t.handler? listener = (s.handler? listener).map f := fun listener ↦ by
    rw [handler?, hhandlers, find?_map_of_same hf, handler?]
  constructor
  · rintro listener ⟨handler, hhandler⟩
    exact ⟨f handler, by rw [hsame, hhandler, Option.map_some]⟩
  · rintro listener ⟨handler, hhandler⟩ halive
    rw [isAlive, holds, hsame, hhandler, hbus, Option.map_some, Option.any_some] at halive
    rw [isAlive, holds, hhandler, Option.any_some]
    rcases Bool.or_eq_true_iff.mp halive with h | h
    · rw [hheld handler h, Bool.true_or]
    · rw [h, Bool.or_true]

theorem IsStaffed.of_map (hs : s.IsStaffed) {f : HandlerState → HandlerState}
    (hf : ∀ handler, (f handler).listener = handler.listener)
    (hhandlers : t.handlers = s.handlers.map f) (hbus : t.bus = s.bus) : t.IsStaffed where
  numbered := by
    rw [hhandlers, List.map_map, List.length_map, ← hs.numbered]
    congr 1
    funext handler
    simp only [Function.comp_apply, hf]
  known {type r} hr := by
    rw [hbus] at hr
    obtain ⟨handler, hhandler⟩ := hs.known hr
    exact ⟨f handler, by rw [handler?, hhandlers, find?_map_of_same hf, ← handler?, hhandler,
      Option.map_some]⟩

theorem IsStaffed.holds_of_named? (hs : s.IsStaffed) (h : s.named? name = some handler) :
    s.handler? handler.listener = some handler ∧ s.holds handler.listener = true := by
  have hheld : handler.held = true := by
    rw [named?] at h
    have hfound := List.find?_some h
    rw [Bool.and_eq_true] at hfound
    exact hfound.1
  have hmem : handler ∈ s.handlers := List.mem_of_find?_eq_some h
  obtain ⟨first, hfirst⟩ : ∃ first, s.handler? handler.listener = some first :=
    Option.isSome_iff_exists.mp (List.find?_isSome.mpr ⟨handler, hmem, beq_self_eq_true _⟩)
  have hnodup : (s.handlers.map (·.listener.generation)).Nodup := by
    rw [hs.numbered]
    exact List.nodup_range
  have hlistener : first.listener = handler.listener := by
    rw [handler?] at hfirst
    simpa using List.find?_some hfirst
  obtain rfl : first = handler :=
    List.inj_on_of_nodup_map hnodup (List.mem_of_find?_eq_some hfirst) hmem (by rw [hlistener])
  exact ⟨hfirst, by rw [holds, hfirst, Option.any_some, hheld]⟩

/-! ## Operations -/

/-- What needs the handler of a name does nothing where there is none. -/
theorem listenerOf_bind {P : Exchange → Prop} (name : String)
    (f : Listener → Act Exchange Value) (hnone : P s)
    (h : ∀ handler, s.named? name = some handler → P (f handler.listener s).2) :
    P ((listenerOf name >>= f) s).2 := by
  cases hname : s.named? name with
  | none => simpa [Act.bind_apply, listenerOf, hname] using hnone
  | some handler => simpa [Act.bind_apply, listenerOf, hname] using h handler hname

/-- To let go of what a name stands for brings nothing back. -/
theorem letGo_ages (name : String) (hs : s.IsStaffed) :
    ({ s with handlers := letGo name s.handlers } : Exchange).IsStaffed ∧
      s.Ages { s with handlers := letGo name s.handlers } := by
  have hsame (handler : HandlerState) :
      (if handler.listener.name == name then { handler with held := false }
        else handler).listener = handler.listener := by split <;> rfl
  constructor
  · exact hs.of_map hsame rfl rfl
  · refine ages_of_map hsame (fun handler h ↦ ?_) rfl rfl
    split at h
    · cases h
    · exact h

theorem define_ages (name : String) (bound : Bool) (behaviour : Behaviour ExchangeOp)
    (hs : s.IsStaffed) :
    ({ s with handlers := define name bound behaviour s.handlers } : Exchange).IsStaffed ∧
      s.Ages { s with handlers := define name bound behaviour s.handlers } := by
  obtain ⟨hold, hages⟩ := letGo_ages name hs
  have hsame : ∀ {listener : Listener},
      (∃ handler, ({ s with handlers := letGo name s.handlers } : Exchange).handler? listener =
        some handler) →
      ({ s with handlers := define name bound behaviour s.handlers } : Exchange).handler? listener =
        ({ s with handlers := letGo name s.handlers } : Exchange).handler? listener := by
    rintro listener ⟨handler, hhandler⟩
    rw [handler?] at hhandler
    rw [handler?, handler?, define, List.find?_append, hhandler, Option.some_or]
  have hdefined : s.Ages { s with handlers := define name bound behaviour s.handlers } := by
    refine hages.trans ⟨fun hknown ↦ ?_, fun hknown halive ↦ ?_⟩
    · rwa [hsame hknown]
    · rwa [isAlive, holds, hsame hknown] at halive
  refine ⟨⟨?_, fun hr ↦ hdefined.known (hs.known hr)⟩, hdefined⟩
  have hlength : (letGo name s.handlers).length = s.handlers.length := List.length_map _
  have hnumbered := hold.numbered
  rw [hlength] at hnumbered
  rw [define, List.map_append, hnumbered, List.length_append, hlength, List.length_singleton,
    List.range_succ]
  rfl

/-- Only what a name stands for is registered. -/
theorem subscribe_ages (hs : s.IsStaffed) (hname : s.named? name = some handler)
    (type : EventType) (priority oneShot : Value) (weak : Bool) :
    let bus := s.bus.subscribe type handler.listener priority oneShot weak
    ({ s with bus } : Exchange).IsStaffed ∧ s.Ages { s with bus } := by
  intro bus
  obtain ⟨hhandler, hheld⟩ := hs.holds_of_named? hname
  constructor
  · refine ⟨hs.numbered, fun {t r} hr ↦ ?_⟩
    rw [Bus.registrations_subscribe] at hr
    split at hr
    next htype =>
      rcases Bus.mem_insert_iff.mp hr with rfl | hr
      · exact ⟨handler, hhandler⟩
      · exact hs.known hr
    next => exact hs.known hr
  · refine ⟨id, fun {other} _ halive ↦ ?_⟩
    rcases Bool.or_eq_true_iff.mp halive with h | h
    · rw [isAlive, show s.holds other = true from h, Bool.true_or]
    · rcases Bus.keeps_subscribe h with rfl | h
      · rw [isAlive, hheld, Bool.true_or]
      · rw [isAlive, h, Bool.or_true]

/-- Every operation of a handler keeps the exchange staffed, and brings no handler back. -/
theorem perform_ages (op : ExchangeOp) (hs : s.IsStaffed) :
    (perform (Bus.post Listener) op s).2.IsStaffed ∧
      s.Ages (perform (Bus.post Listener) op s).2 := by
  let P (t : Exchange) : Prop := t.IsStaffed ∧ s.Ages t
  have hnone : P s := ⟨hs, .refl s⟩
  cases op with
  | define name bound behaviour => exact define_ages name bound behaviour hs
  | drop name => exact listenerOf_bind (P := P) name _ hnone fun _ _ ↦ letGo_ages name hs
  | subscribe type name priority oneShot weak =>
      apply listenerOf_bind (P := P) name _ hnone
      intro handler hname
      cases hplace : Bus.hasPlaceFor priority (s.bus.registrations type) with
      | false => simpa [Act.bind_apply, Bus.register, hplace] using hnone
      | true =>
          simpa [Act.bind_apply, Bus.register, hplace] using
            subscribe_ages hs hname type priority oneShot weak
  | unsubscribe type name =>
      apply listenerOf_bind (P := P) name _ hnone
      intro handler _
      constructor
      · exact hs.of_subset rfl fun t ↦ (Bus.unsubscribe_sublist s.holds type _ t).subset
      · exact .of_frees rfl (Bus.frees_unsubscribe s.holds type handler.listener)
  | isSubscribed type name => exact listenerOf_bind (P := P) name _ hnone fun _ _ ↦ hnone
  | publish event => exact ⟨hs.of_subset rfl fun _ ↦ List.Subset.refl _, .of_frees rfl fun _ h ↦ h⟩
  | clear type =>
      constructor
      · exact hs.of_subset rfl fun t ↦ (Bus.clear_sublist type t).subset
      · exact .of_frees rfl (Bus.frees_clear type)

end Exchange

end LinearDialogue
