import LinearDialogue.Act

/-!
# Acts along a relation

What is true of every step of an act is true of the act: where it takes the state, by a relation
that can be chained, and that it ends by a result or by a failure of some kind.  What an act leaves
can depend on what it finds, which is told by conditions before and after it.
-/

namespace LinearDialogue

/-- An outcome with another result. -/
def Outcome.map {α β : Type} (f : α → β) : Outcome α → Outcome β
  | .returned a => .returned (f a)
  | .failed failure => .failed failure
  | .aborted => .aborted
  | .stalled => .stalled

theorem Outcome.map_map {α β γ : Type} (f : α → β) (g : β → γ) (outcome : Outcome α) :
    (outcome.map f).map g = outcome.map (g ∘ f) := by
  cases outcome <;> rfl

/-- The failure that an act ended with. -/
def Outcome.failure? {α : Type} : Outcome α → Option Failure
  | .failed failure => some failure
  | _ => none

/-- The result that an act returned. -/
def Outcome.result? {α : Type} : Outcome α → Option α
  | .returned a => some a
  | _ => none

theorem Outcome.result?_eq_some_iff {α : Type} {outcome : Outcome α} {a : α} :
    outcome.result? = some a ↔ outcome = .returned a := by
  cases outcome <;> simp [result?]

namespace Act

theorem bind_pure_apply {σ α β : Type} (m : Act σ α) (f : α → β) (s : σ) :
    (m >>= fun a ↦ pure (f a)) s = ((m s).1.map f, (m s).2) := by
  rw [bind_apply]
  split <;> (rename_i heq; rw [heq]; rfl)

variable {σ α β : Type} {R : σ → σ → Prop} {F : Failure → Prop}

theorem bind_eq_returned_iff {m : Act σ α} {f : α → Act σ β} {s u : σ} {b : β} :
    (m >>= f) s = (.returned b, u) ↔
      ∃ a t, m s = (.returned a, t) ∧ f a t = (.returned b, u) := by
  rw [bind_apply]
  constructor
  · intro h
    split at h
    · next a t heq => exact ⟨a, t, heq, h⟩
    all_goals cases h
  · rintro ⟨a, t, heq, h⟩
    rw [heq]
    exact h

theorem ofExcept_eq_returned_iff {result : Except Failure α} {s t : σ} {a : α} :
    (ofExcept result : Act σ α) s = (.returned a, t) ↔ result = .ok a ∧ s = t := by
  cases result <;> simp [ofExcept, Act.result]

/-- An act takes every state to one that is related to it, however the act ends. -/
def Along (R : σ → σ → Prop) (m : Act σ α) : Prop := ∀ s, R s (m s).2

/-- An act returns, or fails as `F` says. -/
def Ends (F : Failure → Prop) (m : Act σ α) : Prop :=
  ∀ s, (∃ a, (m s).1 = .returned a) ∨ ∃ failure, (m s).1 = .failed failure ∧ F failure

/-- A relation that can be chained. -/
structure Chains (R : σ → σ → Prop) : Prop where
  refl : ∀ s, R s s
  trans : ∀ {s t u}, R s t → R t u → R s u

theorem Along.mono {R' : σ → σ → Prop} (h : ∀ s t, R s t → R' s t) {m : Act σ α} (hm : m.Along R) :
    m.Along R' := fun s ↦ h s _ (hm s)

theorem Along.bind (hR : Chains R) {m : Act σ α} {f : α → Act σ β} (hm : m.Along R)
    (hf : ∀ a, (f a).Along R) : (m >>= f).Along R := by
  intro s
  have hstep := hm s
  rw [bind_apply]
  split
  next a t heq => exact hR.trans (by simpa [heq] using hstep) (hf a t)
  all_goals
    rename_i heq
    simpa [heq] using hstep

theorem Along.attempt {m : Act σ α} (hm : m.Along R) : m.attempt.Along R := by
  intro s
  have hstep := hm s
  rw [attempt_apply]
  split <;> (rename_i heq; rw [heq] at hstep; exact hstep)

theorem Along.ensure (hR : Chains R) {m : Act σ α} {f : σ → σ} (hm : m.Along R)
    (hf : ∀ s, R s (f s)) : (m.ensure f).Along R := fun s ↦ hR.trans (hm s) (hf _)

theorem Along.pure (hR : Chains R) (a : α) : (pure a : Act σ α).Along R := hR.refl

theorem Along.fail (hR : Chains R) (failure : Failure) : (Act.fail failure : Act σ α).Along R :=
  hR.refl

theorem Along.ofExcept (hR : Chains R) (result : Except Failure α) :
    (Act.ofExcept result : Act σ α).Along R := by
  intro s
  cases result <;> exact hR.refl s

theorem Along.read (hR : Chains R) {τ : Type} [Part τ σ] :
    (Part.read τ : Act σ τ).Along R := hR.refl

theorem Ends.mono {F' : Failure → Prop} (h : ∀ failure, F failure → F' failure) {m : Act σ α}
    (hm : m.Ends F) : m.Ends F' := fun s ↦
  (hm s).imp_right fun ⟨failure, hfailure, hF⟩ ↦ ⟨failure, hfailure, h failure hF⟩

theorem Ends.bind {m : Act σ α} {f : α → Act σ β} (hm : m.Ends F) (hf : ∀ a, (f a).Ends F) :
    (m >>= f).Ends F := by
  intro s
  rcases hm s with ⟨a, ha⟩ | ⟨failure, hfailure, hF⟩
  · rw [bind_of_returned (show m s = (.returned a, (m s).2) by rw [← ha])]
    exact hf a _
  · rw [bind_of_failed (show m s = (.failed failure, (m s).2) by rw [← hfailure])]
    exact .inr ⟨failure, rfl, hF⟩

theorem Ends.pure (a : α) : (pure a : Act σ α).Ends F := fun _ ↦ .inl ⟨a, rfl⟩

theorem Ends.fail {failure : Failure} (h : F failure) : (Act.fail failure : Act σ α).Ends F :=
  fun _ ↦ .inr ⟨failure, rfl, h⟩

theorem Ends.ofExcept {result : Except Failure α}
    (h : ∀ failure, result = .error failure → F failure) :
    (Act.ofExcept result : Act σ α).Ends F := by
  intro s
  cases hresult : result with
  | ok a => exact .inl ⟨a, rfl⟩
  | error failure => exact .inr ⟨failure, rfl, h failure hresult⟩

theorem Ends.read {τ : Type} [Part τ σ] : (Part.read τ : Act σ τ).Ends F := fun _ ↦ .inl ⟨_, rfl⟩

theorem Ends.update {τ : Type} [Part τ σ] (f : τ → τ) : (Part.update τ f : Act σ Unit).Ends F :=
  fun _ ↦ .inl ⟨_, rfl⟩

/-- What ends can be tried. -/
theorem Ends.exists_attempt {m : Act σ α} (hm : m.Ends F) (s : σ) :
    ∃ answer, m.attempt s = (.returned answer, (m s).2) := by
  rcases hm s with ⟨a, ha⟩ | ⟨failure, hfailure, -⟩
  · exact ⟨.ok a, by rw [attempt_apply, show m s = (.returned a, (m s).2) by rw [← ha]]⟩
  · exact ⟨.error failure, by
      rw [attempt_apply, show m s = (.failed failure, (m s).2) by rw [← hfailure]]⟩

theorem Ends.attempt {m : Act σ α} (hm : m.Ends F) : m.attempt.Ends F := fun s ↦ by
  obtain ⟨answer, hanswer⟩ := hm.exists_attempt s
  exact .inl ⟨answer, by rw [hanswer]⟩

/-- A property of acts that passes from the parts of an act to the whole. -/
structure Closed (P : ∀ {α : Type}, Act σ α → Prop) : Prop where
  pure : ∀ {α : Type} (a : α), P (pure a : Act σ α)
  fail : ∀ {α : Type} (failure : Failure), P (Act.fail failure : Act σ α)
  read : ∀ (τ : Type) [Part τ σ], P (Part.read τ : Act σ τ)
  bind : ∀ {α β : Type} {m : Act σ α} {f : α → Act σ β}, P m → (∀ a, P (f a)) → P (m >>= f)

theorem Chains.closed (hR : Chains R) : Closed (σ := σ) fun m ↦ m.Along R where
  pure := .pure hR
  fail := .fail hR
  read _ := .read hR
  bind := .bind hR

theorem closed_ends : Closed (σ := σ) fun m ↦ m.Ends fun _ ↦ True where
  pure := .pure
  fail _ := .fail trivial
  read _ := .read
  bind := .bind

theorem Closed.and {P Q : ∀ {α : Type}, Act σ α → Prop} (hP : Closed P) (hQ : Closed Q) :
    Closed (σ := σ) fun m ↦ P m ∧ Q m where
  pure a := ⟨hP.pure a, hQ.pure a⟩
  fail failure := ⟨hP.fail failure, hQ.fail failure⟩
  read τ := ⟨hP.read τ, hQ.read τ⟩
  bind hm hf := ⟨hP.bind hm.1 fun a ↦ (hf a).1, hQ.bind hm.2 fun a ↦ (hf a).2⟩

/-- A relation between acts that passes from the parts of two acts to the wholes. -/
structure Couples (P : ∀ {α : Type}, Act σ α → Act σ α → Prop) : Prop where
  pure : ∀ {α : Type} (a : α), P (pure a : Act σ α) (pure a)
  fail : ∀ {α : Type} (failure : Failure), P (Act.fail failure : Act σ α) (Act.fail failure)
  read : ∀ (τ : Type) [Part τ σ], P (Part.read τ : Act σ τ) (Part.read τ)
  bind : ∀ {α β : Type} {m n : Act σ α} {f g : α → Act σ β}, P m n → (∀ a, P (f a) (g a)) →
    P (m >>= f) (n >>= g)

/-- A property is a relation between acts that are the same. -/
theorem Closed.couples {P : ∀ {α : Type}, Act σ α → Prop} (hP : Closed P) :
    Couples (σ := σ) fun m n ↦ m = n ∧ P m where
  pure a := ⟨rfl, hP.pure a⟩
  fail failure := ⟨rfl, hP.fail failure⟩
  read τ := ⟨rfl, hP.read τ⟩
  bind := by
    rintro α β m n f g ⟨rfl, hm⟩ hf
    obtain rfl : f = g := funext fun a ↦ (hf a).1
    exact ⟨rfl, hP.bind hm fun a ↦ (hf a).2⟩

/-! ## Conditions before and after -/

section Meets

variable {P P' E : σ → Prop} {Q Q' : α → σ → Prop} {S : β → σ → Prop}

/-- From a state as `P` says, an act returns as `Q` says, or else ends as `E` says. -/
def Meets (P : σ → Prop) (m : Act σ α) (Q : α → σ → Prop) (E : σ → Prop) : Prop :=
  ∀ s, P s → (∃ a t, m s = (.returned a, t) ∧ Q a t) ∨ (m s).1.result? = none ∧ E (m s).2

theorem bind_of_result?_eq_none {m : Act σ α} {s : σ} (h : (m s).1.result? = none)
    (f : α → Act σ β) : ((m >>= f) s).1.result? = none ∧ ((m >>= f) s).2 = (m s).2 := by
  rw [bind_apply]
  rcases hrun : m s with ⟨outcome, t⟩
  rw [hrun] at h
  cases outcome with
  | returned a => cases h
  | _ => exact ⟨rfl, rfl⟩

namespace Meets

variable {m : Act σ α} {f : α → Act σ β}

theorem of_returned (h : ∀ s, P s → ∃ a t, m s = (.returned a, t) ∧ Q a t) : m.Meets P Q E :=
  fun s hs ↦ .inl (h s hs)

theorem bind (hm : m.Meets P Q E) (hf : ∀ a, (f a).Meets (Q a) S E) : (m >>= f).Meets P S E := by
  intro s hs
  rcases hm s hs with ⟨a, t, hrun, ht⟩ | ⟨hnone, ht⟩
  · rw [bind_of_returned hrun]
    exact hf a t ht
  · obtain ⟨hnone, hsame⟩ := bind_of_result?_eq_none hnone f
    exact .inr ⟨hnone, hsame ▸ ht⟩

theorem pre (hm : m.Meets P Q E) (hP : ∀ s, P' s → P s) : m.Meets P' Q E :=
  fun s hs ↦ hm s (hP s hs)

theorem post (hm : m.Meets P Q E) (hQ : ∀ a s, Q a s → Q' a s) : m.Meets P Q' E := by
  intro s hs
  refine (hm s hs).imp_left ?_
  rintro ⟨a, t, hrun, ht⟩
  exact ⟨a, t, hrun, hQ a t ht⟩

theorem pure {a : α} (h : ∀ s, P s → Q a s) : (pure a : Act σ α).Meets P Q E :=
  fun s hs ↦ .inl ⟨a, s, rfl, h s hs⟩

theorem fail {failure : Failure} (h : ∀ s, P s → E s) : (Act.fail failure : Act σ α).Meets P Q E :=
  fun s hs ↦ .inr ⟨rfl, h s hs⟩

theorem ofExcept {result : Except Failure α} (hQ : ∀ a s, P s → Q a s) (hE : ∀ s, P s → E s) :
    (Act.ofExcept result : Act σ α).Meets P Q E := by
  cases result with
  | ok a => exact .pure (hQ a)
  | error failure => exact .fail hE

theorem update {τ : Type} [Part τ σ] {f : τ → τ} {Q : Unit → σ → Prop}
    (h : ∀ s, P s → Q () (Part.set (f (Part.get s)) s)) :
    (Part.update τ f : Act σ Unit).Meets P Q E :=
  fun s hs ↦ .inl ⟨(), _, rfl, h s hs⟩

/-- What is read is known of the state. -/
theorem bind_read {τ : Type} [Part τ σ] {f : τ → Act σ β}
    (h : ∀ a, (f a).Meets (fun s ↦ Part.get s = a ∧ P s) S E) :
    (Part.read τ >>= f).Meets P S E := fun s hs ↦ h (Part.get s) s ⟨rfl, hs⟩

theorem after_read {τ : Type} [Part τ σ] {f : τ → Act σ β} (h : ∀ a, (f a).Meets P S E) :
    (Part.read τ >>= f).Meets P S E := fun s hs ↦ h (Part.get s) s hs

theorem along (hm : m.Along R) (hP : ∀ s t, R s t → P s → P' t) (hE : ∀ s, P' s → E s) :
    m.Meets P (fun _ ↦ P') E := by
  intro s hs
  have hleft := hP s _ (hm s) hs
  cases hresult : (m s).1.result? with
  | none => exact .inr ⟨rfl, hE _ hleft⟩
  | some a => exact .inl ⟨a, _, by rw [← Outcome.result?_eq_some_iff.mp hresult], hleft⟩

theorem ensure {g : σ → σ} (hm : m.Meets P Q E) (hQ : ∀ a s, Q a s → Q a (g s))
    (hE : ∀ s, E s → E (g s)) : (m.ensure g).Meets P Q E := by
  intro s hs
  rw [ensure_apply]
  rcases hm s hs with ⟨a, t, hrun, ht⟩ | ⟨hnone, ht⟩
  · rw [hrun]
    exact .inl ⟨a, g t, rfl, hQ a t ht⟩
  · exact .inr ⟨hnone, hE _ ht⟩

/-- However an act ends, it leaves the state so. -/
theorem snd (hm : m.Meets P (fun _ ↦ E) E) {s : σ} (hs : P s) : E (m s).2 := by
  rcases hm s hs with ⟨a, t, hrun, ht⟩ | ⟨-, ht⟩
  · rw [hrun]
    exact ht
  · exact ht

end Meets

end Meets

end Act

end LinearDialogue
