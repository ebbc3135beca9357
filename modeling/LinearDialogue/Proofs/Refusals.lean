import LinearDialogue.Proofs.Lowering

/-!
# What compilation refuses

What a compilation that fails tells about its graph.  Either the records form a loop, which is
reported by the ids on it, or they cannot be made: an id is no key or that of no member, a node is
no line, or the record of a line has problems with its fields.  These are never problems with what
the line says.
-/

namespace LinearDialogue

/-- A cause for which records are not made. -/
def Failure.IsRefusal : Failure → Prop
  | .missingKey _ | .wrongType | .unsupportedKind _ => True
  | .badFields _ problems => ∀ problem ∈ problems, problem.SparesTexts
  | _ => False

/-- A result that is a refusal if it is a failure. -/
def Refuses {α : Type} (result : Except Failure α) : Prop :=
  ∀ failure, result = .error failure → failure.IsRefusal

namespace Refuses

variable {α β : Type} {failure : Failure}

theorem ok (a : α) : Refuses (.ok a) := by
  rintro _ ⟨⟩

theorem error (h : failure.IsRefusal) : Refuses (.error failure : Except Failure α) := by
  rintro _ ⟨⟩
  exact h

theorem bind {m : Except Failure α} {f : α → Except Failure β} (hm : Refuses m)
    (hf : ∀ a, Refuses (f a)) : Refuses (m >>= f) := by
  intro failure h
  rcases bind_eq_error_iff.mp h with h | ⟨a, _, h⟩
  · exact hm failure h
  · exact hf a failure h

theorem logged_bind {m : Logged α} {f : α → Logged β} (hm : Refuses m.result)
    (hf : ∀ a, Refuses (f a).result) : Refuses (m >>= f).result := by
  intro failure h
  rcases Logged.result_bind_eq_error_iff.mp h with h | ⟨a, _, h⟩
  · exact hm failure h
  · exact hf a failure h

theorem mapM {f : α → Except Failure β} (hf : ∀ a, Refuses (f a)) (xs : List α) :
    Refuses (xs.mapM f) := by
  intro failure h
  obtain ⟨a, -, h⟩ := Graph.exists_of_mapM_eq_error h
  exact hf a failure h

end Refuses

namespace Graph

variable {g : Graph} {failure : Failure}

open Refuses

theorem refuses_member (id : Label) : Refuses (g.member id) := by
  rw [member]
  split
  · exact ok _
  · exact error trivial

theorem refuses_firstOutput (node : Node) : Refuses (g.firstOutput node) := by
  refine Refuses.bind ?_ fun _ ↦ ok _
  rw [outputs]
  split
  · exact Refuses.mapM (fun _ ↦ refuses_member _) _
  · exact ok _

theorem refuses_numberOf (id : Label) : Refuses (g.numberOf id) := by
  rw [numberOf]
  split
  · exact ok _
  · exact error trivial

theorem refuses_targetNumber (out : Option Node) : Refuses (g.targetNumber out) := by
  cases out with
  | none => exact ok _
  | some node =>
      rw [targetNumber]
      split
      · exact ok _
      · exact refuses_numberOf _

theorem refuses_checkKey (id : Label) : Refuses id.checkKey := by
  unfold Label.checkKey
  split
  · exact ok _
  · exact error trivial

theorem refuses_numbering : Refuses g.numbering := by
  refine Refuses.bind ?_ fun _ ↦ ok _
  induction g.nodes with
  | nil => exact ok ()
  | cons node nodes ih => exact (refuses_checkKey _).bind fun _ ↦ ih

theorem refuses_entryNumber : Refuses g.entryNumber := by
  refine refuses_numbering.bind fun _ ↦ ?_
  split
  · exact ok _
  · exact (refuses_firstOutput _).bind fun _ ↦ refuses_targetNumber _

theorem refuses_lowerLine (draft : LineDraft) (id successor : Int) :
    Refuses (g.lowerLine draft id successor).result := by
  intro failure h
  rcases of_lowerLine_eq_error h with rfl | ⟨_, _, rfl, hproblems⟩
  · trivial
  · exact hproblems

theorem refuses_lower (node : Node) : Refuses (g.lower node).result := by
  refine logged_bind (refuses_firstOutput node) fun _ ↦ ?_
  refine logged_bind (refuses_targetNumber _) fun _ ↦ ?_
  refine logged_bind (refuses_numberOf _) fun _ ↦ ?_
  split
  · exact refuses_lowerLine _ _ _
  · exact error trivial

/-! ## Compilation -/

/-- A compilation fails where the entry or a line does, where the number of the entry does not fit,
and where the search for loops finds one. -/
theorem compile_eq_error_cases (h : g.compile.result = .error failure) :
    g.entryNumber = .error failure ∨
    (∃ node ∈ g.contentNodes, (g.lower node).result = .error failure) ∨
    (∃ className problems, failure = .badFields className problems ∧
      ∀ problem ∈ problems, problem.SparesTexts) ∨
    ∃ records, (g.lowerAll g.contentNodes).result = .ok records ∧ findCycle records ≠ [] ∧
      failure = .cycle g.name ((findCycle records).map .int) := by
  rcases Logged.result_bind_eq_error_iff.mp h with h | ⟨entry, _, h⟩
  · exact .inl h
  rcases Logged.result_bind_eq_error_iff.mp h with h | ⟨records, hrecords, h⟩
  · exact .inr (.inl (exists_of_lowerAll_eq_error h))
  cases hcycle : findCycle records with
  | nil =>
      rw [hcycle] at h
      rcases Logged.result_bind_eq_error_iff.mp h with h | ⟨_, _, h⟩
      · cases h
      split at h
      · cases h
      · rename_i problems hmade
        cases h
        refine .inr (.inr (.inl ⟨_, problems, rfl, fun problem hproblem ↦ ?_⟩))
        apply CompiledGraph.sparesTexts_of_mem_problems
        rw [hmade]
        exact hproblem
  | cons id rest =>
      rw [hcycle] at h
      rcases Logged.result_bind_eq_error_iff.mp h with h | ⟨_, _, h⟩
      · cases h
      · cases h
        exact .inr (.inr (.inr ⟨records, hrecords, by simp [hcycle], by simp [hcycle]⟩))

/-- What a compilation fails with: a refusal, or the ids that the search for loops has found. -/
theorem of_compile_eq_error (h : g.compile.result = .error failure) :
    failure.IsRefusal ∨ ∃ records, (g.lowerAll g.contentNodes).result = .ok records ∧
      findCycle records ≠ [] ∧ failure = .cycle g.name ((findCycle records).map .int) := by
  rcases compile_eq_error_cases h with hentry | ⟨node, _, hnode⟩ | ⟨_, _, rfl, hproblems⟩ | hloop
  · exact .inl (refuses_entryNumber _ hentry)
  · exact .inl (refuses_lower node _ hnode)
  · exact .inl hproblems
  · exact .inr hloop

end Graph

end LinearDialogue
