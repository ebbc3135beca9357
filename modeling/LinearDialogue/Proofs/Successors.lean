import LinearDialogue.Compiled.Cycle
import Mathlib.Data.Finset.Card
import Mathlib.Data.List.Chain
import Mathlib.Data.Nat.Find

/-!
# Chains and loops of successors

From an id a table of successors leads on to further ids.  Such a chain ends at an id without a
successor, or it never does.  The search for loops decides which: a list that it finds is a loop,
and where it finds none, every chain ends after no more steps than the table has entries.
-/

namespace LinearDialogue.SuccessorTable

variable {table : SuccessorTable} {id next : Int}

/-- The id that a number of steps lead to, if the chain is that long. -/
def after (table : SuccessorTable) : ℕ → Int → Option Int
  | 0, id => some id
  | n + 1, id => (table.next? id).bind (table.after n)

@[simp] theorem after_zero (id : Int) : table.after 0 id = some id := rfl

theorem after_succ (n : ℕ) (id : Int) :
    table.after (n + 1) id = (table.next? id).bind (table.after n) := rfl

@[simp] theorem after_one (id : Int) : table.after 1 id = table.next? id := by
  cases h : table.next? id <;> simp [after_succ, h]

theorem after_add (m n : ℕ) (id : Int) :
    table.after (m + n) id = (table.after m id).bind (table.after n) := by
  induction m generalizing id with
  | zero => simp
  | succ m ih =>
      rw [Nat.succ_add, after_succ, after_succ]
      cases table.next? id with
      | none => rfl
      | some next => simpa using ih next

theorem after_eq_none_of_le {m n : ℕ} (h : table.after m id = none) (hmn : m ≤ n) :
    table.after n id = none := by
  obtain ⟨k, rfl⟩ := Nat.exists_eq_add_of_le hmn
  simp [after_add, h]

/-- The chain from an id comes to an end. -/
def Ends (table : SuccessorTable) (id : Int) : Prop := ∃ n, table.after n id = none

theorem ends_of_next?_eq_none (h : table.next? id = none) : table.Ends id :=
  ⟨1, by simpa using h⟩

theorem ends_iff_of_next?_eq_some (h : table.next? id = some next) :
    table.Ends id ↔ table.Ends next := by
  constructor
  · rintro ⟨n, hn⟩
    have hlong := after_eq_none_of_le hn (Nat.le_succ n)
    exact ⟨n, by simpa [after_succ, h] using hlong⟩
  · rintro ⟨n, hn⟩
    exact ⟨n + 1, by simpa [after_succ, h] using hn⟩

theorem Ends.after {n : ℕ} (hends : table.Ends id) (h : table.after n id = some next) :
    table.Ends next := by
  obtain ⟨m, hm⟩ := hends
  have hlong := after_eq_none_of_le hm (Nat.le_add_left m n)
  exact ⟨m, by simpa [after_add, h] using hlong⟩

/-- Where every chain ends, the ids can be told apart by how far they are from it. -/
theorem exists_distance (hends : ∀ id, table.Ends id) :
    ∃ distance : Int → ℕ, ∀ id next, table.next? id = some next → distance next < distance id := by
  refine ⟨fun id ↦ Nat.find (hends id), fun id next hnext ↦ ?_⟩
  have hend := Nat.find_spec (hends id)
  cases hsteps : Nat.find (hends id) with
  | zero => simp [hsteps] at hend
  | succ n =>
      rw [hsteps, after_succ, hnext, Option.bind_some] at hend
      calc Nat.find (hends next) ≤ n := Nat.find_min' (hends next) hend
        _ < Nat.find (hends id) := by omega

/-- A chain that comes back to where it started goes round for ever. -/
theorem not_ends_of_after_eq_self {p : ℕ} (hp : 0 < p) (h : table.after p id = some id) :
    ¬ table.Ends id := by
  have hround : ∀ m, table.after (m * p) id = some id := by
    intro m
    induction m with
    | zero => simp
    | succ m ih => rw [Nat.succ_mul, after_add, ih, Option.bind_some, h]
  rintro ⟨n, hn⟩
  have hlong := after_eq_none_of_le hn (Nat.le_mul_of_pos_right n hp)
  simp [hround n] at hlong

/-- The ids that have a successor. -/
def keys (table : SuccessorTable) : List Int := table.map (·.1)

@[simp] theorem length_keys : table.keys.length = table.length := List.length_map _

theorem mem_keys_iff : id ∈ table.keys ↔ (table.next? id).isSome := by
  simp [keys, next?, List.find?_isSome]

theorem mem_keys_of_next?_eq_some (h : table.next? id = some next) : id ∈ table.keys := by
  simp [mem_keys_iff, h]

/-- A chain that ends does so within as many steps as the table has entries: in a longer one an id
would come twice. -/
theorem Ends.after_length_succ (hends : table.Ends id) :
    table.after (table.length + 1) id = none := by
  by_contra hlong
  have hpassed : ∀ k ≤ table.length, ∃ passed,
      table.after k id = some passed ∧ passed ∈ table.keys := by
    intro k hk
    have hk' : table.after (k + 1) id ≠ none := fun h ↦
      hlong (after_eq_none_of_le h (Nat.succ_le_succ hk))
    cases hpass : table.after k id with
    | none => simp [after_add, hpass] at hk'
    | some passed =>
        refine ⟨passed, rfl, ?_⟩
        rw [after_add, hpass, Option.bind_some, after_one] at hk'
        exact mem_keys_iff.mpr (Option.isSome_iff_ne_none.mpr hk')
  have hmaps : Set.MapsTo (fun k ↦ (table.after k id).getD 0)
      (Finset.range (table.length + 1)) table.keys.toFinset := by
    intro k hk
    obtain ⟨passed, hpass, hmem⟩ := hpassed k (Finset.mem_range_succ_iff.mp hk)
    simpa [hpass] using hmem
  have hcard : table.keys.toFinset.card < (Finset.range (table.length + 1)).card := by
    have hle := List.toFinset_card_le table.keys
    rw [Finset.card_range]
    rw [length_keys] at hle
    omega
  obtain ⟨i, hi, j, hj, hne, heq⟩ :=
    Finset.exists_ne_map_eq_of_card_lt_of_maps_to hcard hmaps
  obtain ⟨a, ha, -⟩ := hpassed i (Finset.mem_range_succ_iff.mp hi)
  obtain ⟨b, hb, -⟩ := hpassed j (Finset.mem_range_succ_iff.mp hj)
  have hab : a = b := by simpa [ha, hb] using heq
  have hreturn : ∀ {m n : ℕ}, m < n → table.after m id = some a → table.after n id ≠ some a := by
    intro m n hmn hm hn
    obtain ⟨k, rfl⟩ := Nat.exists_eq_add_of_le hmn.le
    rw [after_add, hm, Option.bind_some] at hn
    exact not_ends_of_after_eq_self (by omega) hn (hends.after hm)
  rcases Nat.lt_or_gt_of_ne hne with hij | hji
  · exact hreturn hij ha (hab ▸ hb)
  · exact hreturn hji (hab ▸ hb) ha

end LinearDialogue.SuccessorTable
