import LinearDialogue.Bus
import Mathlib.Data.List.Basic

/-!
# Registrations

What the operations on a bus do to the lists of registrations.  Registering inserts one registration
that is told apart from all earlier ones by its serial number; every other operation shortens lists.
So the lists stay in their order: by falling priority, and in the order of registration where
priorities agree.
-/

namespace LinearDialogue

namespace Binary64.Rank

theorem lt_irrefl (r : Rank) : r.lt r = false := by cases r <;> simp [lt]

theorem lt_trans {r s t : Rank} (hrs : r.lt s = true) (hst : s.lt t = true) : r.lt t = true := by
  cases r <;> cases s <;> cases t <;> simp_all [lt]
  omega

end Binary64.Rank

theorem Binary64.not_isZero_eq_of_rank? {x : Binary64} {r : Rank} (hr : x.rank? = some r) :
    (!x.isZero) = decide (r ≠ .at 0) := by
  rw [rank?] at hr
  rw [isZero]
  cases hmeaning : x.meaning with
  | notANumber => simp [hmeaning] at hr
  | infinite negative =>
      have hunits : x.units? = none := by simp [units?, hmeaning]
      rw [hmeaning, Option.some_inj] at hr
      rw [hunits, ← hr]
      cases negative <;> rfl
  | finite negative significand exponent =>
      rw [hmeaning] at hr
      obtain ⟨u, hu, rfl⟩ := Option.map_eq_some_iff.mp hr
      rw [hu]
      by_cases h : u = 0 <;> simp [h]

namespace Value

/-- Does one rank lie above another?  No rank lies above or below none. -/
def isAbove (r s : Option Binary64.Rank) : Bool :=
  match r, s with
  | some r, some s => s.lt r
  | _, _ => false

theorem greater?_of_isNumber {a b : Value} (ha : a.isNumber = true) (hb : b.isNumber = true) :
    a.greater? b = some (isAbove a.rank? b.rank?) := by
  cases hr : a.rank? <;> cases hs : b.rank? <;>
    cases a <;> cases b <;> simp_all [isNumber, greater?, isAbove]

theorem isAbove_trans {r s t : Option Binary64.Rank} (hrs : isAbove r s = true)
    (hst : isAbove s t = true) : isAbove r t = true := by
  cases r <;> cases s <;> cases t <;> simp_all only [isAbove, Bool.false_eq_true]
  exact Binary64.Rank.lt_trans hst hrs

theorem isAbove_irrefl (r : Option Binary64.Rank) : isAbove r r = false := by
  cases r <;> simp [isAbove, Binary64.Rank.lt_irrefl]

theorem rank?_eq_of_alike {a b : Value} (ha : a.isNumber = true) (hb : b.isNumber = true)
    (hab : a.alike b = true) : a.rank? = b.rank? := by
  have hkey : a.matchesKey b = true := by
    cases a <;> simp_all [isNumber, alike]
  rcases Bool.or_eq_true_iff.mp hkey with hagrees | heq
  · cases a <;> cases b <;> simp_all [isNumber, agrees] <;> split at hagrees <;> simp_all
  · rw [of_decide_eq_true heq]

theorem isTruthy_eq_of_rank? {a : Value} {r : Binary64.Rank} (ha : a.rank? = some r) :
    a.isTruthy = decide (r ≠ .at 0) := by
  have hone : Binary64.unitsOfOne ≠ 0 :=
    fun h ↦ absurd (Nat.shiftLeft_eq_zero_iff.mp h) Nat.one_ne_zero
  cases a with
  | bool b =>
      cases ha
      cases b <;> simp [isTruthy, Binary64.unitsOfInt, hone]
  | int n =>
      cases ha
      by_cases hn : n = 0 <;> simp [isTruthy, Binary64.unitsOfInt, hone, hn]
  | float x => exact Binary64.not_isZero_eq_of_rank? ha
  | _ => cases ha

/-- Values that are alike are taken for yes alike. -/
theorem isTruthy_eq_of_alike {a b : Value} (h : a.alike b = true) : a.isTruthy = b.isTruthy := by
  have hkey (hab : a.matchesKey b = true) : a.isTruthy = b.isTruthy := by
    rcases Bool.or_eq_true_iff.mp hab with hagrees | heq
    · cases hr : a.rank? with
      | none => cases a <;> cases b <;> simp_all [agrees, rank?, isTruthy]
      | some r =>
          have hs : b.rank? = some r := by
            cases hs : b.rank? <;> cases a <;> cases b <;> simp_all [agrees, rank?]
          rw [isTruthy_eq_of_rank? hr, isTruthy_eq_of_rank? hs]
    · rw [of_decide_eq_true heq]
  cases a with
  | list as =>
      cases b <;> simp only [alike, Bool.false_eq_true] at h
      next bs => cases as <;> cases bs <;> simp_all [alikeItems, isTruthy]
  | object as =>
      cases b <;> simp only [alike, Bool.false_eq_true] at h
      next bs => cases as <;> cases bs <;> simp_all [isTruthy]
  | _ => exact hkey (by simpa only [alike] using h)

end Value

variable {ρ : Type}

/-- A registration comes before another one in a list: the later one has no greater priority, and
was made later if their priorities agree. -/
structure Registration.Precedes (x y : Registration ρ) : Prop where
  not_greater : y.priority.greater? x.priority ≠ some true
  serial_lt : y.priority.alike x.priority = true → x.serial < y.serial

namespace Bus

variable {entry r : Registration ρ} {list : List (Registration ρ)} {bus : Bus ρ}
  {type t : EventType}

/-! ## Insertion and removal -/

theorem perm_insert (entry : Registration ρ) (list : List (Registration ρ)) :
    (insert entry list).Perm (entry :: list) := by
  induction list with
  | nil => exact List.Perm.refl _
  | cons e rest ih =>
      rw [insert]
      split
      · exact List.Perm.refl _
      · exact (ih.cons e).trans (List.Perm.swap entry e rest)

theorem mem_insert_iff : r ∈ insert entry list ↔ r = entry ∨ r ∈ list := by
  rw [(perm_insert entry list).mem_iff, List.mem_cons]

theorem sublist_insert (entry : Registration ρ) (list : List (Registration ρ)) :
    list.Sublist (insert entry list) := by
  induction list with
  | nil => exact List.nil_sublist _
  | cons e rest ih =>
      rw [insert]
      split
      · exact List.sublist_cons_self entry (e :: rest)
      · exact ih.cons_cons e

theorem filter_insert {p : Registration ρ → Bool} (hp : p entry = false) :
    (insert entry list).filter p = list.filter p := by
  induction list with
  | nil => simp [insert, hp]
  | cons e rest ih =>
      rw [insert]
      split
      · rw [List.filter_cons_of_neg (by simp [hp])]
      · rw [List.filter_cons, List.filter_cons, ih]

theorem filter_eraseP_of_forall {p q : Registration ρ → Bool}
    (h : ∀ r ∈ list, q r = true → p r = false) : (list.eraseP q).filter p = list.filter p := by
  induction list with
  | nil => rfl
  | cons r rest ih =>
      have hrest := ih fun x hx ↦ h x (List.mem_cons_of_mem r hx)
      cases hq : q r with
      | true =>
          rw [List.eraseP_cons_of_pos hq,
            List.filter_cons_of_neg (by simp [h r List.mem_cons_self hq])]
      | false =>
          rw [List.eraseP_cons_of_neg (by simp [hq]), List.filter_cons, List.filter_cons, hrest]

theorem pairwise_precedes_insert (hlist : list.Pairwise Registration.Precedes)
    (hnumber : ∀ r ∈ list, r.priority.isNumber = true) (hentry : entry.priority.isNumber = true)
    (hserial : ∀ r ∈ list, r.serial < entry.serial) :
    (insert entry list).Pairwise Registration.Precedes := by
  induction list with
  | nil => simp [insert]
  | cons e rest ih =>
      obtain ⟨hfirst, hrest⟩ := List.pairwise_cons.mp hlist
      have he : e.priority.isNumber = true := hnumber e List.mem_cons_self
      rw [insert]
      split
      next hgreater =>
        -- whatever lies above the new priority, or agrees with it, would lie above the first one
        rw [Value.greater?_of_isNumber hentry he, Option.some_inj] at hgreater
        have hbelow : ∀ y ∈ e :: rest, Value.isAbove y.priority.rank? e.priority.rank? = false := by
          intro y hy
          rcases List.mem_cons.mp hy with rfl | hy
          · exact Value.isAbove_irrefl _
          · have hnot := (hfirst y hy).not_greater
            rw [Value.greater?_of_isNumber (hnumber y (List.mem_cons_of_mem e hy)) he] at hnot
            simpa using hnot
        refine List.pairwise_cons.mpr ⟨fun y hy ↦ ⟨?_, ?_⟩, hlist⟩
        · intro habove
          rw [Value.greater?_of_isNumber (hnumber y hy) hentry, Option.some_inj] at habove
          simpa [hbelow y hy] using Value.isAbove_trans habove hgreater
        · intro halike
          rw [← Value.rank?_eq_of_alike (hnumber y hy) hentry halike, hbelow y hy] at hgreater
          exact absurd hgreater Bool.false_ne_true
      next hgreater =>
        refine List.pairwise_cons.mpr ⟨fun y hy ↦ ?_, ih hrest ?_ ?_⟩
        · rcases mem_insert_iff.mp hy with rfl | hy
          · exact ⟨hgreater, fun _ ↦ hserial e List.mem_cons_self⟩
          · exact hfirst y hy
        · exact fun r hr ↦ hnumber r (List.mem_cons_of_mem e hr)
        · exact fun r hr ↦ hserial r (List.mem_cons_of_mem e hr)

/-! ## Lists by type -/

theorem find?_assign (lists : List (EventType × List (Registration ρ))) :
    (assign type list lists).find? (fun entry ↦ entry.1 == t) =
      if type = t then some (t, list) else lists.find? (fun entry ↦ entry.1 == t) := by
  induction lists with
  | nil => by_cases h : type = t <;> simp [assign, h]
  | cons first rest ih =>
      obtain ⟨u, l⟩ := first
      by_cases hu : u = type
      · by_cases h : type = t <;> simp [assign, hu, h]
      · by_cases hut : u = t
        · subst hut
          simp [assign, hu, Ne.symm hu]
        · simpa [assign, hu, hut] using ih

theorem registrations_congr {b c : Bus ρ} (h : b.lists = c.lists) (t : EventType) :
    b.registrations t = c.registrations t := by
  rw [registrations, registrations, find?, find?, h]

theorem registrations_of_assign {c : Bus ρ} (h : c.lists = assign type list bus.lists) :
    c.registrations t = if type = t then list else bus.registrations t := by
  simp only [registrations, find?, h, find?_assign]
  split <;> rfl

@[simp] theorem registrations_subscribe (listener : ρ) (priority oneShot : Value) (weak : Bool) :
    (bus.subscribe type listener priority oneShot weak).registrations t =
      if type = t then
        insert ⟨priority, listener, oneShot, weak, bus.count⟩ (bus.registrations type)
      else bus.registrations t :=
  registrations_of_assign rfl

theorem registrations_clear_all : (bus.clear none).registrations t = [] := rfl

theorem registrations_clear :
    (bus.clear (some type)).registrations t = if type = t then [] else bus.registrations t := by
  have hfind : (bus.lists.filter fun entry ↦ !(entry.1 == type)).find? (fun entry ↦ entry.1 == t) =
      if type = t then none else bus.lists.find? fun entry ↦ entry.1 == t := by
    rw [List.find?_filter]
    split
    next h => simp [h]
    next h =>
      congr 1
      funext entry
      by_cases ht : entry.1 = t
      · simp [ht, Ne.symm h]
      · simp [ht]
  simp only [registrations, find?, clear, hfind]
  split <;> rfl

variable [DecidableEq ρ]

theorem registrations_unsubscribe (held : ρ → Bool) (listener : ρ) :
    (bus.unsubscribe held type listener).registrations t =
      if type = t then
        (bus.registrations type).filter fun r ↦ !(bus.isLive held r && r.listener == listener)
      else bus.registrations t := by
  cases hfind : bus.find? type with
  | none =>
      have hnil : bus.registrations type = [] := by rw [registrations, hfind, Option.getD_none]
      have hsame : bus.unsubscribe held type listener = bus := by simp only [unsubscribe, hfind]
      rw [hsame, hnil, List.filter_nil]
      split
      next h => rw [← h, hnil]
      next => rfl
  | some list =>
      have hlist : bus.registrations type = list := by rw [registrations, hfind, Option.getD_some]
      rw [hlist]
      apply registrations_of_assign
      simp only [unsubscribe, hfind]

/-! ## The end of a delivery -/

theorem removeFirst_eq_eraseP (distinct : ρ → Bool) (entry : Registration ρ)
    (list : List (Registration ρ)) :
    removeFirst distinct entry list = list.eraseP (sameEntry distinct entry) := by
  induction list with
  | nil => rfl
  | cons r rest ih => cases h : sameEntry distinct entry r <;> simp [removeFirst, h, ih]

/-- The list that a delivery leaves: what was marked is removed, if its list is in its place. -/
def left (distinct : ρ → Bool) (d : Delivery ρ) (list : List (Registration ρ)) :
    List (Registration ρ) :=
  if d.fate = .kept then
    d.marked.foldl (fun list entry ↦ list.eraseP (sameEntry distinct entry)) list
  else list

theorem finish_eq {distinct : ρ → Bool} {d : Delivery ρ} (hd : bus.current = some d) :
    bus.finish distinct =
      { bus with
        lists :=
          if d.fate = .kept then
            assign d.event.type (left distinct d (bus.registrations d.event.type)) bus.lists
          else bus.lists
        current := none
        kept := bus.kept ++ Delivery.leaves d
        history := bus.history ++ [.ended d.fate] } := by
  by_cases hfate : d.fate = .kept
  · simp only [finish, hd, hfate, record, left, removeFirst_eq_eraseP, if_true]
    rfl
  · simp [finish, hd, hfate, record]

theorem registrations_finish {distinct : ρ → Bool} {d : Delivery ρ} (hd : bus.current = some d) :
    (bus.finish distinct).registrations t =
      if d.event.type = t then left distinct d (bus.registrations t) else bus.registrations t := by
  rw [finish_eq hd]
  by_cases hfate : d.fate = .kept
  · rw [if_pos hfate, registrations_of_assign rfl]
    split
    next h => rw [h]
    next => rfl
  · rw [if_neg hfate, left, if_neg hfate, ite_self]
    rfl

theorem left_sublist (distinct : ρ → Bool) (d : Delivery ρ) (list : List (Registration ρ)) :
    (left distinct d list).Sublist list := by
  rw [left]
  split
  · induction d.marked generalizing list with
    | nil => exact List.Sublist.refl list
    | cons entry rest ih => exact (ih _).trans List.eraseP_sublist
  · exact List.Sublist.refl list

/-- The end of a delivery only removes. -/
theorem finish_sublist (distinct : ρ → Bool) (t : EventType) :
    ((bus.finish distinct).registrations t).Sublist (bus.registrations t) := by
  cases hd : bus.current with
  | none => rw [finish, hd]
  | some d =>
      rw [registrations_finish hd]
      split
      · exact left_sublist distinct d _
      · exact List.Sublist.refl _

theorem count_finish (distinct : ρ → Bool) : (bus.finish distinct).count = bus.count := by
  cases hd : bus.current with
  | none => rw [finish, hd]
  | some d => rw [finish_eq hd]

/-- A registration that is taken for another one is it, or agrees with it in priority and in whether
it is to be called once. -/
theorem alike_of_sameEntry {distinct : ρ → Bool} {x y : Registration ρ}
    (h : sameEntry distinct x y = true) :
    x.serial = y.serial ∨
      x.priority.alike y.priority = true ∧ x.oneShot.isTruthy = y.oneShot.isTruthy := by
  simp only [sameEntry, Bool.or_eq_true, Bool.and_eq_true, beq_iff_eq] at h
  rcases h with hserial | ⟨⟨⟨⟨hpriority, -⟩, honeShot⟩, -⟩, -⟩
  · exact .inl hserial
  · exact .inr ⟨hpriority, Value.isTruthy_eq_of_alike honeShot⟩

/-- If the marked registrations to be called once are the first such ones among those with numbers
below a bound, their removal leaves the others, whatever else is removed.  In an ordered list an
equal registration that comes before a marked one has a lower number, so it is not taken for it. -/
theorem filter_foldl_eraseP (distinct : ρ → Bool) (n : Nat) {marked others : List (Registration ρ)}
    (hlist : list.Pairwise Registration.Precedes)
    (hsame : ∀ m ∈ marked, ∀ r ∈ list, m.serial = r.serial → m = r)
    (hfilter : (list.filter fun r ↦ r.oneShot.isTruthy && decide (r.serial < n)) =
      marked.filter (·.oneShot.isTruthy) ++ others) :
    ((marked.foldl (fun list entry ↦ list.eraseP (sameEntry distinct entry)) list).filter
      fun r ↦ r.oneShot.isTruthy && decide (r.serial < n)) = others := by
  induction marked generalizing list with
  | nil => simpa using hfilter
  | cons m marked ih =>
      have hsub : (list.eraseP (sameEntry distinct m)).Sublist list := List.eraseP_sublist
      rw [List.foldl_cons]
      apply ih (hlist.sublist hsub)
        (fun x hx r hr ↦ hsame x (List.mem_cons_of_mem m hx) r (hsub.subset hr))
      cases htruthy : m.oneShot.isTruthy with
      | false =>
          have hdropped : (m :: marked).filter (·.oneShot.isTruthy) =
              marked.filter (·.oneShot.isTruthy) := List.filter_cons_of_neg (by simp [htruthy])
          rw [← hdropped, ← hfilter]
          apply filter_eraseP_of_forall
          intro r hr htaken
          rcases alike_of_sameEntry htaken with hserial | ⟨-, hr⟩
          · rw [← hsame m List.mem_cons_self r hr hserial, htruthy, Bool.false_and]
          · rw [← hr, htruthy, Bool.false_and]
      | true =>
          have hkept : (m :: marked).filter (·.oneShot.isTruthy) =
              m :: marked.filter (·.oneShot.isTruthy) := List.filter_cons_of_pos htruthy
          rw [hkept, List.cons_append, List.filter_eq_cons_iff] at hfilter
          obtain ⟨before, after, rfl, hbefore, hm, hafter⟩ := hfilter
          -- nothing before is taken for the marked registration
          have hnone : ∀ x ∈ before, ¬ sameEntry distinct m x = true := by
            intro x hx htaken
            have hxm : x.Precedes m :=
              (List.pairwise_append.mp hlist).2.2 x hx m List.mem_cons_self
            have hbound : m.serial < n := by simpa [htruthy] using hm
            apply hbefore x hx
            rcases alike_of_sameEntry htaken with hserial | ⟨hpriority, htruthy'⟩
            · rw [← hsame m List.mem_cons_self x (List.mem_append_left _ hx) hserial]
              exact hm
            · have hlt : x.serial < m.serial := hxm.serial_lt hpriority
              have hx : x.serial < n := Nat.lt_trans hlt hbound
              simpa [← htruthy', htruthy] using hx
          have hself : sameEntry distinct m m = true := by simp [sameEntry]
          rw [List.eraseP_append_right _ hnone, List.eraseP_cons_of_pos hself, List.filter_append,
            hafter, List.filter_eq_nil_iff.mpr hbefore, List.nil_append]

end Bus

end LinearDialogue
