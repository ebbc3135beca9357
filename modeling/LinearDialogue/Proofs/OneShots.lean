import LinearDialogue.Proofs.Dispatching

/-!
# Registrations to be called once

A registration to be called once is spent by the first round that calls it, whether that round
removes it or finds its list cleared: no later round calls it, and it is in no list any more.  It is
not removed where a listener has been removed from its list while the event was delivered, which
leaves it in another list, and is called again by the next event.

Registrations are told apart by their serial numbers, of which each is given to one.
-/

namespace LinearDialogue

variable {ρ : Type}

/-- A round calls the registration with a number. -/
def Round.Calls (round : Round ρ) (n : Nat) : Prop := ∃ call ∈ round.calls, call.entry.serial = n

/-- A round calls the registration with a number, which is to be called once, and no other list has
taken the place of its own. -/
def Round.Spends (round : Round ρ) (n : Nat) : Prop :=
  round.fate ≠ .thinned ∧
    ∃ call ∈ round.calls, call.entry.oneShot.isTruthy = true ∧ call.entry.serial = n

namespace Bus

/-- Registrations are counted and in order, and their priorities are numbers. -/
structure IsSound (b : Bus ρ) : Prop where
  number : ∀ {t : EventType} {r : Registration ρ}, r ∈ b.registrations t →
    r.priority.isNumber = true
  serial_lt : ∀ {t : EventType} {r : Registration ρ}, r ∈ b.registrations t → r.serial < b.count
  unique : ∀ {t u : EventType} {x y : Registration ρ}, x ∈ b.registrations t →
    y ∈ b.registrations u → x.serial = y.serial → t = u ∧ x = y
  nodup : ∀ t : EventType, ((b.registrations t).map (·.serial)).Nodup
  ordered : ∀ t : EventType, (b.registrations t).Pairwise Registration.Precedes

/-- The registration with a number was made, and is in no list. -/
structure Lacks (b : Bus ρ) (n : Nat) : Prop where
  serial_lt : n < b.count
  ne : ∀ {t : EventType} {r : Registration ρ}, r ∈ b.registrations t → r.serial ≠ n

/-- Every registration of a later bus was there, or has been made since. -/
structure Renews (b c : Bus ρ) : Prop where
  count_le : b.count ≤ c.count
  mem : ∀ {t : EventType} {r : Registration ρ}, r ∈ c.registrations t →
    r ∈ b.registrations t ∨ b.count ≤ r.serial

variable {b c d : Bus ρ} {n : Nat}

theorem isSound_empty : ({} : Bus ρ).IsSound where
  number h := absurd h List.not_mem_nil
  serial_lt h := absurd h List.not_mem_nil
  unique h := absurd h List.not_mem_nil
  nodup _ := List.nodup_nil
  ordered _ := List.Pairwise.nil

theorem IsSound.of_sublist (hb : b.IsSound) (hcount : b.count ≤ c.count)
    (hsub : ∀ t, (c.registrations t).Sublist (b.registrations t)) : c.IsSound where
  number h := hb.number ((hsub _).subset h)
  serial_lt h := Nat.lt_of_lt_of_le (hb.serial_lt ((hsub _).subset h)) hcount
  unique hx hy := hb.unique ((hsub _).subset hx) ((hsub _).subset hy)
  nodup t := (hb.nodup t).sublist ((hsub t).map _)
  ordered t := (hb.ordered t).sublist (hsub t)

theorem IsSound.of_lists (hb : b.IsSound) (hcount : b.count ≤ c.count) (h : c.lists = b.lists) :
    c.IsSound :=
  hb.of_sublist hcount fun t ↦ by rw [registrations_congr h]

theorem IsSound.subscribe (hb : b.IsSound) (type : EventType) (listener : ρ) {priority : Value}
    (oneShot : Value) (weak : Bool) (hpriority : priority.isNumber = true) :
    (b.subscribe type listener priority oneShot weak).IsSound := by
  let entry : Registration ρ := ⟨priority, listener, oneShot, weak, b.count⟩
  -- the registrations are those that were there and the new one
  have hmem : ∀ {t : EventType} {r : Registration ρ},
      r ∈ (b.subscribe type listener priority oneShot weak).registrations t →
        r = entry ∧ t = type ∨ r ∈ b.registrations t := by
    intro t r hr
    rw [registrations_subscribe] at hr
    split at hr
    next htype =>
      rcases mem_insert_iff.mp hr with hr | hr
      · exact .inl ⟨hr, htype.symm⟩
      · exact .inr (htype ▸ hr)
    next => exact .inr hr
  constructor
  · intro t r hr
    rcases hmem hr with ⟨rfl, -⟩ | hr
    · exact hpriority
    · exact hb.number hr
  · intro t r hr
    rcases hmem hr with ⟨rfl, -⟩ | hr
    · exact Nat.lt_succ_self b.count
    · exact Nat.lt_succ_of_lt (hb.serial_lt hr)
  · intro t u x y hx hy hserial
    rcases hmem hx with ⟨rfl, rfl⟩ | hold <;> rcases hmem hy with ⟨rfl, rfl⟩ | hold'
    · exact ⟨rfl, rfl⟩
    · exact absurd hserial (Nat.ne_of_gt (hb.serial_lt hold'))
    · exact absurd hserial (Nat.ne_of_lt (hb.serial_lt hold))
    · exact hb.unique hold hold' hserial
  · intro t
    rw [registrations_subscribe]
    split
    · rw [((perm_insert entry _).map _).nodup_iff, List.map_cons, List.nodup_cons]
      refine ⟨?_, hb.nodup type⟩
      intro hserial
      obtain ⟨r, hr, heq⟩ := List.mem_map.mp hserial
      exact Nat.ne_of_lt (hb.serial_lt hr) heq
    · exact hb.nodup t
  · intro t
    rw [registrations_subscribe]
    split
    · exact pairwise_precedes_insert (hb.ordered type) (fun r hr ↦ hb.number hr) hpriority
        fun r hr ↦ hb.serial_lt hr
    · exact hb.ordered t

theorem Renews.refl (b : Bus ρ) : b.Renews b := ⟨Nat.le_refl _, .inl⟩

theorem Renews.trans (hbc : b.Renews c) (hcd : c.Renews d) : b.Renews d where
  count_le := Nat.le_trans hbc.count_le hcd.count_le
  mem h := by
    rcases hcd.mem h with h | h
    · exact hbc.mem h
    · exact .inr (Nat.le_trans hbc.count_le h)

theorem Renews.of_sublist (hcount : b.count ≤ c.count)
    (hsub : ∀ t, (c.registrations t).Sublist (b.registrations t)) : b.Renews c :=
  ⟨hcount, fun h ↦ .inl ((hsub _).subset h)⟩

theorem Renews.of_lists (hcount : b.count ≤ c.count) (h : c.lists = b.lists) : b.Renews c :=
  .of_sublist hcount fun t ↦ by rw [registrations_congr h]

theorem Lacks.renews (hb : b.Lacks n) (hbc : b.Renews c) : c.Lacks n where
  serial_lt := Nat.lt_of_lt_of_le hb.serial_lt hbc.count_le
  ne h := by
    rcases hbc.mem h with h | h
    · exact hb.ne h
    · exact Nat.ne_of_gt (Nat.lt_of_lt_of_le hb.serial_lt h)

/-! ## Rounds -/

/-- What some rounds do to the registrations of a sound bus. -/
structure Settles (b : Bus ρ) (rounds : List (Round ρ)) (c : Bus ρ) : Prop where
  sound : c.IsSound
  renews : b.Renews c
  lacked : ∀ n, b.Lacks n → ∀ round ∈ rounds, ¬ round.Calls n
  spent : ∀ round ∈ rounds, ∀ n, round.Spends n → c.Lacks n
  later : rounds.Pairwise fun x y ↦ ∀ n, x.Spends n → ¬ y.Calls n
  once : ∀ round ∈ rounds, (round.calls.map (·.entry.serial)).Nodup

theorem Settles.nil (hc : c.IsSound) (h : b.Renews c) : b.Settles [] c where
  sound := hc
  renews := h
  lacked _ _ _ hmem := absurd hmem List.not_mem_nil
  spent _ hmem := absurd hmem List.not_mem_nil
  later := .nil
  once _ hmem := absurd hmem List.not_mem_nil

theorem Settles.append {rounds others : List (Round ρ)} (hbc : b.Settles rounds c)
    (hcd : c.Settles others d) : b.Settles (rounds ++ others) d where
  sound := hcd.sound
  renews := hbc.renews.trans hcd.renews
  lacked n hn round hmem := by
    rcases List.mem_append.mp hmem with hmem | hmem
    · exact hbc.lacked n hn round hmem
    · exact hcd.lacked n (hn.renews hbc.renews) round hmem
  spent round hmem n hspends := by
    rcases List.mem_append.mp hmem with hmem | hmem
    · exact (hbc.spent round hmem n hspends).renews hcd.renews
    · exact hcd.spent round hmem n hspends
  later := by
    refine List.pairwise_append.mpr ⟨hbc.later, hcd.later, ?_⟩
    intro x hx y hy n hspends
    exact hcd.lacked n (hbc.spent x hx n hspends) y hy
  once round hmem := by
    rcases List.mem_append.mp hmem with hmem | hmem
    · exact hbc.once round hmem
    · exact hcd.once round hmem

/-! ## Moves and visits -/

variable [DecidableEq ρ] {es : List Event}

theorem Moves.isSound (h : Moves (fun v ↦ v.isNumber = true) b es c) (hb : b.IsSound) :
    c.IsSound := by
  induction h with
  | refl => exact hb
  | subscribe type listener oneShot weak _ hok ih =>
    exact ih.subscribe type listener oneShot weak hok
  | unsubscribe held type listener _ ih =>
      exact ih.of_sublist (Nat.le_of_eq (unsubscribe_count held type listener).symm)
        (unsubscribe_sublist held type listener)
  | clear type _ ih =>
      exact ih.of_sublist (Nat.le_of_eq (clear_count type).symm) (clear_sublist type)
  | enqueue event _ ih => exact ih.of_lists (Nat.le_refl _) rfl
  | consume _ ih => exact ih.of_lists (Nat.le_refl _) rfl

theorem Moves.renews {ok : Value → Prop} (h : Moves ok b es c) : b.Renews c := by
  induction h with
  | refl => exact Renews.refl b
  | @subscribe _ c type listener priority oneShot weak _ hok ih =>
      refine ih.trans ⟨Nat.le_succ _, fun {t r} hr ↦ ?_⟩
      rw [registrations_subscribe] at hr
      split at hr
      next htype =>
        rcases mem_insert_iff.mp hr with rfl | hr
        · exact .inr (Nat.le_refl _)
        · exact .inl (htype ▸ hr)
      next => exact .inl hr
  | unsubscribe held type listener _ ih =>
      exact ih.trans (.of_sublist (Nat.le_of_eq (unsubscribe_count held type listener).symm)
        (unsubscribe_sublist held type listener))
  | clear type _ ih =>
      exact ih.trans (.of_sublist (Nat.le_of_eq (clear_count type).symm) (clear_sublist type))
  | enqueue event _ ih => exact ih.trans (.of_lists (Nat.le_refl _) rfl)
  | consume _ ih => exact ih.trans (.of_lists (Nat.le_refl _) rfl)

variable {entries : List (Registration ρ)} {calls : List (Call ρ)}

theorem Visits.isSound (h : Visits (fun v ↦ v.isNumber = true) b entries calls c) (hb : b.IsSound) :
    c.IsSound := by
  induction h with
  | nil => exact hb
  | gone _ ih => exact ih (hb.of_lists (Nat.le_refl _) rfl)
  | @call b c _ entry _ _ _ _ failure hmoves _ _ ih =>
      have hcalling : (b.calling entry).IsSound := hb.of_lists (Nat.le_refl _) rfl
      apply ih
      exact (hmoves.isSound hcalling).of_lists (Nat.le_of_eq (afterCall_count entry failure).symm)
        (afterCall_lists entry failure)

theorem Visits.renews {ok : Value → Prop} (h : Visits ok b entries calls c) : b.Renews c := by
  induction h with
  | @nil b => exact Renews.refl b
  | @gone b _ entry _ _ _ ih =>
      have hgone : b.Renews ((b.meet none).mark entry) := .of_lists (Nat.le_refl _) rfl
      exact hgone.trans ih
  | @call b c _ entry _ _ _ _ failure hmoves _ _ ih =>
      have hcalling : b.Renews (b.calling entry) := .of_lists (Nat.le_refl _) rfl
      have hafter : c.Renews (c.afterCall entry failure) :=
        .of_lists (Nat.le_of_eq (afterCall_count entry failure).symm)
          (afterCall_lists entry failure)
      exact (hcalling.trans hmoves.renews).trans (hafter.trans ih)

theorem Visits.forgets (h : Visits ok b entries calls c) (hn : n ≤ b.count) (hb : Forgets n b) :
    Forgets n c := by
  induction h with
  | nil => exact hb
  | gone _ ih =>
      have hmet := hb.onCurrent (f := fun d ↦ { d with last := none }) (fun _ ↦ rfl) fun _ ↦ rfl
      exact ih hn (hmet.onCurrent (fun _ ↦ rfl) fun _ ↦ rfl)
  | @call b c _ entry _ _ _ _ failure hmoves _ _ ih =>
      have hcalling : Forgets n (b.calling entry) :=
        hb.onCurrent (f := fun d ↦ { d with last := some entry.listener }) (fun _ ↦ rfl) fun _ ↦ rfl
      apply ih
      · rw [afterCall_count]
        exact Nat.le_trans hn hmoves.count_le
      · have hafter : Forgets n c := hmoves.forgets hn hcalling
        rw [afterCall]
        split
        · exact hafter.onCurrent (fun _ ↦ rfl) fun _ ↦ rfl
        · exact hafter

/-- Where a list is in its place, of the registrations to be called once that were there at the
beginning those that have not been visited are left. -/
theorem Visited.filter_left {visited marks others : List (Registration ρ)} {d e : Delivery ρ}
    (h : Visited b c d e visited marks) (hb : b.IsSound) (hc : c.IsSound) (hmarked : d.marked = [])
    (hentries : b.registrations d.event.type = visited ++ others) (hfate : e.fate = .kept)
    (distinct : ρ → Bool) :
    (∀ r ∈ visited, r ∈ c.registrations d.event.type) ∧
      ((left distinct e (c.registrations d.event.type)).filter
        fun r ↦ r.oneShot.isTruthy && decide (r.serial < b.count)) =
          others.filter (·.oneShot.isTruthy) := by
  have hkept : (c.registrations d.event.type).filter (·.serial < b.count) = visited ++ others := by
    rw [h.kept hfate b.count (Nat.le_refl _), ← hentries]
    exact List.filter_eq_self.mpr fun r hr ↦ by simpa using hb.serial_lt hr
  have hpresent : ∀ r ∈ visited, r ∈ c.registrations d.event.type := by
    intro r hr
    have hmem : r ∈ visited ++ others := List.mem_append_left others hr
    rw [← hkept] at hmem
    exact List.mem_of_mem_filter hmem
  have hfilter : ((c.registrations d.event.type).filter
      fun r ↦ r.oneShot.isTruthy && decide (r.serial < b.count)) =
        marks.filter (·.oneShot.isTruthy) ++ others.filter (·.oneShot.isTruthy) := by
    rw [← List.filter_filter, hkept, List.filter_append, h.oneShot]
  have hleft : left distinct e (c.registrations d.event.type) =
      marks.foldl (fun list entry ↦ list.eraseP (sameEntry distinct entry))
        (c.registrations d.event.type) := by
    rw [left, if_pos hfate, h.marked, hmarked, List.nil_append]
  refine ⟨hpresent, ?_⟩
  rw [hleft]
  apply filter_foldl_eraseP distinct b.count (hc.ordered d.event.type) ?_ hfilter
  intro m hm r hr hserial
  exact (hc.unique (hpresent m (h.sublist.subset hm)) hr hserial).2

/-- A registration to be called once that a delivery has called is removed when it is over. -/
theorem Visits.lacks_of_kept (h : Visits (fun v ↦ v.isNumber = true) b entries calls c)
    (hb : b.IsSound) {d e : Delivery ρ} (hd : b.current = some d) (hmarked : d.marked = [])
    (hentries : entries = b.registrations d.event.type) (he : c.current = some e)
    (hfate : e.fate = .kept) {call : Call ρ} (hcall : call ∈ calls)
    (htruthy : call.entry.oneShot.isTruthy = true) (distinct : ρ → Bool) :
    (c.finish distinct).Lacks call.entry.serial := by
  obtain ⟨f, visited, marks, others, hvisited, hsplit, hcalls⟩ := h.exists_visited hd
  obtain rfl : f = e := Option.some_inj.mp (hvisited.current.symm.trans he)
  have hc : c.IsSound := h.isSound hb
  have hlist : b.registrations d.event.type = visited ++ others := hentries.symm.trans hsplit
  obtain ⟨hpresent, hfilter⟩ := hvisited.filter_left hb hc hmarked hlist hfate distinct
  have hvisit : call.entry ∈ visited := hcalls call hcall
  have hmem : call.entry ∈ c.registrations d.event.type := hpresent _ hvisit
  constructor
  · rw [finish_eq he]
    exact hc.serial_lt hmem
  · intro t r hr hserial
    rw [registrations_finish he, hvisited.event.type] at hr
    split at hr
    next htype =>
      -- it would be one of those that have not been visited
      rw [← htype] at hr
      obtain ⟨-, rfl⟩ := hc.unique ((left_sublist distinct f _).subset hr) hmem hserial
      have hold : call.entry ∈ b.registrations d.event.type := by
        rw [hlist]
        exact List.mem_append_left others hvisit
      have hother : call.entry ∈ others.filter (·.oneShot.isTruthy) := by
        rw [← hfilter, List.mem_filter]
        exact ⟨hr, by simpa [htruthy] using hb.serial_lt hold⟩
      have hnodup := hb.nodup d.event.type
      rw [hlist, List.map_append, List.nodup_append] at hnodup
      exact hnodup.2.2 _ (List.mem_map_of_mem hvisit) _
        (List.mem_map_of_mem (List.mem_of_mem_filter hother)) rfl
    next htype => exact htype (hc.unique hr hmem hserial).1.symm

/-- What a delivery has called is in no list when it is over, if its list has been cleared. -/
theorem Visits.lacks_of_cleared (h : Visits ok b entries calls c) (hb : b.IsSound)
    {d e : Delivery ρ} (hd : b.current = some d) (hstart : d.fate = .kept)
    (hentries : entries = b.registrations d.event.type) (he : c.current = some e)
    (hfate : e.fate = .cleared) {call : Call ρ} (hcall : call ∈ calls) (distinct : ρ → Bool) :
    (c.finish distinct).Lacks call.entry.serial := by
  obtain ⟨f, _, _, _, hvisited, -⟩ := h.exists_visited hd
  obtain rfl : f = e := Option.some_inj.mp (hvisited.current.symm.trans he)
  have hmem : call.entry ∈ b.registrations d.event.type := by
    rw [← hentries]
    exact h.sublist.subset (List.mem_map_of_mem hcall)
  have hforgets : Forgets b.count c := by
    refine h.forgets (Nat.le_refl _) fun g hg hcleared ↦ ?_
    obtain rfl : d = g := Option.some_inj.mp (hd.symm.trans hg)
    rw [hstart] at hcleared
    cases hcleared
  have hfinish : ∀ t, (c.finish distinct).registrations t = c.registrations t := fun t ↦ by
    simp [registrations_finish he, left, hfate]
  constructor
  · rw [finish_eq he]
    exact Nat.lt_of_lt_of_le (hb.serial_lt hmem) h.renews.count_le
  · intro t r hr hserial
    rw [hfinish] at hr
    have hold : r.serial < b.count := hserial ▸ hb.serial_lt hmem
    rcases h.renews.mem hr with hthere | hnew
    · -- it is of the type of the delivery, where only new ones are left
      obtain ⟨rfl, -⟩ := hb.unique hthere hmem hserial
      rw [← hvisited.event.type] at hr
      exact Nat.not_le.mpr hold (hforgets f he hfate r hr)
    · exact Nat.not_le.mpr hold hnew

theorem Delivers.settles {round : Round ρ} (h : Delivers (fun v ↦ v.isNumber = true) b round c)
    (hb : b.IsSound) : b.Settles [round] c := by
  cases h with
  | @unheard event hnone =>
      have hlists : ((b.opening event).record (.ended .kept)).lists = b.lists := by
        simp [opening, pin_eq, record]
      have hcount : b.count ≤ ((b.opening event).record (.ended .kept)).count := by
        simp [opening, pin_eq, record]
      refine ⟨hb.of_lists hcount hlists, .of_lists hcount hlists, ?_, ?_,
        List.pairwise_singleton _ _, ?_⟩
      all_goals simp [Round.Calls, Round.Spends]
  | @heard event calls c d distinct hvisits hd =>
      have hlists : ((b.opening event).begin event).lists = b.lists := by
        simp [opening, pin_eq, record, begin]
      have hcount : b.count ≤ ((b.opening event).begin event).count := by
        simp [opening, pin_eq, record, begin]
      have hopened : ((b.opening event).begin event).IsSound := hb.of_lists hcount hlists
      have hsame : b.registrations event.type =
          ((b.opening event).begin event).registrations event.type :=
        registrations_congr hlists.symm _
      have hfinish (t : EventType) :
          ((c.finish distinct).registrations t).Sublist (c.registrations t) :=
        finish_sublist distinct t
      have hfinished : c.count ≤ (c.finish distinct).count :=
        Nat.le_of_eq (count_finish distinct).symm
      have hmem : ∀ call ∈ calls, call.entry ∈ b.registrations event.type := by
        intro call hcall
        exact hvisits.sublist.subset (List.mem_map_of_mem hcall)
      constructor
      · exact (hvisits.isSound hopened).of_sublist hfinished hfinish
      · exact (Renews.of_lists hcount hlists).trans
          (hvisits.renews.trans (.of_sublist hfinished hfinish))
      · intro n hn round hround
        rw [List.mem_singleton.mp hround]
        rintro ⟨call, hcall, hserial⟩
        exact hn.ne (hmem call hcall) hserial
      · intro round hround n hspends
        rw [List.mem_singleton.mp hround] at hspends
        obtain ⟨hthinned, call, hcall, htruthy, rfl⟩ := hspends
        cases hfate : d.fate with
        | kept => exact hvisits.lacks_of_kept hopened rfl rfl hsame hd hfate hcall htruthy distinct
        | thinned => exact absurd hfate hthinned
        | cleared => exact hvisits.lacks_of_cleared hopened rfl rfl hsame hd hfate hcall distinct
      · exact List.pairwise_singleton _ _
      · intro round hround
        rw [List.mem_singleton.mp hround]
        have hsub := hvisits.sublist.map Registration.serial
        rw [List.map_map] at hsub
        exact (hb.nodup event.type).sublist hsub

theorem Drains.settles {rounds : List (Round ρ)}
    (h : Drains (fun v ↦ v.isNumber = true) b rounds c) (hb : b.IsSound) : b.Settles rounds c := by
  induction h with
  | nil => exact .nil hb (.refl _)
  | @cons b c d round rounds waiting hqueue hround _ ih =>
      have htaken : ({ b with queue := waiting } : Bus ρ).IsSound := hb.of_lists (Nat.le_refl _) rfl
      have hfirst := hround.settles htaken
      have htake : b.Settles [] { b with queue := waiting } :=
        .nil htaken (.of_lists (Nat.le_refl _) rfl)
      exact (htake.append hfirst).append (ih hfirst.sound)

theorem Publishes.settles {publication : Publication ρ}
    (h : Publishes (fun v ↦ v.isNumber = true) b publication c) (hb : b.IsSound) :
    b.Settles publication.rounds c := by
  obtain ⟨d, e, hfirst, hlater, rfl⟩ := h
  have hrecord : b.Settles [] (b.record (.published publication.first.event)) :=
    .nil (hb.of_lists (Nat.le_refl _) rfl) (.of_lists (Nat.le_refl _) rfl)
  have hbegin := hrecord.append (hfirst.settles hrecord.sound)
  have hend := hlater.settles hbegin.sound
  have hrelease : e.Settles [] e.release :=
    .nil (hend.sound.of_lists (Nat.le_refl _) rfl) (.of_lists (Nat.le_refl _) rfl)
  simpa [Publication.rounds] using (hbegin.append hend).append hrelease

theorem Runs.settles {publications : List (Publication ρ)}
    (h : Runs (fun v ↦ v.isNumber = true) b publications c) (hb : b.IsSound) :
    b.Settles (publications.flatMap Publication.rounds) c := by
  induction h with
  | nil => exact .nil hb (.refl _)
  | move hmoves _ ih =>
      have hmoved : Settles _ [] _ := .nil (hmoves.isSound hb) hmoves.renews
      exact hmoved.append (ih hmoved.sound)
  | publish hpublishes _ _ ih =>
      have hpublished := hpublishes.settles hb
      exact hpublished.append (ih hpublished.sound)

end Bus

namespace Exchange

/-- A registration to be called once is called at most once in a round, and not at all after a round
that has called it, unless in the meantime a listener was removed from the list that the round
worked on.  From the end of that round on it is in no list. -/
theorem Runs.spends_once {ops : List ExchangeOp} {s : Exchange} (h : Runs {} ops s)
    (hops : ∀ op ∈ ops, op.IsOrdinary fun v ↦ v.isNumber = true) :
    ∃ publications : List (Publication Listener),
      Bus.Runs (fun v ↦ v.isNumber = true) {} publications s.bus ∧
      s.bus.history = publications.flatMap Publication.moments ∧
      (publications.flatMap Publication.rounds).Pairwise
        (fun x y ↦ ∀ n, x.Spends n → ¬ y.Calls n) ∧
      ∀ round ∈ publications.flatMap Publication.rounds,
        (round.calls.map (·.entry.serial)).Nodup ∧ ∀ n, round.Spends n → s.bus.Lacks n := by
  have hempty : ({} : Exchange).IsOrdinary fun v ↦ v.isNumber = true :=
    fun _ hmem ↦ absurd hmem List.not_mem_nil
  obtain ⟨publications, hruns, -, -⟩ := h.exists_bus_runs hops hempty
  have hsettles := hruns.settles Bus.isSound_empty
  refine ⟨publications, hruns, by simpa using hruns.history, hsettles.later, ?_⟩
  intro round hround
  exact ⟨hsettles.once round hround, hsettles.spent round hround⟩

theorem spends_once_of_chatter :
    ∃ (s : Exchange) (publications : List (Publication Listener)), Runs {} chatter s ∧
      (s.bus.history.filterMap Moment.called?).map (·.serial) = [1, 0, 2] ∧
      s.bus.history = publications.flatMap Publication.moments ∧
      (publications.flatMap Publication.rounds).Pairwise
        (fun x y ↦ ∀ n, x.Spends n → ¬ y.Calls n) := by
  have hcalls : (runAll 1 chatter {}).map
      (fun s ↦ (s.bus.history.filterMap Moment.called?).map (·.serial)) = some [1, 0, 2] := by
    decide +kernel
  obtain ⟨s, hrun, hcalls⟩ := Option.map_eq_some_iff.mp hcalls
  have hs := runs_of_runAll hrun
  obtain ⟨publications, -, hhistory, hlater, -⟩ :=
    hs.spends_once (isOrdinary_chatter fun _ ↦ rfl)
  exact ⟨s, publications, hs, hcalls, hhistory, hlater⟩

/-- A handler that is to be called once, and one that removes itself when it is called. -/
def quitter : List ExchangeOp :=
  [.define "once" false fun _ _ ↦ .done,
    .define "quitter" false fun _ _ ↦ .perform (.unsubscribe .lineShown "quitter") fun _ ↦ .done,
    .subscribe .lineShown "once" (.int 0) (.bool true) true,
    .subscribe .lineShown "quitter" (.int 0) (.bool false) true,
    .publish { type := .lineShown }]

/-- The removal of another handler during a delivery keeps a registration that is to be called once:
it is still there when the delivery is over, and is called a second time. -/
theorem exists_called_twice :
    ∃ (ops : List ExchangeOp) (s t : Exchange) (entry : Registration Listener),
      (∀ op ∈ ops ++ [.publish { type := .lineShown }],
        op.IsOrdinary fun v ↦ v.isNumber = true) ∧
      entry.oneShot = .bool true ∧
      Runs {} ops s ∧ (s.bus.history.filterMap Moment.called?).count entry = 1 ∧
      entry ∈ s.bus.registrations .lineShown ∧ s.bus.current.isNone = true ∧
      Runs {} (ops ++ [.publish { type := .lineShown }]) t ∧
      (t.bus.history.filterMap Moment.called?).count entry = 2 := by
  let entry : Registration Listener := ⟨.int 0, ⟨"once", 0, false⟩, .bool true, true, 0⟩
  have hordinary : ∀ op ∈ quitter ++ [.publish { type := .lineShown }],
      op.IsOrdinary fun v ↦ v.isNumber = true := by
    intro op hop
    simp only [quitter, List.cons_append, List.nil_append, List.mem_cons, List.not_mem_nil,
      or_false] at hop
    rcases hop with rfl | rfl | rfl | rfl | rfl | rfl
    · exact .define fun _ _ ↦ .done
    · exact .define fun _ _ ↦ .of_op (.unsubscribe _ _ _) fun _ ↦ .done
    · exact .subscribe (by rfl) _ _ _ _
    · exact .subscribe (by rfl) _ _ _ _
    · exact .publish _ _
    · exact .publish _ _
  have hfirst : (runAll 0 quitter {}).map (fun s ↦
      decide ((s.bus.history.filterMap Moment.called?).count entry = 1 ∧
        entry ∈ s.bus.registrations .lineShown ∧ s.bus.current.isNone = true)) = some true := by
    decide +kernel
  have hsecond : (runAll 0 (quitter ++ [.publish { type := .lineShown }]) {}).map (fun s ↦
      (s.bus.history.filterMap Moment.called?).count entry) = some 2 := by
    decide +kernel
  obtain ⟨s, hs, hcalled⟩ := Option.map_eq_some_iff.mp hfirst
  obtain ⟨t, ht, htwice⟩ := Option.map_eq_some_iff.mp hsecond
  obtain ⟨honce, hpresent, hidle⟩ := of_decide_eq_true hcalled
  exact ⟨quitter, s, t, entry, hordinary, rfl, runs_of_runAll hs, honce, hpresent, hidle,
    runs_of_runAll ht, htwice⟩

end Exchange

end LinearDialogue
