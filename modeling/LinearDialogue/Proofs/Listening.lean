import LinearDialogue.Proofs.Operations
import LinearDialogue.Proofs.Presses

/-!
# The director's registration

The director is registered for pressed actions exactly while it listens: once then, and else not at
all, whatever dialogues have been started, broken off and ended before, and whatever the handlers do
short of clearing lists.  It is put by checks, which would raise an alarm at the moments at which
somebody other than the director has the word: before and after every operation, from outside or by
a handler, every publication inside of them, and every call of a listener.  No alarm is ever raised.
So a delivery finds the director in its list once at most, and calls it no more often.
-/

namespace LinearDialogue

/-- An act under watch.  Where something is wrong before it or after it, the act is aborted with an
alarm. -/
def Act.watched {σ α : Type} (isFine : σ → Bool) (alarm : σ → σ) (m : Act σ α) : Act σ α := fun s =>
  if isFine s then
    let (outcome, t) := m s
    if isFine t then (outcome, t) else (.aborted, alarm t)
  else (.aborted, alarm s)

theorem Act.watched_apply {σ α : Type} {isFine : σ → Bool} {m : Act σ α} {s : σ}
    (alarm : σ → σ) (hs : isFine s = true) (ht : isFine (m s).2 = true) :
    m.watched isFine alarm s = m s := by
  rw [watched, if_pos hs]
  dsimp only
  rw [if_pos ht]

/-- An operation that clears no list. -/
def StageOp.KeepsLists (op : StageOp) : Prop := ∀ type, op ≠ .clear type

/-- A program that clears no list.  It may use everything else, fail, and abort. -/
inductive Program.KeepsLists : Program StageOp → Prop
  | done : KeepsLists .done
  | fail {failure : Failure} : KeepsLists (.fail failure)
  | abort : KeepsLists .abort
  | consume {next : Program StageOp} (h : next.KeepsLists) : KeepsLists (.consume next)
  | note {item : Note} {next : Program StageOp} (h : next.KeepsLists) : KeepsLists (.note item next)
  | perform {op : StageOp} {next : Except Failure Value → Program StageOp} (hop : op.KeepsLists)
      (h : ∀ answer, (next answer).KeepsLists) : KeepsLists (.perform op next)

namespace Stage

/-! ## Checks -/

/-- The director is registered for pressed actions once if it listens, and not at all if it does
not. -/
def isExact (s : Stage) : Bool :=
  directors (s.bus.registrations .actionPressed) == if s.director.isEnabled then 1 else 0

/-- What listeners do when they are called, with operations performed and events published in given
ways. -/
def callBy (publish : Publisher Stage) (act : StageOp → Act Stage Value)
    (listener : StageListener) : Act Stage Unit := fun s =>
  match s.bus.current with
  | none => (.returned (), s)
  | some d =>
    let called : Act Stage Unit :=
      match listener with
      | .director => Director.onAction (wiring publish s.speaker) consumeCurrent d.event
      | .observer => Journal.note (.event d.event)
      | .handler index =>
        match s.handlers[index]? with
        | none => pure ()
        | some h => do
          Part.update (List StageHandler) (countCall index)
          (h.behaviour h.calls d.event).run act consumeCurrent
    called s

theorem callBy_post (listener : StageListener) :
    callBy (Bus.post StageListener) (perform (Bus.post StageListener)) listener =
      call listener := rfl

section

variable (alarm : Stage → Stage)

def watchedPost : Publisher Stage := fun event =>
  (Bus.post StageListener event : Act Stage Event).watched isExact alarm

/-- How the bus of a stage treats its listeners, with a check before and after every call, and
inside of it before and after every operation and publication. -/
def watchedHandling : Handling StageListener Stage :=
  { handling with
    call := fun listener =>
      (callBy (watchedPost alarm)
        (fun op => (perform (watchedPost alarm) op).watched isExact alarm) listener).watched
        isExact alarm }

def watchedPublish (fuel : Nat) : Publisher Stage := fun event =>
  ((watchedHandling alarm).publish fuel event).watched isExact alarm

/-- Perform an operation from outside with checks. -/
def watchedOperate (fuel : Nat) (op : StageOp) : Act Stage Value :=
  (perform (watchedPublish alarm fuel) op).watched isExact alarm

/-- Perform operations from outside in turn with checks, up to one that stalls. -/
def watchedAll (fuel : Nat) : List StageOp → Stage → List (Outcome Value) × Stage
  | [], s => ([], s)
  | op :: ops, s =>
    match watchedOperate alarm fuel op s with
    | (.stalled, t) => ([.stalled], t)
    | (outcome, t) =>
      let (outcomes, u) := watchedAll fuel ops t
      (outcome :: outcomes, u)

end

/-! ## Calls of the director in a delivery -/

/-- How often the director has been called since the last delivery began. -/
def hearings : List (Moment StageListener) → Nat :=
  List.foldl (fun n moment ↦
    match moment with
    | .begun _ => 0
    | .called entry => if entry.listener = .director then n + 1 else n
    | _ => n) 0

/-- What a history has in addition to a past one has the director called once at most in a delivery,
and the one that goes on leaves room for some calls more. -/
def LeavesRoom (past history : List (Moment StageListener)) (more : Nat) : Prop :=
  ∃ moments, history = past ++ moments ∧ (∀ seen, seen <+: moments → hearings seen ≤ 1) ∧
    hearings moments + more ≤ 1

/-- A moment that neither begins a delivery nor calls a listener. -/
def IsAside : Moment StageListener → Prop
  | .begun _ | .called _ => False
  | _ => True

theorem isAside_published (event : Event) : IsAside (.published event) := trivial

theorem isAside_ended (fate : Fate) : IsAside (.ended fate) := trivial

namespace LeavesRoom

variable {past history : List (Moment StageListener)} {more : Nat} {moment : Moment StageListener}

theorem start (past : List (Moment StageListener)) : LeavesRoom past past 0 := by
  refine ⟨[], by simp, fun seen hseen ↦ ?_, Nat.zero_le _⟩
  rw [List.prefix_nil.mp hseen]
  exact Nat.zero_le _

theorem fewer {fewer : Nat} (h : LeavesRoom past history more) (hfewer : fewer ≤ more) :
    LeavesRoom past history fewer := by
  obtain ⟨moments, hhistory, hseen, hroom⟩ := h
  exact ⟨moments, hhistory, hseen, by omega⟩

/-- One moment more keeps what has been seen, if it leaves room itself. -/
theorem concat {left : Nat} (h : LeavesRoom past history more)
    (hroom : ∀ moments, hearings moments + more ≤ 1 → hearings (moments ++ [moment]) + left ≤ 1) :
    LeavesRoom past (history ++ [moment]) left := by
  obtain ⟨moments, rfl, hseen, hmore⟩ := h
  have hleft := hroom moments hmore
  refine ⟨moments ++ [moment], by simp, fun seen hearly ↦ ?_, hleft⟩
  rcases List.prefix_concat_iff.mp hearly with rfl | hearly
  · omega
  · exact hseen seen hearly

theorem aside (h : LeavesRoom past history more) (hmoment : IsAside moment) :
    LeavesRoom past (history ++ [moment]) more := by
  refine h.concat fun moments hroom ↦ ?_
  rw [hearings, List.foldl_append, ← hearings]
  cases moment <;> simp_all [IsAside]

theorem begun (h : LeavesRoom past history more) (event : Event) {left : Nat} (hleft : left ≤ 1) :
    LeavesRoom past (history ++ [.begun event]) left := by
  refine h.concat fun moments _ ↦ ?_
  rw [hearings, List.foldl_append]
  simpa using hleft

theorem called {entry : Registration StageListener} {rest : List (Registration StageListener)}
    (h : LeavesRoom past history (directors (entry :: rest))) :
    LeavesRoom past (history ++ [.called entry]) (directors rest) := by
  refine h.concat fun moments hroom ↦ ?_
  rw [hearings, List.foldl_append, ← hearings]
  by_cases hdirector : entry.listener = .director
  · rw [directors_cons_of_director hdirector] at hroom
    simp [hdirector]
    omega
  · have hle := directors_le_cons entry rest
    simp [hdirector]
    omega

end LeavesRoom

/-! ## Stages that nobody has cleared a list of -/

/-- A registration of the director that is not to be called once, made after some number of others,
or one of those. -/
structure IsKnown (first : Nat) (r : Registration StageListener) : Prop where
  director : r.listener = .director → first ≤ r.serial ∧ r.oneShot.isTruthy = false
  guest : r.listener ≠ .director → r.serial < first

/-- The director is registered exactly, and no registration that a delivery is to remove is taken
for the director's.  The delivery under way is still to visit some registrations. -/
structure IsTended (first : Nat) (past : List (Moment StageListener))
    (rest : List (Registration StageListener)) (s : Stage) : Prop where
  handlers : ∀ handler ∈ s.handlers, ∀ call event, (handler.behaviour call event).KeepsLists
  lists : ∀ type, directors (s.bus.registrations type) = allowance s.director.isEnabled type
  count : first ≤ s.bus.count
  known : ∀ type, ∀ r ∈ s.bus.registrations type, IsKnown first r
  upcoming : ∀ r ∈ rest, IsKnown first r
  marked : ∀ d, s.bus.current = some d → ∀ m ∈ d.marked, m.listener ≠ .director ∧ m.serial < first
  history : LeavesRoom past s.bus.history (directors rest)

variable {first : Nat} {past : List (Moment StageListener)}
  {rest rest' : List (Registration StageListener)} {entry : Registration StageListener}
  {s t : Stage} {α β : Type}

namespace IsTended

theorem isExact (hs : IsTended first past rest s) : s.isExact = true := by
  have hlist := hs.lists .actionPressed
  rw [Stage.isExact, hlist, allowance]
  cases s.director.isEnabled <;> rfl

theorem nil (hs : IsTended first past rest s) : IsTended first past [] s :=
  { hs with
    upcoming := by simp
    history := hs.history.fewer (Nat.zero_le _) }

/-- What neither registers nor marks anything, and tells of no delivery and no call, spoils
nothing. -/
theorem of_bus (hs : IsTended first past rest s)
    (hhandlers : t.handlers.map (·.behaviour) = s.handlers.map (·.behaviour))
    (henabled : t.director.isEnabled = s.director.isEnabled)
    (hlists : t.bus.lists = s.bus.lists) (hcount : t.bus.count = s.bus.count)
    (hmarked : ∀ e, t.bus.current = some e → ∃ d, s.bus.current = some d ∧ e.marked = d.marked)
    (hhistory : LeavesRoom past t.bus.history (directors rest)) : IsTended first past rest t where
  handlers handler hmem := by
    obtain ⟨old, hold, hsame⟩ := exists_same_behaviour hhandlers hmem
    rw [← hsame]
    exact hs.handlers old hold
  lists type := by
    rw [henabled, Bus.registrations_congr hlists]
    exact hs.lists type
  count := by
    rw [hcount]
    exact hs.count
  known type := by
    rw [Bus.registrations_congr hlists]
    exact hs.known type
  upcoming := hs.upcoming
  marked e he := by
    obtain ⟨d, hd, hsame⟩ := hmarked e he
    rw [hsame]
    exact hs.marked d hd
  history := hhistory

theorem retains (hs : IsTended first past rest s) (h : s.Retains t) : IsTended first past rest t :=
  hs.of_bus (by rw [h.handlers]) h.isEnabled (by rw [h.bus]) (by rw [h.bus])
    (fun e he ↦ ⟨e, h.bus ▸ he, rfl⟩) (h.bus ▸ hs.history)

theorem aside (hs : IsTended first past rest s) {moment : Moment StageListener}
    (hmoment : IsAside moment) :
    IsTended first past rest { s with bus := s.bus.record moment } :=
  hs.of_bus rfl rfl rfl rfl (fun e he ↦ ⟨e, he, rfl⟩) (hs.history.aside hmoment)

theorem enqueued (hs : IsTended first past rest s) (event : Event) :
    IsTended first past rest { s with bus := s.bus.enqueue event } :=
  hs.of_bus rfl rfl rfl rfl (fun e he ↦ ⟨e, he, rfl⟩)
    (hs.history.aside (isAside_published event))

theorem onCurrent (hs : IsTended first past rest s)
    {f : Delivery StageListener → Delivery StageListener} (hf : ∀ d, (f d).marked = d.marked) :
    IsTended first past rest { s with bus := s.bus.onCurrent f } := by
  refine hs.of_bus rfl rfl rfl rfl (fun e he ↦ ?_) hs.history
  obtain ⟨d, hd, rfl⟩ := Option.map_eq_some_iff.mp he
  exact ⟨d, hd, hf d⟩

theorem counting (hs : IsTended first past rest s) (listener : StageListener) :
    IsTended first past rest (s.counting listener) :=
  hs.of_bus (counting_behaviours listener) (by simp) (by simp) (by simp)
    (fun e he ↦ ⟨e, by simpa using he, rfl⟩) (by simpa using hs.history)

/-- The director's registration is made where there was none. -/
theorem listening (hs : IsTended first past rest s) (hdisabled : s.director.isEnabled = false) :
    IsTended first past rest s.listening := by
  let entry : Registration StageListener := ⟨.int 0, .director, .bool false, true, s.bus.count⟩
  have hinsert : (Bus.insert entry (s.bus.registrations .actionPressed)).Perm
      (entry :: s.bus.registrations .actionPressed) := Bus.perm_insert _ _
  refine ⟨hs.handlers, fun type ↦ ?_, Nat.le_succ_of_le hs.count, fun type r hr ↦ ?_, hs.upcoming,
    hs.marked, hs.history⟩
  · have hlist := hs.lists type
    rw [hdisabled] at hlist
    rw [Stage.listening, Bus.registrations_subscribe]
    by_cases htype : EventType.actionPressed = type
    · subst htype
      rw [if_pos rfl, directors, hinsert.countP_eq, List.countP_cons_of_pos rfl, ← directors, hlist]
      rfl
    · rw [if_neg htype, hlist, allowance_of_ne (Ne.symm htype), allowance_of_ne (Ne.symm htype)]
  · rw [Stage.listening, Bus.registrations_subscribe] at hr
    split at hr
    · rcases List.mem_cons.mp (hinsert.mem_iff.mp hr) with rfl | hr
      · exact ⟨fun _ ↦ ⟨hs.count, rfl⟩, fun hguest ↦ absurd rfl hguest⟩
      · exact hs.known _ r hr
    · exact hs.known type r hr

theorem marked_unsubscribe {b : Bus StageListener} {e : Delivery StageListener}
    {held : StageListener → Bool} {type : EventType} {listener : StageListener}
    (he : (b.unsubscribe held type listener).current = some e) :
    ∃ d, b.current = some d ∧ e.marked = d.marked := by
  cases hd : b.current with
  | none =>
      rw [Bus.unsubscribe] at he
      split at he <;> simp_all [Bus.replace]
  | some d =>
      obtain ⟨e', he', hcontinues, -⟩ := Bus.unsubscribe_continues held type listener hd
      obtain rfl := Option.some.inj (he'.symm.trans he)
      exact ⟨d, rfl, hcontinues.marked⟩

/-- Every registration of the director is removed. -/
theorem ignored (hs : IsTended first past rest s) :
    IsTended first past rest { s with
      bus := s.bus.unsubscribe s.holds .actionPressed .director
      director := { s.director with isEnabled := false } } := by
  have hsublist := Bus.unsubscribe_sublist (b := s.bus) s.holds .actionPressed .director
  refine ⟨hs.handlers, fun type ↦ ?_, by simpa using hs.count,
    fun type r hr ↦ hs.known type r ((hsublist type).subset hr), hs.upcoming, fun e he ↦ ?_,
    by simpa using hs.history⟩
  · by_cases htype : type = .actionPressed
    · subst htype
      rw [Bus.registrations_unsubscribe, if_pos rfl, directors, List.countP_filter]
      simp [Bus.isLive, holds, allowance]
    · have hlist := hs.lists type
      rw [allowance_of_ne htype] at hlist ⊢
      exact Nat.le_zero.mp (hlist ▸ directors_le (hsublist type))
  · obtain ⟨d, hd, hsame⟩ := marked_unsubscribe he
    rw [hsame]
    exact hs.marked d hd

/-! ### Deliveries -/

theorem pinned (hs : IsTended first past rest s) (type : EventType) :
    IsTended first past rest { s with bus := s.bus.pin type } := by
  rw [Bus.pin_eq]
  exact hs.of_bus rfl rfl rfl rfl (fun e he ↦ ⟨e, he, rfl⟩) hs.history

/-- A delivery is to visit what is registered, so the director once at most. -/
theorem opening (hs : IsTended first past [] s) (event : Event) :
    IsTended first past (s.bus.registrations event.type)
      { s with bus := s.bus.opening event } := by
  have hroom : directors (s.bus.registrations event.type) ≤ 1 := by
    rw [hs.lists]
    exact allowance_le_one _ _
  have hpinned := hs.pinned event.type
  exact ⟨hpinned.handlers, hpinned.lists, hpinned.count, hpinned.known,
    hs.known event.type, hpinned.marked, hpinned.history.begun event hroom⟩

theorem begin (hs : IsTended first past rest s) (event : Event) :
    IsTended first past rest { s with bus := s.bus.begin event } where
  handlers := hs.handlers
  lists := hs.lists
  count := hs.count
  known := hs.known
  upcoming := hs.upcoming
  marked d hd := by
    cases hd
    simp
  history := hs.history

theorem called (hs : IsTended first past (entry :: rest) s) :
    IsTended first past rest { s with bus := s.bus.record (.called entry) } where
  handlers := hs.handlers
  lists := hs.lists
  count := hs.count
  known := hs.known
  upcoming r hr := hs.upcoming r (List.mem_cons_of_mem entry hr)
  marked := hs.marked
  history := hs.history.called

theorem mark (hs : IsTended first past rest s) (hentry : IsKnown first entry)
    (honce : entry.oneShot.isTruthy = true) :
    IsTended first past rest { s with bus := s.bus.mark entry } where
  handlers := hs.handlers
  lists := hs.lists
  count := hs.count
  known := hs.known
  upcoming := hs.upcoming
  marked e he m hm := by
    obtain ⟨d, hd, rfl⟩ := Option.map_eq_some_iff.mp he
    rcases List.mem_append.mp hm with hm | hm
    · exact hs.marked d hd m hm
    · rw [List.mem_singleton.mp hm]
      have hguest : entry.listener ≠ .director := fun hdirector ↦ by
        simp [(hentry.director hdirector).2] at honce
      exact ⟨hguest, hentry.guest hguest⟩
  history := hs.history

/-- What is removed at the end of a delivery is not the director's registration. -/
theorem directors_left {list : List (Registration StageListener)} {d : Delivery StageListener}
    {distinct : StageListener → Bool} (hknown : ∀ r ∈ list, IsKnown first r)
    (hmarked : ∀ m ∈ d.marked, m.listener ≠ .director ∧ m.serial < first) :
    directors (Bus.left distinct d list) = directors list := by
  rw [Bus.left]
  split
  · generalize d.marked = marked at hmarked ⊢
    induction marked generalizing list with
    | nil => rfl
    | cons m marked ih =>
        have hsub : (list.eraseP (Bus.sameEntry distinct m)).Sublist list := List.eraseP_sublist
        rw [List.foldl_cons, ih (fun r hr ↦ hknown r (hsub.subset hr))
          fun x hx ↦ hmarked x (List.mem_cons_of_mem m hx)]
        obtain ⟨hguest, hserial⟩ := hmarked m List.mem_cons_self
        have hkept : ∀ r ∈ list, Bus.sameEntry distinct m r = true →
            (r.listener == .director) = false := by
          intro r hr htaken
          by_contra hdirector
          have hdirector : r.listener = .director := by simpa using hdirector
          have hlater := ((hknown r hr).director hdirector).1
          simp only [Bus.sameEntry, Bool.or_eq_true, Bool.and_eq_true, beq_iff_eq] at htaken
          rcases htaken with hsame | ⟨⟨⟨⟨-, hsame⟩, -⟩, -⟩, -⟩
          · omega
          · exact hguest (hsame.trans hdirector)
        rw [directors, directors, List.countP_eq_length_filter, List.countP_eq_length_filter,
          Bus.filter_eraseP_of_forall hkept]
  · rfl

theorem finish (hs : IsTended first past [] s) : IsTended first past [] (handling.finish s) := by
  cases hd : s.bus.current with
  | none =>
      have hsame : handling.finish s = s := by
        simp [Handling.finish, Bus.finish, hd]
      rwa [hsame]
  | some d =>
      have hsublist (type : EventType) :
          ((s.bus.finish (handling.distinct s)).registrations type).Sublist
            (s.bus.registrations type) := Bus.finish_sublist _ _
      refine ⟨hs.handlers, fun type ↦ ?_, ?_,
        fun type r hr ↦ hs.known type r ((hsublist type).subset hr), by simp, fun e he ↦ ?_, ?_⟩
      · change directors ((s.bus.finish (handling.distinct s)).registrations type) =
          allowance s.director.isEnabled type
        rw [← hs.lists type, Bus.registrations_finish hd]
        split
        · exact directors_left (hs.known type) (hs.marked d hd)
        · rfl
      · change first ≤ (s.bus.finish (handling.distinct s)).count
        rw [Bus.count_finish]
        exact hs.count
      · change (s.bus.finish (handling.distinct s)).current = some e at he
        simp [Bus.finish_eq hd] at he
      · change LeavesRoom past (s.bus.finish (handling.distinct s)).history _
        rw [Bus.finish_eq hd]
        exact hs.history.aside (isAside_ended d.fate)

end IsTended

/-! ## Acts with and without checks -/

/-- Two acts do the same to a tended stage and leave it tended, with other registrations to be
visited. -/
def Same (first : Nat) (past : List (Moment StageListener))
    (rest rest' : List (Registration StageListener)) (m m' : Act Stage α) : Prop :=
  ∀ s, IsTended first past rest s → m s = m' s ∧ IsTended first past rest' (m' s).2

namespace Same

variable {m m' : Act Stage α} {f f' : α → Act Stage β}

/-- An act that is the same whether it is watched or not, and tends the stage. -/
theorem refl (h : ∀ s, IsTended first past rest s → IsTended first past rest' (m s).2) :
    Same first past rest rest' m m := fun s hs ↦ ⟨rfl, h s hs⟩

/-- An act that is cut short leaves what is to be visited as its first part does. -/
theorem bind {left : List (Registration StageListener)} (hm : Same first past rest rest' m m')
    (hf : ∀ a, Same first past rest' left (f a) (f' a))
    (hleft : ∀ s, IsTended first past rest' s → IsTended first past left s) :
    Same first past rest left (m >>= f) (m' >>= f') := by
  intro s hs
  obtain ⟨hsame, ht⟩ := hm s hs
  rw [Act.bind_apply, Act.bind_apply, hsame]
  rcases hrun : m' s with ⟨outcome, t⟩
  rw [hrun] at ht
  cases outcome with
  | returned a => exact hf a t ht
  | failed failure => exact ⟨rfl, hleft t ht⟩
  | aborted => exact ⟨rfl, hleft t ht⟩
  | stalled => exact ⟨rfl, hleft t ht⟩

theorem attempt (hm : Same first past rest rest' m m') :
    Same first past rest rest' m.attempt m'.attempt := by
  intro s hs
  obtain ⟨hsame, ht⟩ := hm s hs
  rw [Act.attempt_apply, Act.attempt_apply, hsame]
  refine ⟨rfl, ?_⟩
  split <;> simp_all

/-- No check raises an alarm on a tended stage. -/
theorem watched (alarm : Stage → Stage) (hm : Same first past rest rest' m m') :
    Same first past rest rest' (m.watched Stage.isExact alarm) m' := by
  intro s hs
  obtain ⟨hsame, ht⟩ := hm s hs
  refine ⟨?_, ht⟩
  rw [Act.watched_apply alarm hs.isExact (by rw [hsame]; exact ht.isExact), hsame]

theorem couples : Act.Couples fun m m' ↦ Same first past rest rest m m' where
  pure _ := refl fun _ hs ↦ hs
  fail _ := refl fun _ hs ↦ hs
  read _ := refl fun _ hs ↦ hs
  bind hm hf := hm.bind hf fun _ ht ↦ ht

end Same

/-- Publications that do the same are enough for operations that do. -/
theorem pairs_same {p q : Publisher Stage}
    (hpublish : ∀ event, Same first past rest rest (p event) (q event)) :
    Pairs p q fun m m' ↦ Same first past rest rest m m' where
  acts := Same.couples
  retains hm _ := .refl fun s hs ↦ hs.retains (hm s)
  publish event _ := hpublish event
  enable speaker s hs := by
    rw [enable_apply, enable_apply]
    refine ⟨rfl, ?_⟩
    split
    · exact hs
    next henabled =>
      split
      · exact hs.listening (by simpa using henabled)
      · exact hs
  disable speaker s hs := by
    rw [disable_apply, disable_apply]
    refine ⟨rfl, ?_⟩
    split
    · exact hs.ignored
    · exact hs
  ensure hm hf s hs := by
    obtain ⟨hsame, ht⟩ := hm s hs
    rw [Act.ensure_apply, Act.ensure_apply, hsame]
    exact ⟨rfl, ht.retains (hf _)⟩
  speaker h s hs := h s.speaker s hs

/-! ### Inside a delivery -/

theorem same_updateInput (f : Input → Input) :
    Same first past rest rest (Part.update Input f : Act Stage Unit) (Part.update Input f) :=
  .refl fun _ hs ↦ hs.of_bus rfl rfl rfl rfl (fun e he ↦ ⟨e, he, rfl⟩) hs.history

theorem same_post (alarm : Stage → Stage) (event : Event) :
    Same first past rest rest (watchedPost alarm event) (Bus.post StageListener event) :=
  .watched alarm (.refl fun _ hs ↦ hs.enqueued event)

theorem same_consume : Same first past rest rest consumeCurrent consumeCurrent :=
  .refl fun _ hs ↦ hs.onCurrent fun _ ↦ rfl

theorem same_run (alarm : Stage → Stage) {program : Program StageOp} (h : program.KeepsLists) :
    Same first past rest rest
      (program.run (fun op ↦ (perform (watchedPost alarm) op).watched isExact alarm) consumeCurrent)
      (program.run (perform (Bus.post StageListener)) consumeCurrent) := by
  have hpairs : Pairs (watchedPost alarm) (Bus.post StageListener) fun m m' ↦
      Same first past rest rest m m' := pairs_same (same_post alarm)
  induction h with
  | done => exact Same.couples.pure _
  | fail => exact Same.couples.fail _
  | abort => exact .refl fun _ hs ↦ hs
  | consume _ ih => exact Same.couples.bind same_consume fun _ ↦ ih
  | note _ ih => exact Same.couples.bind (hpairs.note _) fun _ ↦ ih
  | perform hop _ ih =>
      have hperform := hpairs.perform (same_post alarm) same_updateInput hop
      exact Same.couples.bind (hperform.watched alarm).attempt ih

theorem same_called (alarm : Stage → Stage) (listener : StageListener) :
    Same first past rest rest
      (callBy (watchedPost alarm) (fun op ↦ (perform (watchedPost alarm) op).watched isExact alarm)
        listener)
      (callBy (Bus.post StageListener) (perform (Bus.post StageListener)) listener) := by
  have hpairs : Pairs (watchedPost alarm) (Bus.post StageListener) fun m m' ↦
      Same first past rest rest m m' := pairs_same (same_post alarm)
  intro s hs
  cases hd : s.bus.current with
  | none =>
      have hidle (publish : Publisher Stage) (act : StageOp → Act Stage Value) :
          callBy publish act listener s = (.returned (), s) := by
        rw [callBy, hd]
      rw [hidle, hidle]
      exact ⟨rfl, hs⟩
  | some d =>
      rw [callBy, callBy, hd]
      cases listener with
      | director =>
          refine Same.couples.bind (Same.couples.read Director) (fun director ↦ ?_) s hs
          dsimp only
          split
          · refine Same.couples.bind same_consume fun _ ↦ ?_
            exact Same.couples.bind (hpairs.advance s.speaker) fun _ ↦ Same.couples.pure _
          · exact Same.couples.pure _
      | observer => exact hpairs.note _ s hs
      | handler index =>
          dsimp only
          cases hhandler : s.handlers[index]? with
          | none => exact ⟨rfl, hs⟩
          | some handler =>
              have hprogram := hs.handlers handler (List.mem_of_getElem? hhandler)
                handler.calls d.event
              exact same_run alarm hprogram _ (hs.counting (.handler index))

theorem same_call (alarm : Stage → Stage) (listener : StageListener) :
    Same first past rest rest ((watchedHandling alarm).call listener) (call listener) := by
  rw [← callBy_post]
  exact (same_called alarm listener).watched alarm

/-! ### Deliveries -/

theorem same_callLogged (alarm : Stage → Stage) (type : EventType) :
    Same first past (entry :: rest) rest ((watchedHandling alarm).callLogged type entry)
      (handling.callLogged type entry) := by
  have hcalled : Same first past (entry :: rest) rest
      (Part.update (Bus StageListener) (Bus.record (.called entry)) : Act Stage Unit)
      (Part.update (Bus StageListener) (Bus.record (.called entry))) := .refl fun _ hs ↦ hs.called
  have hreturned (failure : Option Failure) : Same first past rest rest
      (Part.update (Bus StageListener) (Bus.record (.returned failure)) : Act Stage Unit)
      (Part.update (Bus StageListener) (Bus.record (.returned failure))) :=
    .refl fun _ hs ↦ hs.aside trivial
  refine hcalled.bind (fun _ ↦ ?_) fun _ ht ↦ ht
  refine Same.couples.bind (same_call alarm entry.listener).attempt fun answer ↦ ?_
  cases answer with
  | ok _ => exact hreturned none
  | error failure =>
      exact Same.couples.bind (.refl fun _ hs ↦ hs.retains ⟨rfl, rfl, rfl, rfl⟩)
        fun _ ↦ hreturned (some failure)

/-- Every listener on a stage is there when its turn comes. -/
theorem visit_cons (h : Handling StageListener Stage) (hheld : h.held = holds) (type : EventType)
    (rest : List (Registration StageListener)) :
    h.visit type (entry :: rest) = (do
      Part.update (Bus StageListener) (Bus.meet (some entry.listener))
      h.callLogged type entry
      if entry.oneShot.isTruthy then Part.update (Bus StageListener) (Bus.mark entry)
      if (← Part.read (Bus StageListener)).isConsumed then return ()
      h.visit type rest) := by
  funext s
  have hlive : h.isLive entry s = (.returned true, s) := by
    simp [Handling.isLive, Bus.isLive, hheld, holds]
  rw [Handling.visit, Act.bind_of_returned hlive]
  rfl

theorem same_visit (alarm : Stage → Stage) (type : EventType)
    (entries : List (Registration StageListener)) :
    Same first past entries [] ((watchedHandling alarm).visit type entries)
      (handling.visit type entries) := by
  induction entries with
  | nil => exact .refl fun _ hs ↦ hs
  | cons entry rest ih =>
      intro s hs
      have hentry := hs.upcoming entry List.mem_cons_self
      rw [visit_cons _ rfl, visit_cons _ rfl]
      have hmeet : Same first past (entry :: rest) (entry :: rest)
          (Part.update (Bus StageListener) (Bus.meet (some entry.listener)) : Act Stage Unit)
          (Part.update (Bus StageListener) (Bus.meet (some entry.listener))) :=
        .refl fun _ hs ↦ hs.onCurrent fun _ ↦ rfl
      have hmark (honce : entry.oneShot.isTruthy = true) : Same first past rest rest
          (Part.update (Bus StageListener) (Bus.mark entry) : Act Stage Unit)
          (Part.update (Bus StageListener) (Bus.mark entry)) :=
        .refl fun _ hs ↦ hs.mark hentry honce
      have hnext : Same first past rest []
          (do
            if (← Part.read (Bus StageListener)).isConsumed then return ()
            (watchedHandling alarm).visit type rest)
          (do
            if (← Part.read (Bus StageListener)).isConsumed then return ()
            handling.visit type rest) := by
        refine (Same.couples.read (Bus StageListener)).bind (fun bus ↦ ?_) fun _ ht ↦ ht.nil
        split
        · exact .refl fun _ ht ↦ ht.nil
        · exact ih
      refine hmeet.bind (fun _ ↦ ?_) (fun _ ht ↦ ht.nil) s hs
      refine (same_callLogged alarm type).bind (fun _ ↦ ?_) fun _ ht ↦ ht.nil
      split
      next honce => exact (hmark honce).bind (fun _ ↦ hnext) fun _ ht ↦ ht.nil
      next => exact hnext

/-- Visit those who listen to an event; the answer is the event afterwards. -/
def visitAll (h : Handling StageListener Stage) (event : Event)
    (entries : List (Registration StageListener)) : Act Stage Event := do
  h.visit event.type entries
  return (((← Part.read (Bus StageListener)).current.map (·.event)).getD event)

theorem deliver_of_heard (h : Handling StageListener Stage) {event : Event}
    (hentries : (s.bus.opening event).registrations event.type = entry :: rest) :
    h.deliver event s = (visitAll h event (entry :: rest)).ensure h.finish
      { s with bus := (s.bus.opening event).begin event } := by
  have hlist : ((Part.get (Part.set (((Part.get s : Bus StageListener).pin event.type).record
      (.begun event)) s) : Bus StageListener).registrations event.type) = entry :: rest := hentries
  simp only [Handling.deliver, Act.bind_apply, Part.update_apply, Part.read_apply, hlist]
  rfl

theorem same_deliver (alarm : Stage → Stage) (event : Event) :
    Same first past [] [] ((watchedHandling alarm).deliver event) (handling.deliver event) := by
  intro s hs
  have hopen := hs.opening event
  have hlist := s.bus.registrations_opening event event.type
  cases hentries : (s.bus.opening event).registrations event.type with
  | nil =>
      rw [Handling.deliver_of_nil (s := s) hentries, Handling.deliver_of_nil (s := s) hentries]
      exact ⟨rfl, hopen.nil.aside (isAside_ended .kept)⟩
  | cons entry rest =>
      have hvisited : Same first past (entry :: rest) []
          (visitAll (watchedHandling alarm) event (entry :: rest))
          (visitAll handling event (entry :: rest)) :=
        (same_visit alarm event.type _).bind
          (fun _ ↦ Same.couples.bind (Same.couples.read (Bus StageListener)) fun bus ↦
            Same.couples.pure ((bus.current.map (·.event)).getD event))
          fun _ ht ↦ ht
      rw [← hlist, hentries] at hopen
      obtain ⟨hsame, ht⟩ := hvisited _ (hopen.begin event)
      rw [deliver_of_heard _ hentries, deliver_of_heard _ hentries, Act.ensure_apply,
        Act.ensure_apply, hsame]
      exact ⟨rfl, ht.finish⟩

theorem same_drain (alarm : Stage → Stage) (fuel : Nat) :
    Same first past [] [] ((watchedHandling alarm).drain fuel) (handling.drain fuel) := by
  induction fuel with
  | zero =>
      refine Same.couples.bind (Same.couples.read (Bus StageListener)) fun bus ↦ ?_
      split
      · exact Same.couples.pure _
      · exact .refl fun _ hs ↦ hs
  | succ fuel ih =>
      refine Same.couples.bind (Same.couples.read (Bus StageListener)) fun bus ↦ ?_
      split
      · exact Same.couples.pure _
      next event rest _ =>
        have htaken : Same first past [] []
            (Part.update (Bus StageListener) (fun bus ↦ { bus with queue := rest }) :
              Act Stage Unit)
            (Part.update (Bus StageListener) fun bus ↦ { bus with queue := rest }) :=
          .refl fun _ hs ↦ hs.of_bus rfl rfl rfl rfl (fun e he ↦ ⟨e, he, rfl⟩) hs.history
        exact Same.couples.bind htaken fun _ ↦
          Same.couples.bind (same_deliver alarm event) fun _ ↦ ih

/-! ## From outside -/

theorem same_publish (alarm : Stage → Stage) (fuel : Nat) (event : Event) :
    Same first past [] [] (watchedPublish alarm fuel event) (handling.publish fuel event) := by
  refine .watched alarm fun s hs ↦ ?_
  have hpublished : Same first past [] []
      (Part.update (Bus StageListener) (Bus.record (.published event)) : Act Stage Unit)
      (Part.update (Bus StageListener) (Bus.record (.published event))) :=
    .refl fun _ hs ↦ hs.aside (isAside_published event)
  have hdelivered := Same.couples.bind hpublished fun _ ↦
    Same.couples.bind (same_deliver alarm event) fun event ↦
      Same.couples.bind (same_drain alarm fuel) fun _ ↦ Same.couples.pure event
  obtain ⟨hsame, ht⟩ := hdelivered s hs
  rw [Handling.publish, Handling.publish, Act.ensure_apply, Act.ensure_apply, hsame]
  exact ⟨rfl, ht.of_bus rfl rfl rfl rfl (fun e he ↦ ⟨e, he, rfl⟩) ht.history⟩

theorem same_operate (alarm : Stage → Stage) (fuel : Nat) {op : StageOp} (hop : op.KeepsLists) :
    Same first past [] [] (watchedOperate alarm fuel op) (operate fuel op) :=
  .watched alarm
    ((pairs_same (same_publish alarm fuel)).perform (same_publish alarm fuel) same_updateInput hop)

/-- A stage on which nothing is under way and the director has not yet listened. -/
structure IsFresh (s : Stage) : Prop where
  handlers : ∀ handler ∈ s.handlers, ∀ call event, (handler.behaviour call event).KeepsLists
  isEnabled : s.director.isEnabled = false
  guests : ∀ type, ∀ r ∈ s.bus.registrations type, r.listener ≠ .director ∧ r.serial < s.bus.count
  idle : s.bus.current = none

theorem IsFresh.isTended (hs : s.IsFresh) : IsTended s.bus.count s.bus.history [] s where
  handlers := hs.handlers
  lists type := by
    rw [hs.isEnabled, allowance, if_neg (by simp), directors, List.countP_eq_zero]
    exact fun r hr ↦ by simpa using (hs.guests type r hr).1
  count := Nat.le_refl _
  known type r hr :=
    ⟨fun hdirector ↦ absurd hdirector (hs.guests type r hr).1, fun _ ↦ (hs.guests type r hr).2⟩
  upcoming := by simp
  marked := by simp [hs.idle]
  history := .start _

theorem IsTended.performAll (alarm : Stage → Stage) (fuel : Nat) (hs : IsTended first past [] s)
    {ops : List StageOp} (hops : ∀ op ∈ ops, op.KeepsLists) :
    watchedAll alarm fuel ops s = performAll fuel ops s ∧
      IsTended first past [] (performAll fuel ops s).2 := by
  induction ops generalizing s with
  | nil => exact ⟨rfl, hs⟩
  | cons op ops ih =>
      obtain ⟨hsame, ht⟩ := same_operate alarm fuel (hops op List.mem_cons_self) s hs
      rw [watchedAll, Stage.performAll, hsame]
      rcases hop : operate fuel op s with ⟨outcome, t⟩
      rw [hop] at ht
      obtain ⟨hrest, hu⟩ := ih (s := t) ht fun op hmem ↦ hops op (List.mem_cons_of_mem _ hmem)
      cases outcome with
      | stalled => exact ⟨rfl, ht⟩
      | _ =>
          dsimp only
          rw [hrest]
          exact ⟨rfl, hu⟩

/-- The director is registered for pressed actions once while it listens, and else not at all: over
any run that nobody clears a list in, no check raises an alarm, before or after any operation, from
outside or by a handler, any publication and any call of a listener.  And no delivery calls the
director more than once. -/
theorem performAll_listens_exactly (alarm : Stage → Stage) (fuel : Nat) (hs : s.IsFresh)
    {ops : List StageOp} (hops : ∀ op ∈ ops, op.KeepsLists) :
    watchedAll alarm fuel ops s = performAll fuel ops s ∧
      (performAll fuel ops s).2.isExact = true ∧
      ∃ moments, (performAll fuel ops s).2.bus.history = s.bus.history ++ moments ∧
        ∀ seen, seen <+: moments → hearings seen ≤ 1 := by
  obtain ⟨hsame, ht⟩ := hs.isTended.performAll alarm fuel hops
  obtain ⟨moments, hhistory, hseen, -⟩ := ht.history
  exact ⟨hsame, ht.isExact, moments, hhistory, hseen⟩

/-- Have the director stop listening and listen again, twice, begin the dialogue anew, and fail. -/
def fidget : Program StageOp :=
  .perform .disable fun _ ↦ .perform .enable fun _ ↦ .perform .enable fun _ ↦ .perform gate fun _ ↦
    .fail (.alarm "boom")

/-- A stage with a handler that hears of presses before the director does. -/
def fidgety : Stage where
  bus := {
    lists := [(.actionPressed, [⟨.int 10, .handler 0, .bool false, false, 0⟩])]
    count := 1 }
  handlers := [{ behaviour := fun _ _ ↦ fidget }]

theorem isFresh_fidgety : fidgety.IsFresh where
  handlers := by
    intro handler hmem call event
    rw [List.mem_singleton.mp hmem]
    exact .perform nofun fun _ ↦ .perform nofun fun _ ↦ .perform nofun fun _ ↦ .perform nofun
      fun _ ↦ .fail
  isEnabled := rfl
  guests type := by cases type <;> decide
  idle := rfl

def fidgets : List StageOp := [gate, .publish (Input.actionEvent .actionPressed .confirm), .enable]

/-- A press in the course of which the director is registered anew is heard once, by the
registration that was there when it came. -/
theorem performAll_listens_exactly_of_fidgets :
    ∃ outcomes t, performAll 9 fidgets fidgety = (outcomes, t) ∧
      watchedAll (fun _ ↦ {}) 9 fidgets fidgety = (outcomes, t) ∧ t.isExact = true ∧
      (∃ moments, t.bus.history = fidgety.bus.history ++ moments ∧
        ∀ seen, seen <+: moments → hearings seen ≤ 1) ∧
      t.director.isEnabled = true ∧ t.bus.registrations .actionPressed =
        [⟨.int 10, .handler 0, .bool false, false, 0⟩,
          ⟨.int 0, .director, .bool false, true, 2⟩] := by
  have hops : ∀ op ∈ fidgets, op.KeepsLists := by
    intro op hop
    simp only [fidgets, List.mem_cons, List.not_mem_nil, or_false] at hop
    rcases hop with rfl | rfl | rfl <;> exact nofun
  have henabled : (performAll 9 fidgets fidgety).2.director.isEnabled = true := by decide +kernel
  have hlist : (performAll 9 fidgets fidgety).2.bus.registrations .actionPressed =
      [⟨.int 10, .handler 0, .bool false, false, 0⟩,
        ⟨.int 0, .director, .bool false, true, 2⟩] := by decide +kernel
  obtain ⟨hsame, hexact, hheard⟩ := performAll_listens_exactly (fun _ ↦ {}) 9 isFresh_fidgety hops
  rcases hrun : performAll 9 fidgets fidgety with ⟨outcomes, t⟩
  rw [hrun] at hsame hexact hheard henabled hlist
  exact ⟨outcomes, t, rfl, hsame, hexact, hheard, henabled, hlist⟩

end Stage

end LinearDialogue
