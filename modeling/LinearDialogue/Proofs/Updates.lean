import LinearDialogue.Proofs.Onlookers

/-!
# Updates

An update announces the actions that are pressed and were not at the last update, and then those
that were and are not any more, the actions of either kind in any order.  On a stage with onlookers
the director takes one step in an update in which the action that it wants is announced as pressed
while it listens, and no step in any other.
-/

namespace LinearDialogue

namespace ActionSet

theorem mem_toList {set : ActionSet} {a : Action} : a ∈ set.toList ↔ set a = true := by
  rw [toList, List.mem_filter]
  refine and_iff_right ?_
  cases a <;> decide

theorem nodup_toList (set : ActionSet) : set.toList.Nodup :=
  List.Nodup.filter _ (by decide)

/-- Actions of sets are listed in some order. -/
def IsArrangement (arrange : ActionSet → List Action) : Prop :=
  ∀ set, (arrange set).Perm set.toList

variable {arrange : ActionSet → List Action}

theorem IsArrangement.mem (h : IsArrangement arrange) {set : ActionSet} {a : Action} :
    a ∈ arrange set ↔ set a = true := (h set).mem_iff.trans mem_toList

theorem IsArrangement.nodup (h : IsArrangement arrange) (set : ActionSet) : (arrange set).Nodup :=
  (h set).nodup_iff.mpr set.nodup_toList

theorem isArrangement_toList : IsArrangement toList := fun _ ↦ .refl _

end ActionSet

namespace Input

/-- An update that announces actions in the order of an arrangement. -/
def updateBy {σ : Type} [Part Input σ] (arrange : ActionSet → List Action) (publish : Publisher σ) :
    Act σ Unit := do
  Part.update Input compare
  announce publish .actionPressed (arrange (← Part.read Input).justPressed)
  announce publish .actionReleased (arrange (← Part.read Input).justReleased)
  Part.update Input fun input => { input with previous := input.pressed }

/-- The update of the program is the one in the order in which a set lists its actions. -/
theorem update_eq_updateBy {σ : Type} [Part Input σ] (publish : Publisher σ) :
    update publish = updateBy ActionSet.toList publish := rfl

@[simp] theorem get_actionEvent (type : EventType) (a : Action) :
    (actionEvent type a).get "action" = .action a := rfl

end Input

/-- An event that tells that an action has been pressed or released. -/
def Event.isEdgeOf (event : Event) (a : Action) : Bool :=
  (event.type == .actionPressed || event.type == .actionReleased) &&
    event.get "action" == .action a

/-- How an action has been pressed and released, according to some events. -/
def edgesOf (a : Action) (events : List Event) : List EventType :=
  (events.filter fun e ↦ e.isEdgeOf a).map (·.type)

/-- An action is pressed, released, pressed again, and so on. -/
def alternation (n : Nat) : List EventType :=
  (List.range n).map fun i ↦ if i % 2 = 0 then .actionPressed else .actionReleased

/-- The calls of the director in a publication that tell of the action it wants.  It takes a step in
each of them. -/
def Publication.advances (wanted : Action) (publication : Publication StageListener) :
    List (Call StageListener) :=
  publication.rounds.flatMap fun round ↦ round.calls.filter fun call ↦
    call.entry.listener == .director && round.event.get "action" == .action wanted

theorem edgesOf_append (a : Action) (events others : List Event) :
    edgesOf a (events ++ others) = edgesOf a events ++ edgesOf a others := by
  rw [edgesOf, List.filter_append, List.map_append]
  rfl

theorem edgesOf_eq_nil (a : Action) {events : List Event} (h : ∀ e ∈ events, ¬e.type.IsInput) :
    edgesOf a events = [] := by
  rw [edgesOf, List.map_eq_nil_iff, List.filter_eq_nil_iff]
  intro e he hedge
  apply h e he
  cases htype : e.type <;> simp_all [Event.isEdgeOf, EventType.IsInput]

theorem alternation_succ (n : Nat) : alternation (n + 1) =
    alternation n ++ [if n % 2 = 0 then .actionPressed else .actionReleased] := by
  rw [alternation, List.range_succ, List.map_append]
  rfl

theorem edgesOf_announcement {type : EventType} {actions : List Action}
    (htype : type = .actionPressed ∨ type = .actionReleased) (hnodup : actions.Nodup) (a : Action) :
    edgesOf a (actions.map (Input.actionEvent type)) = if a ∈ actions then [type] else [] := by
  have hedge (b : Action) : (Input.actionEvent type b).isEdgeOf a = decide (b = a) := by
    rw [Event.isEdgeOf, Input.get_actionEvent, Bool.eq_iff_iff]
    rcases htype with rfl | rfl <;> simp [Input.actionEvent]
  rw [edgesOf, List.filter_map, List.map_map]
  simp only [Function.comp_def, hedge]
  rw [List.filter_eq, hnodup.count]
  split <;> rfl

/-- By some events an action has been pressed and released in turn, beginning with a press, and is
pressed in the end or not. -/
def Alternates (a : Action) (isPressed : Bool) (events : List Event) : Prop :=
  ∃ n, edgesOf a events = alternation n ∧ (n % 2 = 1 ↔ isPressed = true)

theorem Alternates.update {a : Action} {last now : Bool} {events others : List Event}
    (h : Alternates a last events)
    (hedges : edgesOf a others = edgesOf a events ++
      ((if (now && !last) = true then [.actionPressed] else []) ++
        if (last && !now) = true then [.actionReleased] else [])) : Alternates a now others := by
  obtain ⟨n, hn, hodd⟩ := h
  rw [hn] at hedges
  cases last with
  | false =>
      have heven : n % 2 = 0 := by simpa using hodd
      cases now with
      | false => exact ⟨n, by simpa using hedges, by simp [heven]⟩
      | true => exact ⟨n + 1, by simpa [alternation_succ, heven] using hedges, by simp; omega⟩
  | true =>
      have hpressed : n % 2 = 1 := hodd.mpr rfl
      cases now with
      | false => exact ⟨n + 1, by simpa [alternation_succ, hpressed] using hedges, by simp; omega⟩
      | true => exact ⟨n, by simpa using hedges, by simp [hpressed]⟩

namespace Stage

variable {first : Director} {count : Nat} {past : List (Moment StageListener)} {wanted : Action}
  {type : EventType} {a : Action} {actions : List Action} {fuel : Nat} {s t u : Stage}

/-- What is known of a stage with onlookers between two operations. -/
structure IsAttentive (first : Director) (count : Nat) (past : List (Moment StageListener))
    (s : Stage) : Prop where
  onlooked : s.IsOnlooked
  told : ∃ dialogues, s.HasTold first dialogues
  tended : IsTended count past [] s

theorem IsAttentive.wanted_eq (hs : s.IsAttentive first count past) :
    s.director.settings.advanceAction = first.settings.advanceAction := by
  obtain ⟨dialogues, htold⟩ := hs.told
  rw [htold.agrees.settings]

/-! ## The announcement of an action -/

/-- How many steps the director takes when it is announced that some actions have been pressed or
released. -/
def stepsFor (wanted : Action) (type : EventType) (actions : List Action) (s : Stage) : Nat :=
  if type = .actionPressed ∧ wanted ∈ actions ∧ s.director.isEnabled = true then 1 else 0

/-- The director and the playback are as they were, or have taken one step. -/
def MovesAtMostOnce (s t : Stage) : Prop :=
  t.director = s.director ∧ t.playback = s.playback ∨
    ∃ outcome es, Steps s.director s.playback outcome es t.director t.playback

/-- Some actions have been announced, one after another, as pressed or as released. -/
structure Announces (wanted : Action) (type : EventType) (actions : List Action)
    (publications : List (Publication StageListener)) (s t : Stage) : Prop where
  input : t.input = s.input
  events : publications.map (·.first.event) = actions.map (Input.actionEvent type)
  history : t.bus.history = s.bus.history ++ publications.flatMap (·.moments)
  edges : ∀ a, edgesOf a t.bus.announced =
    edgesOf a s.bus.announced ++ edgesOf a (actions.map (Input.actionEvent type))
  advances : (publications.flatMap (·.advances wanted)).length = s.stepsFor wanted type actions
  isStep : ∀ call ∈ publications.flatMap (·.advances wanted), call.IsStep
  moves : s.MovesAtMostOnce t
  quiet : s.stepsFor wanted type actions = 0 → t.director = s.director ∧ t.playback = s.playback

theorem isWired_of_isAttentive (hs : s.IsAttentive first count past) :
    s.IsWired (fun _ ↦ True) StageOp.IsExternal [] where
  guests handler hmem call event := (hs.onlooked handler hmem call event).isGuest
  lists type := (hs.tended.lists type).le
  rest _ _ := Nat.zero_le _
  priorities _ _ := trivial

/-- The director is left as it is when it does not hear of an event, or wants another action. -/
theorem isKept_unheard (event : Event) (d : Director) (p : Playback) :
    IsKept event fun n _ d' p' ↦
      (n = 0 ∨ event.get "action" ≠ .action d.settings.advanceAction) ∧ d' = d ∧ p' = p where
  fewer := by
    rintro n told d' p' ⟨hn | hother, hsame⟩
    · cases hn
    · exact ⟨.inr hother, hsame⟩
  step := by
    rintro told es voices d' e p' q outcome ⟨hn | hother, rfl, rfl⟩ hpress
    · cases hn
    · exact absurd hpress hother

/-- The director takes at most one step when it hears of an event. -/
theorem isKept_once (event : Event) (d : Director) (p : Playback) :
    IsKept event fun n _ d' p' ↦
      d' = d ∧ p' = p ∨ n = 0 ∧ ∃ outcome es, Steps d p outcome es d' p' where
  fewer := by
    rintro n told d' p' (hsame | ⟨hn, -⟩)
    · exact .inl hsame
    · cases hn
  step := by
    rintro told es voices d' e p' q outcome (⟨rfl, rfl⟩ | ⟨hn, -⟩) - - hsteps
    · exact .inr ⟨rfl, outcome, es, hsteps⟩
    · cases hn

theorem movesAtMostOnce_publish (hs : s.IsAttentive first count past) (hfuel : 4 ≤ fuel)
    (event : Event) : s.MovesAtMostOnce (handling.publish fuel event s).2 := by
  obtain ⟨dialogues, htold⟩ := hs.told
  obtain ⟨e, t, hrun, ht, -⟩ := exists_publish (isKept_once event s.director s.playback) fuel
    (fun _ ↦ hfuel) htold.calm.queue htold.calm.current htold.calm.wired (.inl ⟨rfl, rfl⟩)
  rw [hrun]
  exact ht.course.imp_right And.right

theorem unheard_publish (hs : s.IsAttentive first count past) (hfuel : 4 ≤ fuel)
    (type : EventType) (a : Action)
    (hsteps : s.stepsFor first.settings.advanceAction type [a] = 0) :
    (handling.publish fuel (Input.actionEvent type a) s).2.director = s.director ∧
      (handling.publish fuel (Input.actionEvent type a) s).2.playback = s.playback := by
  obtain ⟨dialogues, htold⟩ := hs.told
  have hunheard : directors (s.bus.registrations type) = 0 ∨
      (Input.actionEvent type a).get "action" ≠ .action s.director.settings.advanceAction := by
    rw [hs.tended.lists, allowance, Input.get_actionEvent, hs.wanted_eq]
    rw [stepsFor] at hsteps
    by_cases hwanted : a = first.settings.advanceAction <;> simp_all
  obtain ⟨e, t, hrun, ht, -⟩ := exists_publish
    (isKept_unheard (Input.actionEvent type a) s.director s.playback) fuel (fun _ ↦ hfuel)
    htold.calm.queue htold.calm.current htold.calm.wired ⟨hunheard, rfl, rfl⟩
  rw [hrun]
  exact ht.course.2

section Publication

variable {publication : Publication StageListener}

/-- No round but the first calls the director. -/
def SparesDirector (publication : Publication StageListener) : Prop :=
  ∀ round ∈ publication.later, ∀ call ∈ round.calls, call.entry.listener ≠ .director

theorem advances_of_sparesDirector (h : SparesDirector publication)
    (hfirst : publication.first.event = Input.actionEvent type a) :
    publication.advances wanted = publication.first.calls.filter fun call ↦
      call.entry.listener == .director && Payload.action a == .action wanted := by
  have hrest : (publication.later.flatMap fun round ↦ round.calls.filter fun call ↦
      call.entry.listener == .director && round.event.get "action" == .action wanted) = [] := by
    rw [List.flatMap_eq_nil_iff]
    intro round hround
    rw [List.filter_eq_nil_iff]
    intro call hcall
    simp [h round hround call hcall]
  rw [Publication.advances, Publication.rounds, List.flatMap_cons, hrest, List.append_nil, hfirst]
  rfl

theorem directors_of_sparesDirector (h : SparesDirector publication) :
    directors (publication.rounds.flatMap fun round ↦ round.calls.map Call.entry) =
      directors (publication.first.calls.map Call.entry) := by
  have hrest :
      directors (publication.later.flatMap fun round ↦ round.calls.map Call.entry) = 0 := by
    simp only [directors, List.countP_eq_zero, List.mem_flatMap, List.mem_map]
    rintro entry ⟨round, hround, call, hcall, rfl⟩
    simpa using h round hround call hcall
  rw [Publication.rounds, List.flatMap_cons, directors, List.countP_append]
  exact Nat.add_eq_left.mpr hrest

theorem length_advances (h : SparesDirector publication)
    (hfirst : publication.first.event = Input.actionEvent type wanted) :
    (publication.advances wanted).length = directors (publication.first.calls.map Call.entry) := by
  rw [advances_of_sparesDirector h hfirst, directors, List.countP_map, List.countP_eq_length_filter]
  simp [Function.comp_def]

theorem stepsFor_singleton (hs : s.IsAttentive first count past) :
    s.stepsFor wanted type [a] =
      if a = wanted then directors (s.bus.registrations type) else 0 := by
  rw [hs.tended.lists, stepsFor, allowance]
  by_cases hwanted : a = wanted
  · rw [if_pos hwanted, hwanted]
    simp
  · rw [if_neg hwanted, if_neg]
    rintro ⟨-, hmem, -⟩
    exact hwanted (List.mem_singleton.mp hmem).symm

/-- When an action is announced the director is called as often as it is on the list, if the action
is the one that it wants. -/
theorem length_advances_of_publishes (hs : s.IsAttentive first count past)
    (hpublishes : Bus.Publishes (fun _ ↦ False) s.bus publication t.bus)
    (hfirst : publication.first.event = Input.actionEvent type a)
    (hspares : SparesDirector publication)
    (hcalled : 0 < directors (s.bus.registrations type) →
      0 < directors (publication.rounds.flatMap fun round ↦ round.calls.map Call.entry)) :
    (publication.advances wanted).length = s.stepsFor wanted type [a] := by
  rw [stepsFor_singleton hs]
  by_cases hwanted : a = wanted
  · subst hwanted
    have hatmost : directors (publication.first.calls.map Call.entry) ≤
        directors (s.bus.registrations type) := by
      obtain ⟨c, -, hdelivers, -⟩ := hpublishes
      have hsublist := hdelivers.sublist
      rw [hfirst] at hsublist
      exact directors_le hsublist
    have hone : directors (s.bus.registrations type) ≤ 1 :=
      (hs.tended.lists type).le.trans (allowance_le_one _ _)
    rw [directors_of_sparesDirector hspares] at hcalled
    rw [length_advances hspares hfirst, if_pos rfl]
    omega
  · rw [advances_of_sparesDirector hspares hfirst, if_neg hwanted]
    simp [hwanted]

theorem isStep_of_heeds (hfirst : publication.first.event = Input.actionEvent type a)
    (hspares : SparesDirector publication)
    (hheeds : ∀ call ∈ publication.first.calls, call.entry.listener = .director →
      call.Heeds wanted false publication.first.event) :
    ∀ call ∈ publication.advances wanted, call.IsStep := by
  intro call hcall
  rw [advances_of_sparesDirector hspares hfirst, List.mem_filter, Bool.and_eq_true, beq_iff_eq,
    beq_iff_eq] at hcall
  obtain ⟨hmem, hdirector, hwanted⟩ := hcall
  refine (hheeds call hmem hdirector).press ?_
  rw [hfirst]
  exact hwanted

/-- What a publication posts is not about the input devices, so only its first round is a press. -/
theorem sparesDirector_of_publishes {es : List Event} (hs : s.IsAttentive first count past)
    (hpublishes : Bus.Publishes (fun _ ↦ False) s.bus publication t.bus) (hqueue : t.bus.queue = [])
    (hannounced : t.bus.announced = s.bus.announced ++ publication.first.event :: es)
    (hothers : ∀ e ∈ es, ¬e.type.IsInput)
    (hheeds : ∀ round ∈ publication.rounds, ∀ call ∈ round.calls, call.entry.listener = .director →
      call.Heeds wanted false round.event) : SparesDirector publication := by
  obtain ⟨dialogues, htold⟩ := hs.told
  have hlater := hpublishes.later_eq htold.calm.queue hqueue hannounced
  intro round hround call hcall hdirector
  apply hothers round.event (hlater ▸ List.mem_map_of_mem hround)
  rw [(hheeds round (List.mem_cons_of_mem _ hround) call hcall hdirector).type]
  trivial

theorem called_of_publishes (hs : s.IsAttentive first count past) {event : Event}
    (hfresh : event.isConsumed = false) {outcome : Outcome Event}
    (hrun : handling.publish fuel event s = (outcome, t))
    (hpublishes : Bus.Publishes (fun _ ↦ False) s.bus publication t.bus)
    (hlisted : 0 < directors (s.bus.registrations event.type)) :
    0 < directors (publication.rounds.flatMap fun round ↦ round.calls.map Call.entry) := by
  obtain ⟨dialogues, htold⟩ := hs.told
  have hhosted := (isWired_of_isAttentive hs).record (.published event)
  obtain ⟨called, hcalled, hdirector⟩ := exists_called_director
    (hosting_obeys first.settings.advanceAction false) fuel trivial
    ⟨hhosted, htold.course.outside, hs.wanted_eq⟩ hs.onlooked hfresh hlisted
  have hmoments := Bus.called_of_history hpublishes.history
  rw [hrun] at hcalled
  rw [Publication.filterMap_called?] at hmoments
  rwa [List.append_cancel_left (hmoments.symm.trans hcalled)]

end Publication

/-- An action is announced. -/
theorem exists_announced (hs : s.IsAttentive first count past) (hfuel : 4 ≤ fuel)
    (htype : type = .actionPressed ∨ type = .actionReleased) (a : Action) :
    ∃ e t publication, handling.publish fuel (Input.actionEvent type a) s = (.returned e, t) ∧
      t.IsAttentive first count past ∧
      Announces first.settings.advanceAction type [a] [publication] s t := by
  obtain ⟨dialogues, htold⟩ := hs.told
  have hplain : (Input.actionEvent type a).type.isOfDialogue = false := by
    rcases htype with rfl | rfl <;> rfl
  obtain ⟨e, t, hrun, ht, hqueue, hcurrent⟩ := exists_publish
    (isKept_told (Input.actionEvent type a) first dialogues) fuel (fun _ ↦ hfuel)
    htold.calm.queue htold.calm.current htold.calm.wired
    ⟨htold.agrees, dialogues, htold.course.other hplain, .inl rfl⟩
  -- The same run, as its rounds tell it, and as the guests and the devices see it.
  have hhosted := (isWired_of_isAttentive hs).record (.published (Input.actionEvent type a))
  obtain ⟨publication, outcome, t', hrun', hfirst, hpublishes, -, hheeds, -⟩ :=
    (hosting_obeys first.settings.advanceAction false).publish (s := s) fuel
      (show (fun _ : Event ↦ True) (Input.actionEvent type a) from trivial)
      ⟨hhosted, htold.course.outside, hs.wanted_eq⟩
  obtain rfl : t = t' := congrArg Prod.snd (hrun.symm.trans hrun')
  have htended := (same_publish id fuel (Input.actionEvent type a) s hs.tended).2
  have hmoves := movesAtMostOnce_publish hs hfuel (Input.actionEvent type a)
  have hquiet := unheard_publish hs hfuel type a
  obtain ⟨honlooked, hinput, es, hannounced, hothers⟩ :=
    spares_publication fuel (Input.actionEvent type a) s hs.onlooked
  rw [hrun] at htended hmoves hquiet honlooked hinput hannounced
  have hannounced : t.bus.announced = s.bus.announced ++ Input.actionEvent type a :: es := by
    rw [hannounced, Bus.announced_published, List.append_assoc]
    rfl
  have hspares :=
    sparesDirector_of_publishes hs hpublishes hqueue (hfirst ▸ hannounced) hothers hheeds
  have hcalled := called_of_publishes hs rfl hrun hpublishes
  refine ⟨e, t, publication, hrun, ⟨honlooked, ?_, htended⟩, hinput, ?_, ?_, fun b ↦ ?_, ?_, ?_,
    hmoves, hquiet⟩
  · obtain ⟨hagrees, dialogues', hcourse, -⟩ := ht.course
    exact ⟨dialogues', ⟨ht.wired, hqueue, hcurrent⟩, hagrees, hcourse⟩
  · simp [hfirst]
  · rw [List.flatMap_singleton]
    exact hpublishes.history
  · rw [hannounced, List.append_cons, edgesOf_append, edgesOf_append, edgesOf_eq_nil b hothers,
      List.append_nil]
    rfl
  · rw [List.flatMap_singleton]
    exact length_advances_of_publishes hs hpublishes hfirst hspares hcalled
  · rw [List.flatMap_singleton]
    exact isStep_of_heeds hfirst hspares (hheeds _ List.mem_cons_self)

/-! ## Updates -/

theorem Announces.nil (wanted : Action) (type : EventType) (s : Stage) :
    Announces wanted type [] [] s s where
  input := rfl
  events := rfl
  history := by simp
  edges _ := (List.append_nil _).symm
  advances := by simp [stepsFor]
  isStep := by simp
  moves := .inl ⟨rfl, rfl⟩
  quiet _ := ⟨rfl, rfl⟩

theorem stepsFor_le_one (wanted : Action) (type : EventType) (actions : List Action) (s : Stage) :
    s.stepsFor wanted type actions ≤ 1 := by
  rw [stepsFor]
  split <;> omega

theorem MovesAtMostOnce.of_same (h : t.MovesAtMostOnce u) (hdirector : t.director = s.director)
    (hplayback : t.playback = s.playback) : s.MovesAtMostOnce u := by
  rwa [MovesAtMostOnce, ← hdirector, ← hplayback]

theorem MovesAtMostOnce.of_quiet (h : s.MovesAtMostOnce t)
    (hsame : u.director = t.director ∧ u.playback = t.playback) : s.MovesAtMostOnce u := by
  rwa [MovesAtMostOnce, hsame.1, hsame.2]

theorem stepsFor_cons (hnew : a ∉ actions)
    (hquiet : s.stepsFor wanted type [a] = 0 → t.director = s.director) :
    s.stepsFor wanted type (a :: actions) =
      s.stepsFor wanted type [a] + t.stepsFor wanted type actions := by
  by_cases hfirst : type = .actionPressed ∧ wanted ∈ [a] ∧ s.director.isEnabled = true
  -- The step is taken for the first action, which is not announced again.
  · obtain ⟨rfl, hmem, henabled⟩ := hfirst
    obtain rfl := List.mem_singleton.mp hmem
    simp [stepsFor, henabled, hnew]
  · have hnone : s.stepsFor wanted type [a] = 0 := if_neg hfirst
    rw [hnone, stepsFor, stepsFor, hquiet hnone, Nat.zero_add]
    refine if_congr ?_ rfl rfl
    rw [List.mem_cons]
    rw [List.mem_singleton] at hfirst
    tauto

theorem Announces.cons {publication : Publication StageListener}
    {publications : List (Publication StageListener)}
    (hfirst : Announces wanted type [a] [publication] s t)
    (hrest : Announces wanted type actions publications t u) (hnew : a ∉ actions) :
    Announces wanted type (a :: actions) (publication :: publications) s u := by
  have hsteps := stepsFor_cons hnew fun hnone ↦ (hfirst.quiet hnone).1
  have hcalls : (publication :: publications).flatMap (·.advances wanted) =
      [publication].flatMap (·.advances wanted) ++ publications.flatMap (·.advances wanted) := by
    rw [← List.flatMap_append, List.singleton_append]
  refine ⟨hrest.input.trans hfirst.input, ?_, ?_, fun b ↦ ?_, ?_, fun call hcall ↦ ?_, ?_,
    fun hnone ↦ ?_⟩
  · rw [List.map_cons, List.map_cons, hrest.events]
    exact congrArg (· :: _) (List.cons.inj hfirst.events).1
  · rw [hrest.history, hfirst.history, List.append_assoc, ← List.flatMap_append,
      List.singleton_append]
  · rw [hrest.edges, hfirst.edges, List.append_assoc, ← edgesOf_append]
    rfl
  · rw [hcalls, List.length_append, hfirst.advances, hrest.advances, hsteps]
  · rw [hcalls, List.mem_append] at hcall
    exact hcall.elim (hfirst.isStep call) (hrest.isStep call)
  · -- Whichever part has the director move, the other one leaves it alone.
    have honce := stepsFor_le_one wanted type (a :: actions) s
    by_cases hnone : s.stepsFor wanted type [a] = 0
    · exact (hfirst.quiet hnone).elim hrest.moves.of_same
    · exact hfirst.moves.of_quiet (hrest.quiet (by omega))
  · rw [hsteps, Nat.add_eq_zero_iff] at hnone
    obtain ⟨hdirector, hplayback⟩ := hfirst.quiet hnone.1
    obtain ⟨hlater, hlast⟩ := hrest.quiet hnone.2
    exact ⟨hlater.trans hdirector, hlast.trans hplayback⟩

/-- Actions are announced one after another. -/
theorem exists_announces (hs : s.IsAttentive first count past) (hfuel : 4 ≤ fuel)
    (htype : type = .actionPressed ∨ type = .actionReleased) (hnodup : actions.Nodup) :
    ∃ t publications, Input.announce (handling.publish fuel) type actions s = (.returned (), t) ∧
      t.IsAttentive first count past ∧
      Announces first.settings.advanceAction type actions publications s t := by
  induction actions generalizing s with
  | nil => exact ⟨s, [], rfl, hs, .nil _ type s⟩
  | cons a rest ih =>
      obtain ⟨hnew, hrest⟩ := List.nodup_cons.mp hnodup
      obtain ⟨e, t, publication, hpublish, ht, hfirst⟩ := exists_announced hs hfuel htype a
      obtain ⟨u, publications, hrun, hu, hothers⟩ := ih ht hrest
      refine ⟨u, publication :: publications, ?_, hu, hfirst.cons hothers hnew⟩
      rw [Input.announce, Act.bind_of_returned hpublish, hrun]

theorem IsAttentive.tune (hs : s.IsAttentive first count past) (input : Input) :
    IsAttentive first count past { s with input } where
  onlooked := hs.onlooked
  told := by
    obtain ⟨dialogues, htold⟩ := hs.told
    refine ⟨dialogues, ⟨?_, htold.calm.queue, htold.calm.current⟩, htold.agrees, htold.course⟩
    exact htold.calm.wired.of_same rfl rfl rfl
  tended := hs.tended.of_bus rfl rfl rfl rfl (fun e he ↦ ⟨e, he, rfl⟩) hs.tended.history

/-- An update compares, announces the actions of either kind, and remembers what is pressed. -/
theorem updateBy_of_announce {arrange : ActionSet → List Action} {publish : Publisher Stage}
    (hpresses : Input.announce publish .actionPressed (arrange s.input.compare.justPressed)
      { s with input := s.input.compare } = (.returned (), t))
    (hinput : t.input = s.input.compare)
    (hreleases : Input.announce publish .actionReleased (arrange s.input.compare.justReleased) t =
      (.returned (), u)) :
    Input.updateBy arrange publish s =
      (.returned (), { u with input := { u.input with previous := u.input.pressed } }) := by
  have hcompared : (Part.update Input Input.compare : Act Stage Unit) s =
      (.returned (), { s with input := s.input.compare }) := rfl
  have hsame : (Part.get t : Input).justReleased = s.input.compare.justReleased :=
    congrArg Input.justReleased hinput
  rw [Input.updateBy, Act.bind_of_returned hcompared, Act.bind_of_returned (Part.read_apply _)]
  refine (Act.bind_of_returned hpresses _).trans ?_
  rw [Act.bind_of_returned (Part.read_apply _), hsame]
  exact Act.bind_of_returned hreleases _

/-- What an update comes to, where some actions were pressed at the last one.  The director takes a
step if it listens and its action is pressed and was not pressed then. -/
structure Updates (wanted : Action) (arrange : ActionSet → List Action) (last : ActionSet)
    (publications : List (Publication StageListener)) (s t : Stage) : Prop where
  events : publications.map (·.first.event) =
    (arrange (s.input.pressed.minus last)).map (Input.actionEvent .actionPressed) ++
      (arrange (last.minus s.input.pressed)).map (Input.actionEvent .actionReleased)
  history : t.bus.history = s.bus.history ++ publications.flatMap (·.moments)
  advances : (publications.flatMap (·.advances wanted)).length =
    if s.input.pressed wanted && !last wanted && s.director.isEnabled then 1 else 0
  isStep : ∀ call ∈ publications.flatMap (·.advances wanted), call.IsStep
  moves : s.MovesAtMostOnce t
  quiet : (s.input.pressed wanted && !last wanted && s.director.isEnabled) = false →
    t.director = s.director ∧ t.playback = s.playback

theorem exists_updates {arrange : ActionSet → List Action} (hs : s.IsAttentive first count past)
    (hfuel : 4 ≤ fuel) (harrange : ActionSet.IsArrangement arrange) :
    ∃ t publications, Input.updateBy arrange (handling.publish fuel) s = (.returned (), t) ∧
      t.IsAttentive first count past ∧ t.input.previous = s.input.pressed ∧
      s.Updates first.settings.advanceAction arrange s.input.previous publications t ∧
      ∀ a, edgesOf a t.bus.announced = edgesOf a s.bus.announced ++
        ((if (s.input.pressed a && !s.input.previous a) = true then [.actionPressed] else []) ++
          if (s.input.previous a && !s.input.pressed a) = true then [.actionReleased] else []) := by
  have hnodup := harrange.nodup
  obtain ⟨t, presses, hpresses, ht, hpressed⟩ :=
    exists_announces (hs.tune s.input.compare) hfuel (.inl rfl) (hnodup s.input.compare.justPressed)
  obtain ⟨u, releases, hreleases, hu, hreleased⟩ :=
    exists_announces ht hfuel (.inr rfl) (hnodup s.input.compare.justReleased)
  have hinput : u.input = s.input.compare := hreleased.input.trans hpressed.input
  have hsteps : stepsFor first.settings.advanceAction .actionPressed
      (arrange s.input.compare.justPressed) { s with input := s.input.compare } =
      if s.input.pressed first.settings.advanceAction &&
        !s.input.previous first.settings.advanceAction && s.director.isEnabled then 1 else 0 := by
    simp only [stepsFor, harrange.mem]
    simp [Input.compare, ActionSet.minus]
  have hnone : stepsFor first.settings.advanceAction .actionReleased
      (arrange s.input.compare.justReleased) t = 0 := if_neg (by simp)
  refine ⟨_, presses ++ releases, updateBy_of_announce hpresses hpressed.input hreleases,
    hu.tune _, by rw [hinput]; rfl, ⟨?_, ?_, ?_, fun call hcall ↦ ?_, ?_, fun hquiet ↦ ?_⟩,
    fun a ↦ ?_⟩
  · rw [List.map_append, hpressed.events, hreleased.events]
    rfl
  · rw [List.flatMap_append, ← List.append_assoc]
    exact hreleased.history.trans (congrArg (· ++ _) hpressed.history)
  · rw [List.flatMap_append, List.length_append, hpressed.advances, hreleased.advances, hsteps,
      hnone, Nat.add_zero]
  · rw [List.flatMap_append, List.mem_append] at hcall
    exact hcall.elim (hpressed.isStep call) (hreleased.isStep call)
  · exact hpressed.moves.of_quiet (hreleased.quiet hnone)
  · rw [hquiet] at hsteps
    obtain ⟨hdirector, hplayback⟩ := hpressed.quiet hsteps
    obtain ⟨hlater, hlast⟩ := hreleased.quiet hnone
    exact ⟨hlater.trans hdirector, hlast.trans hplayback⟩
  · have hedges := hreleased.edges a
    rw [hpressed.edges, edgesOf_announcement (.inl rfl) (hnodup _),
      edgesOf_announcement (.inr rfl) (hnodup _), List.append_assoc] at hedges
    simp only [harrange.mem] at hedges
    exact hedges

end Stage

end LinearDialogue
