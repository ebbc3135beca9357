import LinearDialogue.Proofs.ClipTurns
import LinearDialogue.Proofs.Performances

/-!
# The line that is heard

A stage on which the director stops voice clips at each step, while the handlers only look on.
Whatever is done from outside, the clip that is playing is that of the line shown last, none is
playing while no dialogue is running, and clips have been started and stopped in turn.
-/

namespace LinearDialogue

namespace Dialogue

variable {dialogues : List Dialogue} {line : SpokenLine}

/-- The line that has been shown last, in any of some dialogues. -/
def lastLine? (dialogues : List Dialogue) : Option SpokenLine :=
  ((dialogues.flatMap Dialogue.shown).filterMap Record.playableLine?).getLast?

theorem filter_announcements (records : List Record) :
    ((records.flatMap Record.announcement).filter fun e ↦ e.type == .lineShown) =
      (records.filterMap Record.playableLine?).map Director.lineEvent := by
  induction records with
  | nil => rfl
  | cons record rest ih =>
      rw [List.flatMap_cons, List.filter_append, ih, Record.announcement]
      cases hline : record.playableLine? with
      | none => simp [hline]
      | some line => simp [hline, Director.nodeEvent, Director.lineEvent]

theorem filter_events (dialogue : Dialogue) :
    (dialogue.events.filter fun e ↦ e.type == .lineShown) =
      (dialogue.shown.filterMap Record.playableLine?).map Director.lineEvent := by
  rw [events, List.cons_append, List.filter_cons_of_neg (by simp [Director.dialogueEvent]),
    List.filter_append, filter_announcements]
  split <;> simp [Director.dialogueEvent]

theorem filter_flatMap_events (dialogues : List Dialogue) :
    ((dialogues.flatMap events).filter fun e ↦ e.type == .lineShown) =
      ((dialogues.flatMap Dialogue.shown).filterMap Record.playableLine?).map
        Director.lineEvent := by
  induction dialogues with
  | nil => rfl
  | cons dialogue rest ih =>
      rw [List.flatMap_cons, List.flatMap_cons, List.filter_append, ih, filter_events,
        List.filterMap_append, List.map_append]

theorem audio_eq_of_lineEvent {other : SpokenLine}
    (h : Director.lineEvent other = Director.lineEvent line) : other.audio = line.audio := by
  have hget : Payload.value (.ofOption other.audio) = .value (.ofOption line.audio) :=
    congrArg (fun e ↦ e.get "audio") h
  cases hother : other.audio <;> cases hline : line.audio <;>
    simp_all [Value.ofOption]

/-- If a line has been announced last, it is the line that has been shown last. -/
theorem exists_lastLine (h : (dialogues.flatMap events).getLast? = some (Director.lineEvent line)) :
    ∃ last, lastLine? dialogues = some last ∧ last.audio = line.audio := by
  obtain ⟨told, htold⟩ := List.getLast?_eq_some_iff.mp h
  have hlines := filter_flatMap_events dialogues
  rw [htold, List.filter_append, List.filter_cons_of_pos (by rfl), List.filter_nil] at hlines
  have hlast := congrArg List.getLast? hlines
  rw [List.getLast?_concat, List.getLast?_map] at hlast
  obtain ⟨last, hlast, hsame⟩ := Option.map_eq_some_iff.mp hlast.symm
  exact ⟨last, hlast, audio_eq_of_lineEvent hsame⟩

/-- After a line its dialogue goes on. -/
theorem exists_running (h : (dialogues.flatMap events).getLast? = some (Director.lineEvent line)) :
    ∃ dialogue, dialogues.getLast? = some dialogue ∧ dialogue.isOver = false := by
  rcases List.eq_nil_or_concat' dialogues with rfl | ⟨past, dialogue, rfl⟩
  · cases h
  · refine ⟨dialogue, List.getLast?_concat, ?_⟩
    by_contra hover
    rw [List.flatMap_append, List.flatMap_singleton, events, if_pos (by simpa using hover),
      ← List.append_assoc, List.getLast?_concat] at h
    simp [Director.dialogueEvent, Director.lineEvent] at h

end Dialogue

namespace Stage

variable {s t : Stage} {fuel : Nat}

/-! ## Looking on -/

/-- All handlers look on and do nothing else. -/
def IsSilent (s : Stage) : Prop :=
  ∀ handler ∈ s.handlers, ∀ call event, (handler.behaviour call event).IsGuest fun _ ↦ False

theorem IsSilent.of_behaviours (hs : s.IsSilent)
    (h : t.handlers.map (·.behaviour) = s.handlers.map (·.behaviour)) : t.IsSilent := by
  intro handler hmem
  obtain ⟨old, hold, hsame⟩ := exists_same_behaviour h hmem
  rw [← hsame]
  exact hs old hold

/-- What an onlooker does to a stage, and what deliveries do besides their calls. -/
structure Attended (s t : Stage) : Prop extends SoundsLike s t where
  behaviours : t.handlers.map (·.behaviour) = s.handlers.map (·.behaviour)

theorem attended_chains : Act.Chains Attended where
  refl s := ⟨soundsLike_chains.refl s, rfl⟩
  trans h k := ⟨soundsLike_chains.trans h.toSoundsLike k.toSoundsLike,
    k.behaviours.trans h.behaviours⟩

theorem attended_of_bus {b : Bus StageListener} (h : b.announced = s.bus.announced) :
    s.Attended { s with bus := b } :=
  ⟨⟨rfl, rfl, rfl, rfl, h⟩, rfl⟩

theorem attended_journal (s : Stage) (j : Journal) : s.Attended { s with journal := j } :=
  ⟨(s.stays_journal j).toSoundsLike, rfl⟩

theorem attended_run {program : Program StageOp} (h : program.IsGuest fun _ ↦ False)
    (perform : StageOp → Act Stage Value) :
    (program.run perform consumeCurrent).Along Attended := by
  induction h with
  | done => exact .pure attended_chains ()
  | fail failure => exact .fail attended_chains failure
  | consume _ ih => exact .bind attended_chains (fun _ ↦ attended_of_bus rfl) fun _ ↦ ih
  | note _ ih =>
      exact .bind attended_chains (fun s ↦ s.attended_journal _) fun _ ↦ ih
  | perform hop => exact hop.elim

theorem attended_call (hs : s.IsSilent) {d : Delivery StageListener} (hd : s.bus.current = some d)
    {listener : StageListener} (hlistener : listener ≠ .director) :
    s.Attended (call listener s).2 := by
  cases listener with
  | director => exact absurd rfl hlistener
  | observer =>
      simp only [call, hd]
      exact s.attended_journal _
  | handler index =>
      cases hhandler : s.handlers[index]? with
      | none =>
          simp only [call, hd, hhandler]
          exact attended_chains.refl s
      | some handler =>
          rw [call_of_handler hd hhandler]
          have hcounted : s.Attended (s.counting (.handler index)) :=
            ⟨⟨rfl, rfl, rfl, rfl, rfl⟩, counting_behaviours _⟩
          exact attended_chains.trans hcounted (attended_run
            (hs handler (List.mem_of_getElem? hhandler) handler.calls d.event) _ _)

/-! ## Deliveries -/

theorem isHushed_post : (Bus.post StageListener : Publisher Stage).IsHushed IsSilent where
  publish {s event} hs _ := by
    refine ⟨event, { s with bus := s.bus.enqueue event }, rfl, hs, rfl, rfl, rfl, ?_⟩
    simp [Bus.announced, Bus.enqueue, Bus.record, Moment.published?]
  ignore hs := hs
  keep hs _ hhandlers _ := hs.of_behaviours (by rw [hhandlers])
  voiced {s event} _ _ hvoiced := by
    refine hvoiced.soundsLike (Attended.toSoundsLike (attended_of_bus ?_))
    simp [publishing, Bus.announced, Bus.enqueue, Bus.record]

/-- A property that tells of a stage that it is voiced, and that every stage has that is heard. -/
structure IsAudible (X : Stage → Prop) : Prop where
  voiced : ∀ {s}, X s → s.IsVoiced
  heard : ∀ {s}, s.IsHeard → X s
  soundsLike : ∀ {s t}, s.SoundsLike t → X s → X t

theorem isAudible_isVoiced : IsAudible IsVoiced where
  voiced h := h
  heard h := h.toIsVoiced
  soundsLike h hs := hs.soundsLike h

theorem isAudible_isHeard : IsAudible IsHeard where
  voiced h := h.toIsVoiced
  heard h := h
  soundsLike h hs := hs.soundsLike h

variable {X : Stage → Prop}

theorem Attended.audible (hX : IsAudible X) (h : s.Attended t) (hs : s.IsSilent ∧ X s) :
    t.IsSilent ∧ X t :=
  ⟨hs.1.of_behaviours h.behaviours, hX.soundsLike h.toSoundsLike hs.2⟩

theorem audible_onAction (hX : IsAudible X) (hs : s.IsSilent ∧ X s) {event : Event} :
    let t :=
      (Director.onAction (wiring (Bus.post StageListener) s.speaker) consumeCurrent event s).2
    t.IsSilent ∧ X t := by
  have hvoiced := hX.voiced hs.2
  rw [hvoiced.speaker, Director.onAction, Act.bind_of_returned (Part.read_apply s), get_director]
  by_cases hpress : event.get "action" = .action s.director.settings.advanceAction
  · let consumed : Stage := { s with bus := s.bus.consume }
    have hconsumed : consumed.Sounds IsSilent fun _ ↦ True :=
      ⟨hs.1, hvoiced.soundsLike ⟨rfl, rfl, rfl, rfl, rfl⟩, trivial⟩
    have hrest : (do
        consumeCurrent
        let _ ← Director.advance (wiring (Bus.post StageListener) .audio) : Act Stage Unit) s =
        (Director.advance (wiring (Bus.post StageListener) .audio) >>= fun _ ↦ pure ())
          consumed := rfl
    have hline := (meets_advance isHushed_post).snd hconsumed
    rw [if_pos hpress, hrest, Act.bind_pure_apply]
    exact ⟨hline.kind, hX.heard hline.heard⟩
  · rw [if_neg hpress]
    exact hs

/-- A delivery keeps what the director's steps and the onlookers keep. -/
theorem leads_audible (hX : IsAudible X) :
    handling.Leads fun s t ↦ s.IsSilent ∧ X s → t.IsSilent ∧ X t where
  chains := ⟨fun _ hs ↦ hs, fun h k hs ↦ k (h hs)⟩
  attend hb := (attended_of_bus (Bus.announced_attends hb)).audible hX
  begin event s := (attended_of_bus (b := s.bus.begin event) rfl).audible hX
  finish _ := (attended_of_bus (Bus.announced_finish _)).audible hX
  report _ s := (s.attended_journal _).audible hX
  call listener s hs := by
    cases hd : s.bus.current with
    | none =>
        simp only [handling, call, hd]
        exact hs
    | some d =>
        by_cases hlistener : listener = .director
        · subst hlistener
          simp only [handling, call, hd]
          exact audible_onAction hX hs
        · exact (attended_call hs.1 hd hlistener).audible hX hs

/-! ## Operations -/

theorem IsCalm.isSilent (hs : s.IsCalm) : s.IsSilent := hs.wired.guests

theorem isHushed_publish (fuel : Nat) : (handling.publish fuel).IsHushed IsCalm where
  toIsQuiet := isQuiet_publish fuel
  voiced hs _ hvoiced :=
    ((leads_audible isAudible_isVoiced).publish fuel _ _ ⟨hs.isSilent, hvoiced⟩).2

theorem IsHeard.publishing (hs : s.IsHeard) {event : Event} (hvoice : event.type.isOfVoice = false)
    (hdialogue : event.type.isOfDialogue = false) : (s.publishing event).IsHeard where
  toIsVoiced := hs.toIsVoiced.publishing hvoice
  line := by
    rw [announced_publishing, List.filter_append, List.filter_singleton, hdialogue]
    simpa [Stage.publishing] using hs.line

theorem isHeard_operate (fuel : Nat) {op : StageOp} (hop : op.IsDirection) (hcalm : s.IsCalm)
    (hs : s.IsHeard) : (operate fuel op s).2.IsHeard := by
  have hline : s.SoundsLine IsCalm := ⟨hcalm, hs⟩
  have hspeaker := hs.speaker
  have hanswer {α : Type} (m : Act Stage α) (f : α → Value) :
      ((m >>= fun a ↦ pure (f a)) s).2 = (m s).2 := by rw [Act.bind_pure_apply]
  cases op with
  | start graph id =>
      have hact : operate fuel (.start graph id) s =
          (Director.start (wiring (handling.publish fuel) s.speaker) graph id >>= fun _ ↦
            pure .null) s := rfl
      rw [hact, hanswer, hspeaker]
      exact ((meets_start (isHushed_publish fuel) admits_isCalm graph id).snd hline.sounds).heard
  | play id =>
      have hact : operate fuel (.play id) s =
          (Director.play (wiring (handling.publish fuel) s.speaker) id >>= fun found ↦
            pure (.bool found)) s := rfl
      rw [hact, hanswer, hspeaker]
      exact ((meets_play (isHushed_publish fuel) admits_isCalm id).snd hline).heard
  | advance =>
      have hact : operate fuel .advance s =
          (Director.advance (wiring (handling.publish fuel) s.speaker) >>= fun executed ↦
            pure (.bool executed)) s := rfl
      rw [hact, hanswer, hspeaker]
      exact ((meets_advance (isHushed_publish fuel)).snd hline.sounds).heard
  | stop =>
      have hact : operate fuel .stop s =
          (Director.stop (wiring (handling.publish fuel) s.speaker) >>= fun _ ↦ pure .null) s := rfl
      rw [hact, hanswer, hspeaker]
      exact ((meets_stop (isHushed_publish fuel)).snd hline.sounds).soundsLine.heard
  | publish event =>
      have hpress : event.type = .actionPressed := hop
      have hact : operate fuel (.publish event) s =
          (handling.publish fuel event >>= fun e ↦ pure e.consumed) s := rfl
      rw [hact, hanswer]
      have hpublished : (s.publishing event).IsHeard :=
        hs.publishing (by rw [hpress]; rfl) (by rw [hpress]; rfl)
      exact ((leads_audible isAudible_isHeard).publish fuel event s
        ⟨hcalm.isSilent, hpublished⟩).2
  | _ => exact hop.elim

/-- Whatever is done from outside, the clip that is playing is that of the line shown last. -/
theorem isHeard_performAll (hfuel : 4 ≤ fuel) {first : Director} {dialogues : List Dialogue}
    {ops : List StageOp} (hops : ∀ op ∈ ops, op.IsDirection) (htold : s.HasTold first dialogues)
    (hs : s.IsHeard) : (performAll fuel ops s).2.IsHeard := by
  induction ops generalizing s dialogues with
  | nil => exact hs
  | cons op ops ih =>
      have hdirection := hops op List.mem_cons_self
      have hheard := isHeard_operate fuel hdirection htold.calm hs
      obtain ⟨outcome, t, middle, hop, ht, htells⟩ := exists_operate hfuel htold hdirection
      rw [hop] at hheard
      rw [performAll_cons ops hop htells.ne_stalled]
      exact ih (fun op hop ↦ hops op (List.mem_cons_of_mem _ hop)) ht hheard

theorem IsOpening.isHeard (hs : s.IsOpening) (hspeaker : s.speaker = .audio)
    (hstops : s.director.settings.stopVoiceOnAdvance = true) (hidle : s.audio.current = none) :
    s.IsHeard := by
  refine ⟨⟨hspeaker, hstops, ?_, [], ?_⟩, ?_⟩
  · rw [hidle]
    exact fun h ↦ absurd h Bool.false_ne_true
  · rw [hidle, Bus.announced, hs.history]
    rfl
  · intro handle hcurrent
    rw [hidle] at hcurrent
    cases hcurrent

/-- The voice that is heard is that of the line shown last.  On a stage whose director stops voice
clips at each step, with audio that plays nothing yet, whatever is done from outside: the clip that
is playing, if there is one, is that of the line that has been shown last; none is playing while the
director is not listening; and the clips have been started and stopped in turn. -/
theorem performAll_plays_last_line (hfuel : 4 ≤ fuel) (hs : s.IsOpening)
    (hspeaker : s.speaker = .audio) (hstops : s.director.settings.stopVoiceOnAdvance = true)
    (hidle : s.audio.current = none) {ops : List StageOp} (hops : ∀ op ∈ ops, op.IsDirection)
    {outcomes : List (Outcome Value)} (hrun : performAll fuel ops s = (outcomes, t)) :
    ∃ dialogues, Dialogue.Told s.director [] ops outcomes dialogues ∧
      (t.bus.announced.filter fun e ↦ e.type.isOfDialogue) = dialogues.flatMap Dialogue.events ∧
      (∀ handle, t.currentVoice = some handle →
        ∃ line, Dialogue.lastLine? dialogues = some line ∧ line.audio = some handle) ∧
      (t.director.isEnabled = false → t.currentVoice = none) ∧
      Audio.Alternates t.bus.announced t.currentVoice := by
  obtain ⟨dialogues, htold, ht⟩ := exists_told hfuel hops hs.hasTold
  have hheard := isHeard_performAll hfuel hops hs.hasTold (hs.isHeard hspeaker hstops hidle)
  rw [hrun] at htold ht hheard
  have hcurrent : t.currentVoice = t.audio.current := by rw [currentVoice, hheard.speaker]
  have hlines : ∀ handle, t.audio.current = some handle → ∃ line : SpokenLine,
      (dialogues.flatMap Dialogue.events).getLast? = some (Director.lineEvent line) ∧
        line.audio = some handle := by
    rw [← ht.course.trace]
    exact hheard.line
  rw [hcurrent]
  refine ⟨dialogues, htold, ht.course.trace, fun handle hhandle ↦ ?_, fun hdisabled ↦ ?_,
    hheard.told⟩
  · obtain ⟨line, hline, haudio⟩ := hlines handle hhandle
    obtain ⟨last, hlast, hsame⟩ := Dialogue.exists_lastLine hline
    exact ⟨last, hlast, hsame.trans haudio⟩
  · by_contra hplaying
    obtain ⟨handle, hhandle⟩ := Option.ne_none_iff_exists'.mp hplaying
    obtain ⟨line, hline, -⟩ := hlines handle hhandle
    have henabled := (isEnabled_iff ht.course).2.mpr (Dialogue.exists_running hline)
    rw [hdisabled] at henabled
    cases henabled

/-- A stage with audio that has been started, one clip, and a handler that fails whenever a line is
shown. -/
def watchtower : Stage where
  bus := {
    lists := [(.lineShown, [⟨.int 0, .handler 0, .bool false, false, 0⟩])]
    count := 1 }
  handlers := [{ behaviour := fun _ _ ↦ .fail (.alarm "boom") }]
  speaker := .audio
  audio := { voicePath := {}, hasChannel := true, isUp := true }
  mixer := { isUp := true }
  disk := { entries := [(["halt.ogg"], .file (.text "OggS"))] }

theorem isOpening_watchtower : watchtower.IsOpening where
  calm := by
    refine ⟨⟨?_, ?_, nofun, nofun⟩, rfl, rfl⟩
    · intro handler hmem call event
      rw [List.mem_singleton.mp hmem]
      exact .fail _
    · intro type
      cases type <;> decide
  history := rfl
  disabled := rfl
  playback := rfl

/-- A guard's line with a voice clip. -/
def voicedLine (id successor : Int) (audio : Option String) : Record :=
  ⟨.dialogue, id, successor, "dialogue", some ⟨"Guard", audio, "Halt!", []⟩⟩

/-- Lines with a clip, with one that is missing and with none, in a dialogue that is abandoned for
another one, which repeats its line. -/
def watch : List StageOp :=
  [.start ⟨0, [voicedLine 0 1 (some "halt.ogg"), voicedLine 1 2 (some "gone.ogg"),
      voicedLine 2 3 none, voicedLine 3 noId (some "halt.ogg")]⟩ (.text "gate"),
    .publish (Input.actionEvent .actionPressed .confirm), .advance, .advance,
    .start ⟨7, [voicedLine 7 7 (some "halt.ogg")]⟩ (.text "well"),
    .publish (Input.actionEvent .actionPressed .confirm)]

theorem performAll_plays_last_line_of_watch :
    ∃ outcomes t dialogues, performAll 4 watch watchtower = (outcomes, t) ∧
      Dialogue.Told watchtower.director [] watch outcomes dialogues ∧
      t.currentVoice = some "halt.ogg" ∧
      (∃ line, Dialogue.lastLine? dialogues = some line ∧ line.audio = some "halt.ogg") ∧
      Audio.Alternates t.bus.announced (some "halt.ogg") ∧
      (t.bus.announced.filter fun e ↦ e.type.isOfVoice).map (·.type) =
        [.voiceStarted, .voiceStopped, .voiceStarted, .voiceStopped, .voiceStarted, .voiceStopped,
          .voiceStarted] := by
  have hvoice : (performAll 4 watch watchtower).2.currentVoice = some "halt.ogg" := by
    decide +kernel
  have htypes : ((performAll 4 watch watchtower).2.bus.announced.filter fun e ↦
      e.type.isOfVoice).map (·.type) =
        [.voiceStarted, .voiceStopped, .voiceStarted, .voiceStopped, .voiceStarted, .voiceStopped,
          .voiceStarted] := by decide +kernel
  have hops : ∀ op ∈ watch, op.IsDirection := by
    intro op hop
    simp only [watch, List.mem_cons, List.not_mem_nil, or_false] at hop
    rcases hop with rfl | rfl | rfl | rfl | rfl | rfl
    · trivial
    · rfl
    · trivial
    · trivial
    · trivial
    · rfl
  rcases hrun : performAll 4 watch watchtower with ⟨outcomes, t⟩
  rw [hrun] at hvoice htypes
  obtain ⟨dialogues, htold, -, hline, -, hturns⟩ := performAll_plays_last_line (Nat.le_refl 4)
    isOpening_watchtower rfl rfl rfl hops hrun
  rw [hvoice] at hturns
  exact ⟨outcomes, t, dialogues, rfl, htold, hvoice, hline "halt.ogg" hvoice, hturns, htypes⟩

end Stage

end LinearDialogue
