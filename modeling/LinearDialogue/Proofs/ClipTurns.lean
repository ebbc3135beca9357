import LinearDialogue.Proofs.Dialogues

/-!
# Clips in turn

A director that stops the voice clip before each step never starts one while another is playing.  So
the clips that are announced come one after another, each started and then stopped, and the one that
is playing is the last of them.  After a step a clip is playing only if the line shown last is its
own.
-/

namespace LinearDialogue

/-! ## Turns of clips -/

/-- Is an event of this type about a voice clip? -/
def EventType.isOfVoice : EventType → Bool
  | .voiceStarted | .voiceStopped => true
  | _ => false

namespace Audio

/-- A clip is started and then stopped. -/
def turn (handle : String) : List Event :=
  [voiceEvent .voiceStarted handle, voiceEvent .voiceStopped handle]

/-- What has been announced about voice clips, one after another, while one is playing or none. -/
def Alternates (told : List Event) (playing : Option String) : Prop :=
  ∃ handles : List String, (told.filter fun e ↦ e.type.isOfVoice) =
    handles.flatMap turn ++ playing.toList.map (voiceEvent .voiceStarted)

namespace Alternates

variable {told : List Event} {event : Event} {playing other : Option String} {handle : String}

theorem other_event (h : Alternates told playing) (hevent : event.type.isOfVoice = false) :
    Alternates (told ++ [event]) playing := by
  obtain ⟨handles, htold⟩ := h
  refine ⟨handles, ?_⟩
  rw [List.filter_append, htold, List.filter_singleton, hevent]
  exact List.append_nil _

theorem started (h : Alternates told none) (handle : String) :
    Alternates (told ++ [voiceEvent .voiceStarted handle]) (some handle) := by
  obtain ⟨handles, htold⟩ := h
  refine ⟨handles, ?_⟩
  rw [List.filter_append, htold, Option.toList_none, List.map_nil, List.append_nil]
  rfl

theorem stopped (h : Alternates told (some handle)) :
    Alternates (told ++ [voiceEvent .voiceStopped handle]) none := by
  obtain ⟨handles, htold⟩ := h
  refine ⟨handles ++ [handle], ?_⟩
  rw [List.filter_append, htold, List.append_assoc, List.flatMap_append, List.append_assoc]
  rfl

/-- Which clip is playing is told by the last event about clips. -/
theorem getLast?_eq_iff (h : Alternates told playing) (handle : String) :
    (told.filter fun e ↦ e.type.isOfVoice).getLast? = some (voiceEvent .voiceStarted handle) ↔
      playing = some handle := by
  obtain ⟨handles, htold⟩ := h
  rw [htold]
  cases playing with
  | some clip => simp [voiceEvent]
  | none =>
      rcases List.eq_nil_or_concat' handles with rfl | ⟨past, last, rfl⟩
      · simp
      · simp [turn, voiceEvent]

theorem playing_eq (h : Alternates told playing) (h' : Alternates told other) : playing = other :=
  Option.ext fun handle ↦ (h.getLast?_eq_iff handle).symm.trans (h'.getLast?_eq_iff handle)

end Alternates

end Audio

namespace Stage

variable {I : Stage → Prop} {C D : Option String → Prop} {E : Stage → Prop} {s t : Stage}
  {publish : Publisher Stage} {event : Event}

/-- Two stages alike in what has been announced, and in what the director does to voice clips. -/
structure SoundsLike (s t : Stage) : Prop where
  speaker : t.speaker = s.speaker
  settings : t.director.settings = s.director.settings
  current : t.audio.current = s.audio.current
  channel : t.audio.hasChannel = s.audio.hasChannel
  announced : t.bus.announced = s.bus.announced

/-- Two stages that differ in nothing that publications or voice clips depend on. -/
structure Stays (s t : Stage) : Prop extends SoundsLike s t where
  bus : t.bus = s.bus
  handlers : t.handlers = s.handlers
  isEnabled : t.director.isEnabled = s.director.isEnabled

theorem soundsLike_chains : Act.Chains SoundsLike where
  refl _ := ⟨rfl, rfl, rfl, rfl, rfl⟩
  trans h k := ⟨k.speaker.trans h.speaker, k.settings.trans h.settings,
    k.current.trans h.current, k.channel.trans h.channel, k.announced.trans h.announced⟩

theorem stays_chains : Act.Chains Stays where
  refl s := ⟨soundsLike_chains.refl s, rfl, rfl, rfl⟩
  trans h k := ⟨soundsLike_chains.trans h.toSoundsLike k.toSoundsLike, k.bus.trans h.bus,
    k.handlers.trans h.handlers, k.isEnabled.trans h.isEnabled⟩

theorem stays_journal (s : Stage) (j : Journal) : s.Stays { s with journal := j } :=
  ⟨⟨rfl, rfl, rfl, rfl, rfl⟩, rfl, rfl, rfl⟩

theorem stays_playback (s : Stage) (p : Playback) : s.Stays { s with playback := p } :=
  ⟨⟨rfl, rfl, rfl, rfl, rfl⟩, rfl, rfl, rfl⟩

/-- A stage whose director stops the clip that is playing before each step, as it has done so
far. -/
structure IsVoiced (s : Stage) : Prop where
  speaker : s.speaker = .audio
  stops : s.director.settings.stopVoiceOnAdvance = true
  channel : s.audio.current.isSome = true → s.audio.hasChannel = true
  told : Audio.Alternates s.bus.announced s.audio.current

/-- A clip is playing only if it is that of a line, and nothing has been announced about dialogues
since that line was. -/
structure IsHeard (s : Stage) : Prop extends IsVoiced s where
  line : ∀ handle, s.audio.current = some handle → ∃ line : SpokenLine,
    (s.bus.announced.filter fun e ↦ e.type.isOfDialogue).getLast? = some (Director.lineEvent line) ∧
      line.audio = some handle

theorem IsVoiced.soundsLike (hs : s.IsVoiced) (h : s.SoundsLike t) : t.IsVoiced where
  speaker := h.speaker.trans hs.speaker
  stops := by rw [h.settings, hs.stops]
  channel := by
    rw [h.current, h.channel]
    exact hs.channel
  told := by
    rw [h.current, h.announced]
    exact hs.told

theorem IsHeard.soundsLike (hs : s.IsHeard) (h : s.SoundsLike t) : t.IsHeard where
  toIsVoiced := hs.toIsVoiced.soundsLike h
  line := by
    rw [h.current, h.announced]
    exact hs.line

/-- The stage when an event is published, before its delivery. -/
def publishing (s : Stage) (event : Event) : Stage :=
  { s with bus := s.bus.record (.published event) }

theorem announced_publishing (s : Stage) (event : Event) :
    (s.publishing event).bus.announced = s.bus.announced ++ [event] :=
  Bus.announced_published event s.bus

end Stage

/-- A way to publish after which nobody has acted on the dialogue or on voice clips. -/
structure Publisher.IsHushed (p : Publisher Stage) (I : Stage → Prop) : Prop
    extends p.IsQuiet I where
  voiced : ∀ {s : Stage} {event : Event}, I s → event.type ≠ .actionPressed →
    (s.publishing event).IsVoiced → (p event s).2.IsVoiced

namespace Stage

variable {I : Stage → Prop} {C D : Option String → Prop} {E : Stage → Prop} {s t : Stage}
  {publish : Publisher Stage} {event : Event}

/-- A stage of a kind on which the clip that is playing, if there is one, is as `C` says. -/
structure Sounds (I : Stage → Prop) (C : Option String → Prop) (s : Stage) : Prop where
  kind : I s
  voiced : s.IsVoiced
  clip : C s.audio.current

theorem Sounds.mono (h : ∀ clip, C clip → D clip) (hs : s.Sounds I C) : s.Sounds I D :=
  ⟨hs.kind, hs.voiced, h _ hs.clip⟩

theorem Sounds.stays (hp : publish.IsHushed I) (hs : s.Sounds I C) (h : s.Stays t) :
    t.Sounds I C where
  kind := hp.keep hs.kind h.bus h.handlers h.isEnabled
  voiced := hs.voiced.soundsLike h.toSoundsLike
  clip := by
    rw [h.current]
    exact hs.clip

/-- A stage of a kind on which a clip is playing only if its line is the one shown last. -/
structure SoundsLine (I : Stage → Prop) (s : Stage) : Prop where
  kind : I s
  heard : s.IsHeard

theorem SoundsLine.sounds (hs : s.SoundsLine I) : s.Sounds I fun _ ↦ True :=
  ⟨hs.kind, hs.heard.toIsVoiced, trivial⟩

theorem SoundsLine.stays (hp : publish.IsHushed I) (hs : s.SoundsLine I) (h : s.Stays t) :
    t.SoundsLine I :=
  ⟨hp.keep hs.kind h.bus h.handlers h.isEnabled, hs.heard.soundsLike h.toSoundsLike⟩

theorem Sounds.soundsLine (s : Stage) (hs : s.Sounds I (· = none)) : s.SoundsLine I := by
  refine ⟨hs.kind, hs.voiced, fun handle hcurrent ↦ ?_⟩
  rw [hs.clip] at hcurrent
  cases hcurrent

theorem meets_update {τ : Type} [Part τ Stage] {f : τ → τ} (hp : publish.IsHushed I)
    (h : ∀ s : Stage, s.Stays (Part.set (f (Part.get s)) s)) :
    (Part.update τ f : Act Stage Unit).Meets (Sounds I C) (fun _ ↦ Sounds I C) E :=
  .update fun s hs ↦ hs.stays hp (h s)

theorem meets_report (hp : publish.IsHushed I) (entry : LogEntry) :
    (Journal.report entry : Act Stage Unit).Meets (Sounds I C) (fun _ ↦ Sounds I C) E :=
  meets_update hp fun s ↦ s.stays_journal _

/-! ## Publications -/

/-- Once an event has been published, the clip is playing that was. -/
theorem exists_publish_sounds (hp : publish.IsHushed I) (hs : I s)
    (hpress : event.type ≠ .actionPressed) (hvoiced : (s.publishing event).IsVoiced) :
    ∃ e t, publish event s = (.returned e, t) ∧ t.Sounds I (· = s.audio.current) ∧
      t.bus.announced = s.bus.announced ++ [event] := by
  obtain ⟨e, t, hrun, ht, hbecomes⟩ := hp.publish hs hpress
  have htold := hp.voiced hs hpress hvoiced
  rw [hrun] at htold
  refine ⟨e, t, hrun, ⟨ht, htold, ?_⟩, hbecomes.announced⟩
  -- The same has been announced, and that tells which clip is playing.
  have hsame := hvoiced.told
  rw [announced_publishing, ← hbecomes.announced] at hsame
  exact htold.told.playing_eq hsame

theorem IsVoiced.publishing (hs : s.IsVoiced) (hvoice : event.type.isOfVoice = false) :
    (s.publishing event).IsVoiced where
  speaker := hs.speaker
  stops := hs.stops
  channel := hs.channel
  told := by
    rw [announced_publishing]
    exact hs.told.other_event hvoice

theorem meets_publish (hp : publish.IsHushed I) (hpress : event.type ≠ .actionPressed)
    (hvoice : event.type.isOfVoice = false) :
    (publish event).Meets (Sounds I C)
      (fun _ t ↦ t.Sounds I C ∧ t.bus.announced.getLast? = some event) E := by
  apply Act.Meets.of_returned
  intro s hs
  obtain ⟨e, t, hrun, ht, hannounced⟩ :=
    exists_publish_sounds hp hs.kind hpress (hs.voiced.publishing hvoice)
  refine ⟨e, t, hrun, ht.mono ?_, ?_⟩
  · rintro _ rfl
    exact hs.clip
  · rw [hannounced, List.getLast?_concat]

/-! ## Clips -/

/-- The clip that is playing is stopped. -/
theorem meets_stopAudio (hp : publish.IsHushed I) :
    (Audio.stop publish).Meets (Sounds I fun _ ↦ True) (fun _ ↦ Sounds I (· = none)) E := by
  apply Act.Meets.of_returned
  intro s hs
  cases hcurrent : s.audio.current with
  | none =>
      refine ⟨(), s, ?_, hs.kind, hs.voiced, hcurrent⟩
      simp [Audio.stop, Act.bind_apply, hcurrent]
  | some handle =>
      have hchannel := hs.voiced.channel (by rw [hcurrent, Option.isSome_some])
      let u : Stage := { s with
        journal.notes := s.journal.notes ++ [.mixer .stop]
        audio.current := none }
      have hstopped : (u.publishing (Audio.voiceEvent .voiceStopped handle)).IsVoiced := by
        refine ⟨hs.voiced.speaker, hs.voiced.stops, fun h ↦ absurd h Bool.false_ne_true, ?_⟩
        rw [announced_publishing]
        exact Audio.Alternates.stopped (hcurrent ▸ hs.voiced.told)
      obtain ⟨e, t, hrun, ht, -⟩ := exists_publish_sounds (s := u) hp
        (hp.keep hs.kind rfl rfl rfl) (by simp [Audio.voiceEvent]) hstopped
      refine ⟨(), t, ?_, ht⟩
      simp only [Audio.stop, Act.bind_apply, Part.read_apply, get_audio, hcurrent, hchannel]
      exact Act.bind_of_returned hrun _

theorem loads_stays : Audio.Loads Stays where
  chains := stays_chains
  note _ s := s.stays_journal _
  report _ s := s.stays_journal _
  keep _ _ := ⟨⟨rfl, rfl, rfl, rfl, rfl⟩, rfl, rfl, rfl⟩

theorem meets_clip? (hp : publish.IsHushed I) (handle : Value) :
    (Audio.clip? handle : Act Stage (Option String)).Meets (Sounds I (· = none))
      (fun _ ↦ Sounds I (· = none)) (SoundsLine I) :=
  .along (loads_stays.clip? handle) (fun _ _ h hs ↦ hs.stays hp h) Sounds.soundsLine

/-- A stage on which no clip is playing and one can be started. -/
structure CanStart (I : Stage → Prop) (s : Stage) : Prop where
  channel : s.audio.hasChannel = true
  silent : s.Sounds I (· = none)

theorem meets_startClip (hp : publish.IsHushed I) (handle : String) :
    (do
      Part.update Audio fun audio ↦ { audio with current := some handle }
      let _ ← publish (Audio.voiceEvent .voiceStarted handle)
      return true : Act Stage Bool).Meets (CanStart I) (fun _ ↦ Sounds I (· = some handle)) E := by
  apply Act.Meets.of_returned
  rintro s ⟨hchannel, hs⟩
  let u : Stage := { s with audio.current := some handle }
  have hstarted : (u.publishing (Audio.voiceEvent .voiceStarted handle)).IsVoiced := by
    refine ⟨hs.voiced.speaker, hs.voiced.stops, fun _ ↦ hchannel, ?_⟩
    rw [announced_publishing]
    exact Audio.Alternates.started (hs.clip ▸ hs.voiced.told) handle
  obtain ⟨e, t, hrun, ht, -⟩ := exists_publish_sounds (s := u) hp
    (hp.keep hs.kind rfl rfl rfl) (by simp [Audio.voiceEvent]) hstarted
  exact ⟨true, t, Act.bind_of_returned hrun _, ht⟩

/-- A clip is played on a stage on which none is playing. -/
theorem meets_playAudio (hp : publish.IsHushed I) (handle category : String) (volume : Binary64) :
    (Audio.play publish (.text handle) (.text category) (.float volume)).Meets
      (Sounds I (· = none)) (fun _ ↦ Sounds I fun clip ↦ clip = none ∨ clip = some handle)
      (SoundsLine I) := by
  have hnote (call : MixerCall) : (Journal.note (.mixer call) : Act Stage Unit).Meets (CanStart I)
      (fun _ ↦ CanStart I) (SoundsLine I) :=
    .update fun s hs ↦ ⟨hs.channel, hs.silent.stays hp (s.stays_journal _)⟩
  have hvolume (result : Except Failure Binary64) : (Act.ofExcept result : Act Stage Binary64).Meets
      (CanStart I) (fun _ ↦ CanStart I) (SoundsLine I) :=
    .ofExcept (fun _ _ hs ↦ hs) fun _ hs ↦ hs.silent.soundsLine
  have hstart := meets_startClip (E := SoundsLine I) hp handle
  refine .bind (meets_clip? hp _) fun clip ↦ .bind_read fun audio ↦ ?_
  split
  · next hchannel =>
      refine .pre (P := CanStart I) ?_ fun s hs ↦ ⟨?_, hs.2⟩
      · refine .bind (hvolume _) fun own ↦ .bind (hvolume _) fun factor ↦ ?_
        refine .bind (hnote _) fun _ ↦ .bind (hnote _) fun _ ↦ ?_
        exact hstart.post fun _ _ hs ↦ hs.mono fun _ ↦ .inr
      · rw [← hchannel, ← hs.1, get_audio]
  · exact .pure fun s hs ↦ hs.2.mono fun _ ↦ .inl

theorem meets_playVoice (hp : publish.IsHushed I) (line : SpokenLine) :
    (Director.playVoice (wiring publish .audio) line).Meets (Sounds I (· = none))
      (fun _ ↦ Sounds I fun clip ↦ clip = none ∨ clip = line.audio) (SoundsLine I) := by
  have hnone : ∀ s : Stage, s.Sounds I (· = none) →
      s.Sounds I fun clip ↦ clip = none ∨ clip = line.audio :=
    fun s hs ↦ hs.mono fun _ ↦ .inl
  refine .after_read fun director ↦ ?_
  cases haudio : line.audio with
  | none => exact .pure fun s hs ↦ haudio ▸ hnone s hs
  | some handle =>
      rw [haudio] at hnone
      simp only [wiring, voice?]
      split
      · exact .bind (meets_playAudio hp handle _ _) fun _ ↦ .pure fun _ h ↦ h
      · exact .pure hnone

/-! ## Steps -/

theorem isHeard_of_lineEvent {line : SpokenLine}
    (hs : s.Sounds I fun clip ↦ clip = none ∨ clip = line.audio)
    (hlast : s.bus.announced.getLast? = some (Director.lineEvent line)) : s.IsHeard where
  toIsVoiced := hs.voiced
  line handle hcurrent := by
    obtain ⟨told, htold⟩ := List.getLast?_eq_some_iff.mp hlast
    refine ⟨line, ?_, ?_⟩
    · rw [htold, List.filter_append]
      exact List.getLast?_concat
    · rcases hs.clip with hclip | hclip
      · rw [hclip] at hcurrent
        cases hcurrent
      · rw [← hclip, hcurrent]

theorem meets_showLine (hp : publish.IsHushed I) (id : Int) (line : SpokenLine) :
    (Director.showLine (wiring publish .audio) id line).Meets (Sounds I (· = none))
      (fun _ ↦ SoundsLine I) (SoundsLine I) := by
  refine .bind (meets_playVoice hp line) fun _ ↦ ?_
  refine .bind (meets_publish hp (by simp [Director.nodeEvent]) rfl) fun _ ↦ ?_
  refine .bind (.pre (meets_publish hp (by simp [Director.lineEvent]) rfl) fun _ h ↦ h.1) fun _ ↦ ?_
  exact .pure fun _ hs ↦ ⟨hs.1.kind, isHeard_of_lineEvent hs.1 hs.2⟩

theorem meets_disable (hp : publish.IsHushed I) :
    (Director.disable (wiring publish .audio)).Meets (Sounds I C) (fun _ ↦ Sounds I C) E := by
  apply Act.Meets.of_returned
  intro s hs
  refine ⟨(), _, disable_apply publish .audio s, ?_⟩
  split
  · refine ⟨hp.ignore hs.kind, hs.voiced.soundsLike ⟨rfl, rfl, rfl, rfl, ?_⟩, hs.clip⟩
    simp [Bus.announced]
  · exact hs

/-- No clip is playing when a dialogue is over. -/
theorem meets_close (hp : publish.IsHushed I) :
    (Director.close (wiring publish .audio)).Meets (Sounds I fun _ ↦ True)
      (fun _ ↦ Sounds I (· = none)) E := by
  refine .after_read fun director ↦ ?_
  refine .bind (meets_disable hp) fun _ ↦ .bind (meets_stopAudio hp) fun _ ↦ ?_
  split
  · refine .after_read fun later ↦ ?_
    refine .bind (meets_publish hp (by simp [Director.dialogueEvent]) rfl) fun _ ↦ ?_
    exact .pure fun _ h ↦ h.1
  · exact .pure fun _ h ↦ h

theorem meets_execute (hp : publish.IsHushed I) (logLines : Bool) (record : Record) :
    (Playback.execute (Director.callbacks (wiring publish .audio) logLines) record).Meets
      (Sounds I (· = none)) (fun _ ↦ SoundsLine I) (SoundsLine I) := by
  rw [Playback.execute]
  cases record.playableLine? with
  | none => exact .fail Sounds.soundsLine
  | some line =>
      have hshow := Act.Meets.bind (meets_showLine hp record.id line) fun _ ↦
        .update (τ := Playback)
          (f := fun p ↦ { p with cursor := record.successor, state := .active })
          (E := SoundsLine I) (Q := fun _ ↦ SoundsLine I)
          fun s hs ↦ hs.stays hp (s.stays_playback _)
      cases logLines with
      | true => exact .bind (meets_report hp _) fun _ ↦ hshow
      | false => exact hshow

theorem meets_terminate (hp : publish.IsHushed I) (logLines : Bool) :
    (Playback.terminate (Director.callbacks (wiring publish .audio) logLines)).Meets
      (Sounds I (· = none)) (fun _ ↦ Sounds I (· = none)) E := by
  refine .bind (meets_update hp fun s ↦ s.stays_playback _) fun _ ↦ ?_
  refine .bind (meets_report hp _) fun _ ↦ (meets_close hp).pre fun s hs ↦ ?_
  exact hs.mono fun _ _ ↦ trivial

theorem meets_step (hp : publish.IsHushed I) (logLines : Bool) :
    (Playback.step (Director.callbacks (wiring publish .audio) logLines)).Meets
      (Sounds I (· = none)) (fun _ ↦ SoundsLine I) (SoundsLine I) := by
  refine .after_read fun playback ↦ ?_
  cases playback.current? with
  | none =>
      exact .bind (meets_terminate hp logLines) fun _ ↦ .pure Sounds.soundsLine
  | some record =>
      exact .bind (meets_execute hp logLines record) fun _ ↦ .pure fun _ h ↦ h

theorem meets_playback (hp : publish.IsHushed I) (logLines : Bool) :
    (Playback.advance (Director.callbacks (wiring publish .audio) logLines)).Meets
      (Sounds I (· = none)) (fun _ ↦ SoundsLine I) (SoundsLine I) := by
  have hstep : (do
      Part.update Playback fun p ↦ { p with advancing := true }
      Act.ensure (Playback.step (Director.callbacks (wiring publish .audio) logLines))
        (Playback.setAdvancing false) : Act Stage Bool).Meets
      (Sounds I (· = none)) (fun _ ↦ SoundsLine I) (SoundsLine I) := by
    refine .bind (meets_update hp fun s ↦ s.stays_playback _) fun _ ↦ ?_
    exact .ensure (meets_step hp logLines) (fun _ s hs ↦ hs.stays hp (s.stays_playback _))
      fun s hs ↦ hs.stays hp (s.stays_playback _)
  refine .after_read fun playback ↦ ?_
  dsimp only
  split
  · exact .bind (.fail Sounds.soundsLine) fun _ ↦ hstep
  · exact hstep

/-- A step of the director stops the clip that is playing.  Another one is playing afterwards only
if its line has been shown. -/
theorem meets_advance (hp : publish.IsHushed I) :
    (Director.advance (wiring publish .audio)).Meets (Sounds I fun _ ↦ True)
      (fun _ ↦ SoundsLine I) (SoundsLine I) := by
  apply Act.Meets.bind_read
  intro director
  dsimp only
  split
  · exact .pre (.bind (meets_stopAudio hp) fun _ ↦ meets_playback hp _) fun _ h ↦ h.2
  · next hstops =>
      rintro s ⟨rfl, hs⟩
      exact absurd hs.voiced.stops hstops

/-! ## Beginning and breaking off -/

theorem meets_enable (publish : Publisher Stage) (hl : Admits I) :
    (Director.enable (wiring publish .audio)).Meets (Sounds I C) (fun _ ↦ Sounds I C) E := by
  apply Act.Meets.of_returned
  intro s hs
  rw [enable_apply]
  cases henabled : s.director.isEnabled with
  | true => exact ⟨(), s, rfl, hs⟩
  | false =>
      obtain ⟨hplace, hlistening⟩ := hl s hs.kind henabled
      refine ⟨(), s.listening, by simp [hplace], hlistening, ?_, hs.clip⟩
      exact hs.voiced.soundsLike ⟨rfl, rfl, rfl, rfl, rfl⟩

theorem meets_start (hp : publish.IsHushed I) (hl : Admits I) (graph : CompiledGraph) (id : Value) :
    (Director.start (wiring publish .audio) graph id).Meets (Sounds I fun _ ↦ True)
      (fun _ ↦ SoundsLine I) (SoundsLine I) := by
  have hupdate {τ : Type} [Part τ Stage] {f : τ → τ}
      (h : ∀ s : Stage, s.Stays (Part.set (f (Part.get s)) s)) :
      (Part.update τ f : Act Stage Unit).Meets (Sounds I fun _ ↦ True)
        (fun _ ↦ Sounds I fun _ ↦ True) (SoundsLine I) := meets_update hp h
  refine .bind (hupdate fun _ ↦ ⟨⟨rfl, rfl, rfl, rfl, rfl⟩, rfl, rfl, rfl⟩) fun _ ↦ ?_
  refine .bind (.bind (hupdate fun s ↦ s.stays_journal _) fun _ ↦
    hupdate fun s ↦ s.stays_playback _) fun _ ↦ ?_
  refine .bind (meets_enable publish hl) fun _ ↦ ?_
  refine .bind (meets_publish hp (by simp [Director.dialogueEvent]) rfl) fun _ ↦ ?_
  exact .bind (.pre (meets_advance hp) fun _ h ↦ h.1) fun _ ↦ .pure fun _ h ↦ h

theorem meets_play (hp : publish.IsHushed I) (hl : Admits I) (id : Value) :
    (Director.play (wiring publish .audio) id).Meets (SoundsLine I) (fun _ ↦ SoundsLine I)
      (SoundsLine I) := by
  have hreport (entry : LogEntry) : (do
      Journal.report entry
      return false : Act Stage Bool).Meets (SoundsLine I) (fun _ ↦ SoundsLine I)
        (SoundsLine I) := by
    refine .bind (.update fun s hs ↦ ?_) fun _ ↦ .pure fun _ h ↦ h
    exact hs.stays hp (s.stays_journal _)
  refine .after_read fun director ↦ ?_
  cases director.database with
  | none => exact hreport _
  | some db =>
      refine .bind (.ofExcept (Q := fun _ ↦ SoundsLine I) (fun _ _ h ↦ h) fun _ h ↦ h)
        fun found ↦ ?_
      cases found with
      | none => exact hreport _
      | some graph =>
          refine .bind (.pre (meets_start hp hl graph id) fun _ hs ↦ hs.sounds) fun _ ↦ ?_
          exact .pure fun _ h ↦ h

theorem meets_stop (hp : publish.IsHushed I) :
    (Director.stop (wiring publish .audio)).Meets (Sounds I fun _ ↦ True)
      (fun _ ↦ Sounds I (· = none)) E :=
  .bind (meets_update hp fun s ↦ s.stays_playback _) fun _ ↦ meets_close hp

end Stage

end LinearDialogue
