import LinearDialogue.Stage
import LinearDialogue.Proofs.Acts
import LinearDialogue.Proofs.Rounds

/-!
# Voice clips

What the director does to voice clips where those who are told of it do nothing about the dialogue:
inside a delivery, where events wait, and outside of one, if nobody who hears of an event acts on
the dialogue.  Playing or stopping a clip announces at most one event; a clip whose path is too long
is the only failure.
-/

namespace LinearDialogue

namespace Stage

@[simp] theorem get_bus (s : Stage) : (Part.get s : Bus StageListener) = s.bus := rfl

@[simp] theorem set_bus (b : Bus StageListener) (s : Stage) : Part.set b s = { s with bus := b } :=
  rfl

@[simp] theorem get_handlers (s : Stage) : (Part.get s : List StageHandler) = s.handlers := rfl

@[simp] theorem set_handlers (handlers : List StageHandler) (s : Stage) :
    Part.set handlers s = { s with handlers } := rfl

@[simp] theorem get_director (s : Stage) : (Part.get s : Director) = s.director := rfl

@[simp] theorem set_director (d : Director) (s : Stage) : Part.set d s = { s with director := d } :=
  rfl

@[simp] theorem get_playback (s : Stage) : (Part.get s : Playback) = s.playback := rfl

@[simp] theorem set_playback (p : Playback) (s : Stage) : Part.set p s = { s with playback := p } :=
  rfl

@[simp] theorem get_audio (s : Stage) : (Part.get s : Audio) = s.audio := rfl

@[simp] theorem set_audio (a : Audio) (s : Stage) : Part.set a s = { s with audio := a } := rfl

@[simp] theorem get_journal (s : Stage) : (Part.get s : Journal) = s.journal := rfl

@[simp] theorem set_journal (j : Journal) (s : Stage) :
    Part.set j s = { s with journal := j } := rfl

/-- A stage has come to another one: with a given director and playback, and having announced some
events. -/
structure Becomes (s : Stage) (es : List Event) (d : Director) (p : Playback)
    (t : Stage) : Prop where
  director : t.director = d
  playback : t.playback = p
  speaker : t.speaker = s.speaker
  announced : t.bus.announced = s.bus.announced ++ es

theorem Becomes.refl (s : Stage) : s.Becomes [] s.director s.playback s :=
  ⟨rfl, rfl, rfl, by rw [List.append_nil]⟩

theorem Becomes.trans {s t u : Stage} {es fs : List Event} {d e : Director} {p q : Playback}
    (hst : s.Becomes es d p t) (htu : t.Becomes fs e q u) : s.Becomes (es ++ fs) e q u where
  director := htu.director
  playback := htu.playback
  speaker := htu.speaker.trans hst.speaker
  announced := by rw [htu.announced, hst.announced, List.append_assoc]

end Stage

/-- An event about a voice clip. -/
def Event.IsVoice (event : Event) : Prop := event.type = .voiceStarted ∨ event.type = .voiceStopped

/-- A way to publish, from the stages of a kind, after which nobody has acted on the dialogue. -/
structure Publisher.IsQuiet (publish : Publisher Stage) (I : Stage → Prop) : Prop where
  publish : ∀ {s : Stage} {event : Event}, I s → event.type ≠ .actionPressed →
    ∃ e t, publish event s = (.returned e, t) ∧ I t ∧
      s.Becomes [event] s.director s.playback t
  ignore : ∀ {s : Stage}, I s →
    I { s with
      bus := s.bus.unsubscribe s.holds .actionPressed .director
      director := { s.director with isEnabled := false } }
  keep : ∀ {s t : Stage}, I s → t.bus = s.bus → t.handlers = s.handlers →
    t.director.isEnabled = s.director.isEnabled → I t

/-- A way to publish that a voice clip has stopped, after which nobody has acted on the dialogue. -/
structure Publisher.StopsQuietly (publish : Publisher Stage) (I : Stage → Prop) : Prop where
  publish : ∀ {s : Stage} {event : Event}, I s → event.type = .voiceStopped →
    ∃ e t, publish event s = (.returned e, t) ∧ I t ∧
      s.Becomes [event] s.director s.playback t
  keep : ∀ {s t : Stage}, I s → t.bus = s.bus → t.handlers = s.handlers →
    t.director.isEnabled = s.director.isEnabled → I t

theorem Publisher.IsQuiet.stopsQuietly {publish : Publisher Stage} {I : Stage → Prop}
    (h : publish.IsQuiet I) : publish.StopsQuietly I where
  publish hs htype := h.publish hs (by rw [htype]; nofun)
  keep := h.keep

/-! ## Loading -/

/-- A relation along which a clip is loaded: what the mixer is told is noted, what has gone wrong is
reported, and the clip is kept. -/
structure Audio.Loads {σ : Type} [Part Audio σ] [Part Journal σ] (R : σ → σ → Prop) : Prop where
  chains : Act.Chains R
  note : ∀ call : MixerCall, (Journal.note (.mixer call) : Act σ Unit).Along R
  report : ∀ entry : LogEntry, (Journal.report entry : Act σ Unit).Along R
  keep : ∀ clip : String × String,
    (Part.update Audio fun audio ↦ { audio with cache := audio.cache ++ [clip] } :
      Act σ Unit).Along R

namespace Audio.Loads

variable {σ : Type} [Part Audio σ] [Part Mixer σ] [Part Disk σ] [Part Journal σ]
  {R : σ → σ → Prop}

theorem load (h : Loads R) (handle : String) :
    (Audio.load handle : Act σ (Option String)).Along R := by
  refine .bind h.chains (.read h.chains) fun disk ↦ .bind h.chains (.read h.chains) fun audio ↦ ?_
  refine .bind h.chains (.ofExcept h.chains _) fun path ↦ ?_
  refine .bind h.chains (.ofExcept h.chains _) fun found ↦ ?_
  split
  · exact .bind h.chains (h.report _) fun _ ↦ .pure h.chains _
  · refine .bind h.chains (h.note _) fun _ ↦ .bind h.chains (.read h.chains) fun mixer ↦ ?_
    split
    · exact .bind h.chains (h.keep _) fun _ ↦ .pure h.chains _
    · exact .bind h.chains (h.report _) fun _ ↦ .pure h.chains _

theorem clip? (h : Loads R) (handle : Value) :
    (Audio.clip? handle : Act σ (Option String)).Along R := by
  refine .bind h.chains (.read h.chains) fun audio ↦ ?_
  split
  · exact .pure h.chains _
  · split
    · split
      · exact .pure h.chains _
      · exact h.load _
    · exact .fail h.chains _

end Audio.Loads

namespace Stage

variable {publish : Publisher Stage} {I : Stage → Prop} {s : Stage} {speaker : Speaker}

/-! ## Clips -/

theorem exists_stopAudio (hp : publish.StopsQuietly I) (hs : I s) :
    ∃ voices t, Audio.stop publish s = (.returned (), t) ∧ I t ∧
      s.Becomes voices s.director s.playback t ∧ voices.length ≤ 1 ∧ ∀ e ∈ voices, e.IsVoice := by
  cases hcurrent : s.audio.current with
  | none =>
      refine ⟨[], s, ?_, hs, .refl s, Nat.zero_le _, by simp⟩
      simp [Audio.stop, Act.bind_apply, hcurrent]
  | some handle =>
      cases hchannel : s.audio.hasChannel with
      | false =>
          refine ⟨[], s, ?_, hs, .refl s, Nat.zero_le _, by simp⟩
          simp [Audio.stop, Act.bind_apply, hcurrent, hchannel]
      | true =>
          have hstopped : I { s with
              journal.notes := s.journal.notes ++ [.mixer .stop]
              audio.current := none } := hp.keep hs rfl rfl rfl
          obtain ⟨e, t, hrun, ht, hbecomes⟩ :=
            hp.publish hstopped (show (Audio.voiceEvent .voiceStopped handle).type = _ from rfl)
          refine ⟨[Audio.voiceEvent .voiceStopped handle], t, ?_, ht, ?_, Nat.le_refl _, ?_⟩
          · simp only [Audio.stop, Act.bind_apply, Part.read_apply, get_audio, hcurrent, hchannel]
            exact Act.bind_of_returned hrun _
          · exact ⟨hbecomes.director, hbecomes.playback, hbecomes.speaker, hbecomes.announced⟩
          · intro e he
            rw [List.mem_singleton.mp he]
            exact .inr rfl

/-- The failure of a voice clip whose path is too long. -/
def IsFileFailure (failure : Failure) : Prop := ∃ path, failure = .file .nameTooLong path

theorem isFileFailure_of_exists? {disk : Disk} {path : Path} {failure : Failure}
    (h : disk.exists? path = .error failure) : IsFileFailure failure := by
  rw [Disk.exists?, Disk.check] at h
  split at h
  · cases h
  · cases h
    exact ⟨_, rfl⟩
  · cases h

theorem isFileFailure_of_resolve {audio : Audio} {disk : Disk} {handle : String} {failure : Failure}
    (h : audio.resolve disk handle = .error failure) : IsFileFailure failure := by
  rw [Audio.resolve] at h
  split at h
  · cases h
  · cases hexists : disk.exists? (Path.ofText handle) with
    | ok found => rw [hexists] at h; cases h
    | error e =>
        rw [hexists] at h
        cases h
        exact isFileFailure_of_exists? hexists

/-- A stage that differs in audio and journal only. -/
structure Rests (s t : Stage) : Prop where
  bus : t.bus = s.bus
  handlers : t.handlers = s.handlers
  director : t.director = s.director
  playback : t.playback = s.playback
  speaker : t.speaker = s.speaker
  input : t.input = s.input

theorem Rests.becomes {s t : Stage} (h : s.Rests t) : s.Becomes [] s.director s.playback t :=
  ⟨h.director, h.playback, h.speaker, by rw [h.bus, List.append_nil]⟩

theorem Rests.keep {s t : Stage} (h : s.Rests t) (hp : publish.StopsQuietly I) (hs : I s) : I t :=
  hp.keep hs h.bus h.handlers (by rw [h.director])

theorem rests_chains : Act.Chains Rests where
  refl _ := ⟨rfl, rfl, rfl, rfl, rfl, rfl⟩
  trans h k := ⟨k.bus.trans h.bus, k.handlers.trans h.handlers, k.director.trans h.director,
    k.playback.trans h.playback, k.speaker.trans h.speaker, k.input.trans h.input⟩

theorem along_updateJournal (f : Journal → Journal) :
    (Part.update Journal f : Act Stage Unit).Along Rests := fun _ ↦ ⟨rfl, rfl, rfl, rfl, rfl, rfl⟩

theorem along_updateAudio (f : Audio → Audio) :
    (Part.update Audio f : Act Stage Unit).Along Rests := fun _ ↦ ⟨rfl, rfl, rfl, rfl, rfl, rfl⟩

theorem loads_rests : Audio.Loads Rests where
  chains := rests_chains
  note _ := along_updateJournal _
  report _ := along_updateJournal _
  keep _ := along_updateAudio _

theorem ends_load (handle : String) :
    (Audio.load handle : Act Stage (Option String)).Ends IsFileFailure := by
  refine .bind .read fun disk ↦ .bind .read fun audio ↦ ?_
  refine .bind (.ofExcept fun f ↦ isFileFailure_of_resolve) fun path ↦ ?_
  refine .bind (.ofExcept fun f ↦ isFileFailure_of_exists?) fun found ↦ ?_
  split
  · exact .bind (.update _) fun _ ↦ .pure _
  · refine .bind (.update _) fun _ ↦ .bind .read fun mixer ↦ ?_
    split
    · exact .bind (.update _) fun _ ↦ .pure _
    · exact .bind (.update _) fun _ ↦ .pure _

theorem ends_clip? (handle : String) :
    (Audio.clip? (.text handle) : Act Stage (Option String)).Ends IsFileFailure := by
  refine .bind .read fun audio ↦ ?_
  split
  · exact .pure _
  · dsimp only
    split
    · exact .pure _
    · exact ends_load handle

theorem exists_playAudio (hp : publish.IsQuiet I) (hs : I s) (handle category : String)
    (volume : Binary64) :
    ∃ outcome voices t,
      Audio.play publish (.text handle) (.text category) (.float volume) s = (outcome, t) ∧ I t ∧
      s.Becomes voices s.director s.playback t ∧ voices.length ≤ 1 ∧ (∀ e ∈ voices, e.IsVoice) ∧
      ((∃ played, outcome = .returned played) ∨ ∃ f, outcome = .failed f ∧ IsFileFailure f) := by
  obtain ⟨u, hu⟩ : ∃ u, (Audio.clip? (.text handle) s).2 = u := ⟨_, rfl⟩
  have hrests : s.Rests u := hu ▸ loads_rests.clip? (.text handle) s
  have hIu : I u := hrests.keep hp.stopsQuietly hs
  have hquiet : s.Becomes [] s.director s.playback u := hrests.becomes
  rcases ends_clip? handle s with ⟨clip, hclip⟩ | ⟨f, hf, hfile⟩
  · have hrun : Audio.clip? (.text handle) s = (.returned clip, u) := by rw [← hclip, ← hu]
    have hsilent (h : clip = none ∨ u.audio.hasChannel = false) :
        Audio.play publish (.text handle) (.text category) (.float volume) s =
          (.returned false, u) := by
      rw [Audio.play, Act.bind_of_returned hrun,
        Act.bind_of_returned (Part.read_apply u), get_audio]
      rcases h with h | h <;> rw [h]
      · rfl
      · cases clip <;> rfl
    cases clip with
    | none =>
        exact ⟨_, [], u, hsilent (.inl rfl), hIu, hquiet, Nat.zero_le _, by simp, .inl ⟨_, rfl⟩⟩
    | some clip =>
        cases hchannel : u.audio.hasChannel with
        | false =>
            exact ⟨_, [], u, hsilent (.inr hchannel), hIu, hquiet, Nat.zero_le _, by simp,
              .inl ⟨_, rfl⟩⟩
        | true =>
            obtain ⟨own, hown⟩ : ∃ own, u.audio.volume (.text category) = .ok own := ⟨_, rfl⟩
            have hstarted : I { u with
                journal.notes := u.journal.notes ++ [.mixer (.setVolume (own.mul volume))] ++
                  [.mixer (.play clip)]
                audio.current := some (Value.text handle).plain } := hp.keep hIu rfl rfl rfl
            obtain ⟨e, t, hpublish, ht, hbecomes⟩ := hp.publish hstarted
              (show (Audio.voiceEvent .voiceStarted (Value.text handle).plain).type ≠ _ from nofun)
            refine ⟨.returned true, _, t, ?_, ht,
              hquiet.trans ⟨?_, ?_, hbecomes.speaker, hbecomes.announced⟩, Nat.le_refl _, ?_,
              .inl ⟨_, rfl⟩⟩
            · rw [Audio.play, Act.bind_of_returned hrun, Act.bind_of_returned (Part.read_apply u),
                get_audio]
              simp only [hchannel, hown]
              exact Act.bind_of_returned hpublish _
            · exact hbecomes.director.trans hrests.director
            · exact hbecomes.playback.trans hrests.playback
            · intro event hevent
              rw [List.mem_singleton.mp hevent]
              exact .inl rfl
  · have hrun : Audio.clip? (.text handle) s = (.failed f, u) := by rw [← hf, ← hu]
    refine ⟨.failed f, [], u, ?_, hIu, hquiet, Nat.zero_le _, by simp, .inr ⟨f, rfl, hfile⟩⟩
    rw [Audio.play, Act.bind_of_failed hrun]

theorem exists_stopVoice (hp : publish.StopsQuietly I) (hs : I s) (speaker : Speaker) :
    ∃ voices t, Director.stopVoice (wiring publish speaker) s = (.returned (), t) ∧ I t ∧
      s.Becomes voices s.director s.playback t ∧ voices.length ≤ 1 ∧ ∀ e ∈ voices, e.IsVoice := by
  cases speaker with
  | absent => exact ⟨[], s, rfl, hs, .refl s, Nat.zero_le _, by simp⟩
  | recorder =>
      have hrests := along_updateJournal
        (fun j ↦ { j with notes := j.notes ++ [.voice .stop] }) s
      exact ⟨[], _, rfl, hrests.keep hp hs, hrests.becomes, Nat.zero_le _, by simp⟩
  | audio => exact exists_stopAudio hp hs

theorem exists_playVoice (hp : publish.IsQuiet I) (hs : I s) (speaker : Speaker)
    (line : SpokenLine) :
    ∃ outcome voices t, Director.playVoice (wiring publish speaker) line s = (outcome, t) ∧ I t ∧
      s.Becomes voices s.director s.playback t ∧ voices.length ≤ 1 ∧ (∀ e ∈ voices, e.IsVoice) ∧
      (outcome = .returned () ∨ ∃ f, outcome = .failed f ∧ IsFileFailure f ∧ speaker = .audio) := by
  rw [Director.playVoice, Act.bind_of_returned (Part.read_apply s), get_director]
  cases hhandle : line.audio with
  | none => exact ⟨_, [], s, rfl, hs, .refl s, Nat.zero_le _, by simp, .inl rfl⟩
  | some handle =>
      cases speaker with
      | absent => exact ⟨_, [], s, rfl, hs, .refl s, Nat.zero_le _, by simp, .inl rfl⟩
      | recorder =>
          simp only [wiring, voice?]
          split
          · have hrests := along_updateJournal (fun j ↦ { j with notes := j.notes ++
              [.voice (.play handle s.director.settings.voiceCategory
                s.director.settings.voiceVolume)] }) s
            exact ⟨_, [], _, rfl, hrests.keep hp.stopsQuietly hs, hrests.becomes, Nat.zero_le _,
              by simp, .inl rfl⟩
          · exact ⟨_, [], s, rfl, hs, .refl s, Nat.zero_le _, by simp, .inl rfl⟩
      | audio =>
          simp only [wiring, voice?]
          split
          · obtain ⟨outcome, voices, t, hrun, ht, hbecomes, hlength, hvoices, hend⟩ :=
              exists_playAudio hp hs handle s.director.settings.voiceCategory
                s.director.settings.voiceVolume
            rcases hend with ⟨played, rfl⟩ | ⟨f, rfl, hfile⟩
            · exact ⟨_, voices, t, Act.bind_of_returned hrun _, ht, hbecomes, hlength, hvoices,
                .inl rfl⟩
            · exact ⟨_, voices, t, Act.bind_of_failed hrun _, ht, hbecomes, hlength, hvoices,
                .inr ⟨f, rfl, hfile, trivial⟩⟩
          · exact ⟨_, [], s, rfl, hs, .refl s, Nat.zero_le _, by simp, .inl rfl⟩

end Stage

end LinearDialogue
