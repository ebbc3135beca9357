import LinearDialogue.Proofs.StuckActions
import LinearDialogue.Proofs.Voices

/-!
# Audio sessions

A session of audio begins when it is started and ends when it is shut down.  A clip that is started
is current until it is stopped or another one is started, and to shut audio down is neither: the
clip that is current then stays so, and may be stopped in a later session.  This is all that a
session can leave to the next one.
-/

namespace LinearDialogue

/-- An operation on audio, or a change of the files. -/
inductive AudioOp
  | start (frequency size channels buffer : Value)
  | shutDown
  | play (handle category volume : Value)
  | stop
  | files (disk : Disk)

namespace AudioOp

/-- Perform an operation; the answer is whether it has started a clip. -/
def perform : AudioOp → Act Booth Bool
  | .start frequency size channels buffer => do
    Audio.start frequency size channels buffer
    return false
  | .shutDown => do
    Audio.shutDown
    return false
  | .play handle category volume => Audio.play Booth.announce handle category volume
  | .stop => do
    Audio.stop Booth.announce
    return false
  | .files disk => do
    Part.update Disk fun _ ↦ disk
    return false

/-- The clip that an operation starts. -/
def started? (s : Booth) : AudioOp → Option String
  | .play handle category volume =>
    if (Audio.play Booth.announce handle category volume s).1.result? = some true then
      some handle.plain
    else none
  | _ => none

def stopped? (s : Booth) : AudioOp → Option String
  | .stop => if s.audio.hasChannel then s.audio.current else none
  | _ => none

def tells (s : Booth) (op : AudioOp) : List Event :=
  (op.started? s).toList.map (Audio.voiceEvent .voiceStarted) ++
    (op.stopped? s).toList.map (Audio.voiceEvent .voiceStopped)

def leavesUp (s : Booth) : AudioOp → Bool
  | .start .. => true
  | .shutDown => false
  | _ => s.audio.isUp

def leaves? (s : Booth) (op : AudioOp) : Option String :=
  if (op.stopped? s).isSome then none else (op.started? s).or s.audio.current

/-- After an operation no clip of before is playing: another one has been started, or the clip has
been stopped, or the session is over, or a new one has begun. -/
def Cuts (s : Booth) : AudioOp → Prop
  | .start .. => s.audio.isUp = false
  | .shutDown | .stop => True
  | .play handle category volume => (started? s (.play handle category volume)).isSome
  | .files _ => False

end AudioOp

namespace Booth

variable {s t : Booth} {ops : List AudioOp} {op : AudioOp}

def played (s : Booth) (ops : List AudioOp) : Booth := ops.foldl (fun s op ↦ (op.perform s).2) s

theorem played_append_singleton (s : Booth) (ops : List AudioOp) (op : AudioOp) :
    s.played (ops ++ [op]) = (op.perform (s.played ops)).2 := List.foldl_concat ..

@[simp] theorem get_audio (s : Booth) : (Part.get s : Audio) = s.audio := rfl

@[simp] theorem get_mixer (s : Booth) : (Part.get s : Mixer) = s.mixer := rfl

/-! ## What an operation does -/

/-- Audio has a channel just while it is up, and the mixer does not refuse to start. -/
structure IsReady (s : Booth) : Prop where
  channel : s.audio.hasChannel = s.audio.isUp
  willing : s.mixer.refusal = none

/-- One booth has come from another by an operation. -/
structure Follows (s : Booth) (op : AudioOp) (t : Booth) : Prop where
  ready : t.IsReady
  observed : t.isObserved = s.isObserved
  isUp : t.audio.isUp = op.leavesUp s
  current : t.audio.current = op.leaves? s
  announced : t.announced = s.announced ++ if s.isObserved then op.tells s else []

/-- Two booths that differ in files, loaded clips and the notes about the mixer only. -/
structure Resembles (s t : Booth) : Prop where
  channel : t.audio.hasChannel = s.audio.hasChannel
  isUp : t.audio.isUp = s.audio.isUp
  current : t.audio.current = s.audio.current
  refusal : t.mixer.refusal = s.mixer.refusal
  observed : t.isObserved = s.isObserved
  announced : t.announced = s.announced

theorem resembles_chains : Act.Chains Resembles where
  refl _ := ⟨rfl, rfl, rfl, rfl, rfl, rfl⟩
  trans h k := ⟨k.channel.trans h.channel, k.isUp.trans h.isUp, k.current.trans h.current,
    k.refusal.trans h.refusal, k.observed.trans h.observed, k.announced.trans h.announced⟩

/-- What is noted about the mixer is not announced. -/
theorem announced_of_notes (calls : List MixerCall)
    (h : t.journal.notes = s.journal.notes ++ calls.map .mixer) : t.announced = s.announced := by
  rw [announced, h, List.filterMap_append, List.filterMap_map]
  simp [announced]

theorem resembles_note (call : MixerCall) :
    (Journal.note (.mixer call) : Act Booth Unit).Along Resembles :=
  fun _ ↦ ⟨rfl, rfl, rfl, rfl, rfl, announced_of_notes [call] rfl⟩

theorem resembles_report (entry : LogEntry) :
    (Journal.report entry : Act Booth Unit).Along Resembles :=
  fun _ ↦ ⟨rfl, rfl, rfl, rfl, rfl, rfl⟩

theorem loads_resembles : Audio.Loads Resembles where
  chains := resembles_chains
  note := resembles_note
  report := resembles_report
  keep _ _ := ⟨rfl, rfl, rfl, rfl, rfl, rfl⟩

/-- An operation that starts and stops no clip, and no session. -/
theorem Resembles.follows (h : s.Resembles t) (hs : s.IsReady) (hstarted : op.started? s = none)
    (hstopped : op.stopped? s = none) (hup : op.leavesUp s = s.audio.isUp) : s.Follows op t where
  ready := ⟨by rw [h.channel, h.isUp, hs.channel], h.refusal.trans hs.willing⟩
  observed := h.observed
  isUp := h.isUp.trans hup.symm
  current := by simp [h.current, AudioOp.leaves?, hstarted, hstopped]
  announced := by simp [h.announced, AudioOp.tells, hstarted, hstopped]

theorem exists_startMixer (hs : s.IsReady) (frequency size channels buffer : Value) :
    ∃ t, (Audio.startMixer frequency size channels buffer : Act Booth (Option String)) s =
      (.returned none, t) ∧ s.Resembles t := by
  rw [Audio.startMixer, Act.bind_of_returned (Part.read_apply s), get_mixer]
  by_cases hup : s.mixer.isUp = true
  · rw [if_pos hup]
    exact ⟨s, rfl, resembles_chains.refl s⟩
  · rw [if_neg hup, hs.willing]
    exact ⟨_, rfl, rfl, rfl, rfl, rfl, rfl, announced_of_notes [_] rfl⟩

theorem follows_start (hs : s.IsReady) (frequency size channels buffer : Value) :
    s.Follows (.start frequency size channels buffer)
      ((AudioOp.start frequency size channels buffer).perform s).2 := by
  obtain ⟨t, hmixer, ht⟩ := exists_startMixer hs frequency size channels buffer
  have hstart : ((AudioOp.start frequency size channels buffer).perform s).2 = { t with
      audio := { t.audio with hasChannel := true, isUp := true }
      journal.notes := t.journal.notes ++ [.mixer (.setChannelCount 16)] ++
        [.mixer (.reserve (Audio.voiceChannel + 1))] ++ [.mixer (.channel Audio.voiceChannel)]
      journal.log := t.journal.log ++ [Audio.entry .info "Audio system initialized."] } := by
    rw [AudioOp.perform, Act.bind_pure_apply, Audio.start, Act.bind_of_returned hmixer]
    rfl
  rw [hstart]
  exact ⟨⟨rfl, ht.refusal.trans hs.willing⟩, ht.observed, rfl, ht.current, by
    simpa [announced, AudioOp.tells, AudioOp.started?, AudioOp.stopped?] using ht.announced⟩

theorem follows_shutDown (hs : s.IsReady) :
    s.Follows .shutDown (AudioOp.shutDown.perform s).2 where
  ready := ⟨rfl, hs.willing⟩
  observed := rfl
  isUp := rfl
  current := rfl
  announced := by
    rw [announced_of_notes (s := s) [.quit] rfl]
    simp [AudioOp.tells, AudioOp.started?, AudioOp.stopped?]

theorem follows_stop (hs : s.IsReady) : s.Follows .stop (AudioOp.stop.perform s).2 := by
  have hsilent (hstop : Audio.stop announce s = (.returned (), s))
      (hstopped : AudioOp.stop.stopped? s = none) :
      s.Follows .stop (AudioOp.stop.perform s).2 := by
    rw [AudioOp.perform, Act.bind_pure_apply, hstop]
    exact (resembles_chains.refl s).follows hs rfl hstopped rfl
  rw [Audio.stop, Act.bind_of_returned (Part.read_apply s), get_audio] at hsilent
  cases hcurrent : s.audio.current with
  | none => exact hsilent (by rw [hcurrent]; rfl) (by simp [AudioOp.stopped?, hcurrent])
  | some handle =>
      cases hchannel : s.audio.hasChannel with
      | false =>
          exact hsilent (by rw [hcurrent, hchannel]; rfl) (by simp [AudioOp.stopped?, hchannel])
      | true =>
          let quiet : Booth := { s with
            audio.current := none
            journal.notes := s.journal.notes ++ [.mixer .stop] }
          have hstop : (AudioOp.stop.perform s).2 =
              quiet.tell [Audio.voiceEvent .voiceStopped handle] := by
            rw [AudioOp.perform, Act.bind_pure_apply, Audio.stop,
              Act.bind_of_returned (Part.read_apply s), get_audio, hcurrent, hchannel]
            exact congrArg Prod.snd (Act.bind_of_returned (announce_apply _ quiet) _)
          have hstopped : AudioOp.stop.stopped? s = some handle := by
            rw [AudioOp.stopped?, if_pos hchannel, hcurrent]
          have htells : AudioOp.stop.tells s = [Audio.voiceEvent .voiceStopped handle] := by
            rw [AudioOp.tells, hstopped]
            rfl
          rw [hstop]
          refine ⟨⟨hs.channel, hs.willing⟩, rfl, rfl, ?_, ?_⟩
          · rw [AudioOp.leaves?, hstopped]
            rfl
          · rw [announced_tell, announced_of_notes (s := s) [.stop] rfl, htells]

/-- A clip that is played is started, on the channel, or everything is as before. -/
theorem play_cases (handle category volume : Value) (s : Booth) :
    (∃ t, s.Resembles t ∧ s.audio.hasChannel = true ∧
      Audio.play announce handle category volume s = (.returned true,
        ({ t with audio.current := some handle.plain } : Booth).tell
          [Audio.voiceEvent .voiceStarted handle.plain])) ∨
      s.Resembles (Audio.play announce handle category volume s).2 ∧
        (Audio.play announce handle category volume s).1.result? ≠ some true := by
  obtain ⟨outcome, t, hclip⟩ : ∃ outcome t, Audio.clip? handle s = (outcome, t) := ⟨_, _, rfl⟩
  have ht : s.Resembles t := by
    have hsame := loads_resembles.clip? handle s
    rwa [hclip] at hsame
  cases outcome with
  | failed failure =>
      rw [Audio.play, Act.bind_of_failed hclip]
      exact .inr ⟨ht, by rintro ⟨⟩⟩
  | aborted | stalled =>
      rw [Audio.play, Act.bind_apply, hclip]
      exact .inr ⟨ht, by rintro ⟨⟩⟩
  | returned clip =>
      rw [Audio.play, Act.bind_of_returned hclip,
        Act.bind_of_returned (Part.read_apply t), get_audio]
      cases clip with
      | none => exact .inr ⟨ht, by rintro ⟨⟩⟩
      | some clip =>
          cases hchannel : t.audio.hasChannel with
          | false => exact .inr ⟨ht, by rintro ⟨⟩⟩
          | true =>
              cases hown : t.audio.volume category with
              | error failure => exact .inr ⟨ht, by rintro ⟨⟩⟩
              | ok own =>
                  cases hfactor : Audio.factor volume with
                  | error failure => exact .inr ⟨ht, by rintro ⟨⟩⟩
                  | ok factor =>
                      -- the volume is set and the clip put on the channel, which is not announced
                      let noted : Booth := { t with journal.notes := t.journal.notes ++
                        [.mixer (.setVolume (own.mul factor))] ++ [.mixer (.play clip)] }
                      have hnotes : (Journal.note (.mixer (.setVolume (own.mul factor))) >>= fun _ ↦
                          Journal.note (.mixer (.play clip)) : Act Booth Unit).Along Resembles :=
                        .bind resembles_chains (resembles_note _) fun _ ↦ resembles_note _
                      have hnoted : s.Resembles noted := resembles_chains.trans ht (hnotes t)
                      refine .inl ⟨noted, hnoted, ht.channel.symm.trans hchannel, ?_⟩
                      exact Act.bind_of_returned (announce_apply _ _) _

theorem follows_play (hs : s.IsReady) (handle category volume : Value) :
    s.Follows (.play handle category volume)
      ((AudioOp.play handle category volume).perform s).2 := by
  rcases play_cases handle category volume s with ⟨t, ht, -, hplay⟩ | ⟨hsame, hplay⟩
  · have hstarted : (AudioOp.play handle category volume).started? s = some handle.plain := by
      rw [AudioOp.started?, hplay]
      rfl
    have htells : (AudioOp.play handle category volume).tells s =
        [Audio.voiceEvent .voiceStarted handle.plain] := by
      rw [AudioOp.tells, hstarted]
      rfl
    let playing : Booth := { t with audio.current := some handle.plain }
    have hannounced : playing.announced = s.announced := ht.announced
    have hobserved : playing.isObserved = s.isObserved := ht.observed
    rw [AudioOp.perform, hplay]
    refine ⟨⟨ht.channel.trans (hs.channel.trans ht.isUp.symm), ht.refusal.trans hs.willing⟩,
      hobserved, ht.isUp, ?_, ?_⟩
    · rw [AudioOp.leaves?, hstarted]
      rfl
    · rw [announced_tell, hannounced, hobserved, htells]
  · exact hsame.follows hs (if_neg hplay) rfl rfl

theorem IsReady.follows (hs : s.IsReady) (op : AudioOp) : s.Follows op (op.perform s).2 := by
  cases op with
  | start frequency size channels buffer => exact follows_start hs frequency size channels buffer
  | shutDown => exact follows_shutDown hs
  | play handle category volume => exact follows_play hs handle category volume
  | stop => exact follows_stop hs
  | files disk =>
      have hsame : s.Resembles { s with disk } := ⟨rfl, rfl, rfl, rfl, rfl, rfl⟩
      exact hsame.follows hs rfl rfl rfl

theorem IsReady.isUp_of_started? (hs : s.IsReady) {handle : String}
    (h : op.started? s = some handle) : s.audio.isUp = true := by
  cases op with
  | play clip category volume =>
      rcases play_cases clip category volume s with ⟨_, -, hchannel, -⟩ | ⟨-, hplay⟩
      · exact hs.channel.symm.trans hchannel
      · rw [AudioOp.started?, if_neg hplay] at h
        cases h
  | _ => cases h

/-! ## Runs -/

/-- Audio has not been started yet. -/
structure IsOff (s : Booth) : Prop where
  ready : s.IsReady
  down : s.audio.isUp = false
  silent : s.audio.current = none

/-- No clip is current while audio is not up. -/
def IsClean (s : Booth) : Prop := s.audio.isUp = false → s.audio.current = none

/-- Audio is shut down only while no clip is current. -/
def ShutsDownClean (s : Booth) (ops : List AudioOp) : Prop :=
  Throughout (fun before op ↦ op = .shutDown → (s.played before).audio.current = none) ops

/-- A clip has been started in the session that goes on, and none has been started and nothing has
been stopped since. -/
def HasVoice (s : Booth) (ops : List AudioOp) (handle : String) : Prop :=
  Since (fun before op ↦ op.started? (s.played before) = some handle)
    (fun before op ↦ op.Cuts (s.played before)) ops

/-- A clip has been started, in whatever session, and none has been started and nothing has been
stopped since while audio was up. -/
def LeavesVoice (s : Booth) (ops : List AudioOp) (handle : String) : Prop :=
  Since (fun before op ↦ op.started? (s.played before) = some handle)
    (fun before op ↦ (op.started? (s.played before)).isSome ∨
      op = .stop ∧ (s.played before).audio.isUp = true) ops

theorem IsReady.played (hs : s.IsReady) (ops : List AudioOp) : (s.played ops).IsReady := by
  induction ops using List.reverseRecOn with
  | nil => exact hs
  | append_singleton ops op ih =>
      rw [played_append_singleton]
      exact (ih.follows op).ready

theorem isObserved_played (hs : s.IsReady) (ops : List AudioOp) :
    (s.played ops).isObserved = s.isObserved := by
  induction ops using List.reverseRecOn with
  | nil => rfl
  | append_singleton ops op ih =>
      rw [played_append_singleton]
      exact ((hs.played ops).follows op).observed.trans ih

/-- An operation leaves audio clean unless it shuts audio down while a clip is current. -/
theorem IsReady.isClean_perform_iff (hs : s.IsReady) (hclean : s.IsClean) (op : AudioOp) :
    (op.perform s).2.IsClean ↔ (op = .shutDown → s.audio.current = none) := by
  have hfollows := hs.follows op
  rw [IsClean, hfollows.isUp, hfollows.current]
  cases op with
  | start => simp [AudioOp.leavesUp]
  | shutDown => simp [AudioOp.leavesUp, AudioOp.leaves?, AudioOp.stopped?, AudioOp.started?]
  | play handle category volume =>
      refine iff_of_true (fun hdown ↦ ?_) nofun
      have hup : s.audio.isUp = false := hdown
      cases hstarted : (AudioOp.play handle category volume).started? s with
      | none =>
          rw [AudioOp.leaves?, hstarted]
          exact hclean hup
      | some clip =>
          have hstart := hs.isUp_of_started? hstarted
          rw [hup] at hstart
          cases hstart
  | stop =>
      refine iff_of_true (fun hdown ↦ ?_) nofun
      simp [AudioOp.leaves?, AudioOp.started?, hclean hdown]
  | files => exact iff_of_true hclean nofun

/-- What an operation makes of the current clip, where audio is clean and stays so. -/
theorem IsReady.current_perform_iff (hs : s.IsReady) (hclean : s.IsClean)
    (hshut : op = .shutDown → s.audio.current = none) {handle : String} :
    (op.perform s).2.audio.current = some handle ↔
      s.audio.current = some handle ∧ ¬op.Cuts s ∨ op.started? s = some handle := by
  rw [(hs.follows op).current]
  cases op with
  | start =>
      -- to start audio that is up begins no session, and the clip stays current
      cases hup : s.audio.isUp with
      | true => simp [AudioOp.leaves?, AudioOp.stopped?, AudioOp.started?, AudioOp.Cuts, hup]
      | false => simp [AudioOp.leaves?, AudioOp.stopped?, AudioOp.started?, hclean hup]
  | shutDown => simp [AudioOp.leaves?, AudioOp.stopped?, AudioOp.started?, hshut rfl]
  | play clip category volume =>
      cases hstarted : (AudioOp.play clip category volume).started? s <;>
        simp [AudioOp.leaves?, AudioOp.stopped?, AudioOp.Cuts, hstarted]
  | stop =>
      cases hup : s.audio.isUp with
      | true =>
          cases hcurrent : s.audio.current <;>
            simp [AudioOp.leaves?, AudioOp.stopped?, AudioOp.started?, AudioOp.Cuts,
              hs.channel, hup, hcurrent]
      | false => simp [AudioOp.leaves?, AudioOp.stopped?, AudioOp.started?, hclean hup]
  | files => simp [AudioOp.leaves?, AudioOp.stopped?, AudioOp.started?, AudioOp.Cuts]

theorem IsReady.lasting_perform_iff (hs : s.IsReady) {handle : String} :
    (op.perform s).2.audio.current = some handle ↔
      s.audio.current = some handle ∧
          ¬((op.started? s).isSome ∨ op = .stop ∧ s.audio.isUp = true) ∨
        op.started? s = some handle := by
  rw [(hs.follows op).current, ← hs.channel]
  cases op with
  | play clip category volume =>
      cases hstarted : (AudioOp.play clip category volume).started? s <;>
        simp [AudioOp.leaves?, AudioOp.stopped?, hstarted]
  | stop =>
      cases hchannel : s.audio.hasChannel <;> cases hcurrent : s.audio.current <;>
        simp [AudioOp.leaves?, AudioOp.stopped?, AudioOp.started?, hchannel, hcurrent]
  | _ => simp [AudioOp.leaves?, AudioOp.stopped?, AudioOp.started?]

theorem isClean_played_iff (hs : s.IsOff) :
    (∀ before, before <+: ops → (s.played before).IsClean) ↔ s.ShutsDownClean ops := by
  induction ops using List.reverseRecOn with
  | nil =>
      refine iff_of_true (fun before hbefore _ ↦ ?_) fun n hn ↦ nomatch hn
      rw [List.prefix_nil.mp hbefore]
      exact hs.silent
  | append_singleton ops op ih =>
      rw [forall_prefix_append_singleton, ShutsDownClean, throughout_append_singleton,
        ← ShutsDownClean, ← ih, played_append_singleton]
      exact and_congr_right fun hclean ↦
        (hs.ready.played ops).isClean_perform_iff (hclean ops (List.prefix_refl ops)) op

theorem current_played_iff (hs : s.IsOff) (hshut : s.ShutsDownClean ops) {handle : String} :
    (s.played ops).audio.current = some handle ↔ s.HasVoice ops handle := by
  induction ops using List.reverseRecOn with
  | nil =>
      refine iff_of_false ?_ not_since_nil
      simp [played, hs.silent]
  | append_singleton ops op ih =>
      obtain ⟨hbefore, hlast⟩ := throughout_append_singleton.mp hshut
      have hclean := (isClean_played_iff hs).mpr hbefore ops (List.prefix_refl ops)
      rw [played_append_singleton, (hs.ready.played ops).current_perform_iff hclean hlast,
        ih hbefore, HasVoice, HasVoice, since_append_singleton]

theorem lasting_played_iff (hs : s.IsOff) {handle : String} :
    (s.played ops).audio.current = some handle ↔ s.LeavesVoice ops handle := by
  induction ops using List.reverseRecOn with
  | nil =>
      refine iff_of_false ?_ not_since_nil
      simp [played, hs.silent]
  | append_singleton ops op ih =>
      rw [played_append_singleton, (hs.ready.played ops).lasting_perform_iff, ih, LeavesVoice,
        LeavesVoice, since_append_singleton]

theorem mem_tells_started_iff {handle : String} :
    Audio.voiceEvent .voiceStarted handle ∈ op.tells s ↔ op.started? s = some handle := by
  simp [AudioOp.tells, Audio.voiceEvent]

theorem mem_tells_stopped_iff {handle : String} :
    Audio.voiceEvent .voiceStopped handle ∈ op.tells s ↔ op.stopped? s = some handle := by
  simp [AudioOp.tells, Audio.voiceEvent]

theorem IsReady.stopped?_eq_some_iff (hs : s.IsReady) (hclean : s.IsClean) {handle : String} :
    op.stopped? s = some handle ↔ op = .stop ∧ s.audio.current = some handle := by
  cases op with
  | stop =>
      cases hup : s.audio.isUp with
      | true => simp [AudioOp.stopped?, hs.channel, hup]
      | false => simp [AudioOp.stopped?, hclean hup]
  | _ => simp [AudioOp.stopped?]

/-- After any operations on audio that has not been started before, the current clip is the one that
was started last, unless it has been stopped since while audio was up.  Whenever audio is not up no
clip is current, just if audio is never shut down while a clip is current.  And then a clip is
current just if it has been started in the session that goes on, with no other clip started and
nothing stopped since; every clip is announced when it is started; and the stop of a clip is
announced just by the operation that stops the current clip. -/
theorem played_keeps_sessions (hs : s.IsOff) (ops : List AudioOp) :
    (∀ handle, (s.played ops).audio.current = some handle ↔ s.LeavesVoice ops handle) ∧
      ((∀ before, before <+: ops → (s.played before).audio.isUp = false →
        (s.played before).audio.current = none) ↔ s.ShutsDownClean ops) ∧
      (s.ShutsDownClean ops →
        (∀ handle, (s.played ops).audio.current = some handle ↔ s.HasVoice ops handle) ∧
        ∀ op, (s.played (ops ++ [op])).announced = (s.played ops).announced ++
            (if s.isObserved then op.tells (s.played ops) else []) ∧
          ∀ handle,
            (Audio.voiceEvent .voiceStarted handle ∈ op.tells (s.played ops) ↔
              op.started? (s.played ops) = some handle) ∧
            (Audio.voiceEvent .voiceStopped handle ∈ op.tells (s.played ops) ↔
              op = .stop ∧ s.HasVoice ops handle)) := by
  refine ⟨fun _ ↦ lasting_played_iff hs, isClean_played_iff hs, fun hshut ↦
    ⟨fun _ ↦ current_played_iff hs hshut, fun op ↦ ⟨?_, fun handle ↦ ⟨mem_tells_started_iff, ?_⟩⟩⟩⟩
  · rw [played_append_singleton, ((hs.ready.played ops).follows op).announced,
      isObserved_played hs.ready]
  · have hclean := (isClean_played_iff hs).mpr hshut ops (List.prefix_refl ops)
    rw [mem_tells_stopped_iff, (hs.ready.played ops).stopped?_eq_some_iff hclean,
      current_played_iff hs hshut]

def shelf : Booth := { disk := { entries := [(["halt.ogg"], .file (.text "OggS"))] } }

theorem isOff_shelf : shelf.IsOff := ⟨⟨rfl, rfl⟩, rfl, rfl⟩

def playHalt : AudioOp := .play (.text "halt.ogg") (.text "voice") (.int 1)

def startStandard : AudioOp := .start (.int 44100) (.int (-16)) (.int 2) (.int 512)

/-- A clip is stopped before audio is shut down, and is played again in the next session, in which
audio is started once more and a clip is asked for that there is not. -/
def evening : List AudioOp :=
  [playHalt, startStandard, playHalt, .stop, .shutDown, .stop, startStandard, playHalt,
    startStandard, .play (.text "missing.ogg") (.text "voice") (.int 1)]

theorem played_keeps_sessions_of_evening :
    shelf.IsOff ∧ shelf.ShutsDownClean evening ∧
      (shelf.played evening).audio.current = some "halt.ogg" ∧
      shelf.HasVoice evening "halt.ogg" := by
  have hcurrent : (shelf.played evening).audio.current = some "halt.ogg" := by decide +kernel
  have hclean : ∀ before ∈ evening.inits, (shelf.played before).audio.isUp = false →
      (shelf.played before).audio.current = none := by decide +kernel
  obtain ⟨-, hiff, hsessions⟩ := played_keeps_sessions isOff_shelf evening
  have hshut := hiff.mp fun before hbefore ↦ hclean before ((List.mem_inits _ _).mpr hbefore)
  exact ⟨isOff_shelf, hshut, hcurrent, ((hsessions hshut).1 "halt.ogg").mp hcurrent⟩

/-- A clip can be current while audio is not up, and can be announced as stopped in a session in
which it has not been started. -/
theorem exists_clip_outlasts_session :
    ∃ (s : Booth) (ops : List AudioOp) (handle : String), s.IsOff ∧
      (s.played ops).audio.isUp = false ∧ (s.played ops).audio.current = some handle ∧
      (s.played (ops ++ [startStandard, .stop])).announced =
        (s.played ops).announced ++ [Audio.voiceEvent .voiceStopped handle] :=
  ⟨shelf, [startStandard, playHalt, .shutDown], "halt.ogg", isOff_shelf, by decide +kernel,
    by decide +kernel, by decide +kernel⟩

end Booth

end LinearDialogue
