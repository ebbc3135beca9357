import LinearDialogue.Proofs.Guests
import LinearDialogue.Proofs.Recitals

/-!
# Presses

Handlers that touch the dialogue by publishing events only.  A press that is delivered in a
publication from outside of a step is a step of its own: it executes a record, ends the dialogue, or
fails at a record.  A step that is not inside a delivery itself publishes from the inside, though: a
press that a handler answers to one of its events is delivered before the step is over, and refused.
-/

namespace LinearDialogue

/-- A call that executes a record, ends the dialogue, or fails at a record or a voice clip. -/
inductive Call.IsStep (call : Call StageListener) : Prop
  | executed {voices : List Event} {record : Record} {line : SpokenLine}
      (hvoices : ∀ e ∈ voices, e.IsVoice) (hline : record.playableLine? = some line)
      (hposted : call.posted = voices ++ [Director.nodeEvent record.id, Director.lineEvent line])
      (hfailure : call.failure = none)
  | ended {voices : List Event} {id : Value} (hvoices : ∀ e ∈ voices, e.IsVoice)
      (hposted : call.posted = voices ++ [Director.dialogueEvent .dialogEnded id])
      (hfailure : call.failure = none)
  | failed {failure : Failure} (hvoices : ∀ e ∈ call.posted, e.IsVoice)
      (hfailure : call.failure = some failure)
      (hcause : (∃ kind, failure = .unsupportedKind kind) ∨ Stage.IsFileFailure failure)

/-- A call that is refused because a step is going on. -/
structure Call.IsRefused (call : Call StageListener) : Prop where
  failure : call.failure = some .alreadyAdvancing
  voices : ∀ e ∈ call.posted, e.IsVoice

/-- A publication on a stage, from inside a step of the director or not. -/
structure Showing where
  inside : Bool
  publication : Publication StageListener

/-- A call of the director's listener for an event, inside a step or not. -/
structure Call.Heeds (wanted : Action) (inside : Bool) (event : Event) (call : Call StageListener) :
    Prop where
  type : event.type = .actionPressed
  other : event.get "action" ≠ .action wanted → call.posted = [] ∧ call.failure = none
  press : event.get "action" = .action wanted → if inside then call.IsRefused else call.IsStep

/-- Every call of the director's listener is a press, which is heeded outside of a step and refused
inside of one. -/
def Showing.Heeds (wanted : Action) (showing : Showing) : Prop :=
  ∀ round ∈ showing.publication.rounds, ∀ call ∈ round.calls,
    call.entry.listener = .director → call.Heeds wanted showing.inside round.event

/-- The types of events that are published inside a step. -/
def EventType.IsOfStep : EventType → Prop
  | .voiceStarted | .voiceStopped | .nodeEntered | .lineShown | .dialogEnded => True
  | _ => False

/-- The types of events that an operation from outside can publish, inside a step and outside of
one. -/
def StageOp.Makes (op : StageOp) (inside : Bool) (type : EventType) : Prop :=
  match op with
  | .start .. | .play _ =>
    if inside then type.IsOfStep else type = .dialogStarted ∨ type = .voiceStopped
  | .advance => if inside then type.IsOfStep else type = .voiceStopped
  | .stop => inside = false ∧ (type = .voiceStopped ∨ type = .dialogEnded)
  | .publish event => inside = false ∧ type = event.type
  | .input _ => inside = false ∧ type.IsInput
  | _ => False

namespace Stage

variable {s t u : Stage}

/-- A step inside another one is refused. -/
theorem press_of_steps {d d' : Director} {p p' : Playback} {outcome : Outcome Bool}
    {voices es : List Event} (hsteps : Steps d p outcome es d' p')
    (hvoices : ∀ e ∈ voices, e.IsVoice)
    (henabled : d.isEnabled = true) (entry : Registration StageListener) :
    if p.advancing then (⟨entry, voices ++ es, outcome.failure?⟩ : Call StageListener).IsRefused
    else (⟨entry, voices ++ es, outcome.failure?⟩ : Call StageListener).IsStep := by
  cases hsteps with
  | refused hinside =>
      rw [if_pos hinside]
      exact ⟨rfl, by simpa using hvoices⟩
  | executed hidle _ hline =>
      rw [hidle, if_neg Bool.false_ne_true]
      exact .executed hvoices hline rfl rfl
  | failed hidle _ hfailure =>
      rw [hidle, if_neg Bool.false_ne_true]
      refine .failed (by simpa using hvoices) rfl ?_
      rcases hfailure with ⟨-, hkind⟩ | ⟨-, hfile⟩
      · exact .inl ⟨_, hkind⟩
      · exact .inr hfile
  | ended hidle =>
      rw [hidle, if_neg Bool.false_ne_true]
      exact .ended hvoices (by rw [farewell, if_pos henabled]) rfl

theorem heeds_of_hears {event : Event} {failure : Option Failure} {es : List Event}
    (hhears : s.Hears event failure es t) (htype : event.type = .actionPressed)
    (henabled : s.director.isEnabled = true) (entry : Registration StageListener) :
    (⟨entry, es, failure⟩ : Call StageListener).Heeds s.director.settings.advanceAction
      s.playback.advancing event := by
  cases hhears with
  | other hother => exact ⟨htype, fun _ ↦ ⟨rfl, rfl⟩, fun hpress ↦ absurd hpress hother⟩
  | press hpress hlength hvoices hsteps =>
      exact ⟨htype, fun hother ↦ absurd hpress hother, fun _ ↦
        press_of_steps hsteps hvoices henabled entry⟩

/-- Deliveries to guests that may publish, inside a step or not. -/
theorem hosting_obeys (wanted : Action) (inside : Bool) :
    handling.Obeys (fun _ ↦ False) (fun _ ↦ True)
      (fun rest s ↦ s.IsWired (fun _ ↦ True) StageOp.IsExternal rest ∧
        s.playback.advancing = inside ∧ s.director.settings.advanceAction = wanted)
      (fun event call ↦ call.entry.listener = .director → call.Heeds wanted inside event) where
  apart _ _ _ := rfl
  journal j h := ⟨h.1.of_same rfl rfl rfl, h.2⟩
  attend hattends h := ⟨h.1.attend hattends, h.2⟩
  wait _ _ := trivial
  begin {s event} _ h := ⟨h.1.begin event, h.2⟩
  finish h := ⟨h.1.finish, h.2⟩
  tail h := ⟨h.1.tail, h.2⟩
  call {entry rest s d} h hd _ := by
    obtain ⟨hs, hinside, hwanted⟩ := h
    obtain ⟨answer, es, t, hcall, hmoves, ht, -, hguest | hdirector⟩ :=
      exists_call hs (fun _ ↦ id) hd
    · obtain ⟨hlistener, hhosts, -⟩ := hguest
      refine ⟨answer, es, t, hcall, hmoves, ⟨ht.record _, ?_, ?_⟩, fun _ _ h ↦ absurd h hlistener⟩
      · rw [set_bus, hhosts.playback, counting_playback, hinside]
      · rw [set_bus, hhosts.director, counting_director, hwanted]
    · obtain ⟨hlistener, henabled, htype, -, hhears⟩ := hdirector
      have hsame := hears_advancing hhears
      refine ⟨answer, es, t, hcall, hmoves,
        ⟨ht.record _, hsame.1.trans hinside, (congrArg _ hsame.2).trans hwanted⟩, ?_⟩
      intro event hevent _
      have hheeds := heeds_of_hears hhears htype henabled entry
      rw [hinside, hwanted] at hheeds
      have hget : event.get "action" = d.event.get "action" := (hevent.get_eq "action").symm
      exact ⟨hevent.type ▸ htype, hget ▸ hheeds.other, hget ▸ hheeds.press⟩

/-! ## What is published -/

/-- A stage has gone on to another one by publications, of types and from places that `makes`
allows, in which presses are heeded. -/
structure Plays (makes : Bool → EventType → Prop) (s t : Stage) : Prop where
  wired : t.IsWired (fun _ ↦ True) StageOp.IsExternal []
  advancing : t.playback.advancing = s.playback.advancing
  wanted : t.director.settings.advanceAction = s.director.settings.advanceAction
  showings : ∃ showings : List Showing,
    t.bus.history = s.bus.history ++ showings.flatMap (·.publication.moments) ∧
    ∀ x ∈ showings, makes x.inside x.publication.first.event.type ∧
      x.Heeds s.director.settings.advanceAction

/-- From a stage with guests, inside a step or not, a stage has gone on. -/
def Goes (inside : Bool) (makes : Bool → EventType → Prop) (s t : Stage) : Prop :=
  s.IsWired (fun _ ↦ True) StageOp.IsExternal [] → s.playback.advancing = inside → s.Plays makes t

variable {inside : Bool} {makes : Bool → EventType → Prop}

theorem Plays.trans (hst : s.Plays makes t) (htu : t.Plays makes u) : s.Plays makes u where
  wired := htu.wired
  advancing := htu.advancing.trans hst.advancing
  wanted := htu.wanted.trans hst.wanted
  showings := by
    obtain ⟨first, hfirst, hmade⟩ := hst.showings
    obtain ⟨others, hothers, hmore⟩ := htu.showings
    rw [hst.wanted] at hmore
    refine ⟨first ++ others, ?_, ?_⟩
    · rw [hothers, hfirst, List.flatMap_append, List.append_assoc]
    · intro x hx
      rcases List.mem_append.mp hx with hx | hx
      · exact hmade x hx
      · exact hmore x hx

/-- Without publications. -/
theorem plays_of_history (ht : t.IsWired (fun _ ↦ True) StageOp.IsExternal [])
    (hhistory : t.bus.history = s.bus.history)
    (hadvancing : t.playback.advancing = s.playback.advancing)
    (hwanted : t.director.settings.advanceAction = s.director.settings.advanceAction) :
    s.Plays makes t where
  wired := ht
  advancing := hadvancing
  wanted := hwanted
  showings := ⟨[], by rw [hhistory, List.flatMap_nil, List.append_nil], by simp⟩

theorem goes_chains (inside : Bool) (makes : Bool → EventType → Prop) :
    Act.Chains (Goes inside makes) where
  refl _ hs _ := plays_of_history hs rfl rfl rfl
  trans hst htu hs hinside := by
    have ht := hst hs hinside
    exact ht.trans (htu ht.wired (ht.advancing.trans hinside))

theorem Rests.goes (h : s.Rests t) : Goes inside makes s t := fun hs _ ↦
  plays_of_history (hs.of_same h.bus h.handlers (by rw [h.director])) (by rw [h.bus])
    (by rw [h.playback]) (by rw [h.director])

/-- A publication from outside of a delivery. -/
theorem along_publish (fuel : Nat) {event : Event} (h : makes inside event.type) :
    (handling.publish fuel event).Along (Goes inside makes) := by
  intro s hs hinside
  obtain ⟨publication, outcome, t, hrun, hfirst, hpublishes, ⟨ht, hadvancing, hwanted⟩,
    hheeds, -⟩ :=
    (hosting_obeys s.director.settings.advanceAction inside).publish (s := s) fuel
      (show (fun _ : Event ↦ True) event from trivial) ⟨hs.record (.published event), hinside, rfl⟩
  rw [hrun]
  refine ⟨ht, hadvancing.trans hinside.symm, hwanted, [⟨inside, publication⟩], ?_, ?_⟩
  · rw [List.flatMap_singleton]
    exact hpublishes.history
  · intro x hx
    rw [List.mem_singleton.mp hx]
    exact ⟨by rwa [hfirst], hheeds⟩

/-! ## What the director does -/

section Director

variable (fuel : Nat) (speaker : Speaker)

theorem along_note (note : Note) : (Journal.note note : Act Stage Unit).Along (Goes inside makes) :=
  (along_updateJournal _).mono fun _ _ ↦ Rests.goes

theorem along_stopVoice (h : makes inside .voiceStopped) :
    (Director.stopVoice (wiring (handling.publish fuel) speaker)).Along (Goes inside makes) := by
  have hR := goes_chains inside makes
  cases speaker with
  | absent => exact .pure hR _
  | recorder => exact along_note _
  | audio =>
      refine .bind hR (.read hR) fun audio ↦ ?_
      split
      · refine .bind hR (along_note _) fun _ ↦ .bind hR ?_ fun _ ↦ ?_
        · exact (along_updateAudio _).mono fun _ _ ↦ Rests.goes
        · exact .bind hR (along_publish fuel h) fun _ ↦ .pure hR _
      · exact .pure hR _

theorem along_playAudio (h : makes inside .voiceStarted) (handle category : String)
    (volume : Binary64) :
    (Audio.play (handling.publish fuel) (.text handle) (.text category) (.float volume)).Along
      (Goes inside makes) := by
  have hR := goes_chains inside makes
  refine .bind hR ((loads_rests.clip? (.text handle)).mono fun _ _ ↦ Rests.goes) fun clip ↦ ?_
  refine .bind hR (.read hR) fun audio ↦ ?_
  split
  · refine .bind hR (.ofExcept hR _) fun own ↦ .bind hR (.ofExcept hR _) fun factor ↦ ?_
    refine .bind hR (along_note _) fun _ ↦ .bind hR (along_note _) fun _ ↦ .bind hR ?_ fun _ ↦ ?_
    · exact (along_updateAudio _).mono fun _ _ ↦ Rests.goes
    · exact .bind hR (along_publish fuel h) fun _ ↦ .pure hR _
  · exact .pure hR _

theorem along_playVoice (h : makes inside .voiceStarted) (line : SpokenLine) :
    (Director.playVoice (wiring (handling.publish fuel) speaker) line).Along
      (Goes inside makes) := by
  have hR := goes_chains inside makes
  refine .bind hR (.read hR) fun director ↦ ?_
  dsimp only
  split
  next handle voice _ hvoice =>
    split
    · cases speaker with
      | absent => cases hvoice
      | recorder =>
          cases hvoice
          exact along_note _
      | audio =>
          cases hvoice
          exact .bind hR (along_playAudio fuel h _ _ _) fun _ ↦ .pure hR _
    · exact .pure hR _
  next => exact .pure hR _

theorem along_showLine (h : ∀ type : EventType, type.IsOfStep → makes inside type) (id : Int)
    (line : SpokenLine) :
    (Director.showLine (wiring (handling.publish fuel) speaker) id line).Along
      (Goes inside makes) := by
  have hR := goes_chains inside makes
  refine .bind hR (along_playVoice fuel speaker (h .voiceStarted trivial) line) fun _ ↦ ?_
  refine .bind hR (along_publish fuel (h .nodeEntered trivial)) fun _ ↦ ?_
  exact .bind hR (along_publish fuel (h .lineShown trivial)) fun _ ↦ .pure hR _

theorem along_disable :
    (Director.disable (wiring (handling.publish fuel) speaker)).Along (Goes inside makes) := by
  intro s hs hinside
  rw [disable_apply]
  split
  · exact plays_of_history (hs.ignored rfl) (Bus.unsubscribe_history _ _ _) rfl rfl
  · exact plays_of_history hs rfl rfl rfl

theorem along_enable :
    (Director.enable (wiring (handling.publish fuel) speaker)).Along (Goes inside makes) := by
  intro s hs hinside
  rw [enable_apply]
  split
  · exact plays_of_history hs rfl rfl rfl
  next henabled =>
    split
    · exact plays_of_history (hs.listening trivial (by simpa using henabled)) rfl rfl rfl
    · exact plays_of_history hs rfl rfl rfl

theorem along_close (hstopped : makes inside .voiceStopped) (hended : makes inside .dialogEnded) :
    (Director.close (wiring (handling.publish fuel) speaker)).Along (Goes inside makes) := by
  have hR := goes_chains inside makes
  refine .bind hR (.read hR) fun director ↦ .bind hR (along_disable fuel speaker) fun _ ↦ ?_
  refine .bind hR (along_stopVoice fuel speaker hstopped) fun _ ↦ ?_
  split
  · refine .bind hR (.read hR) fun director ↦ ?_
    exact .bind hR (along_publish fuel hended) fun _ ↦ .pure hR _
  · exact .pure hR _

theorem along_updatePlayback {f : Playback → Playback} (h : ∀ p, (f p).advancing = p.advancing) :
    (Part.update Playback f : Act Stage Unit).Along (Goes inside makes) := fun s hs _ ↦
  plays_of_history (hs.of_same rfl rfl rfl) rfl (h s.playback) rfl

/-- A step, seen from its inside. -/
theorem along_step (h : ∀ type : EventType, type.IsOfStep → makes true type) (logLines : Bool) :
    (Playback.step (Director.callbacks (wiring (handling.publish fuel) speaker) logLines)).Along
      (Goes true makes) := by
  have hR := goes_chains true makes
  have hreport (entry : LogEntry) :
      (Journal.report entry : Act Stage Unit).Along (Goes true makes) :=
    (along_updateJournal _).mono fun _ _ ↦ Rests.goes
  refine .bind hR (.read hR) fun playback ↦ ?_
  cases playback.current? with
  | none =>
      refine .bind hR ?_ fun _ ↦ .pure hR _
      refine .bind hR (along_updatePlayback fun _ ↦ rfl) fun _ ↦ .bind hR (hreport _) fun _ ↦ ?_
      exact along_close fuel speaker (h .voiceStopped trivial) (h .dialogEnded trivial)
  | some record =>
      refine .bind hR ?_ fun _ ↦ .pure hR _
      rw [Playback.execute]
      split
      · exact .fail hR _
      · next line _ =>
          have hshow := along_showLine fuel speaker h record.id line
          have hmove : (Part.update Playback fun p ↦
              { p with cursor := record.successor, state := .active } : Act Stage Unit).Along
              (Goes true makes) := along_updatePlayback fun _ ↦ rfl
          cases logLines with
          | true => exact .bind hR (hreport _) fun _ ↦ .bind hR hshow fun _ ↦ hmove
          | false => exact .bind hR hshow fun _ ↦ hmove

/-- A step, seen from its outside. -/
theorem along_steps (h : ∀ type : EventType, type.IsOfStep → makes true type) (logLines : Bool) :
    (Playback.advance (Director.callbacks (wiring (handling.publish fuel) speaker) logLines)).Along
      (Goes false makes) := by
  intro s hs hidle
  rcases hstep : Playback.step
      (Director.callbacks (wiring (handling.publish fuel) speaker) logLines) s.inside with
    ⟨outcome, t⟩
  have hplays := along_step fuel speaker h logLines s.inside (hs.of_same rfl rfl rfl) rfl
  rw [hstep] at hplays
  rw [advance_of_step hidle hstep]
  exact ⟨hplays.wired.of_same rfl rfl rfl, hidle.symm, hplays.wanted, hplays.showings⟩

theorem along_advance (hstopped : makes false .voiceStopped)
    (h : ∀ type : EventType, type.IsOfStep → makes true type) :
    (Director.advance (wiring (handling.publish fuel) speaker)).Along (Goes false makes) := by
  have hR := goes_chains false makes
  refine .bind hR (.read hR) fun director ↦ ?_
  dsimp only
  split
  · exact .bind hR (along_stopVoice fuel speaker hstopped) fun _ ↦ along_steps fuel speaker h _
  · exact along_steps fuel speaker h _

theorem along_start (hstarted : makes false .dialogStarted) (hstopped : makes false .voiceStopped)
    (h : ∀ type : EventType, type.IsOfStep → makes true type) (graph : CompiledGraph) (id : Value) :
    (Director.start (wiring (handling.publish fuel) speaker) graph id).Along
      (Goes false makes) := by
  have hR := goes_chains false makes
  refine .bind hR ?_ fun _ ↦ .bind hR ?_ fun _ ↦ .bind hR (along_enable fuel speaker) fun _ ↦ ?_
  · exact fun s hs _ ↦ plays_of_history (hs.of_same rfl rfl rfl) rfl rfl rfl
  · exact fun s hs _ ↦ plays_of_history (hs.of_same rfl rfl rfl) rfl rfl rfl
  · refine .bind hR (along_publish fuel hstarted) fun _ ↦ ?_
    exact .bind hR (along_advance fuel speaker hstopped h) fun _ ↦ .pure hR _

theorem along_play (hstarted : makes false .dialogStarted) (hstopped : makes false .voiceStopped)
    (h : ∀ type : EventType, type.IsOfStep → makes true type) (id : Value) :
    (Director.play (wiring (handling.publish fuel) speaker) id).Along (Goes false makes) := by
  have hR := goes_chains false makes
  have hreport (entry : LogEntry) :
      (Journal.report entry : Act Stage Unit).Along (Goes false makes) :=
    (along_updateJournal _).mono fun _ _ ↦ Rests.goes
  refine .bind hR (.read hR) fun director ↦ ?_
  split
  · exact .bind hR (hreport _) fun _ ↦ .pure hR _
  · refine .bind hR (.ofExcept hR _) fun found ↦ ?_
    split
    · exact .bind hR (hreport _) fun _ ↦ .pure hR _
    · exact .bind hR (along_start fuel speaker hstarted hstopped h _ id) fun _ ↦ .pure hR _

theorem along_load_graph (graph : CompiledGraph) :
    (Playback.load graph : Act Stage Unit).Along (Goes inside makes) := fun _ hs _ ↦
  plays_of_history (hs.of_same rfl rfl rfl) rfl rfl rfl

/-- An operation from outside publishes what it can publish, and presses are heeded in all of it. -/
theorem along_operate (op : StageOp) : (operate fuel op).Along (Goes false op.Makes) := by
  intro s
  have hR := goes_chains false op.Makes
  have hdirected {β : Type} {m : Act Stage β} (hm : m.Along (Goes false op.Makes)) (f : β → Value) :
      (m >>= fun a ↦ pure (f a)).Along (Goes false op.Makes) := .bind hR hm fun _ ↦ .pure hR _
  cases op with
  | start graph id =>
      have hstart : (Director.start (wiring (handling.publish fuel) s.speaker) graph id).Along
          (Goes false (StageOp.start graph id).Makes) :=
        along_start fuel s.speaker (.inl rfl) (.inr rfl) (fun _ h ↦ h) graph id
      exact hdirected hstart (fun _ ↦ .null) s
  | play id =>
      have hplay : (Director.play (wiring (handling.publish fuel) s.speaker) id).Along
          (Goes false (StageOp.play id).Makes) :=
        along_play fuel s.speaker (.inl rfl) (.inr rfl) (fun _ h ↦ h) id
      exact hdirected hplay .bool s
  | advance =>
      have hadvance : (Director.advance (wiring (handling.publish fuel) s.speaker)).Along
          (Goes false StageOp.advance.Makes) := along_advance fuel s.speaker rfl fun _ h ↦ h
      exact hdirected hadvance .bool s
  | stop =>
      have hunload : (Playback.unload : Act Stage Unit).Along (Goes false StageOp.stop.Makes) :=
        along_updatePlayback fun _ ↦ rfl
      have hclose : (Director.close (wiring (handling.publish fuel) s.speaker)).Along
          (Goes false StageOp.stop.Makes) :=
        along_close fuel s.speaker ⟨rfl, .inl rfl⟩ ⟨rfl, .inr rfl⟩
      exact hdirected (.bind hR hunload fun _ ↦ hclose) (fun _ ↦ .null) s
  | enable => exact hdirected (along_enable fuel s.speaker) (fun _ ↦ .null) s
  | disable => exact hdirected (along_disable fuel s.speaker) (fun _ ↦ .null) s
  | publish event => exact hdirected (along_publish fuel ⟨rfl, rfl⟩) Event.consumed s
  | load graph => exact hdirected (along_load_graph graph) (fun _ ↦ .null) s
  | unload =>
      have hunload : (Playback.unload : Act Stage Unit).Along (Goes false StageOp.unload.Makes) :=
        along_updatePlayback fun _ ↦ rfl
      exact hdirected hunload (fun _ ↦ .null) s
  | clear type =>
      intro hs _
      have hmoves : Bus.Moves (fun _ ↦ False) s.bus [] (s.bus.clear type) := .clear type .refl
      exact plays_of_history (hs.moves hmoves rfl rfl) (Bus.clear_history type) rfl rfl
  | input op =>
      refine InputOp.closed_perform hR.closed (fun f ↦ ?_) (fun event hevent ↦ ?_) op s
      · exact fun s hs _ ↦ plays_of_history (hs.of_same rfl rfl rfl) rfl rfl rfl
      · exact along_publish fuel ⟨rfl, hevent⟩

end Director

/-! ## Runs -/

/-- Whatever is done from outside, and whatever events the handlers publish, all that happens on the
bus are publications of the operations.  A press that is delivered to the director in one from
outside of a step is a step of its own: it executes one record, ends the dialogue, or fails at a
record or a voice clip, but never because another step is going on.  A step that an operation from
outside takes publishes from its inside, and every press that is delivered there is refused. -/
theorem performAll_heeds_presses {fuel : Nat} {ops : List StageOp} {outcomes : List (Outcome Value)}
    (hs : s.IsWired (fun _ ↦ True) StageOp.IsExternal []) (hidle : s.playback.advancing = false)
    (hrun : performAll fuel ops s = (outcomes, t)) :
    t.playback.advancing = false ∧
    ∃ showings : List (List Showing),
      List.Forall₂ (fun op made ↦ ∀ x ∈ made, op.Makes x.inside x.publication.first.event.type ∧
        x.Heeds s.director.settings.advanceAction) (ops.take outcomes.length) showings ∧
      t.bus.history = s.bus.history ++ showings.flatten.flatMap (·.publication.moments) := by
  induction ops generalizing s outcomes with
  | nil =>
      cases hrun
      exact ⟨hidle, [], by simp, by simp⟩
  | cons op ops ih =>
      have hplays := along_operate fuel op s hs hidle
      rcases hop : operate fuel op s with ⟨outcome, u⟩
      rw [hop] at hplays
      obtain ⟨made, hhistory, hmade⟩ := hplays.showings
      by_cases hends : outcome = .stalled
      · rw [performAll, hop, hends] at hrun
        cases hrun
        refine ⟨hplays.advancing.trans hidle, [made], ?_, ?_⟩
        · exact .cons hmade .nil
        · rw [hhistory, List.flatten_singleton]
      · rw [performAll_cons ops hop hends] at hrun
        rcases hrest : performAll fuel ops u with ⟨others, v⟩
        rw [hrest] at hrun
        cases hrun
        obtain ⟨hlast, showings, hshowings, hothers⟩ :=
          ih hplays.wired (hplays.advancing.trans hidle) hrest
        rw [hplays.wanted] at hshowings
        refine ⟨hlast, made :: showings, .cons hmade hshowings, ?_⟩
        rw [hothers, hhistory, List.flatten_cons, List.flatMap_append, List.append_assoc]

/-- A stage with a handler that confirms the first line as soon as it is entered. -/
def eager : Stage where
  bus := {
    lists := [(.nodeEntered, [⟨.int 0, .handler 0, .bool false, false, 0⟩])]
    count := 1 }
  handlers := [{ behaviour := fun call _ ↦
    if call = 0 then .perform (.publish (Input.actionEvent .actionPressed .confirm)) fun _ ↦ .done
    else .done }]

theorem isWired_eager : eager.IsWired (fun _ ↦ True) StageOp.IsExternal [] where
  guests := by
    intro handler hmem call event
    rw [List.mem_singleton.mp hmem]
    dsimp only
    split
    · exact .perform trivial fun _ ↦ .done
    · exact .done
  lists := by
    intro type
    cases type <;> decide
  rest := nofun
  priorities := by simp

/-- A dialogue of two lines. -/
def gate : StageOp :=
  .start ⟨0, [Recital.guardLine 0 1, Recital.guardLine 1 noId]⟩ (.text "gate")

theorem performAll_heeds_presses_of_eager :
    ∃ outcomes t showings,
      performAll 2 [gate, .publish (Input.actionEvent .actionPressed .confirm), .advance] eager =
        (outcomes, t) ∧
      List.Forall₂ (fun op made ↦ ∀ x ∈ made, StageOp.Makes op x.inside
          x.publication.first.event.type ∧ Showing.Heeds .confirm x)
        [gate, .publish (Input.actionEvent .actionPressed .confirm), .advance] showings ∧
      t.bus.history = showings.flatten.flatMap (·.publication.moments) ∧
      t.bus.announced.map (·.type) = [.dialogStarted, .nodeEntered, .actionPressed, .lineShown,
        .actionPressed, .nodeEntered, .lineShown, .dialogEnded] := by
  let ops : List StageOp := [gate, .publish (Input.actionEvent .actionPressed .confirm), .advance]
  have htypes : (performAll 2 ops eager).2.bus.announced.map (·.type) =
      [.dialogStarted, .nodeEntered, .actionPressed, .lineShown, .actionPressed, .nodeEntered,
        .lineShown, .dialogEnded] := by decide +kernel
  have hlength : (performAll 2 ops eager).1.length = 3 := by decide +kernel
  rcases hrun : performAll 2 ops eager with ⟨outcomes, t⟩
  rw [hrun] at htypes hlength
  obtain ⟨-, showings, hshowings, hhistory⟩ := performAll_heeds_presses isWired_eager rfl hrun
  rw [hlength] at hshowings
  exact ⟨outcomes, t, showings, rfl, hshowings, hhistory, htypes⟩

/-- A press that a handler answers to the first line is refused, and the second line is not
shown. -/
theorem exists_press_refused :
    eager.IsWired (fun _ ↦ True) StageOp.IsExternal [] ∧
    (performAll 2 [gate] eager).2.bus.history =
      [.published (Director.dialogueEvent .dialogStarted (.text "gate")),
        .begun (Director.dialogueEvent .dialogStarted (.text "gate")), .ended .kept,
        .published (Director.nodeEvent 0), .begun (Director.nodeEvent 0),
        .called ⟨.int 0, .handler 0, .bool false, false, 0⟩,
        .published (Input.actionEvent .actionPressed .confirm), .returned none, .ended .kept,
        .begun (Input.actionEvent .actionPressed .confirm),
        .called ⟨.int 0, .director, .bool false, true, 1⟩,
        .returned (some .alreadyAdvancing), .ended .kept,
        .published (Director.lineEvent ⟨"Guard", none, "Halt!", []⟩),
        .begun (Director.lineEvent ⟨"Guard", none, "Halt!", []⟩), .ended .kept] ∧
    (performAll 2 [gate] eager).2.director.isEnabled = true ∧
    (performAll 2 [gate] eager).2.playback.cursor = 1 :=
  ⟨isWired_eager, by decide +kernel, by decide +kernel, by decide +kernel⟩

end Stage

end LinearDialogue
