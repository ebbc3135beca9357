import LinearDialogue.Proofs.Guests

/-!
# Operations published in two ways

What a stage does is made of a few things: changes that no registration depends on, publications,
and the director's registration.  A relation between acts that relates these, with events published
in one way and in another, relates the performances of every operation.  What the director does
needs fewer of them, since it leaves the input devices alone.
-/

namespace LinearDialogue

namespace Stage

/-- A stage that differs in what neither the bus nor the handlers depend on, apart from the input
devices. -/
structure Retains (s t : Stage) : Prop where
  bus : t.bus = s.bus
  handlers : t.handlers = s.handlers
  isEnabled : t.director.isEnabled = s.director.isEnabled
  input : t.input = s.input

theorem Rests.retains {s t : Stage} (h : s.Rests t) : s.Retains t :=
  ⟨h.bus, h.handlers, by rw [h.director], h.input⟩

/-- A relation between acts relates what operations on the director and on playback are made of,
where events are published in one way in the first act and in another way in the second. -/
structure Pairs (p q : Publisher Stage) (P : ∀ {α : Type}, Act Stage α → Act Stage α → Prop) :
    Prop where
  acts : Act.Couples P
  retains : ∀ {α : Type} {m : Act Stage α}, m.Along Retains → (m.Ends fun _ ↦ True) → P m m
  publish : ∀ event : Event, ¬event.type.IsInput → P (p event) (q event)
  enable : ∀ speaker : Speaker,
    P (Director.enable (wiring p speaker)) (Director.enable (wiring q speaker))
  disable : ∀ speaker : Speaker,
    P (Director.disable (wiring p speaker)) (Director.disable (wiring q speaker))
  ensure : ∀ {α : Type} {m n : Act Stage α} {f : Stage → Stage}, P m n → (∀ s, Retains s (f s)) →
    P (m.ensure f) (n.ensure f)
  speaker : ∀ {α : Type} {m n : Speaker → Act Stage α}, (∀ speaker, P (m speaker) (n speaker)) →
    P (fun s ↦ m s.speaker s) (fun s ↦ n s.speaker s)

/-- It relates all that operations are made of. -/
structure Matches (p q : Publisher Stage)
    (P : ∀ {α : Type}, Act Stage α → Act Stage α → Prop) : Prop
    extends Pairs p q P where
  publishes : ∀ event : Event, P (p event) (q event)
  input : ∀ f : Input → Input,
    P (Part.update Input f : Act Stage Unit) (Part.update Input f)
  clear : ∀ type : Option EventType,
    P (Part.update (Bus StageListener) fun bus ↦ bus.clear type : Act Stage Unit)
      (Part.update (Bus StageListener) fun bus ↦ bus.clear type)

namespace Pairs

variable {p q : Publisher Stage} {P : ∀ {α : Type}, Act Stage α → Act Stage α → Prop}

theorem update (h : Pairs p q P) {τ : Type} [Part τ Stage] {f : τ → τ}
    (hf : ∀ s : Stage, s.Retains (Part.set (f (Part.get s)) s)) :
    P (Part.update τ f : Act Stage Unit) (Part.update τ f) :=
  h.retains hf (.update f)

theorem report (h : Pairs p q P) (entry : LogEntry) :
    P (Journal.report entry : Act Stage Unit) (Journal.report entry) :=
  h.update fun _ ↦ ⟨rfl, rfl, rfl, rfl⟩

theorem note (h : Pairs p q P) (item : Note) :
    P (Journal.note item : Act Stage Unit) (Journal.note item) :=
  h.update fun _ ↦ ⟨rfl, rfl, rfl, rfl⟩

theorem ofExcept (h : Pairs p q P) {α : Type} (result : Except Failure α) :
    P (Act.ofExcept result : Act Stage α) (Act.ofExcept result) := by
  cases result with
  | ok a => exact h.acts.pure a
  | error failure => exact h.acts.fail failure

/-! ## Voice clips -/

theorem stopAudio (h : Pairs p q P) : P (Audio.stop p) (Audio.stop q) := by
  refine h.acts.bind (h.acts.read Audio) fun audio ↦ ?_
  split
  · refine h.acts.bind (h.note _) fun _ ↦
      h.acts.bind (h.update fun _ ↦ ⟨rfl, rfl, rfl, rfl⟩) fun _ ↦ ?_
    exact h.acts.bind (h.publish _ not_false) fun _ ↦ h.acts.pure _
  · exact h.acts.pure _

theorem playAudio (h : Pairs p q P) (handle category : String) (volume : Binary64) :
    P (Audio.play p (.text handle) (.text category) (.float volume))
      (Audio.play q (.text handle) (.text category) (.float volume)) := by
  have hclip := h.retains ((loads_rests.clip? (.text handle)).mono fun _ _ ↦ Rests.retains)
    ((ends_clip? handle).mono fun _ _ ↦ trivial)
  refine h.acts.bind hclip fun clip ↦ h.acts.bind (h.acts.read Audio) fun audio ↦ ?_
  split
  · refine h.acts.bind (h.ofExcept _) fun own ↦ h.acts.bind (h.ofExcept _) fun factor ↦ ?_
    refine h.acts.bind (h.note _) fun _ ↦ h.acts.bind (h.note _) fun _ ↦ ?_
    refine h.acts.bind (h.update fun _ ↦ ⟨rfl, rfl, rfl, rfl⟩) fun _ ↦ ?_
    exact h.acts.bind (h.publish _ not_false) fun _ ↦ h.acts.pure _
  · exact h.acts.pure _

theorem stopVoice (h : Pairs p q P) (speaker : Speaker) :
    P (Director.stopVoice (wiring p speaker)) (Director.stopVoice (wiring q speaker)) := by
  cases speaker with
  | absent => exact h.acts.pure _
  | recorder => exact h.note _
  | audio => exact h.stopAudio

theorem playVoice (h : Pairs p q P) (speaker : Speaker) (line : SpokenLine) :
    P (Director.playVoice (wiring p speaker) line)
      (Director.playVoice (wiring q speaker) line) := by
  refine h.acts.bind (h.acts.read Director) fun director ↦ ?_
  cases line.audio with
  | none => exact h.acts.pure _
  | some handle =>
      cases speaker with
      | absent => exact h.acts.pure _
      | recorder =>
          dsimp only [wiring, voice?]
          split
          · exact h.note _
          · exact h.acts.pure _
      | audio =>
          dsimp only [wiring, voice?]
          split
          · exact h.acts.bind (h.playAudio handle _ _) fun _ ↦ h.acts.pure _
          · exact h.acts.pure _

/-! ## The director -/

theorem showLine (h : Pairs p q P) (speaker : Speaker) (id : Int) (line : SpokenLine) :
    P (Director.showLine (wiring p speaker) id line)
      (Director.showLine (wiring q speaker) id line) := by
  refine h.acts.bind (h.playVoice speaker line) fun _ ↦
    h.acts.bind (h.publish _ not_false) fun _ ↦ ?_
  exact h.acts.bind (h.publish _ not_false) fun _ ↦ h.acts.pure _

theorem close (h : Pairs p q P) (speaker : Speaker) :
    P (Director.close (wiring p speaker)) (Director.close (wiring q speaker)) := by
  refine h.acts.bind (h.acts.read Director) fun director ↦ ?_
  refine h.acts.bind (h.disable speaker) fun _ ↦ h.acts.bind (h.stopVoice speaker) fun _ ↦ ?_
  split
  · refine h.acts.bind (h.acts.read Director) fun director ↦ ?_
    exact h.acts.bind (h.publish _ not_false) fun _ ↦ h.acts.pure _
  · exact h.acts.pure _

theorem execute (h : Pairs p q P) (speaker : Speaker) (logLines : Bool) (record : Record) :
    P (Playback.execute (Director.callbacks (wiring p speaker) logLines) record)
      (Playback.execute (Director.callbacks (wiring q speaker) logLines) record) := by
  rw [Playback.execute, Playback.execute]
  cases record.playableLine? with
  | none => exact h.acts.fail _
  | some line =>
      have hshow := h.acts.bind (h.showLine speaker record.id line) fun _ ↦
        h.update (f := fun p : Playback ↦ { p with cursor := record.successor, state := .active })
          fun _ ↦ ⟨rfl, rfl, rfl, rfl⟩
      cases logLines with
      | true => exact h.acts.bind (h.report _) fun _ ↦ hshow
      | false => exact hshow

theorem step (h : Pairs p q P) (speaker : Speaker) (logLines : Bool) :
    P (Playback.step (Director.callbacks (wiring p speaker) logLines))
      (Playback.step (Director.callbacks (wiring q speaker) logLines)) := by
  refine h.acts.bind (h.acts.read Playback) fun playback ↦ ?_
  cases playback.current? with
  | none =>
      refine h.acts.bind ?_ fun _ ↦ h.acts.pure _
      refine h.acts.bind (h.update fun _ ↦ ⟨rfl, rfl, rfl, rfl⟩) fun _ ↦ ?_
      exact h.acts.bind (h.report _) fun _ ↦ h.close speaker
  | some record => exact h.acts.bind (h.execute speaker logLines record) fun _ ↦ h.acts.pure _

theorem advance (h : Pairs p q P) (speaker : Speaker) :
    P (Director.advance (wiring p speaker)) (Director.advance (wiring q speaker)) := by
  have hsteps (logLines : Bool) :
      P (Playback.advance (Director.callbacks (wiring p speaker) logLines))
        (Playback.advance (Director.callbacks (wiring q speaker) logLines)) := by
    refine h.acts.bind (h.acts.read Playback) fun playback ↦ ?_
    have hstep := h.acts.bind (h.update (f := fun p : Playback ↦ { p with advancing := true })
      fun _ ↦ ⟨rfl, rfl, rfl, rfl⟩) fun _ ↦
        h.ensure (f := Playback.setAdvancing false) (h.step speaker logLines) fun _ ↦
          ⟨rfl, rfl, rfl, rfl⟩
    dsimp only
    split
    · exact h.acts.bind (h.acts.fail _) fun _ ↦ hstep
    · exact hstep
  refine h.acts.bind (h.acts.read Director) fun director ↦ ?_
  dsimp only
  split
  · exact h.acts.bind (h.stopVoice speaker) fun _ ↦ hsteps _
  · exact hsteps _

theorem load (h : Pairs p q P) (graph : CompiledGraph) :
    P (Playback.load graph : Act Stage Unit) (Playback.load graph) :=
  h.acts.bind (h.update fun _ ↦ ⟨rfl, rfl, rfl, rfl⟩) fun _ ↦ h.update fun _ ↦ ⟨rfl, rfl, rfl, rfl⟩

theorem start (h : Pairs p q P) (speaker : Speaker) (graph : CompiledGraph) (id : Value) :
    P (Director.start (wiring p speaker) graph id)
      (Director.start (wiring q speaker) graph id) := by
  refine h.acts.bind (h.update fun _ ↦ ⟨rfl, rfl, rfl, rfl⟩) fun _ ↦ ?_
  refine h.acts.bind (h.load graph) fun _ ↦ h.acts.bind (h.enable speaker) fun _ ↦ ?_
  refine h.acts.bind (h.publish _ not_false) fun _ ↦ ?_
  exact h.acts.bind (h.advance speaker) fun _ ↦ h.acts.pure _

theorem play (h : Pairs p q P) (speaker : Speaker) (id : Value) :
    P (Director.play (wiring p speaker) id) (Director.play (wiring q speaker) id) := by
  refine h.acts.bind (h.acts.read Director) fun director ↦ ?_
  cases director.database with
  | none => exact h.acts.bind (h.report _) fun _ ↦ h.acts.pure _
  | some db =>
      refine h.acts.bind (h.ofExcept _) fun found ↦ ?_
      cases found with
      | none => exact h.acts.bind (h.report _) fun _ ↦ h.acts.pure _
      | some graph => exact h.acts.bind (h.start speaker graph id) fun _ ↦ h.acts.pure _

/-- The two performances of an operation on the director or on playback are related. -/
theorem direct (h : Pairs p q P) {op : StageOp} (hop : ¬op.IsExternal) :
    P (perform p op) (perform q op) := by
  have hanswer {α : Type} {m n : Act Stage α} (hm : P m n) (f : α → Value) :
      P (m >>= fun a ↦ pure (f a)) (n >>= fun a ↦ pure (f a)) :=
    h.acts.bind hm fun _ ↦ h.acts.pure _
  have hunload : P (Playback.unload : Act Stage Unit) Playback.unload :=
    h.update fun _ ↦ ⟨rfl, rfl, rfl, rfl⟩
  cases op with
  | start graph id => exact h.speaker fun speaker ↦ hanswer (h.start speaker graph id) fun _ ↦ .null
  | play id => exact h.speaker fun speaker ↦ hanswer (h.play speaker id) .bool
  | advance => exact h.speaker fun speaker ↦ hanswer (h.advance speaker) .bool
  | stop =>
      exact h.speaker fun speaker ↦
        hanswer (h.acts.bind hunload fun _ ↦ h.close speaker) fun _ ↦ .null
  | enable => exact h.speaker fun speaker ↦ hanswer (h.enable speaker) fun _ ↦ .null
  | disable => exact h.speaker fun speaker ↦ hanswer (h.disable speaker) fun _ ↦ .null
  | load graph => exact hanswer (h.load graph) fun _ ↦ .null
  | unload => exact hanswer hunload fun _ ↦ .null
  | publish | clear | input => exact absurd trivial hop

/-- The two performances of an operation that clears no list are related. -/
theorem perform (h : Pairs p q P) (hpublish : ∀ event : Event, P (p event) (q event))
    (hinput : ∀ f : Input → Input,
      P (Part.update Input f : Act Stage Unit) (Part.update Input f))
    {op : StageOp} (hop : ∀ type, op ≠ .clear type) : P (perform p op) (perform q op) := by
  cases op with
  | publish event => exact h.acts.bind (hpublish event) fun _ ↦ h.acts.pure _
  | clear type => exact absurd rfl (hop type)
  | input op => exact InputOp.couples_perform h.acts hinput (fun event _ ↦ hpublish event) op
  | _ => exact h.direct not_false

end Pairs

/-- The two performances of an operation are related. -/
theorem Matches.perform {p q : Publisher Stage}
    {P : ∀ {α : Type}, Act Stage α → Act Stage α → Prop} (h : Matches p q P) (op : StageOp) :
    P (perform p op) (perform q op) := by
  cases op with
  | clear type => exact h.acts.bind (h.clear type) fun _ ↦ h.acts.pure _
  | _ => exact h.toPairs.perform h.publishes h.input (fun _ ↦ nofun)

end Stage

end LinearDialogue
