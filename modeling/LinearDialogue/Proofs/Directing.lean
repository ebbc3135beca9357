import LinearDialogue.Proofs.RecordTables
import LinearDialogue.Proofs.Voices

/-!
# What the director does

A step of the director executes the record under the cursor and announces it, or ends the dialogue
and announces that, or is refused, or fails at a record.  This is what it comes to wherever those
who are told do nothing about it.
-/

namespace LinearDialogue

/-- The graph of an id in the database of a director. -/
def Director.find? (d : Director) (id : Value) : Except Failure (Option CompiledGraph) :=
  match d.database with
  | none => .ok none
  | some db => db.lookup id

/-- Two directors have the same settings and the same database. -/
structure Director.Agrees (d e : Director) : Prop where
  settings : d.settings = e.settings
  database : d.database = e.database

theorem Director.Agrees.refl (d : Director) : d.Agrees d := ⟨rfl, rfl⟩

theorem Director.Agrees.trans {d e f : Director} (hde : d.Agrees e) (hef : e.Agrees f) :
    d.Agrees f :=
  ⟨hde.settings.trans hef.settings, hde.database.trans hef.database⟩

theorem Director.Agrees.find?_eq {d e : Director} (h : d.Agrees e) (id : Value) :
    d.find? id = e.find? id := by
  rw [find?, find?, h.database]

namespace Stage

variable {publish : Publisher Stage} {I : Stage → Prop} {s : Stage}

theorem exists_showLine (hp : publish.IsQuiet I) (hs : I s) (speaker : Speaker) (id : Int)
    (line : SpokenLine) :
    ∃ outcome voices es t, Director.showLine (wiring publish speaker) id line s = (outcome, t) ∧
      I t ∧ s.Becomes (voices ++ es) s.director s.playback t ∧ voices.length ≤ 1 ∧
      (∀ e ∈ voices, e.IsVoice) ∧
      (outcome = .returned () ∧ es = [Director.nodeEvent id, Director.lineEvent line] ∨
        ∃ f, outcome = .failed f ∧ IsFileFailure f ∧ speaker = .audio ∧ es = []) := by
  obtain ⟨outcome, voices, t, hvoice, ht, hbecomes, hlength, hvoices, hend⟩ :=
    exists_playVoice hp hs speaker line
  rcases hend with rfl | ⟨f, rfl, hfile, haudio⟩
  · obtain ⟨e, u, hnode, hu, hentered⟩ :=
      hp.publish ht (show (Director.nodeEvent id).type ≠ _ from nofun)
    obtain ⟨e', v, hline, hv, hshown⟩ :=
      hp.publish hu (show (Director.lineEvent line).type ≠ _ from nofun)
    refine ⟨.returned (), voices, [Director.nodeEvent id, Director.lineEvent line], v, ?_, hv, ?_,
      hlength, hvoices, .inl ⟨rfl, rfl⟩⟩
    · rw [Director.showLine, Act.bind_of_returned hvoice]
      exact (Act.bind_of_returned hnode _).trans (Act.bind_of_returned hline _)
    · rw [hbecomes.director, hbecomes.playback] at hentered
      rw [hentered.director, hentered.playback] at hshown
      exact hbecomes.trans (hentered.trans hshown)
  · refine ⟨.failed f, voices, [], t, ?_, ht, ?_, hlength, hvoices,
      .inr ⟨f, rfl, hfile, haudio, rfl⟩⟩
    · rw [Director.showLine, Act.bind_of_failed hvoice]
    · rwa [List.append_nil]

/-- The stage when the director has been registered. -/
def listening (s : Stage) : Stage :=
  { s with
    bus := s.bus.subscribe .actionPressed .director
    director := { s.director with isEnabled := true } }

theorem enable_apply (publish : Publisher Stage) (speaker : Speaker) (s : Stage) :
    Director.enable (wiring publish speaker) s =
      if s.director.isEnabled then (.returned (), s)
      else if Bus.hasPlaceFor (.int 0) (s.bus.registrations .actionPressed) then
        (.returned (), s.listening)
      else (.failed .wrongType, s) := by
  rw [Director.enable, Act.bind_of_returned (Part.read_apply s), get_director]
  cases s.director.isEnabled with
  | true => rfl
  | false =>
      cases hplace : Bus.hasPlaceFor (.int 0) (s.bus.registrations .actionPressed) <;>
        simp [wiring, Bus.register, Act.bind_apply, hplace, listening]

theorem disable_apply (publish : Publisher Stage) (speaker : Speaker) (s : Stage) :
    Director.disable (wiring publish speaker) s =
      (.returned (), if s.director.isEnabled then
        { s with
          bus := s.bus.unsubscribe s.holds .actionPressed .director
          director := { s.director with isEnabled := false } }
        else s) := by
  rw [Director.disable, Act.bind_of_returned (Part.read_apply s), get_director]
  cases s.director.isEnabled <;> rfl

theorem exists_disable (hp : publish.IsQuiet I) (hs : I s) (speaker : Speaker) :
    ∃ t, Director.disable (wiring publish speaker) s = (.returned (), t) ∧ I t ∧
      s.Becomes [] { s.director with isEnabled := false } s.playback t := by
  rw [disable_apply]
  cases henabled : s.director.isEnabled with
  | false =>
      refine ⟨s, rfl, hs, ?_⟩
      rw [← henabled]
      exact .refl s
  | true =>
      refine ⟨_, rfl, hp.ignore hs, rfl, rfl, rfl, ?_⟩
      simp [Bus.announced]

/-- What is announced when a dialogue ends. -/
def farewell (d : Director) : List Event :=
  if d.isEnabled then [Director.dialogueEvent .dialogEnded d.dialogueId] else []

theorem exists_close (hp : publish.IsQuiet I) (hs : I s) (speaker : Speaker) :
    ∃ voices t, Director.close (wiring publish speaker) s = (.returned (), t) ∧ I t ∧
      s.Becomes (voices ++ farewell s.director) { s.director with isEnabled := false }
        s.playback t ∧
      voices.length ≤ 1 ∧ ∀ e ∈ voices, e.IsVoice := by
  obtain ⟨t, hdisable, ht, hdisabled⟩ := exists_disable hp hs speaker
  obtain ⟨voices, u, hstop, hu, hstopped, hlength, hvoices⟩ :=
    exists_stopVoice hp.stopsQuietly ht speaker
  rw [hdisabled.director, hdisabled.playback] at hstopped
  have hsilent := hdisabled.trans hstopped
  rw [List.nil_append] at hsilent
  cases henabled : s.director.isEnabled with
  | false =>
      refine ⟨voices, u, ?_, hu, ?_, hlength, hvoices⟩
      · rw [Director.close, Act.bind_of_returned (Part.read_apply s), Act.bind_of_returned hdisable,
          Act.bind_of_returned hstop, get_director, henabled]
        rfl
      · rw [farewell, henabled, if_neg Bool.false_ne_true, List.append_nil]
        exact hsilent
  | true =>
      obtain ⟨e, v, hend, hv, hended⟩ := hp.publish hu
        (show (Director.dialogueEvent .dialogEnded u.director.dialogueId).type ≠ _ from nofun)
      rw [hsilent.director, hsilent.playback] at hended
      refine ⟨voices, v, ?_, hv, ?_, hlength, hvoices⟩
      · rw [Director.close, Act.bind_of_returned (Part.read_apply s), Act.bind_of_returned hdisable,
          Act.bind_of_returned hstop, get_director, henabled]
        exact Act.bind_of_returned hend _
      · rw [farewell, henabled, if_pos rfl]
        exact hsilent.trans hended

/-- A record cannot be executed: playback does not know how to, or its voice clip cannot be
found. -/
def Balks (record : Record) (failure : Failure) : Prop :=
  record.playableLine? = none ∧ failure = .unsupportedKind (.text record.recordClass.name) ∨
    record.playableLine?.isSome = true ∧ IsFileFailure failure

/-- A step of a director with a playback, as it ends, with what it announces besides voice clips and
the director and the playback that it leaves. -/
inductive Steps (d : Director) (p : Playback) :
    Outcome Bool → List Event → Director → Playback → Prop
  /-- A step inside another one is refused. -/
  | refused (hinside : p.advancing = true) : Steps d p (.failed Failure.alreadyAdvancing) [] d p
  | executed {record : Record} {line : SpokenLine} (hidle : p.advancing = false)
      (hcurrent : p.current? = some record) (hline : record.playableLine? = some line) :
      Steps d p (.returned true) [Director.nodeEvent record.id, Director.lineEvent line] d
        { p with cursor := record.successor, state := .active }
  /-- The cursor stays at a record that cannot be executed. -/
  | failed {record : Record} {failure : Failure} (hidle : p.advancing = false)
      (hcurrent : p.current? = some record) (hfailure : Balks record failure) :
      Steps d p (.failed failure) [] d p
  | ended (hidle : p.advancing = false) (hcurrent : p.current? = none) :
      Steps d p (.returned false) (farewell d) { d with isEnabled := false }
        { p with state := .terminated }

theorem Steps.returned_or_failed {d d' : Director} {p p' : Playback} {outcome : Outcome Bool}
    {es : List Event} (h : Steps d p outcome es d' p') :
    (∃ b, outcome = .returned b) ∨ ∃ failure, outcome = .failed failure := by
  cases h with
  | refused => exact .inr ⟨_, rfl⟩
  | executed => exact .inl ⟨_, rfl⟩
  | failed => exact .inr ⟨_, rfl⟩
  | ended => exact .inl ⟨_, rfl⟩

theorem Steps.length_le {d d' : Director} {p p' : Playback} {outcome : Outcome Bool}
    {es : List Event} (h : Steps d p outcome es d' p') : es.length ≤ 2 := by
  cases h with
  | refused | failed => exact Nat.zero_le _
  | executed => exact Nat.le_refl _
  | ended =>
      rw [farewell]
      split <;> simp

theorem Steps.agrees {d d' : Director} {p p' : Playback} {outcome : Outcome Bool}
    {es : List Event} (h : Steps d p outcome es d' p') : d'.Agrees d := by
  cases h <;> exact ⟨rfl, rfl⟩

/-- A step that is not inside another one is that of its state with the mark of a step set, which is
taken off afterwards. -/
theorem advance_of_step {callbacks : Playback.Callbacks Stage} {outcome : Outcome Bool} {t : Stage}
    (hidle : s.playback.advancing = false)
    (hstep : Playback.step callbacks { s with playback.advancing := true } = (outcome, t)) :
    Playback.advance callbacks s = (outcome, { t with playback.advancing := false }) := by
  rw [Playback.advance, Act.bind_of_returned (Part.read_apply s), get_playback, hidle]
  exact congrArg (fun x ↦ (x.1, Playback.setAdvancing false x.2)) hstep

theorem step_of_none {callbacks : Playback.Callbacks Stage}
    (hcurrent : s.playback.current? = none) :
    Playback.step callbacks s =
      (do
        Playback.terminate callbacks
        return false : Act Stage Bool) s := by
  rw [Playback.step, Act.bind_of_returned (Part.read_apply s), get_playback, hcurrent]

theorem step_of_some {callbacks : Playback.Callbacks Stage} {record : Record}
    (hcurrent : s.playback.current? = some record) :
    Playback.step callbacks s =
      (do
        Playback.execute callbacks record
        return true : Act Stage Bool) s := by
  rw [Playback.step, Act.bind_of_returned (Part.read_apply s), get_playback, hcurrent]

/-- The stage in the middle of a step. -/
def inside (s : Stage) : Stage := { s with playback.advancing := true }

/-- The stage in the middle of a step, when the line has been logged and is to be shown. -/
def atLine (s : Stage) (logLines : Bool) (line : SpokenLine) : Stage :=
  { s.inside with
    journal.log := s.journal.log ++ if logLines then [Playback.spoken line] else [] }

theorem execute_of_line {w : Wiring Stage} {logLines : Bool} {record : Record} {line : SpokenLine}
    (hline : record.playableLine? = some line) :
    Playback.execute (Director.callbacks w logLines) record s.inside =
      (do
        Director.showLine w record.id line
        Part.update Playback fun p => { p with cursor := record.successor, state := .active } :
        Act Stage Unit) (s.atLine logLines line) := by
  rw [Playback.execute, hline]
  cases logLines with
  | true => rfl
  | false =>
      rw [atLine, if_neg Bool.false_ne_true, List.append_nil]
      rfl

variable {callbacks : Playback.Callbacks Stage}

/-- What a step comes to, once it has been seen what is done inside it. -/
theorem exists_step_of_inside (hp : publish.IsQuiet I) (hidle : s.playback.advancing = false)
    {outcome : Outcome Bool} (voices : List Event) {es : List Event} {t : Stage} {p : Playback}
    {speaker : Speaker} (hstep : Playback.step callbacks s.inside = (outcome, t)) (ht : I t)
    (hannounced : t.bus.announced = s.bus.announced ++ (voices ++ es))
    (hspeaker : t.speaker = s.speaker) (hplayback : { t.playback with advancing := false } = p)
    (hlength : voices.length ≤ 1) (hvoices : ∀ e ∈ voices, e.IsVoice)
    (haudio : ∀ f, outcome = .failed f → IsFileFailure f → speaker = .audio)
    (hsteps : Steps s.director s.playback outcome es t.director p) :
    ∃ outcome voices es t, Playback.advance callbacks s = (outcome, t) ∧
      I t ∧ s.Becomes (voices ++ es) t.director t.playback t ∧ voices.length ≤ 1 ∧
      (∀ e ∈ voices, e.IsVoice) ∧
      (∀ f, outcome = .failed f → IsFileFailure f → speaker = .audio) ∧
      Steps s.director s.playback outcome es t.director t.playback := by
  refine ⟨outcome, voices, es, _, advance_of_step hidle hstep, hp.keep ht rfl rfl rfl,
    ⟨rfl, rfl, hspeaker, hannounced⟩, hlength, hvoices, haudio, ?_⟩
  rw [← hplayback] at hsteps
  exact hsteps

theorem exists_step (hp : publish.IsQuiet I) (hs : I s) (speaker : Speaker) (logLines : Bool)
    (hidle : s.playback.advancing = false) :
    ∃ outcome voices es t,
      Playback.advance (Director.callbacks (wiring publish speaker) logLines) s = (outcome, t) ∧
      I t ∧ s.Becomes (voices ++ es) t.director t.playback t ∧ voices.length ≤ 1 ∧
      (∀ e ∈ voices, e.IsVoice) ∧
      (∀ f, outcome = .failed f → IsFileFailure f → speaker = .audio) ∧
      Steps s.director s.playback outcome es t.director t.playback := by
  cases hcurrent : s.playback.current? with
  | none =>
      have hended : I { s with
          playback := { s.playback with advancing := true, state := .terminated }
          journal.log := s.journal.log ++ [Playback.ended] } := hp.keep hs rfl rfl rfl
      obtain ⟨voices, t, hclose, ht, hbecomes, hlength, hvoices⟩ := exists_close hp hended speaker
      have hstep : Playback.step (Director.callbacks (wiring publish speaker) logLines) s.inside =
          (.returned false, t) := by
        rw [step_of_none (show s.inside.playback.current? = none from hcurrent)]
        exact Act.bind_of_returned hclose _
      refine exists_step_of_inside hp hidle voices hstep ht hbecomes.announced hbecomes.speaker
        (p := { s.playback with state := .terminated }) ?_ hlength hvoices nofun ?_
      · rw [hbecomes.playback, ← hidle]
      · rw [hbecomes.director]
        exact .ended hidle hcurrent
  | some record =>
      have hinside : s.inside.playback.current? = some record := hcurrent
      have hkeep : I s.inside := hp.keep hs rfl rfl rfl
      have hplayback : ({ s.inside.playback with advancing := false } : Playback) = s.playback := by
        rw [← hidle]
        rfl
      cases hline : record.playableLine? with
      | none =>
          have hstep :
              Playback.step (Director.callbacks (wiring publish speaker) logLines) s.inside =
                (.failed (.unsupportedKind (.text record.recordClass.name)), s.inside) := by
            rw [step_of_some hinside, Playback.execute, hline]
            rfl
          exact exists_step_of_inside hp hidle [] hstep hkeep (List.append_nil _).symm rfl hplayback
            (Nat.zero_le _) (fun _ h ↦ absurd h List.not_mem_nil)
            (by rintro _ ⟨⟩ ⟨_, ⟨⟩⟩) (.failed hidle hcurrent (.inl ⟨hline, rfl⟩))
      | some line =>
          have hatLine : I (s.atLine logLines line) := hp.keep hs rfl rfl rfl
          obtain ⟨outcome, voices, es, t, hshow, ht, hbecomes, hlength, hvoices, hend⟩ :=
            exists_showLine hp hatLine speaker record.id line
          have hexecute :
              Playback.execute (Director.callbacks (wiring publish speaker) logLines) record
                s.inside = _ := execute_of_line hline
          rcases hend with ⟨rfl, rfl⟩ | ⟨f, rfl, hfile, haudio, rfl⟩
          · rw [Act.bind_of_returned hshow] at hexecute
            have hstep : Playback.step (Director.callbacks (wiring publish speaker) logLines)
                s.inside = (.returned true, { t with playback := { t.playback with
                  cursor := record.successor
                  state := .active } }) := by
              rw [step_of_some hinside, Act.bind_of_returned hexecute]
              rfl
            refine exists_step_of_inside hp hidle voices hstep (hp.keep ht rfl rfl rfl)
              hbecomes.announced hbecomes.speaker
              (p := { s.playback with cursor := record.successor, state := .active }) ?_ hlength
              hvoices nofun ?_
            · rw [hbecomes.playback, ← hidle]
              rfl
            · rw [hbecomes.director]
              exact .executed hidle hcurrent hline
          · rw [Act.bind_of_failed hshow] at hexecute
            have hstep : Playback.step (Director.callbacks (wiring publish speaker) logLines)
                s.inside = (.failed f, t) := by
              rw [step_of_some hinside, Act.bind_of_failed hexecute]
            refine exists_step_of_inside hp hidle voices hstep ht hbecomes.announced
              hbecomes.speaker (p := s.playback) ?_ hlength hvoices (fun _ _ _ ↦ haudio) ?_
            · rw [hbecomes.playback]
              exact hplayback
            · rw [hbecomes.director]
              exact .failed hidle hcurrent (.inr ⟨by rw [hline, Option.isSome_some], hfile⟩)

theorem exists_advance (hp : publish.IsQuiet I) (hs : I s) (speaker : Speaker) :
    ∃ outcome voices es t, Director.advance (wiring publish speaker) s = (outcome, t) ∧ I t ∧
      s.Becomes (voices ++ es) t.director t.playback t ∧ voices.length ≤ 2 ∧
      (∀ e ∈ voices, e.IsVoice) ∧
      (∀ f, outcome = .failed f → IsFileFailure f → speaker = .audio) ∧
      Steps s.director s.playback outcome es t.director t.playback := by
  obtain ⟨voices, u, hstop, hu, hstopped, hlength, hvoices⟩ :
      ∃ voices u,
        (if s.director.settings.stopVoiceOnAdvance = true then
          Director.stopVoice (wiring publish speaker) else pure () : Act Stage Unit) s =
            (.returned (), u) ∧ I u ∧ s.Becomes voices s.director s.playback u ∧
          voices.length ≤ 1 ∧ ∀ e ∈ voices, e.IsVoice := by
    split
    · exact exists_stopVoice hp.stopsQuietly hs speaker
    · exact ⟨[], s, rfl, hs, .refl s, Nat.zero_le _, fun _ h ↦ absurd h List.not_mem_nil⟩
  have hrun : Director.advance (wiring publish speaker) s =
      Playback.advance
        (Director.callbacks (wiring publish speaker) s.director.settings.logLines) u := by
    rw [Director.advance, Act.bind_of_returned (Part.read_apply s), get_director]
    cases hsetting : s.director.settings.stopVoiceOnAdvance with
    | true =>
        rw [hsetting, if_pos rfl] at hstop
        exact Act.bind_of_returned hstop _
    | false =>
        rw [hsetting, if_neg Bool.false_ne_true] at hstop
        cases hstop
        rfl
  cases hidle : s.playback.advancing with
  | true =>
      refine ⟨.failed Failure.alreadyAdvancing, voices, [], u, ?_, hu, ?_,
        Nat.le_succ_of_le hlength, hvoices, by rintro _ ⟨⟩ ⟨_, ⟨⟩⟩, ?_⟩
      · rw [hrun, Playback.advance, Act.bind_of_returned (Part.read_apply u), get_playback,
          hstopped.playback, hidle]
        rfl
      · rw [List.append_nil, hstopped.director, hstopped.playback]
        exact hstopped
      · rw [hstopped.director, hstopped.playback]
        exact .refused hidle
  | false =>
      obtain ⟨outcome, others, es, t, hstep, ht, hbecomes, hlength', hothers, haudio, hsteps⟩ :=
        exists_step hp hu speaker s.director.settings.logLines (by rw [hstopped.playback, hidle])
      rw [hstopped.director, hstopped.playback] at hsteps
      refine ⟨outcome, voices ++ others, es, t, hrun.trans hstep, ht, ?_, ?_, ?_, haudio, hsteps⟩
      · rw [List.append_assoc]
        exact hstopped.trans hbecomes
      · rw [List.length_append]
        exact Nat.add_le_add hlength hlength'
      · intro e he
        rcases List.mem_append.mp he with he | he
        · exact hvoices e he
        · exact hothers e he

/-! ## Beginning and breaking off -/

/-- From the stages of a kind the director can be registered. -/
def Admits (I : Stage → Prop) : Prop :=
  ∀ s, I s → s.director.isEnabled = false →
    Bus.hasPlaceFor (.int 0) (s.bus.registrations .actionPressed) = true ∧ I s.listening

theorem exists_enable (publish : Publisher Stage) (hl : Admits I) (hs : I s) (speaker : Speaker) :
    ∃ t, Director.enable (wiring publish speaker) s = (.returned (), t) ∧ I t ∧
      s.Becomes [] { s.director with isEnabled := true } s.playback t := by
  rw [enable_apply]
  cases henabled : s.director.isEnabled with
  | true =>
      refine ⟨s, rfl, hs, ?_⟩
      rw [← henabled]
      exact .refl s
  | false =>
      obtain ⟨hplace, hlistening⟩ := hl s hs henabled
      refine ⟨s.listening, ?_, hlistening, rfl, rfl, rfl, (List.append_nil _).symm⟩
      rw [if_neg Bool.false_ne_true, if_pos hplace]

/-- A dialogue is started by loading its graph, listening for presses and telling of it, before the
first step. -/
theorem exists_start (hp : publish.IsQuiet I) (hl : Admits I) (hs : I s) (speaker : Speaker)
    (graph : CompiledGraph) (id : Value) :
    ∃ outcome voices es t,
      Director.start (wiring publish speaker) graph id s = (outcome.map fun _ ↦ (), t) ∧ I t ∧
      s.Becomes (Director.dialogueEvent .dialogStarted id :: (voices ++ es)) t.director
        t.playback t ∧
      voices.length ≤ 2 ∧ (∀ e ∈ voices, e.IsVoice) ∧
      (∀ f, outcome = .failed f → IsFileFailure f → speaker = .audio) ∧
      Steps { s.director with dialogueId := id, isEnabled := true }
        { s.playback with
          table := Playback.tableOf graph.records
          cursor := graph.entry
          state := .loaded } outcome es t.director t.playback := by
  let p : Playback := { s.playback with
    table := Playback.tableOf graph.records
    cursor := graph.entry
    state := .loaded }
  let loaded : Stage := { s with
    director := { s.director with dialogueId := id }
    playback := p
    journal.log := s.journal.log ++ (Playback.tabulate [] graph.records).1 }
  have hloaded : I loaded := hp.keep hs rfl rfl rfl
  obtain ⟨u, henable, hu, henabled⟩ := exists_enable publish hl hloaded speaker
  obtain ⟨e, v, hpublish, hv, hpublished⟩ := hp.publish hu
    (show (Director.dialogueEvent .dialogStarted id).type ≠ _ from nofun)
  obtain ⟨outcome, voices, es, t, hadvance, ht, hbecomes, hlength, hvoices, haudio, hsteps⟩ :=
    exists_advance hp hv speaker
  rw [hpublished.director, hpublished.playback, henabled.director, henabled.playback] at hsteps
  refine ⟨outcome, voices, es, t, ?_, ht, ?_, hlength, hvoices, haudio, hsteps⟩
  · have hrun : Director.start (wiring publish speaker) graph id s =
        (do
          Director.enable (wiring publish speaker)
          let _ ← publish (Director.dialogueEvent .dialogStarted id)
          let _ ← Director.advance (wiring publish speaker) : Act Stage Unit) loaded := rfl
    rw [hrun, Act.bind_of_returned henable, Act.bind_of_returned hpublish, Act.bind_pure_apply,
      hadvance]
  · have htold := (henabled.trans hpublished).trans hbecomes
    exact ⟨htold.director, htold.playback, htold.speaker, htold.announced⟩

theorem exists_stop (hp : publish.IsQuiet I) (hs : I s) (speaker : Speaker) :
    ∃ voices t, Director.stop (wiring publish speaker) s = (.returned (), t) ∧ I t ∧
      s.Becomes (voices ++ farewell s.director) { s.director with isEnabled := false }
        { s.playback with table := [], cursor := noId, state := .unloaded } t ∧
      ∀ e ∈ voices, e.IsVoice := by
  let unloaded : Stage := { s with
    playback := { s.playback with table := [], cursor := noId, state := .unloaded } }
  have hunloaded : I unloaded := hp.keep hs rfl rfl rfl
  obtain ⟨voices, t, hclose, ht, hbecomes, -, hvoices⟩ := exists_close hp hunloaded speaker
  exact ⟨voices, t, hclose, ht,
    ⟨hbecomes.director, hbecomes.playback, hbecomes.speaker, hbecomes.announced⟩, hvoices⟩

theorem play_of_error {id : Value} {failure : Failure} (h : s.director.find? id = .error failure)
    (w : Wiring Stage) : Director.play w id s = (.failed failure, s) := by
  rw [Director.play, Act.bind_of_returned (Part.read_apply s), get_director]
  rw [Director.find?] at h
  cases hbase : s.director.database with
  | none => rw [hbase] at h; cases h
  | some db =>
      rw [hbase] at h
      simp only [Act.bind_apply, h]
      rfl

theorem play_of_none {id : Value} (h : s.director.find? id = .ok none) (w : Wiring Stage) :
    ∃ message, Director.play w id s =
      (.returned false,
        { s with journal.log := s.journal.log ++ [Director.warning message] }) := by
  rw [Director.play, Act.bind_of_returned (Part.read_apply s), get_director]
  rw [Director.find?] at h
  cases hbase : s.director.database with
  | none => exact ⟨_, rfl⟩
  | some db =>
      rw [hbase] at h
      simp only [Act.bind_apply, h]
      exact ⟨_, rfl⟩

theorem play_of_some {id : Value} {graph : CompiledGraph}
    (h : s.director.find? id = .ok (some graph)) (w : Wiring Stage) :
    Director.play w id s = (Director.start w graph id >>= fun _ ↦ pure true) s := by
  rw [Director.play, Act.bind_of_returned (Part.read_apply s), get_director]
  rw [Director.find?] at h
  cases hbase : s.director.database with
  | none => rw [hbase] at h; cases h
  | some db =>
      rw [hbase] at h
      simp only [Act.bind_apply, h]
      rfl

end Stage

end LinearDialogue
