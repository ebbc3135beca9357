import LinearDialogue.Proofs.Directing

/-!
# Dialogues as they are told

The dialogues that a director has started, each with its id, its graph, the records that have been
executed and whether it is over.  A step executes the record under the cursor of the last dialogue
or, if there is none, brings that dialogue to its end.  What the director announces is one dialogue
after another: its beginning, its lines, and its end once it is over.
-/

namespace LinearDialogue

structure Dialogue where
  id : Value
  graph : CompiledGraph
  /-- The records that have been executed. -/
  shown : List Record := []
  isOver : Bool := false

/-- What is announced when a record is executed. -/
def Record.announcement (record : Record) : List Event :=
  match record.playableLine? with
  | some line => [Director.nodeEvent record.id, Director.lineEvent line]
  | none => []

/-- Is an event of this type about the course of a dialogue? -/
def EventType.isOfDialogue : EventType → Bool
  | .dialogStarted | .dialogEnded | .nodeEntered | .lineShown => true
  | _ => false

namespace Dialogue

/-- The id of the record that is next: the successor of the last one, or the entry of the graph. -/
def cursor (dialogue : Dialogue) : Int :=
  (dialogue.shown.getLast?.map Record.successor).getD dialogue.graph.entry

def next? (dialogue : Dialogue) : Option Record :=
  (Playback.tableOf dialogue.graph.records).find? fun r ↦ r.id == dialogue.cursor

/-- A dialogue of which nothing has been shown. -/
def start (graph : CompiledGraph) (id : Value) : Dialogue := { id, graph }

/-- The dialogue when it has executed one more record. -/
def execute (record : Record) (dialogue : Dialogue) : Dialogue :=
  { dialogue with shown := dialogue.shown ++ [record] }

/-- The dialogue when it has come to its end, or has been broken off. -/
def close (dialogue : Dialogue) : Dialogue := { dialogue with isOver := true }

def events (dialogue : Dialogue) : List Event :=
  Director.dialogueEvent .dialogStarted dialogue.id ::
    dialogue.shown.flatMap Record.announcement ++
      if dialogue.isOver then [Director.dialogueEvent .dialogEnded dialogue.id] else []

/-- Change the last of several dialogues. -/
def amend (f : Dialogue → Dialogue) (dialogues : List Dialogue) : List Dialogue :=
  dialogues.dropLast ++ (dialogues.getLast?.map f).toList

@[simp] theorem amend_concat (f : Dialogue → Dialogue) (past : List Dialogue)
    (dialogue : Dialogue) :
    amend f (past ++ [dialogue]) = past ++ [f dialogue] := by
  simp [amend]

theorem amend_eq_self {f : Dialogue → Dialogue} {dialogues : List Dialogue}
    (h : ∀ dialogue, dialogues.getLast? = some dialogue → f dialogue = dialogue) :
    amend f dialogues = dialogues := by
  rcases List.eq_nil_or_concat' dialogues with rfl | ⟨past, dialogue, rfl⟩
  · rfl
  · rw [amend_concat, h dialogue List.getLast?_concat]

theorem getLast?_amend (f : Dialogue → Dialogue) (dialogues : List Dialogue) :
    (amend f dialogues).getLast? = dialogues.getLast?.map f := by
  rcases List.eq_nil_or_concat' dialogues with rfl | ⟨past, dialogue, rfl⟩
  · rfl
  · rw [amend_concat, List.getLast?_concat, List.getLast?_concat, Option.map_some]

variable {dialogue : Dialogue}

theorem close_of_isOver (h : dialogue.isOver = true) : dialogue.close = dialogue := by
  rw [close, ← h]

end Dialogue

/-- A director and a playback are in the course of a dialogue. -/
structure Dialogue.IsRunning (dialogue : Dialogue) (d : Director) (p : Playback) : Prop where
  enabled : d.isEnabled = true
  id : d.dialogueId = dialogue.id
  table : p.table = Playback.tableOf dialogue.graph.records
  cursor : p.cursor = dialogue.cursor
  state : p.state = .loaded ∨ p.state = .active

/-- No dialogue is running, and there is nothing that one could go on with. -/
structure Playback.IsIdle (d : Director) (p : Playback) : Prop where
  disabled : d.isEnabled = false
  current : p.current? = none
  state : p.state ≠ .loaded ∧ p.state ≠ .active

/-- What has been announced, a director and a playback, outside of a step, when some dialogues have
been told.  Only the last one can be running. -/
structure Dialogue.Follows (told : List Event) (d : Director) (p : Playback)
    (dialogues : List Dialogue) : Prop where
  outside : p.advancing = false
  trace : (told.filter fun e ↦ e.type.isOfDialogue) = dialogues.flatMap Dialogue.events
  course : (∃ dialogue, dialogues.getLast? = some dialogue ∧ dialogue.isOver = false ∧
      dialogue.IsRunning d p) ∨
    (∀ dialogue, dialogues.getLast? = some dialogue → dialogue.isOver = true) ∧ p.IsIdle d

namespace Dialogue

open Stage

/-- What comes of dialogues when the director takes a step with an outcome. -/
inductive Advances (dialogues : List Dialogue) : Outcome Bool → List Dialogue → Prop
  | executed {dialogue : Dialogue} {record : Record} {line : SpokenLine}
      (hlast : dialogues.getLast? = some dialogue) (hrunning : dialogue.isOver = false)
      (hnext : dialogue.next? = some record) (hline : record.playableLine? = some line) :
      Advances dialogues (.returned true) (amend (execute record) dialogues)
  | ended {dialogue : Dialogue} (hlast : dialogues.getLast? = some dialogue)
      (hrunning : dialogue.isOver = false) (hnext : dialogue.next? = none) :
      Advances dialogues (.returned false) (amend close dialogues)
  /-- There is no dialogue to go on with. -/
  | idle (hover : ∀ dialogue, dialogues.getLast? = some dialogue → dialogue.isOver = true) :
      Advances dialogues (.returned false) dialogues
  | failed {dialogue : Dialogue} {record : Record} {failure : Failure}
      (hlast : dialogues.getLast? = some dialogue) (hrunning : dialogue.isOver = false)
      (hnext : dialogue.next? = some record) (hfailure : Balks record failure) :
      Advances dialogues (.failed failure) dialogues

theorem filter_voices {voices : List Event} (h : ∀ e ∈ voices, e.IsVoice) :
    (voices.filter fun e ↦ e.type.isOfDialogue) = [] := by
  rw [List.filter_eq_nil_iff]
  intro e he
  rcases h e he with htype | htype <;> simp [htype, EventType.isOfDialogue]

variable {dialogue : Dialogue} {dialogues : List Dialogue} {told es voices : List Event}
  {d d' : Director} {p p' : Playback} {outcome : Outcome Bool}

theorem IsRunning.current? (h : dialogue.IsRunning d p) : p.current? = dialogue.next? := by
  rw [Playback.current?, Playback.record?, h.table, h.cursor]
  rfl

theorem events_execute (record : Record) (h : dialogue.isOver = false) :
    (dialogue.execute record).events = dialogue.events ++ record.announcement := by
  simp [events, execute, h]

theorem events_close (h : dialogue.isOver = false) :
    dialogue.close.events =
      dialogue.events ++ [Director.dialogueEvent .dialogEnded dialogue.id] := by
  simp [events, close, h]

theorem farewell_of_isRunning (h : dialogue.IsRunning d p) :
    farewell d = [Director.dialogueEvent .dialogEnded dialogue.id] := by
  rw [farewell, if_pos h.enabled, h.id]

/-- What is announced besides the events of voice clips, all of it about the course of a dialogue,
continues the trace. -/
theorem trace_append (htrace : (told.filter fun e ↦ e.type.isOfDialogue) = dialogues.flatMap events)
    (hvoices : ∀ e ∈ voices, e.IsVoice) (hes : ∀ e ∈ es, e.type.isOfDialogue = true) :
    ((told ++ (voices ++ es)).filter fun e ↦ e.type.isOfDialogue) =
      dialogues.flatMap events ++ es := by
  rw [List.filter_append, List.filter_append, htrace, filter_voices hvoices, List.nil_append,
    List.filter_eq_self.mpr hes]

/-- A step of the director is one of the last dialogue. -/
theorem Follows.steps (h : Follows told d p dialogues) (hvoices : ∀ e ∈ voices, e.IsVoice)
    (hsteps : Steps d p outcome es d' p') :
    ∃ dialogues', Advances dialogues outcome dialogues' ∧
      Follows (told ++ (voices ++ es)) d' p' dialogues' := by
  cases hsteps with
  | refused hinside => rw [h.outside] at hinside; cases hinside
  | @executed record line hidle hcurrent hline =>
      rcases h.course with ⟨dialogue, hlast, hrunning, hcourse⟩ | ⟨-, hidle⟩
      · obtain ⟨past, rfl⟩ := List.getLast?_eq_some_iff.mp hlast
        have hnext : dialogue.next? = some record := by rw [← hcourse.current?, hcurrent]
        have hannouncement : record.announcement =
            [Director.nodeEvent record.id, Director.lineEvent line] := by
          rw [Record.announcement, hline]
        refine ⟨_, .executed hlast hrunning hnext hline, hidle, ?_,
          .inl ⟨dialogue.execute record, by simp, hrunning, ?_⟩⟩
        · rw [trace_append h.trace hvoices (by simp [Director.nodeEvent, Director.lineEvent,
            EventType.isOfDialogue]), amend_concat]
          simp [events_execute record hrunning, hannouncement]
        · exact ⟨hcourse.enabled, hcourse.id, hcourse.table, by simp [cursor, execute], .inr rfl⟩
      · rw [hidle.current] at hcurrent; cases hcurrent
  | failed hidle hcurrent hfailure =>
      rcases h.course with ⟨dialogue, hlast, hrunning, hcourse⟩ | ⟨-, hidle⟩
      · have hnext := hcourse.current?.symm.trans hcurrent
        refine ⟨dialogues, .failed hlast hrunning hnext hfailure, hidle, ?_, h.course⟩
        rw [trace_append h.trace hvoices (by simp), List.append_nil]
      · rw [hidle.current] at hcurrent; cases hcurrent
  | ended hidle hcurrent =>
      rcases h.course with ⟨dialogue, hlast, hrunning, hcourse⟩ | ⟨hover, hsilent⟩
      · obtain ⟨past, rfl⟩ := List.getLast?_eq_some_iff.mp hlast
        have hnext : dialogue.next? = none := by rw [← hcourse.current?, hcurrent]
        refine ⟨_, .ended hlast hrunning hnext, hidle, ?_,
          .inr ⟨by simp [close], rfl, hcurrent, by simp⟩⟩
        rw [farewell_of_isRunning hcourse, trace_append h.trace hvoices (by
          simp [Director.dialogueEvent, EventType.isOfDialogue]), amend_concat]
        simp [events_close hrunning]
      · refine ⟨dialogues, .idle hover, hidle, ?_, .inr ⟨hover, rfl, hcurrent, by simp⟩⟩
        rw [farewell, if_neg (by simp [hsilent.disabled]), trace_append h.trace hvoices (by simp),
          List.append_nil]

theorem Follows.other (h : Follows told d p dialogues) {event : Event}
    (hevent : event.type.isOfDialogue = false) : Follows (told ++ [event]) d p dialogues where
  outside := h.outside
  trace := by
    rw [List.filter_append, h.trace, List.filter_singleton, hevent]
    exact List.append_nil _
  course := h.course

/-- Starting a dialogue abandons the one that is running. -/
theorem Follows.start (h : Follows told d p dialogues) (graph : CompiledGraph) (id : Value) :
    Follows (told ++ [Director.dialogueEvent .dialogStarted id])
      { d with dialogueId := id, isEnabled := true }
      { p with
        table := Playback.tableOf graph.records
        cursor := graph.entry
        state := .loaded } (dialogues ++ [Dialogue.start graph id]) where
  outside := h.outside
  trace := by
    rw [List.filter_append, h.trace, List.flatMap_append, List.flatMap_singleton]
    rfl
  course := .inl ⟨Dialogue.start graph id, List.getLast?_concat, rfl, rfl, rfl, rfl, rfl, .inl rfl⟩

/-- Breaking off ends the dialogue that is running. -/
theorem Follows.stop (h : Follows told d p dialogues) (hvoices : ∀ e ∈ voices, e.IsVoice) :
    Follows (told ++ (voices ++ farewell d)) { d with isEnabled := false }
      { p with table := [], cursor := noId, state := .unloaded } (amend close dialogues) where
  outside := h.outside
  trace := by
    rcases h.course with ⟨dialogue, hlast, hrunning, hcourse⟩ | ⟨hover, hsilent⟩
    · obtain ⟨past, rfl⟩ := List.getLast?_eq_some_iff.mp hlast
      rw [farewell_of_isRunning hcourse, trace_append h.trace hvoices (by
        simp [Director.dialogueEvent, EventType.isOfDialogue]), amend_concat]
      simp [events_close hrunning]
    · have hsame : amend close dialogues = dialogues :=
        amend_eq_self fun dialogue hlast ↦ close_of_isOver (hover dialogue hlast)
      rw [farewell, if_neg (by simp [hsilent.disabled]), hsame, trace_append h.trace hvoices
        (by simp), List.append_nil]
  course := by
    refine .inr ⟨?_, rfl, rfl, by simp⟩
    intro dialogue hlast
    rw [getLast?_amend] at hlast
    obtain ⟨last, -, rfl⟩ := Option.map_eq_some_iff.mp hlast
    rfl

end Dialogue

end LinearDialogue
