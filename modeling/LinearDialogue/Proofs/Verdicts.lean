import LinearDialogue.Proofs.Exchanges
import LinearDialogue.Proofs.ImportOutcomes

/-!
# What imports announce

Where no handler publishes anything, an event that is published from outside is delivered at once
and is the only one to be.  So an import announces the issues of the graph, and then that it has
refused the graph for them, or the compiled graph.  If the graph has no issues and is not compiled,
for a loop of lines or for a line that cannot be lowered, the import fails and nothing more is
announced.
-/

namespace LinearDialogue

/-- A program that publishes nothing and does not abort, nor do the handlers that it defines. -/
inductive Program.IsSilent : Program ExchangeOp → Prop
  | done : IsSilent .done
  | fail (failure : Failure) : IsSilent (.fail failure)
  | consume {next : Program ExchangeOp} (h : IsSilent next) : IsSilent (.consume next)
  | note {item : Note} {next : Program ExchangeOp} (h : IsSilent next) : IsSilent (.note item next)
  | perform {op : ExchangeOp} {next : Except Failure Value → Program ExchangeOp}
      (hquiet : Exchange.published? op = none)
      (hbehaviour : ∀ name bound behaviour, op = .define name bound behaviour →
        ∀ call event, IsSilent (behaviour call event))
      (h : ∀ answer, IsSilent (next answer)) : IsSilent (.perform op next)

theorem Program.IsSilent.isOrdinary {program : Program ExchangeOp} (h : program.IsSilent) :
    program.IsOrdinary fun _ ↦ True := by
  induction h with
  | done => exact .done
  | fail failure => exact .fail failure
  | consume _ ih => exact .consume ih
  | note _ ih => exact .note ih
  | perform _ _ _ hbehaviour ih => exact .perform (fun _ _ _ _ _ _ ↦ trivial) hbehaviour ih

namespace Exchange

variable {s t : Exchange}

/-- No handler publishes anything. -/
def IsSilent (s : Exchange) : Prop :=
  ∀ handler ∈ s.handlers, ∀ call event, (handler.behaviour call event).IsSilent

theorem IsSilent.isOrdinary (hs : s.IsSilent) : s.IsOrdinary fun _ ↦ True :=
  fun handler hmem call event ↦ (hs handler hmem call event).isOrdinary

/-! ## Nothing is announced by handlers -/

/-- Where no handler publishes anything, none comes to do so, and nothing has been announced. -/
def StaysSilent (s t : Exchange) : Prop :=
  s.IsSilent → t.IsSilent ∧ t.bus.announced = s.bus.announced

theorem staysSilent_chains : Act.Chains StaysSilent where
  refl _ hs := ⟨hs, rfl⟩
  trans hst htu hs := by
    obtain ⟨ht, hsame⟩ := hst hs
    obtain ⟨hu, hsame'⟩ := htu ht
    exact ⟨hu, hsame'.trans hsame⟩

theorem staysSilent_of_handlers (hhandlers : t.handlers = s.handlers)
    (hannounced : t.bus.announced = s.bus.announced) : s.StaysSilent t :=
  fun hs ↦ ⟨by rwa [IsSilent, hhandlers], hannounced⟩

theorem staysSilent_listenerOf (name : String) : (listenerOf name).Along StaysSilent := by
  intro s
  rw [listenerOf]
  split <;> exact staysSilent_chains.refl s

theorem staysSilent_perform (publish : Publisher Exchange) {op : ExchangeOp}
    (hquiet : published? op = none)
    (hbehaviour : ∀ name bound behaviour, op = .define name bound behaviour →
      ∀ call event, (behaviour call event).IsSilent) : (perform publish op).Along StaysSilent := by
  have hnamed (name : String) {f : Listener → Act Exchange Value}
      (h : ∀ listener, (f listener).Along StaysSilent) :
      (listenerOf name >>= f).Along StaysSilent :=
    .bind staysSilent_chains (staysSilent_listenerOf name) h
  have hmoves {b c : Bus Listener} (h : Bus.Moves (fun _ ↦ True) b [] c) :
      c.announced = b.announced := by
    rw [Bus.announced_moves h, List.append_nil]
  cases op with
  | define name bound behaviour =>
      exact fun s hs ↦ ⟨forall_define hs (hbehaviour name bound behaviour rfl), rfl⟩
  | drop name => exact hnamed name fun _ s hs ↦ ⟨forall_letGo hs name, rfl⟩
  | subscribe type name priority oneShot weak =>
      refine hnamed name fun listener ↦ .bind staysSilent_chains (fun s ↦ ?_) fun _ ↦
        .pure staysSilent_chains _
      cases hplace : Bus.hasPlaceFor priority (s.bus.registrations type) with
      | false => simpa [Bus.register, Act.bind_apply, hplace] using staysSilent_chains.refl s
      | true =>
          have hkept : s.StaysSilent
              { s with bus := s.bus.subscribe type listener priority oneShot weak } :=
            staysSilent_of_handlers rfl rfl
          simpa [Bus.register, Act.bind_apply, hplace] using hkept
  | unsubscribe type name =>
      exact hnamed name fun listener s ↦
        staysSilent_of_handlers rfl (hmoves (.unsubscribe s.holds type listener .refl))
  | isSubscribed type name => exact hnamed name fun _ ↦ staysSilent_chains.refl
  | publish event => cases hquiet
  | clear type => exact fun s ↦ staysSilent_of_handlers rfl (hmoves (.clear type .refl))

theorem staysSilent_run {program : Program ExchangeOp} (h : program.IsSilent) :
    (program.run (perform (Bus.post Listener)) consumeCurrent).Along StaysSilent := by
  induction h with
  | done => exact .pure staysSilent_chains ()
  | fail failure => exact .fail staysSilent_chains failure
  | consume _ ih =>
      exact .bind staysSilent_chains (fun _ ↦ staysSilent_of_handlers rfl rfl) fun _ ↦ ih
  | note _ ih =>
      exact .bind staysSilent_chains (fun _ ↦ staysSilent_of_handlers rfl rfl) fun _ ↦ ih
  | perform hquiet hbehaviour _ _ ih =>
      exact .bind staysSilent_chains (staysSilent_perform _ hquiet hbehaviour).attempt ih

theorem staysSilent_call (listener : Listener) : (call listener).Along StaysSilent := by
  intro s hs
  cases hhandler : s.handler? listener with
  | none => simpa only [call, hhandler] using staysSilent_chains.refl s hs
  | some handler =>
      cases hcurrent : s.bus.current with
      | none => simpa only [call, hhandler, hcurrent] using staysSilent_chains.refl s hs
      | some d =>
          have hprogram := hs handler (List.mem_of_find?_eq_some hhandler) handler.calls d.event
          simp only [call, hhandler, hcurrent]
          refine Act.Along.bind staysSilent_chains (fun _ ↦ staysSilent_of_handlers rfl rfl)
            (fun _ ↦ ?_) s hs
          exact .bind staysSilent_chains (fun _ hsilent ↦ ⟨forall_countCall hsilent listener, rfl⟩)
            fun _ ↦ staysSilent_run hprogram

theorem leads_staysSilent : handling.Leads StaysSilent where
  chains := staysSilent_chains
  attend hb := staysSilent_of_handlers rfl (Bus.announced_attends hb)
  begin _ _ := staysSilent_of_handlers rfl rfl
  finish _ := staysSilent_of_handlers rfl (Bus.announced_finish _)
  report _ _ := staysSilent_of_handlers rfl rfl
  call := staysSilent_call

/-- An event that is published from outside, while nothing waits, is delivered, and no other. -/
theorem IsSilent.exists_publish (hs : s.IsSilent) (hidle : s.bus.queue = []) (fuel : Nat)
    (event : Event) :
    ∃ answer t, handling.publish fuel event s = (.returned answer, t) ∧ t.IsSilent ∧
      t.bus.queue = [] ∧ t.bus.announced = s.bus.announced ++ [event] ∧
      t.bus.begun = s.bus.begun ++ [event] := by
  obtain ⟨publication, outcome, t, hpublish, rfl, hpublishes, hend⟩ :
      ∃ publication outcome t, handling.publish fuel event s = (outcome, t) ∧
        publication.first.event = event ∧
        Bus.Publishes (fun _ ↦ True) s.bus publication t.bus ∧
        ((∃ e, outcome = .returned e) ∧ t.bus.queue = [] ∨
          outcome = .stalled ∧ publication.later.length = fuel ∧ t.bus.queue ≠ []) := by
    obtain ⟨publication, outcome, t, hpublish, hfirst, hpublishes, -, -, hend⟩ :=
      (handling_obeys fun _ ↦ True).publish fuel trivial (s := s) hs.isOrdinary
    exact ⟨publication, outcome, t, hpublish, hfirst, hpublishes, hend⟩
  obtain ⟨ht, hannounced⟩ : t.IsSilent ∧
      t.bus.announced = (s.bus.record (.published publication.first.event)).announced := by
    have hkept := leads_staysSilent.publish fuel publication.first.event s hs
    rwa [hpublish] at hkept
  rw [Bus.announced_published] at hannounced
  -- as `event` alone is announced, no handler has posted anything
  have hposted : publication.rounds.flatMap Round.posted = [] := by
    have htold := hannounced
    rw [Bus.announced, Bus.announced, hpublishes.history, List.filterMap_append,
      Publication.filterMap_published?] at htold
    exact (List.cons.inj (List.append_cancel_left htold)).2
  have hwaiting := hpublishes.queue
  rw [hidle, hposted, List.append_nil, eq_comm, List.append_eq_nil_iff, List.map_eq_nil_iff]
    at hwaiting
  obtain ⟨hlater, hqueue⟩ := hwaiting
  have hbegun : t.bus.begun = s.bus.begun ++ [publication.first.event] := by
    rw [Bus.begun, Bus.begun, hpublishes.history, List.filterMap_append,
      Publication.filterMap_begun?, Publication.rounds, hlater]
    rfl
  rcases hend with ⟨⟨answer, rfl⟩, -⟩ | ⟨-, -, hwaits⟩
  · exact ⟨answer, t, hpublish, ht, hqueue, hannounced, hbegun⟩
  · exact absurd hqueue hwaits

end Exchange

namespace Importer

def importedEvent (name : Value) (compiled : CompiledGraph) : Event :=
  { type := .graphImported, data := [("name", .value name), ("graph", .graph compiled)] }

/-- How the import of a graph ends, with the events that it publishes. -/
inductive Concludes (graph : Graph) (name : Value) : List Event → Outcome CompiledGraph → Prop
  | unchecked {failure : Failure} (hvalidate : graph.validate = .error failure) :
      Concludes graph name [] (.failed failure)
  | refused {issues : List Issue} (hvalidate : graph.validate = .ok issues)
      (hissues : issues ≠ []) :
      Concludes graph name
        [issuesEvent .graphValidated name issues, issuesEvent .importFailed name issues]
        (.failed (.validation name issues))
  | imported {compiled : CompiledGraph} (hvalidate : graph.validate = .ok [])
      (hcompile : graph.compile.result = .ok compiled) :
      Concludes graph name [issuesEvent .graphValidated name [], importedEvent name compiled]
        (.returned compiled)
  | uncompiled {failure : Failure} (hvalidate : graph.validate = .ok [])
      (hcompile : graph.compile.result = .error failure) :
      Concludes graph name [issuesEvent .graphValidated name []] (.failed failure)

/-- The issues of the graph are published, and then one event about the end of the import: that of
the compiled graph if it is returned, and that of a failure if the import fails. -/
def TellsEnd (graph : Graph) (name : Value) (events : List Event)
    (outcome : Outcome CompiledGraph) :
    Prop :=
  ∃ issues, graph.validate = .ok issues ∧
    ((∃ compiled, outcome = .returned compiled ∧
        events = [issuesEvent .graphValidated name issues, importedEvent name compiled]) ∨
      ∃ failure, outcome = .failed failure ∧
        events = [issuesEvent .graphValidated name issues, issuesEvent .importFailed name issues])

/-- The end is told just if the graph can be validated, and is compiled if it has no issues. -/
theorem Concludes.tellsEnd_iff {graph : Graph} {name : Value} {events : List Event}
    {outcome : Outcome CompiledGraph} (h : Concludes graph name events outcome) :
    TellsEnd graph name events outcome ↔ ∃ issues, graph.validate = .ok issues ∧
      (issues = [] → ∃ compiled, graph.compile.result = .ok compiled) := by
  cases h with
  | unchecked hvalidate => simp [TellsEnd, hvalidate]
  | @refused issues hvalidate hissues =>
      exact iff_of_true ⟨issues, hvalidate, .inr ⟨_, rfl, rfl⟩⟩
        ⟨issues, hvalidate, fun h ↦ absurd h hissues⟩
  | @imported compiled hvalidate hcompile =>
      exact iff_of_true ⟨[], hvalidate, .inl ⟨compiled, rfl, rfl⟩⟩
        ⟨[], hvalidate, fun _ ↦ ⟨compiled, hcompile⟩⟩
  | uncompiled hvalidate hcompile => simp [TellsEnd, hvalidate, hcompile]

section Relaying

variable {σ : Type} [Part Journal σ] {publish : Publisher σ} {I : σ → Prop} {told : σ → List Event}
  {graph : Graph} {issues : List Issue} {s : σ}

/-- From the states of which `I` is true, whatever is published is taken without failing and is told
as the next event. -/
structure Relays (publish : Publisher σ) (I : σ → Prop) (told : σ → List Event) : Prop where
  publish : ∀ {s : σ} (event : Event), I s →
    ∃ answer t, publish event s = (.returned answer, t) ∧ I t ∧ told t = told s ++ [event]
  journal : ∀ {s : σ} (j : Journal), I s → I (Part.set j s) ∧ told (Part.set j s) = told s

theorem reportName_reportName (given graphName : Value) :
    reportName (reportName given graphName) graphName = reportName given graphName := by
  unfold reportName
  split <;> simp_all

theorem Relays.exists_graphChanged (hr : Relays publish I told) (hs : I s)
    (hvalidate : graph.validate = .ok issues) (given : Value) :
    ∃ t, graphChanged publish graph given s = (.returned issues, t) ∧ I t ∧
      told t = told s ++ [issuesEvent .graphValidated (reportName given graph.name) issues] := by
  obtain ⟨hj, hsame⟩ := hr.journal { (Part.get s : Journal) with
    log := (Part.get s : Journal).log ++ issues.map (issueEntry (reportName given graph.name)) } hs
  obtain ⟨answer, t, hpublish, ht, htold⟩ :=
    hr.publish (issuesEvent .graphValidated (reportName given graph.name) issues) hj
  refine ⟨t, ?_, ht, by rw [htold, hsame]⟩
  rw [graphChanged, hvalidate]
  exact Act.bind_of_returned hpublish _

theorem Relays.concludes_of_issues (hr : Relays publish I told) (hs : I s)
    (hvalidate : graph.validate = .ok issues) (hissues : issues ≠ []) (given : Value) :
    ∃ events outcome t, importGraph publish graph given s = (outcome, t) ∧ I t ∧
      told t = told s ++ events ∧ Concludes graph (reportName given graph.name) events outcome := by
  obtain ⟨t, hchanged, ht, htold⟩ :=
    hr.exists_graphChanged hs hvalidate (reportName given graph.name)
  obtain ⟨answer, u, hpublish, hu, hfailed⟩ :=
    hr.publish (issuesEvent .importFailed (reportName given graph.name) issues) ht
  refine ⟨_, _, u, ?_, hu, ?_, .refused hvalidate hissues⟩
  · rw [importGraph, Act.bind_of_returned hchanged, if_neg (by simpa using hissues)]
    exact Act.bind_of_returned hpublish _
  · rw [hfailed, htold, reportName_reportName, List.append_assoc]
    rfl

theorem Relays.concludes_of_valid (hr : Relays publish I told) (hs : I s)
    (hvalidate : graph.validate = .ok []) (given : Value) :
    ∃ events outcome t, importGraph publish graph given s = (outcome, t) ∧ I t ∧
      told t = told s ++ events ∧ Concludes graph (reportName given graph.name) events outcome := by
  obtain ⟨t, hchanged, ht, htold⟩ :=
    hr.exists_graphChanged hs hvalidate (reportName given graph.name)
  rw [reportName_reportName] at htold
  obtain ⟨hlogged, hsame⟩ := hr.journal { (Part.get t : Journal) with
    log := (Part.get t : Journal).log ++ graph.compile.log } ht
  cases hcompile : graph.compile.result with
  | error failure =>
      refine ⟨_, _, _, ?_, hlogged, hsame.trans htold, .uncompiled hvalidate hcompile⟩
      rw [importGraph, Act.bind_of_returned hchanged, if_pos List.isEmpty_nil]
      refine Act.bind_of_failed ?_ _
      rw [Journal.logged, hcompile]
      rfl
  | ok compiled =>
      obtain ⟨answer, u, hpublish, hu, himported⟩ :=
        hr.publish (importedEvent (reportName given graph.name) compiled) hlogged
      refine ⟨_, _, u, ?_, hu, ?_, .imported hvalidate hcompile⟩
      · rw [importGraph, Act.bind_of_returned hchanged, if_pos List.isEmpty_nil]
        refine (Act.bind_of_returned (a := compiled) ?_ _).trans (Act.bind_of_returned hpublish _)
        rw [Journal.logged, hcompile]
        rfl
      · rw [himported, hsame, htold, List.append_assoc]
        rfl

/-- What an import publishes is told, however the import ends. -/
theorem Relays.concludes (hr : Relays publish I told) (hs : I s) (graph : Graph) (given : Value) :
    ∃ events outcome t, importGraph publish graph given s = (outcome, t) ∧ I t ∧
      told t = told s ++ events ∧ Concludes graph (reportName given graph.name) events outcome := by
  cases hvalidate : graph.validate with
  | error failure =>
      refine ⟨[], _, s, ?_, hs, by rw [List.append_nil], .unchecked hvalidate⟩
      rw [importGraph, graphChanged, hvalidate]
      rfl
  | ok issues =>
      by_cases hissues : issues = []
      · subst hissues
        exact hr.concludes_of_valid hs hvalidate given
      · exact hr.concludes_of_issues hs hvalidate hissues given

end Relaying

/-- An exchange has come from another one and is at rest: no handler publishes anything, nothing
waits, and every event that has been announced since has been delivered. -/
structure Rests (a s : Exchange) : Prop where
  silent : s.IsSilent
  idle : s.bus.queue = []
  heard : ∃ events, s.bus.announced = a.bus.announced ++ events ∧
    s.bus.begun = a.bus.begun ++ events

theorem relays_exchange (a : Exchange) (fuel : Nat) :
    Relays (Exchange.handling.publish fuel) (Rests a) (fun s ↦ s.bus.announced) where
  publish event hs := by
    obtain ⟨answer, t, hpublish, ht, hidle, htold, hbegun⟩ :=
      hs.silent.exists_publish hs.idle fuel event
    obtain ⟨events, hevents, hdelivered⟩ := hs.heard
    refine ⟨answer, t, hpublish, ⟨ht, hidle, events ++ [event], ?_, ?_⟩, htold⟩
    · rw [htold, hevents, List.append_assoc]
    · rw [hbegun, hdelivered, List.append_assoc]
  journal _ hs := ⟨⟨hs.silent, hs.idle, hs.heard⟩, rfl⟩

theorem exists_concludes {s : Exchange} (hs : s.IsSilent) (hidle : s.bus.queue = []) (fuel : Nat)
    (graph : Graph) (given : Value) :
    ∃ events outcome t, importGraph (Exchange.handling.publish fuel) graph given s = (outcome, t) ∧
      t.bus.announced = s.bus.announced ++ events ∧ t.bus.begun = s.bus.begun ++ events ∧
      Concludes graph (reportName given graph.name) events outcome := by
  have hrests : Rests s s := ⟨hs, hidle, [], by simp, by simp⟩
  obtain ⟨events, outcome, t, hrun, ht, htold, hconcludes⟩ :=
    (relays_exchange s fuel).concludes hrests graph given
  obtain ⟨events', htold', hbegun⟩ := ht.heard
  obtain rfl := List.append_cancel_left (htold.symm.trans htold')
  exact ⟨events, outcome, t, hrun, htold, hbegun, hconcludes⟩

/-- Where no handler publishes anything and nothing waits, every import comes to its end, and what
it has announced, and delivered, is one of four things: nothing if the graph cannot be validated;
its issues, and that it is refused for them; that it has no issues, and the compiled graph that is
returned; or only that it has no issues, if it is not compiled.  So the end of the import is
announced just if the graph can be validated and, having no issues, can be compiled. -/
theorem importGraph_concludes {s : Exchange} (hs : s.IsSilent) (hidle : s.bus.queue = [])
    (fuel : Nat) (graph : Graph) (given : Value) :
    ∃ events outcome t, importGraph (Exchange.handling.publish fuel) graph given s = (outcome, t) ∧
      t.bus.announced = s.bus.announced ++ events ∧ t.bus.begun = s.bus.begun ++ events ∧
      Concludes graph (reportName given graph.name) events outcome ∧
      (TellsEnd graph (reportName given graph.name) events outcome ↔
        ∃ issues, graph.validate = .ok issues ∧
          (issues = [] → ∃ compiled, graph.compile.result = .ok compiled)) := by
  obtain ⟨events, outcome, t, hrun, htold, hbegun, hconcludes⟩ :=
    exists_concludes hs hidle fuel graph given
  exact ⟨events, outcome, t, hrun, htold, hbegun, hconcludes, hconcludes.tellsEnd_iff⟩

/-- A handler that stops listening and fails, and one that consumes every event. -/
def attentive : List ExchangeOp :=
  [.define "once" false fun _ event ↦
      .perform (.unsubscribe event.type "once") fun _ ↦ .fail (.alarm "boom"),
    .define "editor" false fun _ _ ↦ .consume .done,
    .subscribe .graphValidated "once" (.int 1) (.bool false) true,
    .subscribe .graphValidated "editor" (.int 0) (.bool false) true,
    .subscribe .graphImported "editor" (.int 0) (.bool false) true,
    .subscribe .importFailed "editor" (.int 0) (.bool false) true]

def office : Exchange := (Exchange.runAll 0 attentive {}).getD {}

theorem isSilent_office : office.IsSilent := by
  intro handler hmem call event
  have hhandlers : office.handlers = [
    { listener := ⟨"once", 0, false⟩,
      behaviour := fun _ event ↦
        .perform (.unsubscribe event.type "once") fun _ ↦ .fail (.alarm "boom") },
    { listener := ⟨"editor", 1, false⟩, behaviour := fun _ _ ↦ .consume .done }] := rfl
  rw [hhandlers] at hmem
  rcases List.mem_cons.mp hmem with rfl | hmem
  · exact .perform rfl (fun _ _ _ heq ↦ by cases heq) fun _ ↦ .fail _
  · rw [List.mem_singleton.mp hmem]
    exact .consume .done

/-- The import of a line announces that it has no issues, and then the compiled graph. -/
theorem importGraph_concludes_of_line :
    office.IsSilent ∧ office.bus.queue = [] ∧ ∃ graph compiled t,
      Graph.ofDocument (lineDocument []) = .ok graph ∧
      importGraph (Exchange.handling.publish 0) graph .null office = (.returned compiled, t) ∧
      t.bus.begun = [issuesEvent .graphValidated (.text "Line") [],
        importedEvent (.text "Line") compiled] := by
  obtain ⟨graph, hread, hname, hvalidate, compiled, hcompile⟩ : ∃ graph,
      Graph.ofDocument (lineDocument []) = .ok graph ∧ graph.name = .text "Line" ∧
        graph.validate = .ok [] ∧ ∃ compiled, graph.compile.result = .ok compiled :=
    ⟨_, rfl, rfl, rfl, _, rfl⟩
  obtain ⟨events, outcome, t, hrun, -, hbegun, hconcludes, -⟩ :=
    importGraph_concludes isSilent_office rfl 0 graph .null
  rw [reportName, if_neg (by decide), hname] at hconcludes
  refine ⟨isSilent_office, rfl, graph, ?_⟩
  cases hconcludes with
  | unchecked h => cases hvalidate.symm.trans h
  | refused h hissues => exact absurd (Except.ok.inj (h.symm.trans hvalidate)) hissues
  | @imported compiled => exact ⟨compiled, t, hread, hrun, hbegun⟩
  | uncompiled _ h => cases hcompile.symm.trans h

/-- Two guards that answer each other are refused, and all that is announced is that there are no
issues. -/
theorem exists_import_untold :
    ∃ (s : Exchange) (graph : Graph) (failure : Failure) (t : Exchange),
      s.IsSilent ∧ s.bus.queue = [] ∧
      importGraph (Exchange.handling.publish 0) graph .null s = (.failed failure, t) ∧
      t.bus.announced = [issuesEvent .graphValidated graph.name []] ∧
      ¬TellsEnd graph graph.name t.bus.announced (.failed failure) := by
  obtain ⟨events, outcome, t, hrun, htold, -, hconcludes⟩ :=
    exists_concludes isSilent_office rfl 0 Graph.round .null
  have hvalidate : Graph.round.validate = .ok [] := rfl
  have hcompile :
      Graph.round.compile.result = .error (.cycle (.text "Round") [.int 1, .int 3]) := rfl
  have hannounced : t.bus.announced = events := htold
  rw [reportName, if_neg (by decide)] at hconcludes
  have htells : ¬TellsEnd Graph.round Graph.round.name events outcome := by
    rw [hconcludes.tellsEnd_iff]
    simp [hvalidate, hcompile]
  cases hconcludes with
  | unchecked h => cases hvalidate.symm.trans h
  | refused h hissues => exact absurd (Except.ok.inj (h.symm.trans hvalidate)) hissues
  | imported _ h => cases hcompile.symm.trans h
  | @uncompiled failure _ h =>
      exact ⟨office, Graph.round, failure, t, isSilent_office, rfl, hrun, hannounced,
        hannounced ▸ htells⟩

end Importer

end LinearDialogue
