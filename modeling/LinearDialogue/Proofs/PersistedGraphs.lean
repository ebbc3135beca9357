import LinearDialogue.Compiled.Persistence
import LinearDialogue.Proofs.JsonRoundTrip
import LinearDialogue.Proofs.Lowering
import LinearDialogue.Proofs.Shapes

/-!
# Persisted graphs come back

A graph whose records are of the classes registered under their tags is the same after it has been
written and read.  Its document has the required shape, and the check of each record finds every
field as it was.  Compiled graphs and graphs that have been read are of this kind.
-/

namespace LinearDialogue

open Fields

/-! ## Registries -/

/-- A registry that has come about by registering classes. -/
inductive Registry.Registered : Registry → Prop
  | standard : Registered .standard
  | register {registry next : Registry} {cls : RecordClass} (hregistry : Registered registry)
      (h : registry.register cls = .ok next) : Registered next

/-- No class is registered under the empty tag. -/
theorem Registry.Registered.find?_empty {registry : Registry} (hregistry : registry.Registered) :
    registry.find? "" = none := by
  have htags : ∀ entry ∈ registry.classes, entry.1 ≠ "" := by
    induction hregistry with
    | standard => simp [Registry.standard]
    | @register registry next cls _ h ih =>
        rw [Registry.register] at h
        split at h
        · split at h
          · cases h
          · rename_i hne
            cases h
            intro entry hentry
            rcases List.mem_append.mp hentry with hentry | hentry
            · exact ih entry (List.mem_of_mem_filter hentry)
            · rw [List.mem_singleton.mp hentry]
              exact hne
        · cases h
  simpa [Registry.find?] using htags

/-- A graph that a registry can read back: its entry is within its bounds, and its records are
sound and of the classes registered under their tags. -/
structure CompiledGraph.Persists (graph : CompiledGraph) (registry : Registry) : Prop where
  entry : noId ≤ graph.entry ∧ graph.entry ≤ maxId
  sound : ∀ record ∈ graph.records, record.IsSound
  registered : ∀ record ∈ graph.records, registry.find? record.kind = some record.recordClass

/-! ## Records -/

namespace Record

variable {record : Record} {registry : Registry}

theorem ofFields_fields (h : record.IsSound) :
    Record.ofFields record.recordClass record.fields = .ok record := by
  refine Record.ofFields_eq_ok_iff.mpr ⟨rfl, ?_, ?_, ?_, ?_, ?_⟩
  · refine required_eq_ok_iff.mpr ⟨.int record.id, rfl, ?_⟩
    exact asBounded_eq_ok_iff.mpr ⟨rfl, h.id⟩
  · refine defaulted_eq_ok_iff.mpr (Or.inl ⟨.int record.successor, rfl, ?_⟩)
    exact asBounded_eq_ok_iff.mpr ⟨rfl, h.successor⟩
  · exact RecordClass.checkTag_eq_ok_iff.mpr ⟨h.kind, Or.inl rfl⟩
  · refine RecordClass.checkLine_eq_ok_iff.mpr ⟨h.line, fun line hline ↦ ?_⟩
    have hline : record.line = some line := hline
    rw [SpokenLine.ofFields_eq_ok_iff]
    simp only [defaulted_eq_ok_iff, asText_eq_ok_iff, asOptionalText_eq_ok_iff,
      listOf_asText_eq_ok_iff]
    refine ⟨Or.inl ⟨.text line.actor, ?_, rfl⟩, Or.inl ⟨.ofOption line.audio, ?_, rfl⟩,
      Or.inl ⟨.text line.text, ?_, rfl⟩, Or.inl ⟨.list (line.callbacks.map .text), ?_, rfl⟩⟩ <;>
      simp [Record.fields, hline, Value.lookup]
  · have hspeaks := h.line
    cases hline : record.line <;> rw [hline] at hspeaks <;>
      simp [unknown, Record.fields, hline, RecordClass.fieldNames, ← hspeaks, Record.baseNames,
        SpokenLine.fieldNames]

theorem ofPersisted_fields (h : record.IsSound)
    (hclass : registry.find? record.kind = some record.recordClass) :
    Record.ofPersisted registry (.object record.fields) = .ok record := by
  have hkind : (Value.object record.fields).field? "kind" = some (.text record.kind) := rfl
  simp [Record.ofPersisted, hkind, hclass, ofFields_fields h]

theorem of_ofPersisted_eq_ok {v : Value} (h : Record.ofPersisted registry v = .ok record) :
    record.IsSound ∧ registry.find? record.kind = some record.recordClass := by
  unfold Record.ofPersisted at h
  split at h
  · rename_i tag fields htag
    have hlookup : Value.lookup "kind" fields = some (.text tag) := htag
    split at h
    · cases h
    · rename_i cls hcls
      split at h
      · rename_i made hmade
        cases h
        obtain ⟨hclass, -, -, hkind, -⟩ := Record.ofFields_eq_ok_iff.mp hmade
        obtain ⟨-, hkind | ⟨hnone, -⟩⟩ := RecordClass.checkTag_eq_ok_iff.mp hkind
        · rw [hlookup, Option.some_inj, Value.text.injEq] at hkind
          rw [hclass, ← hkind]
          exact ⟨Record.isSound_of_ofFields_eq_ok hmade, hcls⟩
        · simp [hlookup] at hnone
      · cases h
  · cases h

end Record

/-! ## Documents -/

namespace Shape

theorem checkRecord_fields {record : Record} (h : record.IsSound) (hkind : record.kind ≠ "") :
    checkRecord (.object record.fields) = [] := by
  apply checkRecord_eq_nil_iff.mpr
  refine ⟨record.fields, rfl, ⟨.int record.id, record.id, rfl, rfl, h.id⟩, ?_, ?_⟩
  · exact ⟨.int record.successor, record.successor, rfl, rfl, h.successor⟩
  · exact ⟨record.kind, hkind, rfl⟩

theorem fault?_document {graph : CompiledGraph} (hentry : noId ≤ graph.entry ∧ graph.entry ≤ maxId)
    (hrecords : ∀ record ∈ graph.records, record.IsSound ∧ record.kind ≠ "") :
    fault? graph.document = none := by
  apply fault?_eq_none_iff.mpr
  apply checkGraph_eq_nil_iff.mpr
  refine ⟨_, rfl, by simp, ⟨.int graph.entry, graph.entry, rfl, rfl, hentry⟩, _, rfl, ?_⟩
  intro item hitem
  obtain ⟨record, hrecord, rfl⟩ := List.mem_map.mp hitem
  exact checkRecord_fields (hrecords record hrecord).1 (hrecords record hrecord).2

end Shape

namespace CompiledGraph

variable {graph : CompiledGraph} {registry : Registry}

theorem ofDocument_document (hregistry : registry.Registered) (hgraph : graph.Persists registry) :
    ofDocument registry graph.document = .ok graph := by
  have hfault : Shape.fault? graph.document = none := by
    refine Shape.fault?_document hgraph.entry fun record hrecord ↦ ⟨hgraph.sound record hrecord, ?_⟩
    intro hempty
    have hclass := hgraph.registered record hrecord
    simp [hempty, hregistry.find?_empty] at hclass
  have hentry : graph.document.field? "entry_id" = some (.int graph.entry) := rfl
  have hitems : graph.document.field? "records" =
      some (.list (graph.records.map fun record ↦ .object record.fields)) := rfl
  have hrecords : (graph.records.map fun record ↦ Value.object record.fields).mapM
      (Record.ofPersisted registry) = .ok graph.records := by
    apply Graph.mapM_eq_ok_of_forall₂
    apply List.forall₂_map_left_iff.mpr
    refine List.forall₂_same.mpr fun record hrecord ↦ ?_
    exact Record.ofPersisted_fields (hgraph.sound record hrecord) (hgraph.registered record hrecord)
  have hmade : ofRecords (.int graph.entry) graph.records = .ok graph :=
    ofRecords_eq_ok_iff.mpr ⟨asBounded_eq_ok_iff.mpr ⟨rfl, hgraph.entry⟩, rfl⟩
  unfold ofDocument
  simp [hfault, hentry, hitems, hrecords, hmade, bind, Except.bind]

theorem isShort_of_le {n : Int} (hlow : noId ≤ n) (hhigh : n ≤ maxId) : Json.IsShort n := by
  have hlength : (Nat.toDigits 10 n.natAbs).length ≤ 10 := by
    rw [Nat.length_toDigits_le_iff (by decide) (by decide)]
    simp only [noId, maxId] at hlow hhigh
    omega
  exact hlength.trans (by decide)

theorem isExact_fields {record : Record} (h : record.IsSound) :
    (Value.object record.fields).IsExact := by
  have hid := isShort_of_le (show noId ≤ record.id from Int.le_trans (by decide) h.id.1) h.id.2
  have hsuccessor := isShort_of_le h.successor.1 h.successor.2
  cases hline : record.line with
  | none =>
      refine .object (by simp [Record.fields, hline]) ?_
      simp only [Record.fields, hline, List.append_nil, List.forall_mem_cons]
      exact ⟨.int hid, .int hsuccessor, .text _, by simp⟩
  | some line =>
      refine .object (by simp [Record.fields, hline]) ?_
      have haudio : (Value.ofOption line.audio).IsExact := by
        cases line.audio with
        | none => exact .null
        | some handle => exact .text handle
      have hcallbacks : (Value.list (line.callbacks.map .text)).IsExact := by
        refine .list fun item hitem ↦ ?_
        obtain ⟨callback, _, rfl⟩ := List.mem_map.mp hitem
        exact .text callback
      simp only [Record.fields, hline, List.cons_append, List.nil_append, List.forall_mem_cons]
      exact ⟨.int hid, .int hsuccessor, .text _, .text _, haudio, .text _, hcallbacks, by simp⟩

theorem isExact_document (hgraph : graph.Persists registry) : graph.document.IsExact := by
  refine .object (by simp) ?_
  simp only [List.forall_mem_cons]
  refine ⟨.int (isShort_of_le hgraph.entry.1 hgraph.entry.2), .list fun item hitem ↦ ?_, by simp⟩
  obtain ⟨record, hrecord, rfl⟩ := List.mem_map.mp hitem
  exact isExact_fields (hgraph.sound record hrecord)

/-! ## Graphs -/

theorem deserialize_eq_ok (hregistry : registry.Registered) (hgraph : graph.Persists registry) :
    deserialize registry graph.serialize = .ok graph := by
  rw [deserialize, serialize, Json.read_render (isExact_document hgraph)]
  exact ofDocument_document hregistry hgraph

theorem persists_of_deserialize_eq_ok {text : String}
    (h : deserialize registry text = .ok graph) : graph.Persists registry := by
  rw [deserialize] at h
  split at h
  · rename_i v hv
    unfold ofDocument at h
    split at h
    · cases h
    · split at h
      · rename_i entry items hentry hitems
        obtain ⟨records, hrecords, h⟩ := bind_eq_ok_iff.mp h
        split at h
        · rename_i made hmade
          cases h
          obtain ⟨hbound, rfl⟩ := ofRecords_eq_ok_iff.mp hmade
          have hread : ∀ record ∈ graph.records,
              record.IsSound ∧ registry.find? record.kind = some record.recordClass := by
            intro record hrecord
            obtain ⟨item, _, hitem⟩ :=
              Graph.exists_mem_of_forall₂ (Graph.forall₂_of_mapM_eq_ok hrecords).flip hrecord
            exact Record.of_ofPersisted_eq_ok hitem
          exact ⟨(asBounded_eq_ok_iff.mp hbound).2, fun record h ↦ (hread record h).1,
            fun record h ↦ (hread record h).2⟩
        · cases h
      · cases h
  · split at h
    · cases h
    · cases h

theorem persists_of_compile_eq_ok {source : Graph}
    (hdialogue : registry.find? "dialogue" = some .dialogue)
    (h : source.compile.result = .ok graph) : graph.Persists registry := by
  obtain ⟨-, hlow, hhigh, -⟩ := Graph.of_compile_eq_ok h
  have hlowered : ∀ record ∈ graph.records,
      record.IsSound ∧ record.recordClass = .dialogue := by
    intro record hrecord
    obtain ⟨node, hnode⟩ := Graph.exists_lower_of_mem h hrecord
    obtain ⟨hsound, hclass, -⟩ := Graph.of_lower_eq_ok hnode
    exact ⟨hsound, hclass⟩
  refine ⟨⟨hlow, hhigh⟩, fun record h ↦ (hlowered record h).1, fun record h ↦ ?_⟩
  obtain ⟨hsound, hclass⟩ := hlowered record h
  rw [hsound.kind "dialogue" (by rw [hclass]; rfl), hdialogue, hclass]

/-- Writing a graph and reading it gives the graph back: every graph whose records are of the
registered classes, so in particular every compiled one, as long as spoken lines are registered as
what they are, and every one that has been read.  Different graphs have different texts, and the
text does not change when it is read and written again. -/
theorem deserialize_serialize {registry : Registry} (hregistry : registry.Registered) :
    (∀ graph, Persists graph registry → deserialize registry graph.serialize = .ok graph) ∧
    (registry.find? "dialogue" = some .dialogue → ∀ (source : Graph) (graph : CompiledGraph),
      source.compile.result = .ok graph → deserialize registry graph.serialize = .ok graph) ∧
    (∀ text graph, deserialize registry text = .ok graph →
      deserialize registry graph.serialize = .ok graph) ∧
    (∀ graph other, Persists graph registry → Persists other registry →
      graph.serialize = other.serialize → graph = other) ∧
    ∀ graph, Persists graph registry →
      (deserialize registry graph.serialize).map serialize = .ok graph.serialize := by
  refine ⟨fun graph hgraph ↦ deserialize_eq_ok hregistry hgraph, ?_, ?_, ?_, ?_⟩
  · intro hdialogue source graph hcompile
    exact deserialize_eq_ok hregistry (persists_of_compile_eq_ok hdialogue hcompile)
  · intro text graph hread
    exact deserialize_eq_ok hregistry (persists_of_deserialize_eq_ok hread)
  · intro graph other hgraph hother htext
    have hread := deserialize_eq_ok hregistry hgraph
    rw [htext, deserialize_eq_ok hregistry hother] at hread
    exact (Except.ok.inj hread).symm
  · intro graph hgraph
    rw [deserialize_eq_ok hregistry hgraph]
    rfl

/-- Two lines of one id, the second with a successor that is not there, and a choice. -/
def oddGraph : CompiledGraph :=
  ⟨7, [⟨.dialogue, 0, 3, "dialogue", some ⟨"Guard", some "voice/é", "\"Halt!\"\n😀", ["a", "b"]⟩⟩,
    ⟨.dialogue, 0, 99, "dialogue", some ⟨"", none, "", []⟩⟩,
    ⟨.choice, 3, noId, "choice", none⟩]⟩

theorem deserialize_serialize_of_oddGraph :
    Registry.standard.register .choice = .ok ⟨[("dialogue", .dialogue), ("choice", .choice)]⟩ ∧
      deserialize ⟨[("dialogue", .dialogue), ("choice", .choice)]⟩ oddGraph.serialize =
        .ok oddGraph := by
  have hchoice : Registry.standard.register .choice =
      .ok ⟨[("dialogue", .dialogue), ("choice", .choice)]⟩ := rfl
  refine ⟨hchoice, (deserialize_serialize (.register .standard hchoice)).1 oddGraph ?_⟩
  refine ⟨by decide, ?_, ?_⟩
  · simp only [oddGraph, List.forall_mem_cons]
    refine ⟨⟨by decide, by decide, ?_, rfl⟩, ⟨by decide, by decide, ?_, rfl⟩,
      ⟨by decide, by decide, ?_, rfl⟩, by simp⟩ <;> simp [RecordClass.dialogue, RecordClass.choice]
  · simp only [oddGraph, List.forall_mem_cons]
    exact ⟨rfl, rfl, rfl, by simp⟩

end CompiledGraph

end LinearDialogue
