import LinearDialogue.Proofs.AuthoredGraphs

/-!
# Documents of nodes

Every binding is read as what was written for it, whatever its value looks like, and so is every
node that is as it was made, with its callbacks in a list.  Its id has to agree with itself, as all
texts do.
-/

namespace LinearDialogue

/-! ## Labels are compared from both sides -/

/-- Keys agree when both are null, when they are one text, or when they are of one rank. -/
theorem Value.agrees_iff {a b : Value} :
    a.agrees b = true ↔ (a = .null ∧ b = .null) ∨ (∃ s, a = .text s ∧ b = .text s) ∨
      ∃ r, a.rank? = some r ∧ b.rank? = some r := by
  unfold agrees
  split
  · simp
  · next s t =>
    constructor
    · intro h
      exact Or.inr (Or.inl ⟨s, rfl, by rw [eq_of_beq h]⟩)
    · rintro (h | ⟨_, hs, ht⟩ | ⟨_, h, _⟩)
      · cases h.1
      · cases hs
        cases ht
        exact beq_self_eq_true s
      · cases h
  · next hnull htext =>
    have hnone : ¬ ∃ s, a = .text s ∧ b = .text s := by
      rintro ⟨s, rfl, rfl⟩
      exact htext s s rfl rfl
    have hnone' : ¬ (a = .null ∧ b = .null) := fun h ↦ hnull h.1 h.2
    cases a.rank? <;> cases b.rank? <;> simp [hnone, hnone', eq_comm]

theorem Value.agrees_comm (a b : Value) : a.agrees b = b.agrees a := by
  rw [Bool.eq_iff_iff, agrees_iff, agrees_iff]
  simp only [and_comm]

theorem Value.matchesKey_comm (a b : Value) : a.matchesKey b = b.matchesKey a := by
  simp [matchesKey, agrees_comm a b, eq_comm]

theorem Value.alike_of_isKey {a : Value} (ha : a.isKey = true) (b : Value) :
    a.alike b = a.matchesKey b := by
  cases a <;> simp_all [alike, isKey]

theorem Label.matchesKey_comm {a b : Label} (ha : a.isKey = true) (hb : b.isKey = true) :
    a.matchesKey b = b.matchesKey a := by
  have hagrees : a.agrees b = b.agrees a := by
    cases a <;> cases b <;>
      simp_all [agrees, isKey, Value.alike_of_isKey, Value.matchesKey_comm, Value.agrees_comm]
  simp [matchesKey, hagrees, eq_comm]

/-! ## Bindings and bodies -/

theorem NodeBody.IsPlain.bind {body : NodeBody} (hbody : body.IsPlain) {field : String}
    (hfield : field ≠ "callbacks") (binding : Binding) : (body.bind field binding).IsPlain := by
  cases hbody with
  | entry => exact .entry
  | exit callbacks =>
      rw [NodeBody.bind, if_neg hfield]
      exact .exit callbacks
  | line actor audio text callbacks =>
      unfold NodeBody.bind
      dsimp only
      split
      · exact .line binding audio text callbacks
      · exact .line actor binding text callbacks
      · exact .line actor audio binding callbacks
      · contradiction
      · exact .line actor audio text callbacks

/-- Every binding is read as itself, whatever its value looks like. -/
theorem Binding.ofDocument_document (binding : Binding) :
    Binding.ofDocument binding.document = .ok binding := by
  cases binding <;> rfl

theorem CallbackField.fields_list (callbacks : List Value) :
    CallbackField.fields (.list callbacks) =
      .ok (if callbacks = [] then [] else [("callbacks", .list callbacks)]) := by
  cases callbacks <;> rfl

theorem Value.lookup_append {name : String} {before : List (String × Value)}
    (h : ∀ field ∈ before, field.1 ≠ name) (fields : List (String × Value)) :
    lookup name (before ++ fields) = lookup name fields := by
  have hnone : before.find? (fun field ↦ field.1 == name) = none :=
    List.find?_eq_none.mpr fun field hfield hmatch ↦ h field hfield (eq_of_beq hmatch)
  simp [lookup, List.find?_append, hnone]

theorem callbacksOf_append {before : List (String × Value)}
    (h : ∀ field ∈ before, field.1 ≠ "callbacks") (callbacks : List Value) :
    callbacksOf (before ++
      if callbacks = [] then [] else [("callbacks", .list callbacks)]) =
        .ok (.list callbacks) := by
  rw [callbacksOf, Value.lookup_append h]
  split
  · next hempty =>
    rw [hempty]
    rfl
  · rfl

theorem Binding.ofField_append {name : String} {binding : Binding}
    {before fields : List (String × Value)} (h : ∀ field ∈ before, field.1 ≠ name)
    (hfields : Value.lookup name fields = some binding.document) :
    Binding.ofField (before ++ fields) name = .ok binding := by
  rw [Binding.ofField, Value.lookup_append h, hfields]
  exact Binding.ofDocument_document binding

/-- A body is read from its own fields, after fields of other names. -/
theorem Node.exists_fields_eq_ok {body : NodeBody} (hbody : body.IsPlain) (id : Label) :
    ∃ fields, body.fields = .ok fields ∧ ∀ before : List (String × Value),
      (∀ field ∈ before, field.1 = "id" ∨ field.1 = "kind") →
        Node.ofFields ({ id, body } : Node).tag (.ok id) (before ++ fields) = .ok { id, body } := by
  cases hbody with
  | entry => exact ⟨[], rfl, fun before _ ↦ rfl⟩
  | exit callbacks =>
      refine ⟨_, CallbackField.fields_list callbacks, fun before hbefore ↦ ?_⟩
      have hnames : ∀ field ∈ before, field.1 ≠ "callbacks" := by grind
      have hcallbacks := callbacksOf_append hnames callbacks
      refine bind_eq_ok_iff.mpr ⟨.exit, rfl, ?_⟩
      refine bind_eq_ok_iff.mpr ⟨id, rfl, ?_⟩
      exact bind_eq_ok_iff.mpr ⟨.list callbacks, hcallbacks, rfl⟩
  | line actor audio text callbacks =>
      have hfields : NodeBody.fields (.line ⟨actor, audio, text, .list callbacks⟩) =
          .ok ([("actor", actor.document), ("audio", audio.document), ("text", text.document)] ++
            if callbacks = [] then [] else [("callbacks", .list callbacks)]) := by
        simp only [NodeBody.fields, CallbackField.fields_list]
        rfl
      refine ⟨_, hfields, fun before hbefore ↦ ?_⟩
      have hnames : ∀ field ∈ before ++ [("actor", actor.document), ("audio", audio.document),
          ("text", text.document)], field.1 ≠ "callbacks" := by grind
      have hcallbacks := callbacksOf_append hnames callbacks
      rw [List.append_assoc] at hcallbacks
      refine bind_eq_ok_iff.mpr ⟨.line, rfl, ?_⟩
      refine bind_eq_ok_iff.mpr ⟨id, rfl, ?_⟩
      refine bind_eq_ok_iff.mpr ⟨actor, Binding.ofField_append (by grind) rfl, ?_⟩
      refine bind_eq_ok_iff.mpr ⟨audio, Binding.ofField_append (by grind) rfl, ?_⟩
      refine bind_eq_ok_iff.mpr ⟨text, Binding.ofField_append (by grind) rfl, ?_⟩
      exact bind_eq_ok_iff.mpr ⟨.list callbacks, hcallbacks, rfl⟩

/-- What a graph needs of a node to get it back: it is as it was made, and its id is a key that
agrees with itself. -/
structure Node.IsPlain (node : Node) : Prop where
  asMade : node.overrides = {}
  body : node.body.IsPlain
  isKey : node.id.isKey = true
  agrees : node.id.agrees node.id = true

namespace Node.IsPlain

variable {node : Node} {v : Value}

theorem key_eq (h : node.IsPlain) : node.key = node.id := by
  simp [Node.key, h.asMade]

theorem eq_mk (h : node.IsPlain) : node = { id := node.id, body := node.body } := by
  obtain ⟨id, body, overrides⟩ := node
  cases h.asMade
  rfl

/-- A label that names the id of a plain node agrees with it. -/
theorem agrees_of_matchesKey (h : node.IsPlain) {id : Label} (hid : node.id.matchesKey id = true) :
    node.id.agrees id = true := by
  rcases (Bool.or_eq_true _ _).mp hid with hagrees | heq
  · exact hagrees
  · rw [← of_decide_eq_true heq]
    exact h.agrees

theorem ofFields_fields (h : node.IsPlain) :
    ∃ fields, node.body.fields = .ok fields ∧
      Node.ofFields node.tag (.ok node.id) fields = .ok node := by
  obtain ⟨fields, hfields, hread⟩ := Node.exists_fields_eq_ok h.body node.id
  refine ⟨fields, hfields, ?_⟩
  have hread := hread [] (by simp)
  rw [← h.eq_mk] at hread
  exact hread

theorem ofDocument_document (h : node.IsPlain) (hid : node.id = .plain v) :
    ∃ document, node.document = .ok document ∧ Node.ofDocument document = .ok node := by
  obtain ⟨fields, hfields, hread⟩ := Node.exists_fields_eq_ok h.body node.id
  refine ⟨_, bind_eq_ok_iff.mpr ⟨fields, hfields, rfl⟩, ?_⟩
  have hread := hread [("id", node.id.value), ("kind", node.tag.value)] (by simp)
  rw [← h.eq_mk] at hread
  refine bind_eq_ok_iff.mpr ⟨_, rfl, ?_⟩
  have htag : node.tag = .plain node.tag.value := by
    simp [Node.tag, h.asMade, Label.value]
  have hlookup :
      (Value.lookup "kind" ([("id", node.id.value), ("kind", node.tag.value)] ++ fields)).getD
        (.text "") = node.tag.value := rfl
  have hrequire :
      (Value.object ([("id", node.id.value), ("kind", node.tag.value)] ++ fields)).require
        "id" = .ok node.id.value := rfl
  rw [hlookup, hrequire, ← htag]
  have hlabel : Label.plain <$> (.ok node.id.value : Except Failure Value) = .ok node.id := by
    rw [hid]
    rfl
  rw [hlabel]
  exact hread

end Node.IsPlain

end LinearDialogue
