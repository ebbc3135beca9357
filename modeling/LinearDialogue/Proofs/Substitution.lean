import LinearDialogue.Proofs.Compilability
import LinearDialogue.Proofs.Fallbacks

/-!
# Values in the place of variables

What a line refers to can be written into the line.  A graph in which this has been done to every
line needs no variables any more, and its compilation ends as before, in the same result or with the
same failure.  For the wiring of a graph does not depend on what the fields of its lines are bound
to, and of a field a compilation sees no more than the text that it stands for.  A field that stands
for none is empty, so no record is ever refused for its actor, its voice clip or its text.
-/

namespace LinearDialogue

/-- A line with other bindings in its fields, as a function of bindings says. -/
def LineDraft.rebound (f : Binding → Binding) (draft : LineDraft) : LineDraft :=
  { draft with actor := f draft.actor, audio := f draft.audio, text := f draft.text }

def NodeBody.rebound (f : Binding → Binding) : NodeBody → NodeBody
  | .line draft => .line (draft.rebound f)
  | body => body

namespace Node

def rebound (f : Binding → Binding) (node : Node) : Node :=
  { node with body := node.body.rebound f }

variable (f : Binding → Binding) (node : Node)

@[simp] theorem id_rebound : (node.rebound f).id = node.id := rfl

@[simp] theorem kind_rebound : (node.rebound f).kind = node.kind := by
  cases hbody : node.body <;> simp [kind, rebound, NodeBody.rebound, hbody]

@[simp] theorem hasPoint_rebound (point : Point) :
    (node.rebound f).hasPoint point = node.hasPoint point := by
  cases point <;> simp only [hasPoint, kind_rebound] <;> rfl

@[simp] theorem isBoundary_rebound : (node.rebound f).isBoundary = node.isBoundary := by
  simp [isBoundary]

end Node

namespace Graph

/-- The graph with other bindings in the fields of its lines and with other variables. -/
def rebound (g : Graph) (f : Binding → Binding) (defaults : List (Value × Value)) : Graph :=
  { g with nodes := g.nodes.map (Node.rebound f), defaults := defaults }

variable {g : Graph} {f : Binding → Binding} {defaults : List (Value × Value)} {node : Node}
  {nodes : List Node} {out : Option Node} {draft : LineDraft} {binding : Binding}

/-! ## Wiring -/

theorem mapM_map_eq_map_mapM {α β γ : Type} {m : α → Except Failure β} {h : β → γ} {xs : List α} :
    (xs.mapM fun a ↦ (m a).map h) = (xs.mapM m).map (List.map h) := by
  induction xs with
  | nil => rfl
  | cons a xs ih =>
      rw [List.mapM_cons, List.mapM_cons, ih]
      cases m a <;> cases xs.mapM m <;> rfl

theorem member_rebound (id : Label) :
    (g.rebound f defaults).member id = (g.member id).map (Node.rebound f) := by
  have hfind : (g.rebound f defaults).find? id = (g.find? id).map (Node.rebound f) :=
    List.find?_map
  rw [member, member, hfind]
  cases g.find? id <;> rfl

theorem outputs_rebound :
    (g.rebound f defaults).outputs (node.rebound f) =
      (g.outputs node).map (List.map (Node.rebound f)) := by
  rw [outputs, outputs, Node.hasPoint_rebound]
  split
  · simp only [member_rebound]
    exact mapM_map_eq_map_mapM
  · rfl

theorem firstOutput_rebound :
    (g.rebound f defaults).firstOutput (node.rebound f) =
      (g.firstOutput node).map (Option.map (Node.rebound f)) := by
  rw [firstOutput, firstOutput, outputs_rebound]
  cases g.outputs node with
  | error failure => rfl
  | ok outgoing => cases outgoing <;> rfl

theorem numbers_rebound : (g.rebound f defaults).numbers = g.numbers := by
  have hentries : ((g.nodes.map (Node.rebound f)).mapIdx fun i node ↦ (node.id, (i : Int))) =
      g.nodes.mapIdx fun i node ↦ (node.id, (i : Int)) := by
    apply List.mapIdx_eq_iff.mpr
    intro i
    simp [Function.comp_def]
  exact congrArg (List.foldl _ []) hentries

theorem numbering_rebound : (g.rebound f defaults).numbering = g.numbering := by
  have hkeys : ((g.nodes.map (Node.rebound f)).forM fun node ↦ node.id.checkKey) =
      g.nodes.forM fun node ↦ node.id.checkKey := List.forM_map
  rw [numbering, numbering, numbers_rebound, rebound, hkeys]

theorem numberOf_rebound (id : Label) : (g.rebound f defaults).numberOf id = g.numberOf id := by
  rw [numberOf, numberOf, numbers_rebound]

theorem targetNumber_rebound :
    (g.rebound f defaults).targetNumber (out.map (Node.rebound f)) = g.targetNumber out := by
  cases out with
  | none => rfl
  | some node => simp [targetNumber, numberOf_rebound]

theorem nodesOfKind_rebound (kind : NodeKind) :
    (g.rebound f defaults).nodesOfKind kind = (g.nodesOfKind kind).map (Node.rebound f) := by
  rw [nodesOfKind, rebound, List.filter_map]
  simp [nodesOfKind, Function.comp_def]

theorem contentNodes_rebound :
    (g.rebound f defaults).contentNodes = g.contentNodes.map (Node.rebound f) := by
  rw [contentNodes, rebound, List.filter_map]
  simp [contentNodes, Function.comp_def]

theorem entryNumber_rebound : (g.rebound f defaults).entryNumber = g.entryNumber := by
  rw [entryNumber, entryNumber, numbering_rebound, nodesOfKind_rebound]
  cases g.nodesOfKind .entry with
  | nil => rfl
  | cons entry others =>
      simp only [List.map_cons, firstOutput_rebound]
      cases g.numbering with
      | error failure => rfl
      | ok numbers =>
          cases g.firstOutput entry with
          | error failure => rfl
          | ok out => exact targetNumber_rebound

/-! ## Lowering -/

/-- With other bindings and variables every field stands for what it stood for. -/
structure KeepsTexts (g : Graph) (f : Binding → Binding) (defaults : List (Value × Value)) :
    Prop where
  isNamed : ∀ binding : Binding, binding.IsNamed → (f binding).IsNamed
  boundText?_eq : ∀ binding, (g.rebound f defaults).boundText? (f binding) = g.boundText? binding

theorem isNamed_of_references (hnames : ∀ name ∈ draft.references, name.isKey = true)
    (hbinding : binding ∈ [draft.actor, draft.audio, draft.text]) : binding.IsNamed := by
  cases binding with
  | «variable» name => exact hnames name (List.mem_filterMap.mpr ⟨_, hbinding, rfl⟩)
  | _ => trivial

namespace KeepsTexts

theorem resolve_eq (h : g.KeepsTexts f defaults) (hbinding : binding.IsNamed) (empty : Value) :
    ((g.rebound f defaults).resolve .text empty (f binding)).result =
      (g.resolve .text empty binding).result := by
  rw [resolve_eq_ok hbinding, resolve_eq_ok (h.isNamed binding hbinding), h.boundText?_eq]

theorem lowerLine_eq (h : g.KeepsTexts f defaults)
    (hnames : ∀ name ∈ draft.references, name.isKey = true) (id successor : Int) :
    ((g.rebound f defaults).lowerLine (draft.rebound f) id successor).result =
      (g.lowerLine draft id successor).result := by
  have hactor : draft.actor.IsNamed := isNamed_of_references hnames (by simp)
  have haudio : draft.audio.IsNamed := isNamed_of_references hnames (by simp)
  have htext : draft.text.IsNamed := isNamed_of_references hnames (by simp)
  refine Logged.result_bind_congr (h.resolve_eq hactor _) fun actor ↦ ?_
  refine Logged.result_bind_congr (h.resolve_eq haudio _) fun audio ↦ ?_
  refine Logged.result_bind_congr (h.resolve_eq htext _) fun text ↦ ?_
  -- from here on the two do the same with the same values
  rfl

theorem lower_eq (h : g.KeepsTexts f defaults)
    (hnames : ∀ name ∈ node.references, name.isKey = true) :
    ((g.rebound f defaults).lower (node.rebound f)).result = (g.lower node).result := by
  rw [lower, lower, firstOutput_rebound, Logged.result_ofExcept_map_bind]
  refine Logged.result_bind_congr rfl fun out ↦ ?_
  refine Logged.result_bind_congr targetNumber_rebound fun successor ↦ ?_
  refine Logged.result_bind_congr (numberOf_rebound _) fun id ↦ ?_
  rw [Node.kind_rebound]
  cases hbody : node.body with
  | line draft =>
      rw [Node.references, hbody] at hnames
      simpa [Node.rebound, NodeBody.rebound, hbody] using h.lowerLine_eq hnames id successor
  | entry | exit callbacks | choice => simp [Node.rebound, NodeBody.rebound, hbody]

theorem lowerAll_eq (h : g.KeepsTexts f defaults)
    (hnames : ∀ node ∈ nodes, ∀ name ∈ node.references, name.isKey = true) :
    ((g.rebound f defaults).lowerAll (nodes.map (Node.rebound f))).result =
      (g.lowerAll nodes).result := by
  induction nodes with
  | nil => rfl
  | cons node nodes ih =>
      obtain ⟨hfirst, hrest⟩ := List.forall_mem_cons.mp hnames
      refine Logged.result_bind_congr (h.lower_eq hfirst) fun record ↦ ?_
      refine Logged.result_bind_congr (ih hrest) fun records ↦ ?_
      rfl

theorem compile_eq (h : g.KeepsTexts f defaults)
    (hnames : ∀ name ∈ g.references, name.isKey = true) :
    (g.rebound f defaults).compile.result = g.compile.result := by
  have hlines : ∀ node ∈ g.contentNodes, ∀ name ∈ node.references, name.isKey = true := by
    intro node hnode name hname
    exact hnames name (List.mem_flatMap.mpr ⟨node, hnode, hname⟩)
  rw [compile, compile, entryNumber_rebound, contentNodes_rebound]
  refine Logged.result_bind_congr rfl fun entry ↦ ?_
  refine Logged.result_bind_congr (h.lowerAll_eq hlines) fun records ↦ ?_
  rfl

end KeepsTexts

/-! ## Substitution -/

/-- What a reference to a variable comes to: the default as a value, or nothing where there is no
such variable. -/
def substitute (g : Graph) : Binding → Binding
  | .variable name => ((g.variableDefault? name).map .literal).getD .unbound
  | binding => binding

/-- The graph without variables, with what they stand for in the fields that referred to them. -/
def substituted (g : Graph) : Graph := g.rebound g.substitute []

theorem keepsTexts_substitute : g.KeepsTexts g.substitute [] where
  isNamed binding _ := by
    cases binding with
    | «variable» name =>
        cases hdefault : g.variableDefault? name <;> simp [substitute, hdefault, Binding.IsNamed]
    | _ => trivial
  boundText?_eq binding := by
    cases binding with
    | «variable» name =>
        cases hdefault : g.variableDefault? name <;> simp [substitute, hdefault, boundText?]
    | _ => rfl

theorem reference?_substitute (binding : Binding) : (g.substitute binding).reference? = none := by
  cases binding with
  | «variable» name =>
      cases hdefault : g.variableDefault? name <;> simp [substitute, hdefault, Binding.reference?]
  | _ => rfl

theorem references_substituted : g.substituted.references = [] := by
  rw [references, substituted, contentNodes_rebound, List.flatMap_map, List.flatMap_eq_nil_iff]
  intro node _
  cases hbody : node.body with
  | line draft =>
      simp [Node.references, Node.rebound, NodeBody.rebound, hbody, LineDraft.references,
        LineDraft.rebound, reference?_substitute]
  | _ => simp [Node.references, Node.rebound, NodeBody.rebound, hbody]

/-! ## Texts -/

/-- The fields of a line are resolved to the texts that they stand for, and to what is empty where
they stand for none. -/
structure Resolves (g : Graph) (draft : LineDraft) : Prop where
  actor : (g.resolve .text (.text "") draft.actor).result =
    .ok (.text ((g.boundText? draft.actor).getD ""))
  audio : (g.resolve .text .null draft.audio).result = .ok (.ofOption (g.boundText? draft.audio))
  text : (g.resolve .text (.text "") draft.text).result =
    .ok (.text ((g.boundText? draft.text).getD ""))

theorem resolves_of_references (hnames : ∀ name ∈ draft.references, name.isKey = true) :
    g.Resolves draft where
  actor := by
    rw [resolve_eq_ok (isNamed_of_references hnames (by simp)), Value.map_text_getD_text]
  audio := by
    rw [resolve_eq_ok (isNamed_of_references hnames (by simp)), Value.map_text_getD_null]
  text := by
    rw [resolve_eq_ok (isNamed_of_references hnames (by simp)), Value.map_text_getD_text]

/-- A graph needs no variables.  With what they stand for in the place of the references to them it
compiles to the same result or fails with the same failure, if the names that are referred to can be
looked up.  Every field of a line is resolved to the text that it stands for, or else to what is
empty.  The records of the result say so, and whatever a record is refused for, it is not its actor,
its voice clip or its text. -/
theorem compile_substituted (hnames : ∀ name ∈ g.references, name.isKey = true) :
    g.substituted.references = [] ∧
    g.substituted.compile.result = g.compile.result ∧
    (∀ node ∈ g.contentNodes, ∀ draft, node.body = .line draft → g.Resolves draft) ∧
    (∀ compiled, g.compile.result = .ok compiled →
      List.Forall₂ g.Speaks g.contentNodes compiled.records) ∧
    ∀ className problems, g.compile.result = .error (.badFields className problems) →
      ∀ problem ∈ problems, problem.SparesTexts := by
  refine ⟨references_substituted, keepsTexts_substitute.compile_eq hnames, ?_, ?_, ?_⟩
  · intro node hnode draft hbody
    apply resolves_of_references
    intro name hname
    apply hnames name
    refine List.mem_flatMap.mpr ⟨node, hnode, ?_⟩
    rwa [Node.references, hbody]
  · intro compiled hcompile
    obtain ⟨-, -, -, hrecords, -⟩ := of_compile_eq_ok hcompile
    exact forall₂_speaks hrecords
  · intro className problems hcompile
    rcases of_compile_eq_error hcompile with hrefusal | ⟨_, _, _, hcycle⟩
    · exact hrefusal
    · cases hcycle

/-- Two lines that refer to a name, to a number, to nothing and to a variable that is not there; the
first one comes with some callbacks. -/
def proclamation (callbacks : List Value) : Graph where
  name := .text "Proclamation"
  nodes := [
    { id := .plain (.text "in"), body := .entry },
    { id := .plain (.text "call")
      body := .line
        { actor := .variable (.text "herald"), audio := .variable (.text "horn")
          text := .literal (.text "Hear!"), callbacks := .list callbacks } },
    { id := .plain (.text "read")
      body := .line
        { actor := .variable (.text "crier"), audio := .literal (.text "edict.ogg")
          text := .variable (.text "edict") } },
    { id := .plain (.text "out"), body := .exit (.list []) }]
  edges := [⟨.plain (.text "in"), .plain (.text "call")⟩,
    ⟨.plain (.text "call"), .plain (.text "read")⟩, ⟨.plain (.text "read"), .plain (.text "out")⟩]
  defaults := [(.text "herald", .text "Herald"), (.text "horn", .int 3), (.text "edict", .null)]

/-- Without callbacks the proclamation compiles, and with a number for one it is refused. -/
theorem compile_substituted_of_proclamation :
    (∀ name ∈ (proclamation []).references, name.isKey = true) ∧
      (proclamation []).substituted.compile.result = .ok ⟨1, [
        ⟨.dialogue, 1, 2, "dialogue", some ⟨"Herald", none, "Hear!", []⟩⟩,
        ⟨.dialogue, 2, noId, "dialogue", some ⟨"", some "edict.ogg", "", []⟩⟩]⟩ ∧
      (proclamation [.int 1]).substituted.compile.result = .error (.badFields "DialogueNode"
        [⟨[.field "callbacks", .item 0], .noText⟩]) ∧
      Problem.SparesTexts ⟨[.field "callbacks", .item 0], .noText⟩ := by
  have hnames (callbacks : List Value) :
      ∀ name ∈ (proclamation callbacks).references, name.isKey = true := by
    have hreferences : (proclamation callbacks).references =
        [.text "herald", .text "horn", .text "crier", .text "edict"] := rfl
    simp [hreferences, Value.isKey]
  have hcompile : (proclamation []).compile.result = .ok ⟨1, [
      ⟨.dialogue, 1, 2, "dialogue", some ⟨"Herald", none, "Hear!", []⟩⟩,
      ⟨.dialogue, 2, noId, "dialogue", some ⟨"", some "edict.ogg", "", []⟩⟩]⟩ := by rfl
  have hrefused : (proclamation [.int 1]).compile.result = .error (.badFields "DialogueNode"
      [⟨[.field "callbacks", .item 0], .noText⟩]) := by rfl
  obtain ⟨_, hsame, _⟩ := compile_substituted (hnames [])
  obtain ⟨_, hsame', _, _, hspares⟩ := compile_substituted (hnames [.int 1])
  exact ⟨hnames [], hsame.trans hcompile, hsame'.trans hrefused,
    hspares _ _ hrefused _ List.mem_cons_self⟩

end Graph

end LinearDialogue
