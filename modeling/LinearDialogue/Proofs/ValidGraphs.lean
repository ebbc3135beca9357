import LinearDialogue.Proofs.Scripts
import Mathlib.Data.List.FinRange
import Mathlib.Logic.Relation

/-!
# Valid graphs

What holds of a graph in which validation finds no issue.  It has one entry, and no two edges meet
at a point, so that no two nodes lead to the same one and none leads to the entry.  That alone keeps
loops out of reach: the way from the entry along the edges never comes to a node twice, and it comes
to an end after no more steps than there are nodes.
-/

namespace LinearDialogue.Graph

variable {g : Graph} {a b c node next entry : Node} {incoming outgoing : List Node} {n : ℕ}

/-! ## Validation without an issue -/

/-- The rules that validation checks, of a graph whose edges all lead to and from members. -/
structure KeepsRules (g : Graph) : Prop where
  single : ∀ node ∈ g.nodes, ∃ incoming outgoing, g.inputs node = .ok incoming ∧
    g.outputs node = .ok outgoing ∧ incoming.length ≤ 1 ∧ outgoing.length ≤ 1
  entry : (g.nodesOfKind .entry).length = 1
  exit : (g.nodesOfKind .exit).length = 1

theorem checkPointCount_eq_nil_iff {point : Point} {count : ℕ} :
    checkPointCount node point count = [] ↔ count ≤ 1 := by
  by_cases h : 1 < count
  · simp [checkPointCount, h]
  · simp [checkPointCount, h, Nat.not_lt.mp h]

theorem checkCardinality_eq_nil_iff {kind : NodeKind} :
    g.checkCardinality kind = [] ↔ (g.nodesOfKind kind).length = 1 := by
  by_cases h : (g.nodesOfKind kind).length = 1 <;> simp [checkCardinality, h]

theorem of_checkConnections_eq_ok_nil (h : g.checkConnections node = .ok []) :
    ∃ incoming outgoing, g.inputs node = .ok incoming ∧ g.outputs node = .ok outgoing ∧
      incoming.length ≤ 1 ∧ outgoing.length ≤ 1 := by
  obtain ⟨incoming, hincoming, h⟩ := bind_eq_ok_iff.mp h
  obtain ⟨outgoing, houtgoing, h⟩ := bind_eq_ok_iff.mp h
  obtain ⟨hin, hout⟩ := List.append_eq_nil_iff.mp (Except.ok.inj h)
  exact ⟨incoming, outgoing, hincoming, houtgoing, checkPointCount_eq_nil_iff.mp hin,
    checkPointCount_eq_nil_iff.mp hout⟩

/-- Where validation finds no issue, its rules are kept. -/
theorem keepsRules_of_validate_eq_ok_nil (h : g.validate = .ok []) : g.KeepsRules := by
  obtain ⟨atPoints, hpoints, h⟩ := bind_eq_ok_iff.mp h
  obtain ⟨hrest, hexit⟩ := List.append_eq_nil_iff.mp (Except.ok.inj h)
  obtain ⟨hflat, hentry⟩ := List.append_eq_nil_iff.mp hrest
  refine ⟨fun node hnode ↦ ?_, checkCardinality_eq_nil_iff.mp hentry,
    checkCardinality_eq_nil_iff.mp hexit⟩
  obtain ⟨issues, hissues, hchecked⟩ :=
    exists_mem_of_forall₂ (forall₂_of_mapM_eq_ok hpoints) hnode
  rw [List.flatten_eq_nil_iff.mp hflat issues hissues] at hchecked
  exact of_checkConnections_eq_ok_nil hchecked

theorem KeepsRules.exists_entry (h : g.KeepsRules) : ∃ entry, g.nodesOfKind .entry = [entry] :=
  List.length_eq_one_iff.mp h.entry

theorem mem_of_nodesOfKind_eq_cons {kind : NodeKind} {others : List Node}
    (h : g.nodesOfKind kind = node :: others) : node ∈ g.nodes ∧ node.kind = kind := by
  have hnode : node ∈ g.nodesOfKind kind := by simp [h]
  simpa [nodesOfKind] using hnode

/-! ## Leading on -/

/-- An edge leads from a node to the next one. -/
def Leads (g : Graph) (node next : Node) : Prop := ∃ outgoing, g.outputs node = .ok outgoing ∧
  next ∈ outgoing

theorem leads_of_firstOutput (h : g.firstOutput node = .ok (some next)) : g.Leads node next := by
  obtain ⟨outgoing, houtgoing, h⟩ := bind_eq_ok_iff.mp h
  exact ⟨outgoing, houtgoing, List.mem_of_head? (Except.ok.inj h)⟩

theorem Leads.isTarget (hg : g.WellMade) (hids : g.HasTextIds) (h : g.Leads node next) :
    next ∈ g.nodes ∧ next.kind ≠ .entry := by
  obtain ⟨outgoing, houtgoing, hnext⟩ := h
  exact (hg.of_mem_outputs hids houtgoing hnext).1

theorem eq_of_mem_of_length_le_one {α : Type} {xs : List α} {x y : α} (h : xs.length ≤ 1)
    (hx : x ∈ xs) (hy : y ∈ xs) : x = y := by
  obtain ⟨i, hi, rfl⟩ := List.mem_iff_getElem.mp hx
  obtain ⟨j, hj, rfl⟩ := List.mem_iff_getElem.mp hy
  have hij : i = j := by omega
  subst hij
  rfl

/-- Where the rules are kept, no two members lead to the same one: its input has one edge only. -/
theorem KeepsRules.eq_of_leads (hrules : g.KeepsRules) (hg : g.WellMade) (hids : g.HasTextIds)
    (ha : a ∈ g.nodes) (hb : b ∈ g.nodes) (hac : g.Leads a c) (hbc : g.Leads b c) : a = b := by
  obtain ⟨hc, hkind⟩ := hac.isTarget hg hids
  obtain ⟨_, hoa, hca⟩ := hac
  obtain ⟨_, hob, hcb⟩ := hbc
  obtain ⟨_, edge, hedge, hsource, htarget⟩ := hg.of_mem_outputs hids hoa hca
  obtain ⟨_, edge', hedge', hsource', htarget'⟩ := hg.of_mem_outputs hids hob hcb
  obtain ⟨incoming, _, hincoming, _, hlength, _⟩ := hrules.single c hc
  have hpoint : c.hasPoint .input = true := by
    have hbody : c.kind.hasPoint .input = true := by
      cases hck : c.kind <;> simp_all [NodeKind.hasPoint]
    simpa [Node.hasPoint, hg.asMade c hc] using hbody
  rw [inputs, if_pos hpoint] at hincoming
  rw [← (forall₂_of_mapM_eq_ok hincoming).length_eq] at hlength
  -- both edges are at the input of `c`
  have hself : c.id.agrees c.id = true := (hids c hc).agrees_iff.mpr rfl
  obtain rfl : edge = edge' := eq_of_mem_of_length_le_one hlength
    (List.mem_filter.mpr ⟨hedge, by simp [htarget, hself]⟩)
    (List.mem_filter.mpr ⟨hedge', by simp [htarget', hself]⟩)
  have hid : a.id = b.id := by
    rw [← (hids a ha).agrees_iff.mp hsource, (hids b hb).agrees_iff.mp hsource']
  exact List.inj_on_of_nodup_map hg.nodup ha hb hid

theorem mem_of_reflTransGen (hg : g.WellMade) (hids : g.HasTextIds) (hnode : node ∈ g.nodes)
    (h : Relation.ReflTransGen g.Leads node next) : next ∈ g.nodes := by
  cases h with
  | refl => exact hnode
  | tail _ hlast => exact (hlast.isTarget hg hids).1

/-- Where the rules are kept, what the edges from the entry reach does not reach itself. -/
theorem KeepsRules.not_transGen_self (hrules : g.KeepsRules) (hg : g.WellMade)
    (hids : g.HasTextIds) (hentry : entry ∈ g.nodes) (hkind : entry.kind = .entry)
    (h : Relation.ReflTransGen g.Leads entry node) : ¬ Relation.TransGen g.Leads node node := by
  induction h with
  | refl =>
      intro hloop
      obtain ⟨_, _, hlast⟩ := Relation.TransGen.tail'_iff.mp hloop
      exact (hlast.isTarget hg hids).2 hkind
  | @tail before node hreach hstep ih =>
      intro hloop
      -- the loop comes back to the node from the one before it, which is on the loop then
      obtain ⟨last, hround, hlast⟩ := Relation.TransGen.tail'_iff.mp hloop
      have hnode := (hstep.isTarget hg hids).1
      obtain rfl : last = before :=
        hrules.eq_of_leads hg hids (mem_of_reflTransGen hg hids hnode hround)
          (mem_of_reflTransGen hg hids hentry hreach) hlast hstep
      exact ih (Relation.TransGen.head' hstep hround)

/-! ## The way along the first edges -/

/-- Where a number of steps along the first edges lead from a node; none if the way is shorter. -/
def nodeAfter (g : Graph) : ℕ → Node → Except Failure (Option Node)
  | 0, node => .ok (some node)
  | n + 1, node => do
      match ← g.nodeAfter n node with
      | none => return none
      | some last => g.firstOutput last

theorem nodeAfter_succ_eq_some_iff :
    g.nodeAfter (n + 1) node = .ok (some next) ↔
      ∃ last, g.nodeAfter n node = .ok (some last) ∧ g.firstOutput last = .ok (some next) := by
  rw [nodeAfter, bind_eq_ok_iff]
  constructor
  · rintro ⟨_ | last, hlast, h⟩
    · cases h
    · exact ⟨last, hlast, h⟩
  · rintro ⟨last, hlast, h⟩
    exact ⟨some last, hlast, h⟩

theorem reflTransGen_of_nodeAfter (h : g.nodeAfter n node = .ok (some next)) :
    Relation.ReflTransGen g.Leads node next := by
  induction n generalizing next with
  | zero =>
      cases h
      exact .refl
  | succ n ih =>
      obtain ⟨last, hlast, hnext⟩ := nodeAfter_succ_eq_some_iff.mp h
      exact (ih hlast).tail (leads_of_firstOutput hnext)

/-- Where the rules are kept, every step along the first edges from a member can be taken. -/
theorem KeepsRules.exists_nodeAfter (hrules : g.KeepsRules) (hg : g.WellMade)
    (hids : g.HasTextIds) (hnode : node ∈ g.nodes) (n : ℕ) :
    ∃ out, g.nodeAfter n node = .ok out := by
  induction n with
  | zero => exact ⟨some node, rfl⟩
  | succ n ih =>
      obtain ⟨_ | last, hlast⟩ := ih
      · exact ⟨none, by rw [nodeAfter, hlast]; rfl⟩
      · have hmember := mem_of_reflTransGen hg hids hnode (reflTransGen_of_nodeAfter hlast)
        obtain ⟨_, outgoing, _, houtgoing, _⟩ := hrules.single last hmember
        refine ⟨outgoing.head?, ?_⟩
        rw [nodeAfter, hlast]
        change g.firstOutput last = _
        rw [firstOutput, houtgoing]
        rfl

/-- Where the rules are kept, the way along the first edges from the entry passes no node twice. -/
theorem KeepsRules.nodeAfter_injective (hrules : g.KeepsRules) (hg : g.WellMade)
    (hids : g.HasTextIds) (hentry : entry ∈ g.nodes) (hkind : entry.kind = .entry) {m n : ℕ}
    (hm : g.nodeAfter m entry = .ok (some node)) (hn : g.nodeAfter n entry = .ok (some node)) :
    m = n := by
  have hsource : ∀ {k : ℕ}, g.nodeAfter (k + 1) entry ≠ .ok (some entry) := by
    intro k hback
    obtain ⟨_, _, hlast⟩ := nodeAfter_succ_eq_some_iff.mp hback
    exact ((leads_of_firstOutput hlast).isTarget hg hids).2 hkind
  induction m generalizing n node with
  | zero =>
      cases hm
      cases n with
      | zero => rfl
      | succ n => exact absurd hn hsource
  | succ m ih =>
      cases n with
      | zero =>
          cases hn
          exact absurd hm hsource
      | succ n =>
          obtain ⟨a, ha, hma⟩ := nodeAfter_succ_eq_some_iff.mp hm
          obtain ⟨b, hb, hnb⟩ := nodeAfter_succ_eq_some_iff.mp hn
          obtain rfl : a = b := hrules.eq_of_leads hg hids
            (mem_of_reflTransGen hg hids hentry (reflTransGen_of_nodeAfter ha))
            (mem_of_reflTransGen hg hids hentry (reflTransGen_of_nodeAfter hb))
            (leads_of_firstOutput hma) (leads_of_firstOutput hnb)
          rw [ih ha hb]

/-- A way that is long enough for some steps is long enough for fewer. -/
theorem exists_nodeAfter_of_le {m : ℕ} (hmn : m ≤ n) (h : g.nodeAfter n node = .ok (some next)) :
    ∃ passed, g.nodeAfter m node = .ok (some passed) := by
  induction n generalizing next with
  | zero =>
      obtain rfl := Nat.le_zero.mp hmn
      exact ⟨next, h⟩
  | succ n ih =>
      rcases Nat.of_le_succ hmn with hmn | rfl
      · obtain ⟨last, hlast, _⟩ := nodeAfter_succ_eq_some_iff.mp h
        exact ih hmn hlast
      · exact ⟨next, h⟩

/-- Where the rules are kept, the way along the first edges from the entry is over after as many
steps as there are nodes. -/
theorem KeepsRules.nodeAfter_length (hrules : g.KeepsRules) (hg : g.WellMade)
    (hids : g.HasTextIds) (hentry : entry ∈ g.nodes) (hkind : entry.kind = .entry) :
    g.nodeAfter g.nodes.length entry = .ok none := by
  obtain ⟨_ | last, hlast⟩ := hrules.exists_nodeAfter hg hids hentry g.nodes.length
  · exact hlast
  -- otherwise it has passed different members, one more than there are
  choose passed hpassed using fun i : Fin (g.nodes.length + 1) ↦
    exists_nodeAfter_of_le (Nat.le_of_lt_succ i.isLt) hlast
  have hnodup : (List.ofFn passed).Nodup := by
    refine List.nodup_ofFn.mpr fun i j hij ↦ Fin.ext ?_
    exact hrules.nodeAfter_injective hg hids hentry hkind (hpassed i) (hij ▸ hpassed j)
  have hsubset : List.ofFn passed ⊆ g.nodes := by
    intro node hnode
    obtain ⟨i, rfl⟩ := List.mem_ofFn.mp hnode
    exact mem_of_reflTransGen hg hids hentry (reflTransGen_of_nodeAfter (hpassed i))
  have hle := hnodup.length_le_of_subset hsubset
  rw [List.length_ofFn] at hle
  omega

end LinearDialogue.Graph
