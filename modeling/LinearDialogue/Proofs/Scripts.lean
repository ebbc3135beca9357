import LinearDialogue.Compiled.Compilation
import LinearDialogue.Proofs.AuthoredGraphs
import Mathlib.Data.List.Forall2
import Mathlib.Data.List.Infix

/-!
# Scripts

What an authored graph has to say, told without compiling it: from its first entry on, one node
after another along the first edges, up to an exit or an output where nothing is connected.  A graph
has one script at most, and nodes do not recur in it.
-/

namespace LinearDialogue.Graph

variable {g : Graph} {node next : Node} {out : Option Node} {nodes script : List Node}

/-- The ids of all members are texts. -/
def HasTextIds (g : Graph) : Prop := ∀ node ∈ g.nodes, node.id.IsText

/-- The nodes that follow one another along the first edges from an output on, up to an exit, or up
to an output where nothing is connected. -/
inductive Chain (g : Graph) : Option Node → List Node → Prop
  | unconnected : Chain g none []
  | exit {node : Node} (hkind : node.kind = .exit) : Chain g (some node) []
  | step {node : Node} {next : Option Node} {nodes : List Node} (hkind : node.kind ≠ .exit)
      (hnext : g.firstOutput node = .ok next) (hrest : Chain g next nodes) :
      Chain g (some node) (node :: nodes)

/-- The nodes that a graph leads through from its first entry. -/
inductive Script (g : Graph) : List Node → Prop
  | noEntry (hentry : g.nodesOfKind .entry = []) : Script g []
  | entry {entry : Node} {others : List Node} {out : Option Node} {nodes : List Node}
      (hentry : g.nodesOfKind .entry = entry :: others) (hout : g.firstOutput entry = .ok out)
      (hchain : Chain g out nodes) : Script g nodes

theorem Chain.unique {others : List Node} (h : g.Chain out nodes) (h' : g.Chain out others) :
    nodes = others := by
  induction h generalizing others with
  | unconnected =>
      cases h'
      rfl
  | exit hkind =>
      cases h' with
      | exit _ => rfl
      | step hkind' _ _ => exact absurd hkind hkind'
  | step hkind hnext _ ih =>
      cases h' with
      | exit hkind' => exact absurd hkind' hkind
      | step _ hnext' hrest' =>
          obtain rfl := Except.ok.inj (hnext.symm.trans hnext')
          rw [ih hrest']

/-- A chain goes on from each of its nodes. -/
theorem Chain.exists_chain_of_mem (h : g.Chain out nodes) (hnode : node ∈ nodes) :
    ∃ rest, node :: rest <:+ nodes ∧ g.Chain (some node) (node :: rest) := by
  induction h with
  | unconnected => simp at hnode
  | exit _ => simp at hnode
  | @step first next nodes hkind hnext hrest ih =>
      rcases List.mem_cons.mp hnode with rfl | hnode
      · exact ⟨nodes, List.suffix_rfl, .step hkind hnext hrest⟩
      · obtain ⟨rest, hsuffix, hchain⟩ := ih hnode
        exact ⟨rest, hsuffix.trans (List.suffix_cons first nodes), hchain⟩

/-- In a chain no node recurs: it would go on for ever. -/
theorem Chain.nodup (h : g.Chain out nodes) : nodes.Nodup := by
  induction h with
  | unconnected => exact List.nodup_nil
  | exit _ => exact List.nodup_nil
  | step hkind hnext hrest ih =>
      refine List.nodup_cons.mpr ⟨fun hnode ↦ ?_, ih⟩
      obtain ⟨rest, hsuffix, hchain⟩ := hrest.exists_chain_of_mem hnode
      rw [hchain.unique (.step hkind hnext hrest)] at hsuffix
      exact absurd hsuffix.length_le (by simp)

theorem Script.unique (h : g.Script nodes) (h' : g.Script script) : nodes = script := by
  cases h with
  | noEntry hentry =>
      cases h' with
      | noEntry _ => rfl
      | entry hentry' _ _ => simp [hentry] at hentry'
  | entry hentry hout hchain =>
      cases h' with
      | noEntry hentry' => simp [hentry] at hentry'
      | entry hentry' hout' hchain' =>
          obtain ⟨rfl, -⟩ := List.cons.inj (hentry.symm.trans hentry')
          obtain rfl := Except.ok.inj (hout.symm.trans hout')
          exact hchain.unique hchain'

theorem Script.nodup (h : g.Script nodes) : nodes.Nodup := by
  cases h with
  | noEntry _ => exact List.nodup_nil
  | entry _ _ hchain => exact hchain.nodup

/-! ## Members and their numbers -/

theorem find?_eq_some_of_nodup {α β : Type} {f : α → β} {p : α → Bool} {xs : List α} {a : α}
    (hnodup : (xs.map f).Nodup) (ha : a ∈ xs) (hp : ∀ b ∈ xs, p b = true ↔ f b = f a) :
    xs.find? p = some a := by
  cases hfind : xs.find? p with
  | none => exact absurd ((hp a ha).mpr rfl) (List.find?_eq_none.mp hfind a ha)
  | some b =>
      have hb := List.mem_of_find?_eq_some hfind
      rw [List.inj_on_of_nodup_map hnodup hb ha ((hp b hb).mp (List.find?_some hfind))]

/-- Of members none of which stands for another, each is the first that stands for itself. -/
theorem find?_eq_some_of_pairwise {α : Type} {r : α → α → Bool} {xs : List α} {a : α}
    (hself : r a a = true) (hapart : xs.Pairwise fun a b ↦ r a b = false) (ha : a ∈ xs) :
    xs.find? (fun b ↦ r b a) = some a := by
  obtain ⟨before, after, rfl⟩ := List.append_of_mem ha
  have hbefore : before.find? (fun b ↦ r b a) = none := by
    refine List.find?_eq_none.mpr fun b hb ↦ ?_
    rw [(List.pairwise_append.mp hapart).2.2 b hb a List.mem_cons_self]
    exact Bool.false_ne_true
  rw [List.find?_append, hbefore, Option.none_or, List.find?_cons, hself]

theorem mem_of_member_eq_ok {id : Label} (hg : g.WellMade) (hids : g.HasTextIds)
    (h : g.member id = .ok node) : node ∈ g.nodes ∧ node.id = id := by
  cases hfind : g.find? id with
  | none => simp [member, hfind] at h
  | some found =>
      simp only [member, hfind, Except.ok.injEq] at h
      subst h
      have hnode := List.mem_of_find?_eq_some hfind
      have hkey := List.find?_some hfind
      rw [hg.key_eq hnode, (hids found hnode).matchesKey_iff'] at hkey
      exact ⟨hnode, hkey⟩

theorem exists_mem_of_forall₂ {α β : Type} {r : α → β → Prop} {xs : List α} {ys : List β}
    (h : List.Forall₂ r xs ys) {a : α} (ha : a ∈ xs) : ∃ b ∈ ys, r a b := by
  induction h with
  | nil => simp at ha
  | @cons x y xs ys hxy _ ih =>
      rcases List.mem_cons.mp ha with rfl | ha
      · exact ⟨y, List.mem_cons_self, hxy⟩
      · obtain ⟨b, hb, hab⟩ := ih ha
        exact ⟨b, List.mem_cons_of_mem y hb, hab⟩

theorem forall₂_of_mapM_eq_ok {α β : Type} {f : α → Except Failure β} {xs : List α} {ys : List β}
    (h : xs.mapM f = .ok ys) : List.Forall₂ (fun a b ↦ f a = .ok b) xs ys := by
  induction xs generalizing ys with
  | nil =>
      cases h
      exact .nil
  | cons a xs ih =>
      rw [List.mapM_cons] at h
      obtain ⟨b, hb, h⟩ := bind_eq_ok_iff.mp h
      obtain ⟨others, hothers, h⟩ := bind_eq_ok_iff.mp h
      cases h
      exact .cons hb (ih hothers)

theorem mapM_eq_ok_of_forall₂ {α β : Type} {f : α → Except Failure β} {xs : List α} {ys : List β}
    (h : List.Forall₂ (fun a b ↦ f a = .ok b) xs ys) : xs.mapM f = .ok ys := by
  induction h with
  | nil => rfl
  | @cons a b xs ys hb _ ih =>
      rw [List.mapM_cons, hb, ih]
      rfl

theorem exists_of_mapM_eq_error {α β : Type} {f : α → Except Failure β} {xs : List α}
    {failure : Failure} (h : xs.mapM f = .error failure) : ∃ a ∈ xs, f a = .error failure := by
  induction xs with
  | nil => cases h
  | cons a xs ih =>
      rw [List.mapM_cons] at h
      cases ha : f a with
      | error first =>
          rw [ha] at h
          cases h
          exact ⟨a, List.mem_cons_self, ha⟩
      | ok b =>
          cases hrest : xs.mapM f with
          | error later =>
              rw [ha, hrest] at h
              cases h
              obtain ⟨other, hother, hlater⟩ := ih hrest
              exact ⟨other, List.mem_cons_of_mem a hother, hlater⟩
          | ok others =>
              rw [ha, hrest] at h
              cases h

/-- What an output point is connected to: members other than an entry, each at an edge. -/
theorem WellMade.of_mem_outputs (hg : g.WellMade) (hids : g.HasTextIds)
    (h : g.outputs node = .ok nodes) (hnext : next ∈ nodes) :
    (next ∈ g.nodes ∧ next.kind ≠ .entry) ∧
      ∃ edge ∈ g.edges, edge.source.agrees node.id = true ∧ edge.target = next.id := by
  rw [outputs] at h
  split at h
  · obtain ⟨edge, hedge, hmember⟩ := exists_mem_of_forall₂ (forall₂_of_mapM_eq_ok h).flip hnext
    obtain ⟨hedge, hsource⟩ := List.mem_filter.mp hedge
    obtain ⟨hnext, hid⟩ := mem_of_member_eq_ok hg hids hmember
    -- the edge's target is the id of a member, so a text, and the invariant speaks of it
    obtain ⟨member, hmember, htarget, hkind⟩ := hg.targets edge hedge (hid ▸ hids _ hnext)
    obtain rfl : member = next :=
      List.inj_on_of_nodup_map hg.nodup hmember hnext (htarget.trans hid.symm)
    exact ⟨⟨hnext, hkind⟩, edge, hedge, hsource, hid.symm⟩
  · cases h
    simp at hnext

/-- The first edge from a node leads to a member that is no entry. -/
theorem WellMade.of_firstOutput (hg : g.WellMade) (hids : g.HasTextIds)
    (h : g.firstOutput node = .ok (some next)) : next ∈ g.nodes ∧ next.kind ≠ .entry := by
  obtain ⟨members, hmembers, h⟩ := bind_eq_ok_iff.mp h
  have hhead : members.head? = some next := Except.ok.inj h
  exact (hg.of_mem_outputs hids hmembers (List.mem_of_head? hhead)).1

/-- A key that is not in a table is entered at its end. -/
theorem enter_eq_append {κ α : Type} {isOne : κ → κ → Bool} {key : κ} {table : List (κ × α)}
    (h : ∀ entry ∈ table, isOne entry.1 key = false) (a : α) :
    enter isOne key a table = table ++ [(key, a)] := by
  induction table with
  | nil => rfl
  | cons entry table ih =>
      obtain ⟨hfirst, hrest⟩ := List.forall_mem_cons.mp h
      rw [enter, hfirst, ih hrest]
      rfl

/-- Entries under keys none of which stands for another make a table as they stand. -/
theorem foldl_enter_eq_self_of_pairwise {κ α : Type} {isOne : κ → κ → Bool} {entries : List (κ × α)}
    (h : entries.Pairwise fun entry other ↦ isOne entry.1 other.1 = false) :
    entries.foldl (fun table entry ↦ enter isOne entry.1 entry.2 table) [] = entries := by
  induction entries using List.reverseRecOn with
  | nil => rfl
  | append_singleton entries entry ih =>
      obtain ⟨hentries, -, hlast⟩ := List.pairwise_append.mp h
      rw [List.foldl_append, ih hentries]
      exact enter_eq_append (fun other hother ↦ hlast other hother entry List.mem_cons_self) entry.2

/-- Entries under different keys make a table as they stand. -/
theorem foldl_enter_eq_self {entries : List (Label × Int)}
    (htext : ∀ entry ∈ entries, entry.1.IsText) (hnodup : (entries.map Prod.fst).Nodup) :
    entries.foldl (fun table entry ↦ enter Label.matchesKey entry.1 entry.2 table) [] =
      entries := by
  refine foldl_enter_eq_self_of_pairwise ((List.pairwise_map.mp hnodup).imp_of_mem ?_)
  intro entry other _ hother hne
  rw [Bool.eq_false_iff, ne_eq, (htext other hother).matchesKey_iff]
  exact hne

/-- The number of a member is its place. -/
theorem numberOf_eq_ok (hnodup : (g.nodes.map Node.id).Nodup) (hids : g.HasTextIds) {n : ℕ}
    (hnode : g.nodes[n]? = some node) : g.numberOf node.id = .ok n := by
  have hkeys : (g.nodes.mapIdx fun i node ↦ (node.id, (i : Int))).map Prod.fst =
      g.nodes.map Node.id := by
    apply List.ext_getElem <;> simp
  have hnumbers : g.numbers = g.nodes.mapIdx fun i node ↦ (node.id, (i : Int)) := by
    refine foldl_enter_eq_self ?_ (hkeys ▸ hnodup)
    intro entry hentry
    have hkey := List.mem_map_of_mem (f := Prod.fst) hentry
    rw [hkeys] at hkey
    obtain ⟨member, hmember, hid⟩ := List.mem_map.mp hkey
    exact hid ▸ hids member hmember
  have htext : node.id.IsText := hids node (List.mem_of_getElem? hnode)
  have hentry : (node.id, (n : Int)) ∈ g.nodes.mapIdx fun i node ↦ (node.id, (i : Int)) :=
    List.mem_of_getElem? (i := n) (by simp [hnode])
  have hfind := find?_eq_some_of_nodup (f := Prod.fst) (p := fun e ↦ e.1.matchesKey node.id)
    (hkeys ▸ hnodup) hentry fun e _ ↦ htext.matchesKey_iff
  rw [numberOf, hnumbers, hfind]

theorem WellMade.numberOf_eq_ok (hg : g.WellMade) (hids : g.HasTextIds) {n : ℕ}
    (hnode : g.nodes[n]? = some node) : g.numberOf node.id = .ok n :=
  Graph.numberOf_eq_ok hg.nodup hids hnode

theorem WellMade.exists_numberOf (hg : g.WellMade) (hids : g.HasTextIds) (hnode : node ∈ g.nodes) :
    ∃ n : ℕ, n < g.nodes.length ∧ g.nodes[n]? = some node ∧ g.numberOf node.id = .ok n := by
  obtain ⟨n, hn, hget⟩ := List.mem_iff_getElem.mp hnode
  have hplace : g.nodes[n]? = some node := by simp [hn, hget]
  exact ⟨n, hn, hplace, hg.numberOf_eq_ok hids hplace⟩

/-- Different members have different numbers. -/
theorem WellMade.eq_of_numberOf (hg : g.WellMade) (hids : g.HasTextIds) {number : Int}
    (hnode : node ∈ g.nodes) (hnext : next ∈ g.nodes) (h : g.numberOf node.id = .ok number)
    (h' : g.numberOf next.id = .ok number) : node = next := by
  obtain ⟨m, _, hm, hnumber⟩ := hg.exists_numberOf hids hnode
  obtain ⟨n, _, hn, hnumber'⟩ := hg.exists_numberOf hids hnext
  obtain rfl := Except.ok.inj (h.symm.trans hnumber)
  have hmn : (n : Int) = m := Except.ok.inj (hnumber'.symm.trans h')
  obtain rfl : n = m := by exact_mod_cast hmn
  exact Option.some.inj (hm.symm.trans hn)

end LinearDialogue.Graph
