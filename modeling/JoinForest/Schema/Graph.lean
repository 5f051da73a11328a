import JoinForest.Proofs.Except
import JoinForest.Schema.Reshape

set_option autoImplicit false

/-!
# Schemas as graphs

How a schema is stored: its nodes in the order in which they were put in, which is also how they are
referred to, the edges from parents to children, an index of the names, and the positions of the
roots. Forests are put in depth-first. New schemas are made from forests that are read back from a
graph along its edges, so that every graph is made of a forest.
-/

namespace JoinForest

/-- A node with the key that it got when it was put in. -/
structure Graph.Node where
  key : Nat
  source : Source
  deriving DecidableEq, Repr, Inhabited

/-- A directed edge between two positions, and what is kept on it. -/
structure Graph.Arc where
  tail : Nat
  head : Nat
  edge : Edge
  deriving DecidableEq, Repr, Inhabited

/-- Nodes and edges in the order in which they were put in, the positions of the nodes by their
names, sorted, and the positions of the roots. -/
structure Graph where
  nodes : List Graph.Node := []
  arcs : List Graph.Arc := []
  byName : List (String × Nat) := []
  roots : List Nat := []
  deriving DecidableEq, Repr, Inhabited

namespace Graph

/-! ## Looking at a graph -/

/-- The position of a name. -/
def find? (g : Graph) (name : String) : Option Nat := g.byName.lookup name

/-- Whether a name is in use. -/
def contains (g : Graph) (name : String) : Bool := (g.find? name).isSome

/-- The position of a name, or that the name is unknown. -/
def lookup (g : Graph) (name : String) : Except SchemaError Nat :=
  match g.find? name with
  | some i => .ok i
  | none => .error (.unknownTable name (closest? name (g.byName.map (·.1))))

/-- The source at a position. -/
def source (g : Graph) (i : Nat) : Source := (g.nodes.map Node.source).getD i default

/-- The edge onto a node. Edges of a node are listed with the latest first. -/
def arcAbove? (g : Graph) (i : Nat) : Option Arc := g.arcs.reverse.find? (·.head == i)

/-- The ends of the edges from a node. -/
def neighbours (g : Graph) (i : Nat) : List Nat :=
  (g.arcs.reverse.filter (·.tail == i)).map Arc.head

/-- The children of a node, in order. -/
def childIndices (g : Graph) (i : Nat) : List Nat :=
  (g.neighbours i).mergeSort fun a b => decide (a ≤ b)

/-- Refuses two graphs with a name in common; the smallest such name is reported. -/
def checkDisjoint (g other : Graph) : Except SchemaError Unit :=
  match (other.byName.map (·.1)).find? g.contains with
  | some name => .error (.duplicateName name)
  | none => .ok ()

/-! ## Putting nodes in -/

/-- Puts a name into a list sorted by names, in place of the same one. -/
def insertName (name : String) (i : Nat) : List (String × Nat) → List (String × Nat)
  | [] => [(name, i)]
  | (n, k) :: rest =>
    if n = name then (name, i) :: rest
    else if name < n then (name, i) :: (n, k) :: rest
    else (n, k) :: insertName name i rest

/-- The graph with one more node and its name. -/
def addNode (g : Graph) (source : Source) : Graph :=
  { g with
    nodes := g.nodes ++ [⟨g.nodes.length, source⟩]
    byName := insertName source.name g.nodes.length g.byName }

/-- The graph with one more edge. -/
def addArc (g : Graph) (parent child : Nat) (join : Join) : Graph :=
  { g with arcs := g.arcs ++ [⟨parent, child, ⟨parent, child, join⟩⟩] }

/-- Puts one member below a parent, at the next position. -/
def insertNode (g : Graph) (parent : Option Nat) (m : Member) : Except SchemaError Graph :=
  if g.contains m.name then .error (.duplicateName m.name)
  else
    match parent, m.join with
    | some p, some join => .ok ((g.addNode m.source).addArc p g.nodes.length join)
    | none, none => .ok (g.addNode m.source)
    | some _, none => .error (.invalidTopology (.missingJoin m.name))
    | none, some _ => .error (.invalidTopology (.missingParent m.name))

/-- Puts the trees of a forest below a parent, each with what stands below its top. -/
def insertAll (g : Graph) (parent : Option Nat) : Forest Member → Except SchemaError Graph
  | .nil => .ok g
  | .cons m children rest => do
    let own ← g.insertNode parent m
    let below ← own.insertAll (some g.nodes.length) children
    below.insertAll parent rest

/-- The graph with some more roots. -/
def withRoots (g : Graph) (more : List Nat) : Graph := { g with roots := g.roots ++ more }

/-- Puts in the trees of a forest as those of further roots. -/
def addRoots (g : Graph) : Forest Member → Except SchemaError Graph
  | .nil => .ok g
  | .cons m children rest => do
    if m.join.isSome then throw (.invalidTopology (.joinedRoot m.name))
    let own ← g.insertNode none m
    let below ← own.insertAll (some g.nodes.length) children
    (below.withRoots [g.nodes.length]).addRoots rest

/-! ## Edges lead on -/

/-- Every edge leads from an earlier to a later node. -/
def LeadsOn (g : Graph) : Prop := ∀ a ∈ g.arcs, a.tail < a.head ∧ a.head < g.nodes.length

namespace LeadsOn

variable {g g' : Graph} {parent : Option Nat}

/-- A new node keeps edges leading to later nodes, for its parent is there before it. -/
theorem insertNode (h : g.LeadsOn) (hparent : ∀ p, parent = some p → p < g.nodes.length)
    {m : Member} (hg : g.insertNode parent m = .ok g') :
    g'.LeadsOn ∧ g'.nodes.length = g.nodes.length + 1 := by
  have hnode : (g.addNode m.source).LeadsOn := by
    intro a ha
    have ha := h a ha
    simp only [addNode, List.length_append, List.length_singleton]
    omega
  simp only [Graph.insertNode] at hg
  split at hg
  · cases hg
  · cases parent with
    | none =>
      cases hjoin : m.join with
      | none =>
        simp only [hjoin] at hg
        obtain rfl := Except.ok.inj hg
        exact ⟨hnode, by simp [addNode]⟩
      | some join => simp [hjoin] at hg
    | some p =>
      cases hjoin : m.join with
      | none => simp [hjoin] at hg
      | some join =>
        simp only [hjoin] at hg
        obtain rfl := Except.ok.inj hg
        refine ⟨?_, by simp [addArc, addNode]⟩
        intro a ha
        rcases List.mem_append.1 ha with ha | ha
        · exact hnode a ha
        · obtain rfl := List.mem_singleton.1 ha
          exact ⟨hparent p rfl, by simp [addArc, addNode]⟩

theorem insertAll {drafts : Forest Member} (h : g.LeadsOn)
    (hparent : ∀ p, parent = some p → p < g.nodes.length)
    (hg : g.insertAll parent drafts = .ok g') :
    g'.LeadsOn ∧ g.nodes.length ≤ g'.nodes.length := by
  induction drafts generalizing g g' parent with
  | nil =>
    obtain rfl := Except.ok.inj hg
    exact ⟨h, Nat.le_refl _⟩
  | cons m children rest ihc ihr =>
    obtain ⟨own, hown, hg⟩ := bind_eq_ok_iff.1 hg
    obtain ⟨below, hbelow, hg⟩ := bind_eq_ok_iff.1 hg
    obtain ⟨hleads, hlength⟩ := h.insertNode hparent hown
    obtain ⟨hleads, hle⟩ := ihc hleads (by rintro p ⟨⟩; omega) hbelow
    obtain ⟨hleads, hle'⟩ :=
      ihr hleads (fun p hp => Nat.lt_of_lt_of_le (hparent p hp) (by omega)) hg
    exact ⟨hleads, by omega⟩

theorem addRoots {drafts : Forest Member} (h : g.LeadsOn) (hg : g.addRoots drafts = .ok g') :
    g'.LeadsOn := by
  induction drafts generalizing g with
  | nil =>
    obtain rfl := Except.ok.inj hg
    exact h
  | cons m children rest _ ihr =>
    rw [Graph.addRoots] at hg
    split at hg
    · cases hg
    · obtain ⟨own, hown, hg⟩ := bind_eq_ok_iff.1 hg
      obtain ⟨below, hbelow, hg⟩ := bind_eq_ok_iff.1 hg
      obtain ⟨hleads, hlength⟩ := h.insertNode (by simp) hown
      obtain ⟨hleads, -⟩ := hleads.insertAll (by rintro p ⟨⟩; omega) hbelow
      exact ihr (g := below.withRoots [g.nodes.length]) hleads hg

end LeadsOn

theorem lt_of_mem_neighbours {g : Graph} (h : g.LeadsOn) {i c : Nat} (hc : c ∈ g.neighbours i) :
    i < c ∧ c < g.nodes.length := by
  obtain ⟨a, ha, rfl⟩ := List.mem_map.1 hc
  obtain ⟨hmem, htail⟩ := List.mem_filter.1 ha
  obtain rfl : a.tail = i := by simpa using htail
  exact h a (List.mem_reverse.1 hmem)

theorem tail_lt_of_arcAbove? {g : Graph} (h : g.LeadsOn) {i : Nat} {a : Arc}
    (ha : g.arcAbove? i = some a) : a.tail < i := by
  have hhead : a.head = i := by simpa using List.find?_some ha
  rw [← hhead]
  exact (h a (List.mem_reverse.1 (List.mem_of_find?_eq_some ha))).1

/-- How many nodes are not among those seen. -/
def unseen (g : Graph) (seen : List Nat) : Nat :=
  ((List.range g.nodes.length).filter (· ∉ seen)).length

/-- Each node that is seen for the first time makes fewer unseen ones. -/
theorem unseen_concat_lt (g : Graph) {seen : List Nat} {i : Nat} (hi : i < g.nodes.length)
    (hseen : i ∉ seen) : g.unseen (seen ++ [i]) < g.unseen seen := by
  have hfilter : (List.range g.nodes.length).filter (· ∉ seen ++ [i]) =
      ((List.range g.nodes.length).filter (· ∉ seen)).filter (· ≠ i) := by
    rw [List.filter_filter]
    exact List.filter_congr fun k _ => by simp [and_comm]
  rw [unseen, unseen, hfilter, List.length_filter_lt_length_iff_exists]
  exact ⟨i, by simp [hi, hseen], by simp⟩

theorem unseen_concat_of_le (g : Graph) {seen : List Nat} {i : Nat} (hi : g.nodes.length ≤ i) :
    g.unseen (seen ++ [i]) = g.unseen seen := by
  refine congrArg List.length (List.filter_congr ?_)
  intro k hk
  have hne : k ≠ i := by
    have hk := List.mem_range.1 hk
    omega
  simp [hne]

end Graph

/-! ## Finished graphs -/

/-- A graph all of whose edges lead on. -/
structure StoredGraph extends Graph where
  leadsOn : toGraph.LeadsOn

namespace StoredGraph

/-- The graph of a forest. The first fault in the order in which the nodes are put in is reported,
and then a missing root. -/
def freeze (drafts : Forest Member) : Except SchemaError StoredGraph :=
  match h : ({} : Graph).addRoots drafts with
  | .error e => .error e
  | .ok g =>
    if g.roots.isEmpty then .error (.invalidTopology .noRoot)
    else .ok ⟨g, Graph.LeadsOn.addRoots (fun _ ha => absurd ha List.not_mem_nil) h⟩

/-! ## Going up and down -/

/-- The positions from a node up to its root. -/
def way (g : StoredGraph) (i : Nat) : List Nat :=
  match _ : g.arcAbove? i with
  | none => [i]
  | some a => i :: g.way a.tail
termination_by i
decreasing_by exact Graph.tail_lt_of_arcAbove? g.leadsOn ‹_›

/-- The positions that a search with a stack comes to, after those that it has seen. -/
def search (g : StoredGraph) (stack seen : List Nat) : List Nat :=
  match stack with
  | [] => seen
  | i :: stack =>
    if i ∈ seen then g.search stack seen
    else
      let ahead := (g.neighbours i).filter (· ∉ seen ++ [i])
      g.search (ahead.reverse ++ stack) (seen ++ [i])
termination_by (g.unseen seen, stack.length)
decreasing_by
  · exact Prod.Lex.right _ (Nat.lt_succ_self _)
  · next hseen =>
    by_cases hi : i < g.nodes.length
    · exact Prod.Lex.left _ _ (g.unseen_concat_lt hi hseen)
    · have hnone : g.neighbours i = [] := by
        refine List.eq_nil_iff_forall_not_mem.2 fun c hc => ?_
        have hc := Graph.lt_of_mem_neighbours g.leadsOn hc
        omega
      rw [g.unseen_concat_of_le (Nat.le_of_not_lt hi)]
      exact Prod.Lex.right _ (by simp [hnone])

/-- The nodes on the way from the root down to a name. -/
def path (g : StoredGraph) (name : String) : Except SchemaError (List Source) :=
  (g.lookup name).map fun i => (g.way i).reverse.map g.source

/-- The root above a name. -/
def rootOf (g : StoredGraph) (name : String) : Except SchemaError Source :=
  (g.lookup name).map fun i => g.source ((g.way i).getLastD i)

/-- The nodes below and at a name, in the order of their positions. -/
def subtree (g : StoredGraph) (name : String) : Except SchemaError (List Source) :=
  (g.lookup name).map fun i => ((g.search [i] []).mergeSort fun a b => decide (a ≤ b)).map g.source

/-! ## Reading forests back -/

/-- A forest that is to hang below the node at a position, as long as it has not been put there. -/
abbrev Scion := Option (Nat × Forest Member)

/-- The drafts below a node, and behind them the scion if it is for this node, which uses it up. -/
def attach (i : Nat) (below : Forest Member) : Scion → Forest Member × Scion
  | some (host, trees) =>
    if host = i then (below ++ trees, none) else (below, some (host, trees))
  | none => (below, none)

/-- The node at a position with the join onto its parent and the drafts of its children, with the
scion put in where it belongs. -/
def draft (g : StoredGraph) (i : Nat) (scion : Scion) : (Member × Forest Member) × Scion :=
  let (below, scion) := (g.childIndices i).attach.foldl
    (fun (drafts, scion) ⟨c, _⟩ =>
      let (d, scion) := g.draft c scion
      (drafts ++ .tree d.1 d.2, scion)) (.nil, scion)
  let (below, scion) := attach i below scion
  ((⟨g.source i, (g.arcAbove? i).map (·.edge.join)⟩, below), scion)
termination_by g.nodes.length - i
decreasing_by
  have hc := Graph.lt_of_mem_neighbours g.leadsOn (List.mem_mergeSort.1 ‹_›)
  omega

/-- The drafts of some nodes, one behind the other. -/
def drafts (g : StoredGraph) (indices : List Nat) (scion : Scion) : Forest Member × Scion :=
  indices.foldl (fun (drafts, scion) i =>
    let (d, scion) := g.draft i scion
    (drafts ++ .tree d.1 d.2, scion)) (.nil, scion)

/-! ## Graphs from graphs -/

/-- The graph of a topology. -/
def build (topology : Topology) (overrides : Overrides) (settings : BuildSettings) :
    Except SchemaError StoredGraph :=
  match firstRepeat? [] topology.names with
  | some name => .error (.duplicateName name)
  | none => do
    let drafts ← Topology.joined overrides settings none topology
    freeze drafts

/-- The subtree at a name. Its top node loses the join onto its parent. -/
def detach (g : StoredGraph) (name : String) : Except SchemaError StoredGraph := do
  let i ← g.lookup name
  let (top, below) := (g.draft i none).1
  freeze (.tree { top with join := none } below)

/-- Attaches the one root of `other` below a node, joined as an override says or as foreign keys
tell. -/
def compose (g other : StoredGraph) (attachTo : String) (override : Option Override)
    (settings : BuildSettings) : Except SchemaError StoredGraph := do
  let host ← g.lookup attachTo
  g.checkDisjoint other.toGraph
  match other.roots with
  | [root] =>
    let join ← (g.source host).joinWith (other.source root) override settings
    let (top, below) := (other.draft root none).1
    let scion := Forest.tree { top with join := some join } below
    freeze (g.drafts g.roots (some (host, scion))).1
  | roots => throw (.invalidTopology (.manyRoots roots.length))

/-- The trees of both graphs, those of `g` first. -/
def merge (g other : StoredGraph) : Except SchemaError StoredGraph := do
  g.checkDisjoint other.toGraph
  freeze ((g.drafts g.roots none).1 ++ (other.drafts other.roots none).1)

end StoredGraph
end JoinForest
