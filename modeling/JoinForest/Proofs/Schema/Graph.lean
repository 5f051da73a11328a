import JoinForest.Proofs.Schema.Views
import JoinForest.Schema.Graph

set_option autoImplicit false

/-!
# Schemas and their graphs

How a schema is stored (`Schema.graph`). Putting a forest in node by node is refused as the forest
is, with the same error, and otherwise stores its schema (`StoredGraph.freeze_eq`). In the graph of
a sound schema names are found at the keys of their nodes (`find?_graph`), the edges onto a node are
the one above it (`arcAbove?_graph`), and those from it lead to its children (`childIndices_graph`).
-/

namespace JoinForest

open Forest

/-! ## The index of names -/

namespace Graph

/-- The first entry of an index is found by its name, the others are searched for all other names.
-/
theorem lookup_cons (asked name : String) (i : Nat) (entries : List (String × Nat)) :
    ((name, i) :: entries).lookup asked =
      if asked = name then some i else entries.lookup asked := by
  by_cases h : asked = name
  · simp [h]
  · have hne : (asked == name) = false := by simpa using h
    simp [List.lookup_cons, hne, h]

/-- A name that is put into an index is found there, and the others stay. -/
theorem lookup_insertName (name asked : String) (i : Nat) (entries : List (String × Nat)) :
    (insertName name i entries).lookup asked =
      if asked = name then some i else entries.lookup asked := by
  induction entries with
  | nil => exact lookup_cons asked name i []
  | cons entry rest ih =>
    obtain ⟨n, k⟩ := entry
    rw [insertName]
    split
    · next hn =>
      rw [lookup_cons, lookup_cons, hn]
      split <;> rfl
    · next hn =>
      split
      · rw [lookup_cons]
      · rw [lookup_cons, lookup_cons, ih]
        by_cases ha : asked = n
        · have hne : asked ≠ name := fun heq => hn (ha.symm.trans heq)
          simp [ha, hn]
        · simp [ha]

/-- A new name is one more in an index. -/
theorem insertName_perm {name : String} (i : Nat) {entries : List (String × Nat)}
    (h : name ∉ entries.map Prod.fst) :
    (insertName name i entries).Perm ((name, i) :: entries) := by
  induction entries with
  | nil => exact .refl _
  | cons entry rest ih =>
    obtain ⟨n, k⟩ := entry
    simp only [List.map_cons, List.mem_cons, not_or] at h
    rw [insertName, if_neg (Ne.symm h.1)]
    split
    · exact .refl _
    · exact ((ih h.2).cons _).trans (.swap _ _ _)

/-- An index of names that is sorted stays so. -/
theorem insertName_pairwise {name : String} (i : Nat) {entries : List (String × Nat)}
    (hsorted : entries.Pairwise (·.1 < ·.1)) (h : name ∉ entries.map Prod.fst) :
    (insertName name i entries).Pairwise (·.1 < ·.1) := by
  induction entries with
  | nil => exact List.pairwise_singleton _ _
  | cons entry rest ih =>
    obtain ⟨n, k⟩ := entry
    simp only [List.map_cons, List.mem_cons, not_or] at h
    obtain ⟨hlt, hsorted⟩ := List.pairwise_cons.1 hsorted
    rw [insertName, if_neg (Ne.symm h.1)]
    split
    · next hname =>
      refine List.pairwise_cons.2 ⟨?_, List.pairwise_cons.2 ⟨hlt, hsorted⟩⟩
      exact List.forall_mem_cons.2 ⟨hname, fun e he => String.lt_trans hname (hlt e he)⟩
    · next hname =>
      refine List.pairwise_cons.2 ⟨?_, ih hsorted h.2⟩
      intro e he
      rcases List.mem_cons.1 ((insertName_perm i h.2).mem_iff.1 he) with rfl | he
      · refine String.not_le.1 fun hle => h.1 ?_
        exact String.le_antisymm hle (String.not_lt.1 hname)
      · exact hlt e he

/-! ## What is put in -/

/-- An edge as it is stored. -/
def Arc.ofEdge (d : Edge) : Arc := ⟨d.parent, d.child, d⟩

/-- The graph with one more entry, its name and the edge above it. -/
def put (g : Graph) (e : Entry) : Graph :=
  { g with
    nodes := g.nodes ++ [⟨e.key, e.source⟩]
    arcs := g.arcs ++ e.edge?.toList.map Arc.ofEdge
    byName := insertName e.name e.key g.byName }

/-- The graph with some more entries. -/
def putAll (g : Graph) (entries : List Entry) : Graph := entries.foldl put g

@[simp] theorem putAll_append (g : Graph) (before after : List Entry) :
    g.putAll (before ++ after) = (g.putAll before).putAll after := List.foldl_append

/-- Nodes are added behind those that are there, each with its key. -/
theorem nodes_putAll (g : Graph) (entries : List Entry) :
    (g.putAll entries).nodes = g.nodes ++ entries.map fun e => ⟨e.key, e.source⟩ := by
  induction entries generalizing g with
  | nil => simp [putAll]
  | cons e entries ih =>
    refine (ih (g.put e)).trans ?_
    simp [put]

/-- Every node with a parent adds the edge onto it. -/
theorem arcs_putAll (g : Graph) (entries : List Entry) :
    (g.putAll entries).arcs = g.arcs ++ (entries.filterMap Entry.edge?).map Arc.ofEdge := by
  induction entries generalizing g with
  | nil => simp [putAll]
  | cons e entries ih =>
    refine (ih (g.put e)).trans ?_
    cases hedge : e.edge? <;> simp [put, hedge]

theorem putAll_withRoots (g : Graph) (more : List Nat) (entries : List Entry) :
    (g.withRoots more).putAll entries = (g.putAll entries).withRoots more := by
  induction entries generalizing g with
  | nil => rfl
  | cons e entries ih => exact ih (g.put e)

theorem roots_putAll (g : Graph) (entries : List Entry) : (g.putAll entries).roots = g.roots := by
  induction entries generalizing g with
  | nil => rfl
  | cons e entries ih => exact ih (g.put e)

theorem withRoots_append (g : Graph) (before after : List Nat) :
    (g.withRoots before).withRoots after = g.withRoots (before ++ after) := by
  simp [withRoots]

/-- The names in use in a graph are those of a list. -/
def Uses (g : Graph) (taken : List String) : Prop := ∀ name, g.contains name = taken.contains name

theorem Uses.putAll {g : Graph} {taken : List String} (h : g.Uses taken) (entries : List Entry) :
    (g.putAll entries).Uses ((entries.map Entry.name).reverse ++ taken) := by
  induction entries generalizing g taken with
  | nil => exact h
  | cons e entries ih =>
    have hput : (g.put e).Uses (e.name :: taken) := by
      intro name
      have hname := h name
      simp only [contains, find?, put, lookup_insertName] at hname ⊢
      by_cases heq : name = e.name
      · simp [heq]
      · simp [heq, hname]
    have hall := ih hput
    rw [List.map_cons, List.reverse_cons, List.append_assoc]
    exact hall

/-- Putting in a member succeeds and fails as entering it does. -/
theorem insertNode_eq {g : Graph} {taken : List String} (h : g.Uses taken) {parent : Option Nat}
    {m : Member} (hroot : parent = none → m.join = none) :
    g.insertNode parent m =
      (m.enter parent.isNone taken).map fun _ => g.put ⟨g.nodes.length, parent, m⟩ := by
  have htop : (parent.isNone && m.join.isSome) = false := by
    cases parent with
    | none => simp [hroot rfl]
    | some p => rfl
  simp only [insertNode, Member.enter, htop, h m.name, Bool.false_eq_true, if_false]
  split
  · rfl
  · cases parent with
    | none =>
      simp [hroot rfl, Member.checkPlace, Except.map, put, addNode, Entry.edge?, Entry.source,
        Entry.name, Member.name]
    | some p =>
      cases hjoin : m.join with
      | none => simp [Member.checkPlace, hjoin, Except.map]
      | some join =>
        simp [Member.checkPlace, hjoin, Except.map, put, addNode, addArc, Entry.edge?,
          Entry.source, Entry.name, Member.name, Arc.ofEdge]

/-- The names in use after a forest has been entered. -/
theorem eq_of_enterAll {isTop : Bool} {taken out : List String} {f : Forest Member}
    (h : enterAll isTop taken f = .ok out) : out = (f.labels.map Member.name).reverse ++ taken := by
  cases isTop with
  | true => exact ((enterAll_eq_ok_iff f none taken out).1 h).2.2.2
  | false => exact ((enterAll_eq_ok_iff f (some default) taken out).1 h).2.2.2

/-- Where the forest can be entered, adding its nodes takes the names that entering takes. -/
theorem Uses.putAll_placedFrom {g : Graph} {taken out : List String} (h : g.Uses taken)
    {isTop : Bool} {f : Forest Member} (hout : enterAll isTop taken f = .ok out)
    (parent : Option Nat) (next : Nat) : (g.putAll (f.placedFrom parent next)).Uses out := by
  have hnames : (f.placedFrom parent next).map Entry.name = f.labels.map Member.name := by
    rw [← map_label_placedFrom parent next, List.map_map]
    rfl
  rw [eq_of_enterAll hout, ← hnames]
  exact h.putAll _

theorem length_nodes_putAll (g : Graph) (parent : Option Nat) (next : Nat) (f : Forest Member) :
    (g.putAll (f.placedFrom parent next)).nodes.length = g.nodes.length + f.size := by
  have hlength := congrArg List.length (map_key_placedFrom parent next f)
  rw [List.length_map, List.length_range'] at hlength
  rw [nodes_putAll, List.length_append, List.length_map, hlength]

theorem length_putAll_put (g : Graph) (parent : Option Nat) (m : Member)
    (children : Forest Member) :
    ((g.put ⟨g.nodes.length, parent, m⟩).putAll
      (children.placedFrom (some g.nodes.length) (g.nodes.length + 1))).nodes.length =
        g.nodes.length + 1 + children.size := by
  rw [length_nodes_putAll]
  simp [put]

/-- Putting in a member with what stands below it. -/
theorem bind_insertNode {g : Graph} {taken : List String} (h : g.Uses taken) {parent : Option Nat}
    {m : Member} (hroot : parent = none → m.join = none) {children : Forest Member}
    (hchildren : ∀ {g : Graph} {taken : List String}, g.Uses taken → ∀ p,
      g.insertAll (some p) children = (enterAll false taken children).map fun _ =>
        g.putAll (children.placedFrom (some p) g.nodes.length))
    {α : Type} (k : Graph → Except SchemaError α) (k' : List String → Except SchemaError α)
    (hk : ∀ out, ((g.put ⟨g.nodes.length, parent, m⟩).putAll
        (children.placedFrom (some g.nodes.length) (g.nodes.length + 1))).Uses out →
      k ((g.put ⟨g.nodes.length, parent, m⟩).putAll
        (children.placedFrom (some g.nodes.length) (g.nodes.length + 1))) = k' out) :
    (do
      let own ← g.insertNode parent m
      let below ← own.insertAll (some g.nodes.length) children
      k below) =
    (do
      let own ← m.enter parent.isNone taken
      let below ← enterAll false own children
      k' below) := by
  rw [insertNode_eq h hroot]
  cases hown : m.enter parent.isNone taken with
  | error e => rfl
  | ok own =>
    have huses : (g.put ⟨g.nodes.length, parent, m⟩).Uses own := by
      rw [(Member.enter_eq_ok_iff.1 hown).2.2]
      exact h.putAll [⟨g.nodes.length, parent, m⟩]
    have hlength : (g.put ⟨g.nodes.length, parent, m⟩).nodes.length = g.nodes.length + 1 := by
      simp [put]
    change (do
      let below ← (g.put ⟨g.nodes.length, parent, m⟩).insertAll (some g.nodes.length) children
      k below) = (do
      let below ← enterAll false own children
      k' below)
    rw [hchildren huses, hlength]
    cases hbelow : enterAll false own children with
    | error e => rfl
    | ok below => exact hk below (huses.putAll_placedFrom hbelow _ _)

/-- Putting in a forest below a node succeeds and fails as entering it does, and puts in its placed
nodes. -/
theorem insertAll_eq (drafts : Forest Member) {g : Graph} {taken : List String} (h : g.Uses taken)
    (p : Nat) : g.insertAll (some p) drafts = (enterAll false taken drafts).map fun _ =>
      g.putAll (drafts.placedFrom (some p) g.nodes.length) := by
  induction drafts generalizing g taken p with
  | nil => rfl
  | cons m children rest ihc ihr =>
    rw [insertAll, bind_insertNode h (by simp) ihc _
      (fun below => (enterAll false below rest).map fun _ =>
        g.putAll ((Forest.cons m children rest).placedFrom (some p) g.nodes.length)) ?_]
    · rw [enterAll, Option.isNone_some]
      cases m.enter false taken with
      | error e => rfl
      | ok own =>
        cases hbelow : enterAll false own children with
        | error e => simp [bind, Except.bind, hbelow, Except.map]
        | ok below => simp [bind, Except.bind, hbelow]
    · intro out huses
      rw [ihr huses, length_putAll_put, placedFrom, ← putAll_append]
      rfl

/-- The trees of a forest are put in as it is entered on top of the names in use, and their top
nodes are further roots. -/
theorem addRoots_eq (drafts : Forest Member) {g : Graph} {taken : List String} (h : g.Uses taken) :
    g.addRoots drafts = (enterAll true taken drafts).map fun _ =>
      (g.putAll (drafts.placedFrom none g.nodes.length)).withRoots
        ((drafts.topsFrom none g.nodes.length).map Placed.key) := by
  induction drafts generalizing g taken with
  | nil => simp [addRoots, enterAll, Except.map, placedFrom, topsFrom, putAll, withRoots]
  | cons m children rest _ ihr =>
    by_cases hjoin : m.join.isSome
    · simp [addRoots, enterAll, Member.enter, hjoin, throw, throwThe, MonadExceptOf.throw, bind,
        Except.bind, Except.map]
    · have hnone : m.join = none := by simpa using hjoin
      rw [addRoots, if_neg hjoin]
      refine (bind_insertNode h (fun _ => hnone) (fun huses p => insertAll_eq children huses p) _
        (fun below => (enterAll true below rest).map fun _ =>
          (g.putAll ((Forest.cons m children rest).placedFrom none g.nodes.length)).withRoots
            (((Forest.cons m children rest).topsFrom none g.nodes.length).map Placed.key))
        ?_).trans ?_
      · intro out huses
        have hrest := ihr (g := ((g.put ⟨g.nodes.length, none, m⟩).putAll (children.placedFrom
          (some g.nodes.length) (g.nodes.length + 1))).withRoots [g.nodes.length]) huses
        rw [hrest, putAll_withRoots, withRoots_append]
        simp only [withRoots, length_putAll_put]
        rw [placedFrom, topsFrom, ← putAll_append]
        rfl
      · rw [enterAll, Option.isNone_none]
        cases m.enter true taken with
        | error e => rfl
        | ok own =>
          cases hbelow : enterAll false own children with
          | error e => simp [bind, Except.bind, hbelow, Except.map]
          | ok below => simp [bind, Except.bind, hbelow]

/-- New names end up in an index among the old ones, in their order. -/
theorem byName_putAll {g : Graph} {entries : List Entry}
    (hsorted : g.byName.Pairwise (·.1 < ·.1))
    (hnames : (g.byName.map Prod.fst ++ entries.map Entry.name).Nodup) :
    (g.putAll entries).byName.Pairwise (·.1 < ·.1) ∧
      (g.putAll entries).byName.Perm
        (g.byName ++ entries.map fun e => (Entry.name e, e.key)) := by
  induction entries generalizing g with
  | nil => exact ⟨hsorted, by simp [putAll]⟩
  | cons e entries ih =>
    have hnew : Entry.name e ∉ g.byName.map Prod.fst := fun hmem =>
      List.disjoint_of_nodup_append hnames hmem List.mem_cons_self
    have hperm : (g.put e).byName.Perm ((Entry.name e, e.key) :: g.byName) :=
      insertName_perm e.key hnew
    obtain ⟨hsorted, hperm'⟩ := ih (g := g.put e) (insertName_pairwise e.key hsorted hnew) (by
      refine (((hperm.map Prod.fst).append_right _).nodup_iff).2 ?_
      exact (List.perm_middle.nodup_iff).1 hnames)
    refine ⟨hsorted, hperm'.trans ((hperm.append_right _).trans ?_)⟩
    exact List.perm_middle.symm

end Graph

namespace Schema

/-- How a schema is stored. -/
def graph (s : Schema) : Graph where
  nodes := s.entries.map fun e => ⟨e.key, e.source⟩
  arcs := s.edges.map Graph.Arc.ofEdge
  byName := s.entriesByName.map fun e => (Entry.name e, e.key)
  roots := s.rootEntries.map Placed.key

theorem length_nodes_graph (s : Schema) : s.graph.nodes.length = s.size := by
  simp [graph, length_entries]

/-- Edges lead to later nodes, as a node is added after its parent. -/
theorem leadsOn_graph (s : Schema) : s.graph.LeadsOn := by
  intro a ha
  obtain ⟨d, hd, rfl⟩ := List.mem_map.1 ha
  refine ⟨parent_lt_child_of_mem_edges hd, ?_⟩
  obtain ⟨p, c, -, hc, -⟩ := endpoints_of_mem_edges hd
  have hlt := (List.getElem?_eq_some_iff.1 hc).1
  rw [length_nodes_graph, ← length_entries]
  exact hlt

/-- The stored schema. -/
def stored (s : Schema) : StoredGraph := ⟨s.graph, s.leadsOn_graph⟩

end Schema

/-- Putting in a forest whose members can be entered gives the graph of its schema. -/
theorem Schema.Sound.putAll_eq {s : Schema} (hs : s.Sound) :
    (({} : Graph).putAll s.entries).withRoots (s.rootEntries.map Placed.key) = s.graph := by
  have hnames : ((({} : Graph).byName.map Prod.fst) ++ s.entries.map Entry.name).Nodup := by
    rw [map_name_entries]
    exact hs.names_nodup
  obtain ⟨hsorted, hperm⟩ := Graph.byName_putAll .nil hnames
  have hbyName : (({} : Graph).putAll s.entries).byName = s.graph.byName := by
    have hsorted' : s.graph.byName.Pairwise (·.1 < ·.1) := by
      rw [Schema.graph, List.pairwise_map]
      exact hs.entriesByName_pairwise
    exact (hperm.trans (s.entriesByName_perm.map _).symm).eq_of_pairwise
      (fun a b _ _ hab hba => absurd hba (String.lt_asymm hab)) hsorted hsorted'
  rw [Graph.withRoots, hbyName, Graph.nodes_putAll, Graph.arcs_putAll, Graph.roots_putAll]
  rfl

/-- Graphs that store the same are the same. -/
theorem StoredGraph.ext_toGraph {g h : StoredGraph} (heq : g.toGraph = h.toGraph) : g = h := by
  cases g
  cases h
  cases heq
  rfl

/-- The graph of a forest is made, or refused, as its schema is, and stores it. -/
theorem StoredGraph.freeze_eq (f : Forest Member) :
    StoredGraph.freeze f = (Schema.ofForest f).map Schema.stored := by
  have huses : ({} : Graph).Uses [] := fun _ => rfl
  have hadd := Graph.addRoots_eq f huses
  cases hout : enterAll true [] f with
  | error e =>
    rw [hout] at hadd
    rw [freeze]
    split
    · next e' he =>
      obtain rfl := Except.error.inj (hadd.symm.trans he)
      simp [Schema.ofForest, hout, Except.map]
    · next g hg => exact absurd (hadd.symm.trans hg) (by simp [Except.map])
  | ok out =>
    rw [hout] at hadd
    rw [freeze]
    split
    · next e he => exact absurd (hadd.symm.trans he) (by simp [Except.map])
    · next g hg =>
      obtain rfl := Except.ok.inj (hadd.symm.trans hg)
      cases f with
      | nil => simp [Schema.ofForest, hout, Except.map, Graph.withRoots, topsFrom,
        placedFrom, Graph.putAll]
      | cons m children rest =>
        have hf : Schema.ofForest (cons m children rest) = .ok ⟨cons m children rest⟩ := by
          simp [Schema.ofForest, hout]
        have hs := (Schema.ofForest_eq_ok_iff.1 hf).2
        rw [hf, if_neg (by simp [Graph.withRoots, topsFrom])]
        refine congrArg Except.ok (ext_toGraph ?_)
        refine Eq.trans ?_ hs.putAll_eq
        rw [Schema.rootEntries_eq]
        rfl

namespace Schema

variable {s : Schema}

theorem names_graph (s : Schema) : s.graph.byName.map Prod.fst = s.sortedNames := by
  simp [graph, sortedNames]

namespace Sound

variable (hs : s.Sound)

include hs

/-! ## Looking up -/

/-- Looking a name up in the index is looking for the node in the forest. -/
theorem find?_graph (name : String) : s.graph.find? name = (s.node? name).map Placed.key := by
  have hlookup (entries : List Entry) : (entries.map fun e => (Entry.name e, e.key)).lookup name =
      (entries.find? (Entry.name · == name)).map Placed.key := by
    induction entries with
    | nil => rfl
    | cons e entries ih =>
      rw [List.map_cons, Graph.lookup_cons, ih, List.find?_cons]
      by_cases he : Entry.name e = name
      · simp [he]
      · have hne : (Entry.name e == name) = false := by simpa using he
        simp [hne, Ne.symm he]
  have hnode : s.entriesByName.find? (Entry.name · == name) = s.node? name := by
    cases hfind : s.entriesByName.find? (Entry.name · == name) with
    | none =>
      refine (node?_eq_none_iff.2 fun hname => ?_).symm
      obtain ⟨e, he, rfl⟩ := mem_names_iff.1 hname
      exact List.find?_eq_none.1 hfind e (s.entriesByName_perm.mem_iff.2 he) (by simp)
    | some e =>
      refine (hs.node?_eq_some_iff.2 ⟨?_, by simpa using List.find?_some hfind⟩).symm
      exact s.entriesByName_perm.mem_iff.1 (List.mem_of_find?_eq_some hfind)
  rw [Graph.find?, graph, hlookup, hnode]

theorem contains_graph (name : String) : s.graph.contains name = s.contains name := by
  rw [Graph.contains, hs.find?_graph, Option.isSome_map, contains]

/-- A name is found at the key of its node, or refused with the same suggestion. -/
theorem lookup_graph (name : String) : s.graph.lookup name = (s.lookup name).map Placed.key := by
  rw [Graph.lookup, hs.find?_graph, Schema.lookup]
  cases s.node? name with
  | none => simp [Except.map, names_graph, suggestion?, sortedNames]
  | some e => rfl

/-- Schemas share a name as their graphs do. -/
theorem checkDisjoint_graph (t : Schema) : s.graph.checkDisjoint t.graph = s.checkDisjoint t := by
  have hcontains : s.graph.contains = s.contains := funext hs.contains_graph
  rw [Graph.checkDisjoint, names_graph, hcontains]
  rfl

/-! ## Along the edges -/

omit hs in
theorem source_graph {e : Entry} (he : e ∈ s.entries) : s.graph.source e.key = e.source := by
  simp [Graph.source, graph, List.getD_eq_getElem?_getD, getElem?_key he]

omit hs in
/-- The edges onto a node are the edge above it, if there is one. -/
theorem filter_child_edges {e : Entry} (he : e ∈ s.entries) :
    s.edges.filter (·.child == e.key) = e.edge?.toList := by
  have hchild (e' : Entry) : e'.edge?.filter (·.child == e.key) =
      if e'.key == e.key then e'.edge? else none := by
    cases hedge : e'.edge? with
    | none => simp
    | some d => simp [Option.filter, (edge?_eq_some_iff.1 hedge).2.1]
  have hkey : s.entries.filter (·.key == e.key) = [e] := by
    have hpairwise := s.entries_pairwise
    obtain ⟨before, after, heq⟩ := List.append_of_mem he
    rw [heq, List.pairwise_append, List.pairwise_cons] at hpairwise
    obtain ⟨-, ⟨hafter, -⟩, hbefore⟩ := hpairwise
    have hnil {nodes : List Entry} (h : ∀ e' ∈ nodes, e'.key ≠ e.key) :
        nodes.filter (·.key == e.key) = [] := List.filter_eq_nil_iff.2 (by simpa using h)
    rw [heq, List.filter_append, List.filter_cons_of_pos (by simp),
      hnil fun e' he' => Nat.ne_of_lt (hbefore e' he' e List.mem_cons_self),
      hnil fun e' he' => Nat.ne_of_gt (hafter e' he'), List.nil_append]
  simp only [edges, List.filter_filterMap, hchild]
  rw [← List.filterMap_filter, hkey]
  cases hedge : e.edge? <;> simp [hedge]

/-- The edges from a node lead to its children. -/
theorem filter_parent_edges (k : Nat) :
    (s.edges.filter (·.parent == k)).map Edge.child =
      (s.entries.filter (·.parent == some k)).map Placed.key := by
  have hall (nodes : List Entry) (h : ∀ e ∈ nodes, e.edge?.isSome = e.parent.isSome) :
      ((nodes.filterMap Entry.edge?).filter (·.parent == k)).map Edge.child =
        (nodes.filter (·.parent == some k)).map Placed.key := by
    induction nodes with
    | nil => rfl
    | cons e nodes ih =>
      obtain ⟨hhead, htail⟩ := List.forall_mem_cons.1 h
      cases hedge : e.edge? with
      | none =>
        have hparent : e.parent = none := by
          rw [hedge] at hhead
          simpa using hhead.symm
        simp [hedge, hparent, ih htail]
      | some d =>
        obtain ⟨hparent, hchild, -⟩ := edge?_eq_some_iff.1 hedge
        by_cases hd : d.parent = k
        · simp [hedge, hparent, hchild, hd, ih htail]
        · simp [hedge, hparent, hd, ih htail]
  exact hall s.entries fun e he => hs.isSome_edge? he

omit hs in
theorem arcAbove?_graph {e : Entry} (he : e ∈ s.entries) :
    s.graph.arcAbove? e.key = e.edge?.map Graph.Arc.ofEdge := by
  have hfilter : s.graph.arcs.filter (·.head == e.key) = e.edge?.toList.map Graph.Arc.ofEdge := by
    rw [graph, List.filter_map, ← filter_child_edges he]
    rfl
  rw [Graph.arcAbove?, ← List.head?_filter, List.filter_reverse, hfilter]
  cases e.edge? <;> rfl

/-- Neighbours are listed from the edge that was added last. -/
theorem neighbours_graph (e : Entry) :
    s.graph.neighbours e.key = ((s.children e).map Placed.key).reverse := by
  have hfilter : s.graph.arcs.filter (·.tail == e.key) =
      (s.edges.filter (·.parent == e.key)).map Graph.Arc.ofEdge := by
    rw [graph, List.filter_map]
    rfl
  rw [Graph.neighbours, List.filter_reverse, hfilter, List.map_reverse, List.map_map, children,
    ← hs.filter_parent_edges]
  rfl

/-- Sorted by their keys, the neighbours are the children in their order. -/
theorem childIndices_graph (e : Entry) :
    s.graph.childIndices e.key = (s.children e).map Placed.key := by
  have hsorted : ((s.children e).map Placed.key).Pairwise (· < ·) :=
    List.pairwise_map.2 (s.entries_pairwise.filter _)
  have hsort (keys : List Nat) :
      (keys.mergeSort fun a b => decide (a ≤ b)).Pairwise (· ≤ ·) := by
    refine (List.pairwise_mergeSort (fun a b c hab hbc => ?_) (fun a b => ?_) _).imp
      of_decide_eq_true
    · exact decide_eq_true (Nat.le_trans (of_decide_eq_true hab) (of_decide_eq_true hbc))
    · simpa using Nat.le_total a b
  rw [Graph.childIndices, hs.neighbours_graph]
  exact ((List.mergeSort_perm _ _).trans (List.reverse_perm _)).eq_of_pairwise
    (fun a b _ _ => Nat.le_antisymm) (hsort _) (hsorted.imp Nat.le_of_lt)

end Sound
end Schema
end JoinForest
