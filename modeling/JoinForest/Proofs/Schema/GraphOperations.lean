import JoinForest.Proofs.Schema.Graph
import JoinForest.Proofs.Schema.Suggestion

set_option autoImplicit false

/-!
# Operations on graphs

The forests that are read back from the graph of a sound schema are its own (`drafts_topsFrom`),
with what is to be attached put in at its place, and a search along the edges comes to a subtree in
order (`search_topsFrom`). So detaching, attaching and merging do the same to graphs as to schemas,
and the graphs that can be made are those that store the reachable schemas (`StoredGraph.made_iff`).
-/

namespace JoinForest

open Forest

namespace StoredGraph

/-! ## Reading forests back -/

/-- The forest with the scion put in at its position, where positions count from `next`. -/
def insertScion (next : Nat) : Forest Member → Scion → Forest Member × Scion
  | .nil, scion => (.nil, scion)
  | .cons m children rest, scion =>
    let (below, scion) := insertScion (next + 1) children scion
    let (below, scion) := attach next below scion
    let (after, scion) := insertScion (next + 1 + children.size) rest scion
    (.cons m below after, scion)

theorem insertScion_none (next : Nat) (f : Forest Member) :
    insertScion next f none = (f, none) := by
  induction f generalizing next with
  | nil => rfl
  | cons m children rest ihc ihr => simp [insertScion, ihc, ihr, attach]

/-- A scion for another place is left. -/
theorem insertScion_apart {next host : Nat} {f : Forest Member}
    (h : host < next ∨ next + f.size ≤ host) (trees : Forest Member) :
    insertScion next f (some (host, trees)) = (f, some (host, trees)) := by
  induction f generalizing next with
  | nil => rfl
  | cons m children rest ihc ihr =>
    rw [size] at h
    have hc : insertScion (next + 1) children (some (host, trees)) = _ := ihc (by omega)
    have hr : insertScion (next + 1 + children.size) rest (some (host, trees)) = _ :=
      ihr (by omega)
    have hne : host ≠ next := by omega
    simp [insertScion, hc, hr, attach, hne]

/-- A scion for a node of the forest is grafted upon it and used up. -/
theorem exists_insertScion {f : Forest Member} {parent : Option Nat} {next : Nat} {e : Entry}
    (he : e ∈ f.placedFrom parent next) (trees : Forest Member) :
    ∃ f', insertScion next f (some (e.key, trees)) = (f', none) ∧
      GraftedAt trees e.label f f' := by
  induction f generalizing parent next with
  | nil => simp [placedFrom] at he
  | cons m children rest ihc ihr =>
    simp only [placedFrom, List.mem_cons, List.mem_append] at he
    rcases he with rfl | he | he
    · have hc := insertScion_apart (f := children) (Or.inl (Nat.lt_succ_self next)) trees
      refine ⟨_, ?_, .here children rest⟩
      simp [insertScion, hc, attach, insertScion_none]
    · obtain ⟨children', heq, hgraft⟩ := ihc he
      refine ⟨_, ?_, .inside m rest hgraft⟩
      simp [insertScion, heq, attach, insertScion_none]
    · obtain ⟨rest', heq, hgraft⟩ := ihr he
      have hkey := (key_mem_range he).1
      have hc : insertScion (next + 1) children (some (e.key, trees)) = _ :=
        insertScion_apart (Or.inr (by omega)) trees
      have hne : e.key ≠ next := by omega
      refine ⟨_, ?_, .later m children hgraft⟩
      simp [insertScion, hc, heq, attach, hne]

variable (g : StoredGraph)

/-- Drafts come behind those that are there already. -/
theorem foldl_draft (indices : List Nat) (before : Forest Member) (scion : Scion) :
    indices.foldl (fun (drafts, scion) i =>
      let (d, scion) := g.draft i scion
      (drafts ++ .tree d.1 d.2, scion)) (before, scion) =
      (before ++ (g.drafts indices scion).1, (g.drafts indices scion).2) := by
  induction indices generalizing before scion with
  | nil => simp [drafts, append_nil]
  | cons i indices ih =>
    rw [drafts, List.foldl_cons, List.foldl_cons, ih, ih, nil_append, append_assoc]

/-- The drafts of several nodes are made from left to right, and the scion is handed on. -/
theorem drafts_cons (i : Nat) (indices : List Nat) (scion : Scion) :
    g.drafts (i :: indices) scion =
      (.cons (g.draft i scion).1.1 (g.draft i scion).1.2
          (g.drafts indices (g.draft i scion).2).1,
        (g.drafts indices (g.draft i scion).2).2) := by
  rw [drafts, List.foldl_cons, foldl_draft]
  rfl

/-- A draft holds the drafts of the children. -/
theorem draft_eq (i : Nat) (scion : Scion) :
    g.draft i scion =
      let children := g.drafts (g.childIndices i) scion
      let below := attach i children.1 children.2
      ((⟨g.source i, (g.arcAbove? i).map (·.edge.join)⟩, below.1), below.2) := by
  rw [draft, List.foldl_subtype (fun _ _ _ => rfl), List.unattach_attach]
  rfl

end StoredGraph

namespace Schema

theorem toGraph_stored (s : Schema) : s.stored.toGraph = s.graph := rfl

namespace Sound

variable {s : Schema} (hs : s.Sound)

include hs

/-- The draft of a node holds the drafts of its children, with the scion among them if it is for
this node. -/
theorem draft_graph {e : Entry} (he : e ∈ s.entries) (scion : StoredGraph.Scion) :
    s.stored.draft e.key scion =
      let children := s.stored.drafts ((s.children e).map Placed.key) scion
      let below := StoredGraph.attach e.key children.1 children.2
      ((e.label, below.1), below.2) := by
  have hsource : s.graph.source e.key = e.label.source := source_graph he
  have hjoin : (s.graph.arcAbove? e.key).map (·.edge.join) = e.label.join := by
    rw [arcAbove?_graph he, Option.map_map]
    cases hedge : e.edge? with
    | none =>
      have hnone := hs.join_isSome_entry he
      rw [← hs.isSome_edge? he, hedge, Option.isSome_none, Option.isSome_eq_false_iff,
        Option.isNone_iff_eq_none] at hnone
      exact hnone.symm
    | some d => exact (edge?_eq_some_iff.1 hedge).2.2.symm
  rw [StoredGraph.draft_eq, toGraph_stored, hs.childIndices_graph e,
    hsource, hjoin]

/-- The drafts of the top nodes of a part of a schema are this part. -/
theorem drafts_topsFrom {f : Forest Member} {parent : Option Nat} {next : Nat}
    (hosts : Hosts s.entries f parent next) (hparent : Precedes parent next)
    (hmem : ∀ e ∈ f.placedFrom parent next, e ∈ s.entries) (scion : StoredGraph.Scion) :
    s.stored.drafts ((f.topsFrom parent next).map Placed.key) scion =
      StoredGraph.insertScion next f scion := by
  induction f generalizing parent next scion with
  | nil => rfl
  | cons m children rest ihc ihr =>
    rw [placedFrom, List.forall_mem_cons, List.forall_mem_append] at hmem
    obtain ⟨he, hchildren, hrest⟩ := hmem
    rw [topsFrom, List.map_cons, StoredGraph.drafts_cons, hs.draft_graph he, Schema.children,
      hosts.filter_first hparent, ihc (hosts.children hparent) (Precedes.some_succ next) hchildren]
    simp only [ihr (hosts.rest hparent) (hparent.mono (by omega)) hrest]
    rfl

/-- The drafts of a whole schema are its forest, with the scion put in. -/
theorem drafts_roots (scion : StoredGraph.Scion) :
    s.stored.drafts s.graph.roots scion = StoredGraph.insertScion 0 s.forest scion := by
  rw [graph, rootEntries_eq]
  exact hs.drafts_topsFrom (fun _ _ _ => rfl) (Precedes.none 0) (fun _ he => he) scion

/-- The subtree of a node takes a block of positions, and what hangs from these is what the subtree
places there. -/
theorem exists_hosts {e : Entry} (he : e ∈ s.entries) : ∃ before below after,
    TreeIn e.label below s.forest ∧
      s.entries = before ++ e :: (below.placedFrom (some e.key) (e.key + 1) ++ after) ∧
      s.children e = below.topsFrom (some e.key) (e.key + 1) ∧
      Hosts s.entries below (some e.key) (e.key + 1) := by
  obtain ⟨below, htree⟩ := exists_treeIn (label_mem_of_mem_entries he)
  obtain ⟨before, e', after, hlabel, heq, hunder⟩ :=
    htree.exists_placedFrom s.entries (fun _ _ _ => rfl) (Precedes.none 0)
  have he' : e' ∈ s.entries := by
    rw [entries, placed, heq]
    simp
  obtain rfl := hs.entry_eq_of_name he' he (congrArg Member.name hlabel)
  exact ⟨before, below, after, htree, heq, hunder⟩

/-- The draft of a node is the node with what stands below it. -/
theorem exists_draft {e : Entry} (he : e ∈ s.entries) : ∃ below, TreeIn e.label below s.forest ∧
    s.stored.draft e.key none = ((e.label, below), none) := by
  obtain ⟨before, below, after, htree, heq, htops, hosts⟩ := hs.exists_hosts he
  refine ⟨below, htree, ?_⟩
  rw [hs.draft_graph he, htops, hs.drafts_topsFrom hosts (Precedes.some_succ _)
    (fun x hx => by simp [heq, hx]), StoredGraph.insertScion_none]
  rfl

/-! ## Going up and down -/

/-- The search goes on from a node to its children if it has come to none of them yet. -/
theorem search_cons {e : Entry} {seen : List Nat} (stack : List Nat) (he : e.key ∉ seen)
    (hchildren : ∀ c ∈ s.children e, c.key ∉ seen) :
    s.stored.search (e.key :: stack) seen =
      s.stored.search ((s.children e).map Placed.key ++ stack) (seen ++ [e.key]) := by
  have hahead : (s.stored.neighbours e.key).filter (· ∉ seen ++ [e.key]) =
      ((s.children e).map Placed.key).reverse := by
    rw [toGraph_stored, hs.neighbours_graph e, List.filter_eq_self]
    intro k hk
    obtain ⟨c, hc, rfl⟩ := List.mem_map.1 (List.mem_reverse.1 hk)
    obtain ⟨hmem, hparent⟩ := List.mem_filter.1 hc
    have hlt := parent_lt_key hmem (by simpa using hparent)
    have hne : c.key ≠ e.key := by omega
    simp [hchildren c hc, hne]
  rw [StoredGraph.search, if_neg he, hahead]
  simp only [List.reverse_reverse]

/-- The search from the top nodes of a part of a schema comes to this part, in order. -/
theorem search_topsFrom {f : Forest Member} {parent : Option Nat} {next : Nat}
    (hosts : Hosts s.entries f parent next) (hparent : Precedes parent next)
    (stack : List Nat) {seen : List Nat} (hseen : ∀ k ∈ seen, k < next) :
    s.stored.search ((f.topsFrom parent next).map Placed.key ++ stack) seen =
      s.stored.search stack (seen ++ List.range' next f.size) := by
  induction f generalizing parent next stack seen with
  | nil => simp [topsFrom, Forest.size]
  | cons m children rest ihc ihr =>
    have hfirst : s.children ⟨next, parent, m⟩ = children.topsFrom (some next) (next + 1) :=
      hosts.filter_first hparent
    have hunseen {c : Nat} (hle : next ≤ c) : c ∉ seen := fun hmem =>
      Nat.not_lt.2 hle (hseen c hmem)
    have hstep (stack : List Nat) := hs.search_cons (e := ⟨next, parent, m⟩) stack
      (hunseen (Nat.le_refl next)) fun c hc => by
        obtain ⟨hc, hparent⟩ := List.mem_filter.1 hc
        exact hunseen (Nat.le_of_lt (parent_lt_key hc (by simpa using hparent)))
    rw [topsFrom, List.map_cons, List.cons_append, hstep, hfirst,
      ihc (hosts.children hparent) (Precedes.some_succ next) _ (by
        intro k hk
        rcases List.mem_append.1 hk with hk | hk
        · exact Nat.lt_succ_of_lt (hseen k hk)
        · obtain rfl := List.mem_singleton.1 hk
          exact Nat.lt_succ_self _),
      ihr (hosts.rest hparent) (hparent.mono (by omega)) _ (by
        intro k hk
        simp only [List.mem_append, List.mem_singleton, List.mem_range'_1] at hk
        rcases hk with (hk | rfl) | hk
        · have := hseen k hk
          omega
        · omega
        · omega)]
    have hsize : (Forest.cons m children rest).size = 1 + (children.size + rest.size) := by
      simp only [Forest.size]
      omega
    rw [hsize, ← List.range'_append, ← List.range'_append]
    simp

/-- The subtree of a node, in order, is what the search from it comes to. -/
theorem search_entry {e : Entry} (he : e ∈ s.entries) : ∃ below, TreeIn e.label below s.forest ∧
    (s.stored.search [e.key] []).map s.stored.source = e.source :: below.labels.map Member.source ∧
    (s.stored.search [e.key] []).Pairwise (· ≤ ·) := by
  obtain ⟨before, below, after, htree, heq, htops, hosts⟩ := hs.exists_hosts he
  have hsearch : s.stored.search [e.key] [] =
      (e :: below.placedFrom (some e.key) (e.key + 1)).map Placed.key := by
    have hbefore : ∀ k ∈ [e.key], k < e.key + 1 := by simp
    have hblock := hs.search_topsFrom hosts (Precedes.some_succ e.key) [] hbefore
    rw [List.append_nil] at hblock
    rw [hs.search_cons [] List.not_mem_nil (fun _ _ => List.not_mem_nil), List.append_nil, htops,
      List.nil_append, hblock, StoredGraph.search, List.map_cons, map_key_placedFrom]
    rfl
  have hpart : (e :: below.placedFrom (some e.key) (e.key + 1)).Sublist s.entries := by
    rw [heq, ← List.cons_append]
    exact (List.sublist_append_left _ after).trans (List.sublist_append_right before _)
  refine ⟨below, htree, ?_, ?_⟩
  · have hsources : ∀ x ∈ e :: below.placedFrom (some e.key) (e.key + 1),
        (s.stored.source ∘ Placed.key) x = Entry.source x :=
      fun x hx => source_graph (hpart.subset hx)
    rw [hsearch, List.map_map, List.map_congr_left hsources,
      ← map_label_placedFrom (some e.key) (e.key + 1) below, List.map_map]
    rfl
  · rw [hsearch, List.pairwise_map]
    exact (s.entries_pairwise.sublist hpart).imp Nat.le_of_lt

/-- Going up along the stored edges is going up from parent to parent. -/
theorem way_graph {e : Entry} {way : List Entry} (he : e ∈ s.entries) (h : Ascends s e way) :
    s.stored.way e.key = way.map Placed.key := by
  induction h with
  | @root e hnone =>
    have hedge : e.edge? = none := by
      have hsome := hs.isSome_edge? he
      rw [← parent?_isSome he, hnone] at hsome
      simpa using hsome
    rw [StoredGraph.way]
    split
    · rfl
    · next a ha =>
      rw [toGraph_stored, arcAbove?_graph he, hedge] at ha
      cases ha
  | @up e p way hp _ ih =>
    obtain ⟨hmem, hparent⟩ := parent_of_parent? hp
    rw [StoredGraph.way]
    split
    · next ha =>
      have hsome := hs.isSome_edge? he
      rw [toGraph_stored, arcAbove?_graph he, Option.map_eq_none_iff] at ha
      simp [ha, hparent] at hsome
    · next a ha =>
      rw [toGraph_stored, arcAbove?_graph he] at ha
      obtain ⟨d, hd, rfl⟩ := Option.map_eq_some_iff.1 ha
      have htail : d.parent = p.key := by
        have hd := (edge?_eq_some_iff.1 hd).1
        exact Option.some.inj (hd.symm.trans hparent)
      rw [List.map_cons, ← ih hmem, ← htail]
      rfl

/-! ## What is said of a name -/

omit hs in
/-- A name is that of a node, or every view reports it as unknown. -/
theorem exists_entry_or_reportsUnknown (s : Schema) (name : String) :
    (∃ e ∈ s.entries, Entry.name e = name) ∨ ∃ e, s.ReportsUnknown name e := by
  by_cases hname : name ∈ s.names
  · exact Or.inl (mem_names_iff.1 hname)
  · exact Or.inr ⟨_, reportsUnknown_of_not_mem hname⟩

theorem lookup_stored_entry {e : Entry} (he : e ∈ s.entries) :
    s.stored.lookup (Entry.name e) = .ok e.key := by
  rw [toGraph_stored, hs.lookup_graph, hs.lookup_entry he]
  rfl

theorem lookup_stored_unknown {name : String} {e : SchemaError} (h : s.ReportsUnknown name e) :
    s.stored.lookup name = .error e := by
  rw [toGraph_stored, hs.lookup_graph, h.lookup]
  rfl

/-- A path is the way up, read from its end. -/
theorem path_stored (name : String) :
    s.stored.path name = (s.path name).map (·.map Member.source) := by
  obtain ⟨e, he, rfl⟩ | ⟨e, hunknown⟩ := exists_entry_or_reportsUnknown s name
  · obtain ⟨way, hway, hpath⟩ := hs.exists_path he
    have hsources : ∀ x ∈ way.reverse, (s.stored.source ∘ Placed.key) x = Entry.source x :=
      fun x hx => source_graph (hway.subset_entries he x (List.mem_reverse.1 hx))
    rw [StoredGraph.path, hs.lookup_stored_entry he, hpath]
    simp only [Except.map, hs.way_graph he hway, ← List.map_reverse, List.map_map,
      List.map_congr_left hsources]
    rfl
  · rw [StoredGraph.path, hs.lookup_stored_unknown hunknown, hunknown.path]
    rfl

/-- The root above a node is where the way up ends. -/
theorem rootOf_stored (name : String) :
    s.stored.rootOf name = (s.rootOf name).map Member.source := by
  obtain ⟨e, he, rfl⟩ | ⟨e, hunknown⟩ := exists_entry_or_reportsUnknown s name
  · obtain ⟨way, hway, hpath⟩ := hs.exists_path he
    obtain ⟨root, hhead, hroot⟩ := rootOf_of_path hpath
    rw [List.head?_map, List.head?_reverse, Option.map_eq_some_iff] at hhead
    obtain ⟨x, hx, rfl⟩ := hhead
    have hsource : s.stored.source x.key = Entry.source x :=
      source_graph (hway.subset_entries he x (List.mem_of_getLast? hx))
    rw [StoredGraph.rootOf, hs.lookup_stored_entry he, hroot]
    simp only [Except.map, hs.way_graph he hway]
    rw [List.getLastD_eq_getLast?, List.getLast?_map, hx]
    exact congrArg Except.ok hsource
  · rw [StoredGraph.rootOf, hs.lookup_stored_unknown hunknown, hunknown.rootOf]
    rfl

/-- The subtree of a node is what a search from it comes to, sorted. -/
theorem subtree_stored (name : String) :
    s.stored.subtree name = (s.subtree name).map (·.map Member.source) := by
  obtain ⟨e, he, rfl⟩ | ⟨e, hunknown⟩ := exists_entry_or_reportsUnknown s name
  · obtain ⟨below, htree, hsources, hsorted⟩ := hs.search_entry he
    have hsubtree : s.subtree (Entry.name e) = .ok (e.label :: below.labels) :=
      hs.subtree_of_treeIn htree
    rw [StoredGraph.subtree, hs.lookup_stored_entry he, hsubtree]
    simp only [Except.map]
    rw [List.mergeSort_of_pairwise (hsorted.imp fun h => decide_eq_true h), hsources]
    rfl
  · rw [StoredGraph.subtree, hs.lookup_stored_unknown hunknown, hunknown.subtree]
    rfl

/-! ## What is made of graphs -/

/-- Detaching from the stored graph gives the stored graph of what is detached from the forest. -/
theorem detach_stored (name : String) :
    s.stored.detach name = (s.detach name).map Schema.stored := by
  obtain ⟨e, he, rfl⟩ | ⟨e, hunknown⟩ := exists_entry_or_reportsUnknown s name
  · obtain ⟨below, htree, hdraft⟩ := hs.exists_draft he
    have hfind : s.forest.find? (Member.name · == Entry.name e) = some (e.label, below) :=
      find?_of_treeIn htree hs.names_nodup
    rw [StoredGraph.detach, hs.lookup_stored_entry he, Schema.detach, hfind]
    simp only [bind, Except.bind, hdraft]
    exact StoredGraph.freeze_eq _
  · rw [StoredGraph.detach, hs.lookup_stored_unknown hunknown, hunknown.detach]
    rfl

/-- Merging stored graphs gives the stored graph of the merged forests. -/
theorem merge_stored {t : Schema} (ht : t.Sound) :
    s.stored.merge t.stored = (s.merge t).map Schema.stored := by
  rw [StoredGraph.merge, Schema.merge, toGraph_stored, toGraph_stored, hs.checkDisjoint_graph]
  cases s.checkDisjoint t with
  | error e => rfl
  | ok _ =>
    simp only [bind, Except.bind, hs.drafts_roots, ht.drafts_roots, StoredGraph.insertScion_none]
    exact StoredGraph.freeze_eq _

/-- Composing stored graphs gives the stored graph of the composed forests. -/
theorem compose_stored {t : Schema} (ht : t.Sound) (attachTo : String) (override : Option Override)
    (settings : BuildSettings) : s.stored.compose t.stored attachTo override settings =
      (s.compose t attachTo override settings).map Schema.stored := by
  obtain ⟨e, he, rfl⟩ | ⟨e, hunknown⟩ := exists_entry_or_reportsUnknown s attachTo
  · rw [StoredGraph.compose, hs.lookup_stored_entry he, Schema.compose, hs.lookup_entry he]
    simp only [toGraph_stored, hs.checkDisjoint_graph]
    cases s.checkDisjoint t with
    | error e => rfl
    | ok _ =>
      simp only [bind, Except.bind]
      have hroots : t.graph.roots = (t.forest.topsFrom none 0).map Placed.key :=
        congrArg (List.map Placed.key) t.rootEntries_eq
      have hlength : t.graph.roots.length = t.forest.roots.length := by
        rw [hroots, ← map_label_topsFrom none 0, List.length_map, List.length_map]
      rcases hforest : t.forest with _ | ⟨top, below, _ | ⟨next, under, rest⟩⟩
      · rw [hforest] at hroots hlength
        rw [hroots] at hlength ⊢
        rfl
      · have htop : (⟨0, none, top⟩ : Entry) ∈ t.entries := by
          rw [entries, hforest]
          exact List.mem_cons_self
        obtain ⟨below', htree, hdraft⟩ := ht.exists_draft htop
        have hbelow : TreeIn top below t.forest := by
          rw [hforest]
          exact .here .nil
        obtain ⟨-, rfl⟩ := TreeIn.unique ht.names_nodup htree hbelow rfl
        have hsource : t.graph.source 0 = top.source := source_graph htop
        rw [hforest] at hroots
        rw [hroots]
        simp only [topsFrom, List.map_cons, List.map_nil, source_graph he, hsource, hdraft]
        cases e.source.joinWith top.source override settings with
        | error e => rfl
        | ok join =>
          simp only [hs.drafts_roots]
          have hplaced : e ∈ s.forest.placedFrom none 0 := he
          obtain ⟨f, hinsert, hgraft⟩ := StoredGraph.exists_insertScion hplaced
            (.tree { top with join := some join } below')
          have hf : graft (Member.name · == Entry.name e)
              (.tree { top with join := some join } below') s.forest = f :=
            hgraft.graft_eq hs.names_nodup
          rw [hinsert, hf]
          exact StoredGraph.freeze_eq f
      · rw [hforest] at hroots hlength
        rw [hroots, topsFrom, topsFrom, List.map_cons, List.map_cons] at hlength ⊢
        simp only [hlength]
        rfl
  · rw [StoredGraph.compose, hs.lookup_stored_unknown hunknown, Schema.compose, hunknown.lookup]
    rfl

end Sound
end Schema

/-- The graph of a topology is built, or refused, as its schema is, and stores it. -/
theorem StoredGraph.build_eq (topology : Topology) (overrides : Overrides)
    (settings : BuildSettings) : StoredGraph.build topology overrides settings =
      (Schema.build topology overrides settings).map Schema.stored := by
  rw [StoredGraph.build, Schema.build]
  cases firstRepeat? [] topology.names with
  | some name => rfl
  | none =>
    cases Topology.joined overrides settings none topology with
    | error e => rfl
    | ok drafts => exact StoredGraph.freeze_eq drafts

/-! ## Graphs for schemas -/

/-- What building, detaching, attaching and merging can give on graphs, in any order and from any
inputs. -/
inductive StoredGraph.Made : StoredGraph → Prop
  | build {topology : Topology} {overrides : Overrides} {settings : BuildSettings}
      {g : StoredGraph} : StoredGraph.build topology overrides settings = .ok g → Made g
  | detach {g k : StoredGraph} {name : String} : Made g → g.detach name = .ok k → Made k
  | compose {g h k : StoredGraph} {attachTo : String} {override : Option Override}
      {settings : BuildSettings} :
      Made g → Made h → g.compose h attachTo override settings = .ok k → Made k
  | merge {g h k : StoredGraph} : Made g → Made h → g.merge h = .ok k → Made k

/-- The graphs that can be made are those that store the reachable schemas. -/
theorem StoredGraph.made_iff {g : StoredGraph} : g.Made ↔ ∃ s, Reachable s ∧ s.stored = g := by
  constructor
  · intro h
    induction h with
    | build hg =>
      rw [StoredGraph.build_eq] at hg
      obtain ⟨s, hs, rfl⟩ := map_eq_ok_iff.1 hg
      exact ⟨s, .build hs, rfl⟩
    | detach _ hk ih =>
      obtain ⟨s, hs, rfl⟩ := ih
      rw [hs.sound.detach_stored] at hk
      obtain ⟨t, ht, rfl⟩ := map_eq_ok_iff.1 hk
      exact ⟨t, .detach hs ht, rfl⟩
    | compose _ _ hk ihg ihh =>
      obtain ⟨s, hs, rfl⟩ := ihg
      obtain ⟨t, ht, rfl⟩ := ihh
      rw [hs.sound.compose_stored ht.sound] at hk
      obtain ⟨u, hu, rfl⟩ := map_eq_ok_iff.1 hk
      exact ⟨u, .compose hs ht hu, rfl⟩
    | merge _ _ hk ihg ihh =>
      obtain ⟨s, hs, rfl⟩ := ihg
      obtain ⟨t, ht, rfl⟩ := ihh
      rw [hs.sound.merge_stored ht.sound] at hk
      obtain ⟨u, hu, rfl⟩ := map_eq_ok_iff.1 hk
      exact ⟨u, .merge hs ht hu, rfl⟩
  · have hbuild {topology : Topology} {overrides : Overrides} {settings : BuildSettings}
        {s : Schema} (hs : Schema.build topology overrides settings = .ok s) : s.stored.Made :=
      .build ((StoredGraph.build_eq topology overrides settings).trans (by rw [hs]; rfl))
    rintro ⟨s, hs, rfl⟩
    induction hs with
    | build hs => exact hbuild hs
    | parse hs =>
      obtain ⟨_, _, hs⟩ := Catalog.build_of_parseSchema hs
      exact hbuild hs
    | load hs =>
      obtain ⟨_, _, hs⟩ := Catalog.build_of_loadSchema hs
      exact hbuild hs
    | detach hs ht ih => exact .detach ih ((hs.sound.detach_stored _).trans (by rw [ht]; rfl))
    | compose hg hh hk ihg ihh =>
      exact .compose ihg ihh ((hg.sound.compose_stored hh.sound _ _ _).trans (by rw [hk]; rfl))
    | merge hg hh hk ihg ihh =>
      exact .merge ihg ihh ((hg.sound.merge_stored hh.sound).trans (by rw [hk]; rfl))

/-- What a graph holds and what it says of a name is what a schema holds and says. -/
structure StoredGraph.Stores (g : StoredGraph) (s : Schema) : Prop where
  /-- Nodes are kept in the order of their keys. -/
  nodes_eq : g.nodes = s.entries.map fun e => ⟨e.key, e.source⟩
  /-- Edges are kept in the order of their children. -/
  edges_eq : g.arcs.map Graph.Arc.edge = s.edges
  /-- The index has the names in their order. -/
  byName_eq : g.byName = s.entriesByName.map fun e => (Entry.name e, e.key)
  roots_eq : g.roots = s.rootEntries.map Placed.key
  /-- The edge onto a node is the one above it. -/
  arcAbove_eq : ∀ e ∈ s.entries, (g.arcAbove? e.key).map Graph.Arc.edge = e.edge?
  /-- The edges from a node lead to its children. -/
  childIndices_eq : ∀ e ∈ s.entries, g.childIndices e.key = (s.children e).map Placed.key
  /-- A name is found, or refused with the same suggestion. -/
  lookup_eq : ∀ name, g.lookup name = (s.lookup name).map Placed.key
  path_eq : ∀ name, g.path name = (s.path name).map (·.map Member.source)
  rootOf_eq : ∀ name, g.rootOf name = (s.rootOf name).map Member.source
  subtree_eq : ∀ name, g.subtree name = (s.subtree name).map (·.map Member.source)

/-- The graph of a sound schema gives the same answers as the schema. -/
theorem Schema.Sound.stores {s : Schema} (hs : s.Sound) : s.stored.Stores s where
  nodes_eq := rfl
  edges_eq := by
    rw [toGraph_stored, graph, List.map_map]
    exact List.map_id _
  byName_eq := rfl
  roots_eq := rfl
  arcAbove_eq := by
    intro e he
    rw [toGraph_stored, arcAbove?_graph he, Option.map_map]
    exact Option.map_id_apply
  childIndices_eq := fun e _ => hs.childIndices_graph e
  lookup_eq := hs.lookup_graph
  path_eq := hs.path_stored
  rootOf_eq := hs.rootOf_stored
  subtree_eq := hs.subtree_stored

/-- Every graph that can be made stores a reachable schema and says what it says. -/
theorem StoredGraph.Made.exists_stores {g : StoredGraph} (h : g.Made) :
    ∃ s, Reachable s ∧ g.Stores s := by
  obtain ⟨s, hs, rfl⟩ := StoredGraph.made_iff.1 h
  exact ⟨s, hs, hs.sound.stores⟩

end JoinForest
