import JoinForest.Proofs.Schema.Reachable
import JoinForest.Proofs.Schema.Sound
import Mathlib.Algebra.Ring.Nat

set_option autoImplicit false

/-!
# Numbers of nodes and edges

In a reachable schema the numbered list of nodes is the forest (`Reachable.ordered`), and a key of
at most 32 bits finds the node that has it (`Reachable.entryAt_outcome`).
-/

namespace JoinForest

open Forest

/-!
## Positions and edges

In a reachable schema the numbered list of nodes is the forest: keys are positions, the list is the
depth-first listing from the roots along the children, and every node but the roots has one edge,
from its parent to itself (`Reachable.ordered`).
-/

namespace Schema

variable {s : Schema}

/-! ### Keys and parents -/

/-- The keys of the nodes are the numbers from zero on, in the order of the nodes. -/
theorem map_key_entries (s : Schema) : s.entries.map Forest.Placed.key = List.range s.size := by
  rw [List.range_eq_range']
  exact map_key_placedFrom none 0 s.forest

theorem length_entries (s : Schema) : s.entries.length = s.size := by
  simpa using congrArg List.length (map_key_entries s)

/-- The key of a node is its position. -/
theorem key_of_getElem? {i : Nat} {e : Entry} (h : s.entries[i]? = some e) : e.key = i := by
  have hkey : (s.entries.map Forest.Placed.key)[i]? = some e.key := by simp [h]
  rw [map_key_entries] at hkey
  obtain ⟨hi, heq⟩ := List.getElem?_eq_some_iff.1 hkey
  simpa [eq_comm] using heq

theorem getElem?_key {e : Entry} (h : e ∈ s.entries) : s.entries[e.key]? = some e := by
  obtain ⟨i, hi⟩ := List.mem_iff_getElem?.1 h
  rw [key_of_getElem? hi]
  exact hi

theorem entries_pairwise (s : Schema) : s.entries.Pairwise (·.key < ·.key) := by
  rw [← List.pairwise_map (f := Forest.Placed.key) (R := (· < ·)), map_key_entries]
  exact List.pairwise_lt_range

/-- A parent has a smaller key than its children. -/
theorem parent_lt_key {e : Entry} {k : Nat} (h : e ∈ s.entries) (hk : e.parent = some k) :
    k < e.key := by
  rcases parent_of_mem_placedFrom h with hp | ⟨j, hp, -, hlt⟩
  · simp [hk] at hp
  · obtain rfl : k = j := Option.some.inj (hk.symm.trans hp)
    exact hlt

/-- Below a position there is the node at this position. -/
theorem exists_parent {e : Entry} {k : Nat} (h : e ∈ s.entries) (hk : e.parent = some k) :
    ∃ p, s.entries[k]? = some p ∧ s.parent? e = some p := by
  have hlt := parent_lt_key h hk
  have hkey : e.key < s.size := by
    simpa [Schema.size] using (key_mem_range h).2
  have hlen := length_entries s
  refine ⟨s.entries[k], List.getElem?_eq_getElem _, ?_⟩
  rw [parent?, hk]
  exact List.getElem?_eq_getElem _

/-- The parent found is the node at the stored position. -/
theorem parent_of_parent? {e p : Entry} (h : s.parent? e = some p) :
    p ∈ s.entries ∧ e.parent = some p.key := by
  obtain ⟨k, hk, hp⟩ := Option.bind_eq_some_iff.1 h
  rw [key_of_getElem? hp]
  exact ⟨List.mem_of_getElem? hp, hk⟩

theorem parent?_isSome {e : Entry} (h : e ∈ s.entries) :
    (s.parent? e).isSome = e.parent.isSome := by
  cases hk : e.parent with
  | none => simp [parent?, hk]
  | some k =>
    obtain ⟨p, -, hp⟩ := exists_parent h hk
    simp [hp]

/-- Nodes stand below their parents in the forest. -/
theorem map_parent_entries (s : Schema) :
    s.entries.map (fun e => ((s.parent? e).map Forest.Placed.label, e.label)) =
      s.forest.withParents none :=
  map_parent_placed s.forest

theorem mem_withParents_of_entry {e : Entry} (h : e ∈ s.entries) :
    ((s.parent? e).map Forest.Placed.label, e.label) ∈ s.forest.withParents none := by
  rw [← map_parent_entries]
  exact List.mem_map_of_mem h

/-- A node of a sound schema carries a join exactly if it has a parent. -/
theorem Sound.join_isSome_entry (hs : s.Sound) {e : Entry} (h : e ∈ s.entries) :
    e.label.join.isSome = e.parent.isSome := by
  have hjoin := hs.join_isSome _ (mem_withParents_of_entry h)
  rw [Option.isSome_map, parent?_isSome h] at hjoin
  exact hjoin

/-! ### Edges -/

theorem edge?_eq_some_iff {e : Entry} {d : Edge} :
    e.edge? = some d ↔ e.parent = some d.parent ∧ d.child = e.key ∧ e.label.join = some d.join := by
  obtain ⟨key, parent, label⟩ := e
  cases parent with
  | none => simp [Entry.edge?]
  | some k =>
    cases hj : label.join with
    | none => simp [Entry.edge?, hj]
    | some join =>
      simp only [Entry.edge?, hj, Option.some.injEq]
      constructor
      · rintro rfl
        exact ⟨rfl, rfl, rfl⟩
      · rintro ⟨rfl, rfl, rfl⟩
        rfl

theorem mem_edges_iff {d : Edge} : d ∈ s.edges ↔ ∃ e ∈ s.entries, e.edge? = some d := by
  simp [edges]

/-- Edges come in the order of their children. -/
theorem edges_pairwise (s : Schema) : s.edges.Pairwise (·.child < ·.child) := by
  refine List.pairwise_filterMap.2 (s.entries_pairwise.imp ?_)
  intro e e' hlt d hd d' hd'
  rw [(edge?_eq_some_iff.1 hd).2.1, (edge?_eq_some_iff.1 hd').2.1]
  exact hlt

/-- The edges of a sound schema are those of the nodes with a parent. -/
theorem Sound.isSome_edge? (hs : s.Sound) {e : Entry} (h : e ∈ s.entries) :
    e.edge?.isSome = e.parent.isSome := by
  have hjoin := hs.join_isSome_entry h
  cases hp : e.parent with
  | none => simp [Entry.edge?, hp]
  | some k =>
    rw [hp, Option.isSome_some, Option.isSome_iff_exists] at hjoin
    obtain ⟨join, hj⟩ := hjoin
    simp [Entry.edge?, hp, hj]

/-! ### Roots -/

/-- The nodes without a parent, in order. -/
def rootEntries (s : Schema) : List Entry := s.entries.filter (·.parent == none)

theorem rootEntries_eq (s : Schema) : s.rootEntries = s.forest.topsFrom none 0 :=
  filter_parent_placedFrom s.forest (Precedes.none 0)

theorem map_label_rootEntries (s : Schema) :
    s.rootEntries.map Forest.Placed.label = s.roots := by
  rw [rootEntries_eq, map_label_topsFrom]
  rfl

theorem mem_rootEntries_iff {e : Entry} : e ∈ s.rootEntries ↔ e ∈ s.entries ∧ e.parent = none := by
  simp [rootEntries]

theorem child_ne_of_root {e : Entry} {d : Edge} (he : e ∈ s.rootEntries) (hd : d ∈ s.edges) :
    d.child ≠ e.key := by
  intro hkey
  obtain ⟨he, hroot⟩ := mem_rootEntries_iff.1 he
  obtain ⟨c, hc, hcd⟩ := mem_edges_iff.1 hd
  obtain ⟨hparent, hchild, -⟩ := edge?_eq_some_iff.1 hcd
  have hget := getElem?_key hc
  rw [← hchild, hkey, getElem?_key he] at hget
  obtain rfl := Option.some.inj hget
  simp [hroot] at hparent

theorem parent_lt_child_of_mem_edges {d : Edge} (hd : d ∈ s.edges) : d.parent < d.child := by
  obtain ⟨c, hc, hcd⟩ := mem_edges_iff.1 hd
  obtain ⟨hparent, hchild, -⟩ := edge?_eq_some_iff.1 hcd
  rw [hchild]
  exact parent_lt_key hc hparent

/-- Both ends of an edge are nodes, the one the parent of the other, with the join of the edge. -/
theorem endpoints_of_mem_edges {d : Edge} (hd : d ∈ s.edges) :
    ∃ p c, s.entries[d.parent]? = some p ∧ s.entries[d.child]? = some c ∧
      s.parent? c = some p ∧ c ∈ s.children p ∧ c.label.join = some d.join := by
  obtain ⟨c, hc, hcd⟩ := mem_edges_iff.1 hd
  obtain ⟨hparent, hchild, hjoin⟩ := edge?_eq_some_iff.1 hcd
  obtain ⟨p, hp, hpc⟩ := exists_parent hc hparent
  refine ⟨p, c, hp, by rw [hchild]; exact getElem?_key hc, hpc, ?_, hjoin⟩
  simp [children, hc, hparent, key_of_getElem? hp]

/-- A node with a parent has its own edge, and by the order of the edges no other one. -/
theorem Sound.exists_filter_edges (hs : s.Sound) {e : Entry} (he : e ∈ s.entries)
    (hroot : e ∉ s.rootEntries) : ∃ d, s.edges.filter (fun d => d.child == e.key) = [d] := by
  have hparent : e.parent.isSome := by
    rw [Option.isSome_iff_ne_none]
    exact fun hnone => hroot (mem_rootEntries_iff.2 ⟨he, hnone⟩)
  rw [← hs.isSome_edge? he, Option.isSome_iff_exists] at hparent
  obtain ⟨d, hd⟩ := hparent
  have hmem : d ∈ s.edges.filter (fun d => d.child == e.key) := by
    simpa [(edge?_eq_some_iff.1 hd).2.1] using mem_edges_iff.2 ⟨e, he, hd⟩
  have hpairwise := s.edges_pairwise.filter (fun d => d.child == e.key)
  have hall : ∀ d ∈ s.edges.filter (fun d => d.child == e.key), d.child = e.key := by simp
  rcases hfilter : s.edges.filter (fun d => d.child == e.key) with _ | ⟨d, _ | ⟨d', ds⟩⟩
  · simp [hfilter] at hmem
  · exact ⟨d, hfilter⟩
  · rw [hfilter] at hpairwise hall
    have hlt : d.child < d'.child := List.rel_of_pairwise_cons hpairwise (by simp)
    have hd := hall d (by simp)
    have hd' := hall d' (by simp)
    omega

/-- There is one edge for every node that is not a root. -/
theorem Sound.length_edges (hs : s.Sound) : s.edges.length + s.roots.length = s.size := by
  have hedges : s.edges.length = s.entries.countP fun e => decide ¬ (e.parent == none) = true := by
    rw [edges, List.length_filterMap_eq_countP]
    refine List.countP_congr fun e he => ?_
    rw [hs.isSome_edge? he]
    cases e.parent <;> simp
  have hroots : s.roots.length = s.entries.countP (·.parent == none) := by
    rw [← map_label_rootEntries, List.length_map, rootEntries, List.countP_eq_length_filter]
  rw [hedges, hroots, ← length_entries, Nat.add_comm]
  exact (List.length_eq_countP_add_countP fun e : Entry => e.parent == none).symm

theorem Sound.roots_ne_nil (hs : s.Sound) : s.roots ≠ [] := by
  rw [Schema.roots]
  cases hforest : s.forest with
  | nil => exact absurd hforest hs.ne_nil
  | cons m cs rest => simp [Forest.roots]

/-! ### Nodes by name -/

theorem entriesByName_perm (s : Schema) : s.entriesByName.Perm s.entries := List.mergeSort_perm _ _

/-- Sorted by name, no two nodes of a sound schema stand level. -/
theorem Sound.entriesByName_pairwise (hs : s.Sound) :
    s.entriesByName.Pairwise (Entry.name · < Entry.name ·) := by
  have hle : s.entriesByName.Pairwise fun a b => decide (Entry.name a ≤ Entry.name b) := by
    refine List.pairwise_mergeSort (fun a b c hab hbc => ?_) (fun a b => ?_) s.entries
    · simp only [decide_eq_true_eq] at hab hbc ⊢
      exact String.le_trans hab hbc
    · simpa using String.le_total (Entry.name a) (Entry.name b)
  have hne : s.entriesByName.Pairwise (fun a b => Entry.name a ≠ Entry.name b) := by
    rw [← List.pairwise_map (f := Entry.name) (R := (· ≠ ·))]
    have hnodup := hs.names_nodup
    rw [← map_name_entries] at hnodup
    exact ((s.entriesByName_perm.map Entry.name).nodup_iff).2 hnodup
  refine (hle.and hne).imp fun {a b} h => String.not_le.1 fun hba => ?_
  exact h.2 (String.le_antisymm (of_decide_eq_true h.1) hba)

end Schema

/-! ### The numbering of a schema -/

/-- The numbered nodes and edges of a schema are the forest and its joins. -/
structure Schema.Ordered (s : Schema) : Prop where
  /-- Keys are positions. -/
  key_eq : ∀ (i : Nat) (e : Entry), s.entries[i]? = some e → e.key = i
  /-- The nodes without a parent are the roots. -/
  roots_eq : s.rootEntries.map Forest.Placed.label = s.roots
  /-- The nodes are listed depth-first: the roots in order, each followed by its children in
  order, and so on. -/
  depthFirst : DepthFirst s.children s.rootEntries s.entries
  /-- No edge leads to a root. -/
  no_edge_of_root : ∀ e ∈ s.rootEntries, ∀ d ∈ s.edges, d.child ≠ e.key
  /-- One edge leads to every other node. -/
  one_edge_of_child : ∀ e ∈ s.entries, e ∉ s.rootEntries →
    ∃ d, s.edges.filter (fun d => d.child == e.key) = [d]
  /-- An edge leads from a node to one of its children, whose join it has. -/
  endpoints : ∀ d ∈ s.edges, ∃ p c, s.entries[d.parent]? = some p ∧ s.entries[d.child]? = some c ∧
    s.parent? c = some p ∧ c ∈ s.children p ∧ c.label.join = some d.join
  /-- Parents come before their children. -/
  parent_lt_child : ∀ d ∈ s.edges, d.parent < d.child
  /-- Edges come in the order of their children. -/
  edges_pairwise : s.edges.Pairwise (·.child < ·.child)
  /-- Every node but the roots has an edge. -/
  length_edges : s.edges.length + s.roots.length = s.size
  /-- There are as many nodes as the size says. -/
  length_entries : s.entries.length = s.size
  /-- No name comes twice. -/
  names_nodup : s.names.Nodup
  /-- A name finds exactly the node that has it. -/
  node?_eq_some_iff : ∀ (name : String) (e : Entry),
    s.node? name = some e ↔ e ∈ s.entries ∧ Entry.name e = name
  /-- The table of names holds every node, strictly sorted by name. -/
  byName : s.entriesByName.Perm s.entries ∧ s.entriesByName.Pairwise (Entry.name · < Entry.name ·)
  /-- There is a root. -/
  roots_ne_nil : s.roots ≠ []

theorem Reachable.ordered {s : Schema} (h : Reachable s) : s.Ordered := by
  have hs := h.sound
  exact
    { key_eq := fun _ _ he => Schema.key_of_getElem? he
      roots_eq := s.map_label_rootEntries
      depthFirst := by
        rw [Schema.rootEntries_eq]
        exact depthFirst_placed s.forest
      no_edge_of_root := fun _ he _ hd => Schema.child_ne_of_root he hd
      one_edge_of_child := fun _ he hroot => hs.exists_filter_edges he hroot
      endpoints := fun _ hd => Schema.endpoints_of_mem_edges hd
      parent_lt_child := fun _ hd => Schema.parent_lt_child_of_mem_edges hd
      edges_pairwise := s.edges_pairwise
      length_edges := hs.length_edges
      length_entries := s.length_entries
      names_nodup := hs.names_nodup
      node?_eq_some_iff := fun _ _ => hs.node?_eq_some_iff
      byName := ⟨s.entriesByName_perm, hs.entriesByName_pairwise⟩
      roots_ne_nil := hs.roots_ne_nil }

/-- The numbering of four tables in a chain, one half attached to the other. -/
theorem Sample.ordered_chain : Sample.chainSchema.Ordered :=
  Reachable.ordered Sample.reachable_chain

/-!
## Nodes by key

A key is a word of 64 bits, and a position one of 32: of a longer key only the low bits count. What
is found under a key is what the numbered list holds at this position
(`Schema.entryAt?_eq_some_iff`). In a reachable schema whose positions fit into 32 bits a key below
the number of nodes finds the node that has it, and another node is found under those keys alone
that are too long (`Reachable.entryAt_outcome`), though no node has such a key
(`Sample.wide_key_wraps`).
-/

namespace Schema

/-- The position that a key stands for: its low 32 bits. -/
def position (key : UInt64) : Nat := key.toNat % 2 ^ 32

theorem position_of_lt {key : UInt64} (h : key.toNat < 2 ^ 32) : position key = key.toNat :=
  Nat.mod_eq_of_lt h

theorem position_lt_of_le {key : UInt64} (h : 2 ^ 32 ≤ key.toNat) : position key < key.toNat :=
  Nat.lt_of_lt_of_le (Nat.mod_lt _ (by decide)) h

/-- A key is cut to 32 bits before it is looked up. -/
theorem entryAt?_eq_getElem? (s : Schema) (key : UInt64) :
    s.entryAt? key = s.entries[position key]? := by
  rw [entryAt?, UInt64.toNat_toUInt32, position]

/-- What is found under a key is the node whose own key is the position. -/
theorem entryAt?_eq_some_iff {s : Schema} {key : UInt64} {e : Entry} :
    s.entryAt? key = some e ↔ e ∈ s.entries ∧ e.key = position key := by
  rw [entryAt?_eq_getElem?]
  constructor
  · intro h
    exact ⟨List.mem_of_getElem? h, key_of_getElem? h⟩
  · rintro ⟨he, hkey⟩
    rw [← hkey]
    exact getElem?_key he

theorem isSome_entryAt? {s : Schema} {key : UInt64} :
    (s.entryAt? key).isSome ↔ position key < s.size := by
  rw [entryAt?_eq_getElem?, ← length_entries]
  simp

/-- What a key finds. -/
structure FindsByKey (s : Schema) (key : UInt64) : Prop where
  /-- The node of its position, if there are so many nodes. -/
  isSome_iff : (s.entryAt? key).isSome ↔ position key < s.size
  /-- The node found stands at its own key in the list of nodes, and is the one of its name. -/
  consistent : ∀ e, s.entryAt? key = some e →
    e.key = position key ∧ s.entries[e.key]? = some e ∧ s.node? (Entry.name e) = some e
  /-- The node with this very key is found exactly if there are more nodes than the key says. -/
  exact_iff : (∃ e, s.entryAt? key = some e ∧ e.key = key.toNat) ↔ key.toNat < s.size
  /-- Another node is found exactly if the key is too long and its low bits are a position. -/
  other_iff : (∃ e, s.entryAt? key = some e ∧ e.key ≠ key.toNat) ↔
    2 ^ 32 ≤ key.toNat ∧ position key < s.size

end Schema

open Schema

/-- In a schema whose positions fit into 32 bits a key finds the node at its low 32 bits. That is
the node with this key, unless the key is longer than a position. -/
theorem Reachable.entryAt_outcome {s : Schema} (hs : Reachable s) (hsize : s.size < 2 ^ 32)
    (key : UInt64) : s.FindsByKey key := by
  have hsome : (s.entryAt? key).isSome ↔ position key < s.size := isSome_entryAt?
  refine ⟨hsome, ?_, ?_, ?_⟩
  · intro e he
    obtain ⟨hmem, hkey⟩ := entryAt?_eq_some_iff.1 he
    exact ⟨hkey, getElem?_key hmem, hs.sound.node?_eq_some_iff.2 ⟨hmem, rfl⟩⟩
  · constructor
    · rintro ⟨e, he, hkey⟩
      rw [← hkey, (entryAt?_eq_some_iff.1 he).2]
      exact hsome.1 (Option.isSome_of_eq_some he)
    · intro hlt
      have hposition : position key = key.toNat := position_of_lt (Nat.lt_trans hlt hsize)
      obtain ⟨e, he⟩ := Option.isSome_iff_exists.1 (hsome.2 (hposition ▸ hlt))
      exact ⟨e, he, (entryAt?_eq_some_iff.1 he).2.trans hposition⟩
  · constructor
    · rintro ⟨e, he, hne⟩
      rw [(entryAt?_eq_some_iff.1 he).2] at hne
      refine ⟨?_, hsome.1 (Option.isSome_of_eq_some he)⟩
      by_contra hlt
      exact hne (position_of_lt (Nat.lt_of_not_le hlt))
    · rintro ⟨hle, hlt⟩
      obtain ⟨e, he⟩ := Option.isSome_iff_exists.1 (hsome.2 hlt)
      refine ⟨e, he, ?_⟩
      rw [(entryAt?_eq_some_iff.1 he).2]
      exact Nat.ne_of_lt (position_lt_of_le hle)

namespace Sample

/-- The key behind the last one, and the first one that is too long for a position. -/
theorem keys_sales : Reachable salesSchema ∧ salesSchema.size < 2 ^ 32 ∧
    salesSchema.FindsByKey 2 ∧ salesSchema.FindsByKey 4294967296 :=
  ⟨reachable_sales, by decide, Reachable.entryAt_outcome reachable_sales (by decide) 2,
    Reachable.entryAt_outcome reachable_sales (by decide) 4294967296⟩

/-- There is no node with this key, and yet the first one is found. -/
theorem wide_key_wraps : Reachable salesSchema ∧ salesSchema.size = 2 ∧
    (∀ e ∈ salesSchema.entries, e.key ≠ (4294967296 : UInt64).toNat) ∧
    (salesSchema.entryAt? 4294967296).map (fun e => (e.key, Entry.name e)) =
      some (0, "sales") :=
  ⟨reachable_sales, rfl, by decide, by decide⟩

end Sample

end JoinForest
