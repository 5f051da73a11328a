import JoinForest.Proofs.Schema.Commutation
import JoinForest.Schema.Export
import Mathlib.Data.List.Chain
import Mathlib.Data.List.Induction

set_option autoImplicit false

/-!
# Views of a schema

What is seen of a schema from below and from above, by numbers and by names, is the same
(`Reachable.views_agree`), and its outline shows the lengths of paths (`Reachable.outline_depths`).
-/

namespace JoinForest

open Forest

/-!
## Up and down

A node can be looked at from below, along the stored parents, and from above, by searching the
forest. In a reachable schema both ways agree (`Reachable.views_agree`): going up ends at a root and
meets the nodes of the path, a node is in the subtrees of exactly the nodes on its path, and a
subtree is a node followed by the subtrees of its children, one block of the numbered list, and
what detaching gives.
-/

/-- Going up from a node, from parent to parent, meets these nodes and ends at one without a
parent. -/
inductive Ascends (s : Schema) : Entry → List Entry → Prop
  | root {e : Entry} : s.parent? e = none → Ascends s e [e]
  | up {e p : Entry} {way : List Entry} :
      s.parent? e = some p → Ascends s p way → Ascends s e (e :: way)

namespace Ascends

variable {s : Schema} {e : Entry} {way : List Entry}

/-- There is at most one way up. -/
theorem unique (h : Ascends s e way) : ∀ {way' : List Entry}, Ascends s e way' → way = way' := by
  induction h with
  | root hnone =>
    intro way' h'
    cases h' with
    | root => rfl
    | up hp => rw [hnone] at hp; cases hp
  | up hp _ ih =>
    intro way' h'
    cases h' with
    | root hnone => rw [hp] at hnone; cases hnone
    | up hp' h' =>
      obtain rfl := Option.some.inj (hp.symm.trans hp')
      rw [ih h']

theorem exists_cons (h : Ascends s e way) : ∃ above, way = e :: above := by
  cases h with
  | root => exact ⟨[], rfl⟩
  | up => exact ⟨_, rfl⟩

/-- Each node met is the parent of the one before it. -/
theorem isChain (h : Ascends s e way) : way.IsChain fun a b => s.parent? a = some b := by
  induction h with
  | root => exact .singleton _
  | up hp h ih =>
    obtain ⟨above, rfl⟩ := h.exists_cons
    exact .cons_cons hp ih

theorem subset_entries (h : Ascends s e way) (he : e ∈ s.entries) : ∀ a ∈ way, a ∈ s.entries := by
  induction h with
  | root => simpa using he
  | up hp _ ih =>
    rw [List.forall_mem_cons]
    exact ⟨he, ih (Schema.parent_of_parent? hp).1⟩

end Ascends

namespace Schema.Sound

variable {s : Schema} (hs : s.Sound)

include hs

/-! ### What is said of a name -/

theorem lookup_entry {e : Entry} (he : e ∈ s.entries) : s.lookup (Entry.name e) = .ok e :=
  lookup_eq_ok_iff.2 (hs.node?_eq_some_iff.2 ⟨he, rfl⟩)

/-- The parent that is read off by name is that of the node. -/
theorem parentOf_entry {e : Entry} (he : e ∈ s.entries) :
    s.parentOf (Entry.name e) = .ok (s.parent? e) := by
  rw [parentOf, hs.lookup_entry he]
  rfl

theorem edgeAbove_entry {e : Entry} (he : e ∈ s.entries) :
    s.edgeAbove (Entry.name e) = .ok e.edge? := by
  rw [edgeAbove, hs.lookup_entry he]
  rfl

theorem childrenOf_entry {e : Entry} (he : e ∈ s.entries) :
    s.childrenOf (Entry.name e) = .ok (s.children e) := by
  rw [childrenOf, hs.lookup_entry he]
  rfl

theorem label_mem_roots_iff {e : Entry} (he : e ∈ s.entries) :
    e.label ∈ s.roots ↔ e.parent = none := by
  rw [← map_label_rootEntries, List.mem_map]
  constructor
  · rintro ⟨e', he', hlabel⟩
    obtain ⟨he', hroot⟩ := mem_rootEntries_iff.1 he'
    rw [← hs.entry_eq_of_name he' he (congrArg Member.name hlabel)]
    exact hroot
  · intro hroot
    exact ⟨e, mem_rootEntries_iff.2 ⟨he, hroot⟩, rfl⟩

/-! ### Going up -/

/-- Going up from a node meets the nodes on the way down to it. -/
theorem exists_ascends {above : List Member} {e : Entry} (he : e ∈ s.entries)
    (h : StandsBelow s.forest above e.label) :
    ∃ way, Ascends s e way ∧ way.reverse.map Placed.label = above ++ [e.label] := by
  induction above using List.reverseRecOn generalizing e with
  | nil =>
    have hparent := hs.parent?_of_standsBelow he h
    exact ⟨[e], .root (by simpa using hparent), rfl⟩
  | append_singleton above x ih =>
    have hparent := hs.parent?_of_standsBelow he h
    rw [List.getLast?_concat] at hparent
    obtain ⟨p, hp, rfl⟩ := Option.map_eq_some_iff.1 hparent
    obtain ⟨way, hway, hlabels⟩ := ih (parent_of_parent? hp).1 (h.upTo rfl)
    exact ⟨e :: way, .up hp hway, by simp [hlabels]⟩

/-- The path of a node is what going up from it meets, read from the end. -/
theorem exists_path {e : Entry} (he : e ∈ s.entries) : ∃ way, Ascends s e way ∧
    s.path (Entry.name e) = .ok (way.reverse.map Placed.label) := by
  obtain ⟨above, habove⟩ := exists_standsBelow (label_mem_of_mem_entries he)
  obtain ⟨way, hway, hlabels⟩ := hs.exists_ascends he habove
  refine ⟨way, hway, path_eq_ok_iff.2 ?_⟩
  rw [hlabels]
  exact hs.path?_of_standsBelow habove

omit hs in
/-- A path starts at the root of its name. -/
theorem rootOf_of_path {name : String} {path : List Member} (h : s.path name = .ok path) :
    ∃ root, path.head? = some root ∧ s.rootOf name = .ok root := by
  rw [path_eq_ok_iff] at h
  obtain ⟨⟨root, tail, rfl, -⟩, -⟩ := exists_of_path? h
  refine ⟨root, rfl, rootOf_eq_ok_iff.2 ?_⟩
  rw [rootOf?_eq_bind, h]
  rfl

/-- On a path each node is the parent of the next one. -/
theorem isChain_path {e : Entry} (he : e ∈ s.entries) {path : List Member}
    (h : s.path (Entry.name e) = .ok path) :
    path.IsChain fun a b => ∃ p, s.parentOf b.name = .ok (some p) ∧ p.label = a := by
  obtain ⟨way, hway, hpath⟩ := hs.exists_path he
  obtain rfl := Except.ok.inj (hpath.symm.trans h)
  -- Read from its end, the way up leads from each parent to the node it was reached from.
  rw [List.isChain_map, List.isChain_reverse]
  refine hway.isChain.imp_of_mem_imp ?_
  intro a b ha _ hab
  exact ⟨b, (hs.parentOf_entry (hway.subset_entries he a ha)).trans (by rw [hab]), rfl⟩

/-! ### Subtrees -/

/-- A node is in the subtrees of exactly the nodes on its path. -/
theorem inSubtree_iff_mem_path {m n : String} (hm : m ∈ s.names) {path : List Member}
    (hpath : s.path n = .ok path) : s.InSubtree m n ↔ m ∈ path.map Member.name := by
  obtain ⟨top, below, rfl, htree⟩ := exists_treeIn_of_mem_names hm
  obtain ⟨-, above, x, rfl, hx, rfl⟩ := exists_of_path? (path_eq_ok_iff.1 hpath)
  rw [hs.inSubtree_iff htree]
  constructor
  · intro hmem
    obtain ⟨y, hy, hname⟩ := List.mem_map.1 hmem
    obtain ⟨up, htop, hbelow⟩ := htree.exists_standsBelow
    rcases List.mem_cons.1 hy with rfl | hy
    · exact List.mem_map.2 ⟨x, by simp, hname.symm⟩
    · obtain ⟨q, hq⟩ := exists_standsBelow hy
      obtain ⟨rfl, rfl⟩ := StandsBelow.unique hs.names_nodup hx (hbelow q y hq) hname.symm
      exact List.mem_map_of_mem (by simp)
  · intro hmem
    obtain ⟨y, hy, hname⟩ := List.mem_map.1 hmem
    rcases List.mem_append.1 hy with hy | hy
    · obtain ⟨q, r, rfl⟩ := List.append_of_mem hy
      obtain ⟨-, under, hunder, hmem⟩ := hx.exists_treeIn rfl
      obtain ⟨rfl, rfl⟩ := TreeIn.unique hs.names_nodup htree hunder hname.symm
      exact List.mem_map_of_mem (List.mem_cons_of_mem _ hmem)
    · obtain rfl := List.mem_singleton.1 hy
      rw [hname]
      exact List.mem_map_of_mem List.mem_cons_self

/-- The subtrees of the top nodes of a forest, one after the other, are its nodes. -/
theorem exists_subtrees_of_tops {f : Forest Member} (parent : Option Nat) (next : Nat)
    (h : ∀ m below, TreeIn m below f → TreeIn m below s.forest) :
    ∃ parts, List.Forall₂ (fun c part => s.subtree (Entry.name c) = .ok part)
      (f.topsFrom parent next) parts ∧ f.labels = parts.flatten := by
  induction f generalizing next with
  | nil => exact ⟨[], .nil, rfl⟩
  | cons a cs rest _ ihr =>
    obtain ⟨parts, hparts, hlabels⟩ :=
      ihr (next + 1 + cs.size) fun m below hin => h m below (.later a cs hin)
    exact ⟨(a :: cs.labels) :: parts, .cons (hs.subtree_of_treeIn (h a cs (.here rest))) hparts,
      by simp [labels, hlabels]⟩

/-- The subtree of a node is a block of the numbered list, which starts with the node, and its
subtree is the node followed by the subtrees of its children. -/
theorem exists_block {e : Entry} (he : e ∈ s.entries) : ∃ before block after parts,
    s.entries = before ++ e :: (block ++ after) ∧
      s.subtree (Entry.name e) = .ok ((e :: block).map Placed.label) ∧
      List.Forall₂ (fun c part => s.subtree (Entry.name c) = .ok part) (s.children e) parts ∧
      block.map Placed.label = parts.flatten := by
  obtain ⟨below, htree⟩ := exists_treeIn (label_mem_of_mem_entries he)
  obtain ⟨before, e', after, hlabel, heq, htops, -⟩ :=
    htree.exists_placedFrom s.entries (fun _ _ _ => rfl) (Precedes.none 0)
  have he' : e' ∈ s.entries := by
    rw [entries, placed, heq]
    simp
  -- The tree was found by its label; as names are distinct, its top is this very node.
  obtain rfl := hs.entry_eq_of_name he' he (congrArg Member.name hlabel)
  obtain ⟨parts, hparts, hlabels⟩ := hs.exists_subtrees_of_tops (some e'.key) (e'.key + 1)
    fun m under hin => htree.trans hin
  refine ⟨before, below.placedFrom (some e'.key) (e'.key + 1), after, parts, heq, ?_, ?_, ?_⟩
  · rw [List.map_cons, map_label_placedFrom]
    exact hs.subtree_of_treeIn htree
  · rw [children, htops]
    exact hparts
  · rw [map_label_placedFrom]
    exact hlabels

/-- Detaching a node gives its subtree. -/
theorem exists_detach {name : String} (hname : name ∈ s.names) : ∃ t members,
    s.detach name = .ok t ∧ s.subtree name = .ok members ∧
      t.names = members.map Member.name := by
  obtain ⟨top, below, rfl, htree⟩ := exists_treeIn_of_mem_names hname
  exact ⟨_, _, hs.detach_of_treeIn htree, hs.subtree_of_treeIn htree, (hs.detached htree).names_eq⟩

/-! ### Children and edges -/

/-- Children and parents are two sides of one relation. -/
theorem mem_children_entry_iff {e c : Entry} (he : e ∈ s.entries) (hc : c ∈ s.entries) :
    c ∈ s.children e ↔ s.parentOf (Entry.name c) = .ok (some e) := by
  rw [hs.parentOf_entry hc, Except.ok.injEq, children, List.mem_filter, beq_iff_eq,
    and_iff_right hc]
  constructor
  · intro hparent
    obtain ⟨p, hp, hpc⟩ := exists_parent hc hparent
    rw [hpc, ← hp]
    exact getElem?_key he
  · intro hparent
    exact (parent_of_parent? hparent).2

/-- Above a root there is neither a parent nor an edge, and above any other node there are both. -/
theorem edgeAbove_cases {e : Entry} (he : e ∈ s.entries) :
    (e.label ∈ s.roots ∧ s.parentOf (Entry.name e) = .ok none ∧
        s.edgeAbove (Entry.name e) = .ok none) ∨
      (e.label ∉ s.roots ∧ ∃ p d, s.parentOf (Entry.name e) = .ok (some p) ∧
        s.edgeAbove (Entry.name e) = .ok (some d) ∧ d.parent = p.key ∧ d.child = e.key) := by
  rw [hs.parentOf_entry he, hs.edgeAbove_entry he, hs.label_mem_roots_iff he]
  have hedge := hs.isSome_edge? he
  cases hparent : e.parent with
  | none =>
    rw [hparent, Option.isSome_none, Option.isSome_eq_false_iff, Option.isNone_iff_eq_none] at hedge
    exact Or.inl ⟨rfl, by rw [parent?, hparent]; rfl, by rw [hedge]⟩
  | some k =>
    rw [hparent, Option.isSome_some, Option.isSome_iff_exists] at hedge
    obtain ⟨d, hd⟩ := hedge
    obtain ⟨p, hp, hpe⟩ := exists_parent he hparent
    obtain ⟨hdp, hdc, -⟩ := edge?_eq_some_iff.1 hd
    refine Or.inr ⟨Option.some_ne_none k, p, d, by rw [hpe], by rw [hd], ?_, hdc⟩
    rw [key_of_getElem? hp]
    exact Option.some.inj (hdp.symm.trans hparent)

end Schema.Sound

/-! ### All views together -/

/-- What is seen from below and from above, by numbers and by names, is the same. -/
structure Schema.ViewsAgree (s : Schema) : Prop where
  /-- Going up from a node ends, in one way only, and what it meets is the path, read from its
  end. -/
  ascends : ∀ e ∈ s.entries, ∃ way, Ascends s e way ∧ (∀ way', Ascends s e way' → way' = way) ∧
    s.path (Entry.name e) = .ok (way.reverse.map Placed.label)
  /-- A path starts at the root and ends at the node, and no name comes twice on it. -/
  path_ends : ∀ e ∈ s.entries, ∀ path, s.path (Entry.name e) = .ok path →
    (∃ root, path.head? = some root ∧ s.rootOf (Entry.name e) = .ok root) ∧
      path.getLast? = some e.label ∧ (path.map Member.name).Nodup
  /-- On a path each node is the parent of the next one. -/
  path_chain : ∀ e ∈ s.entries, ∀ path, s.path (Entry.name e) = .ok path →
    path.IsChain fun a b => ∃ p, s.parentOf b.name = .ok (some p) ∧ p.label = a
  /-- A node is in the subtrees of exactly the nodes on its path. -/
  inSubtree_iff : ∀ m ∈ s.names, ∀ n ∈ s.names,
    s.InSubtree m n ↔ ∃ path, s.path n = .ok path ∧ m ∈ path.map Member.name
  /-- The subtree of a node is one block of the list of nodes, which starts with the node and goes
  on with the subtrees of its children in order. -/
  subtree_block : ∀ e ∈ s.entries, ∃ before block after parts,
    s.entries = before ++ e :: (block ++ after) ∧
      s.subtree (Entry.name e) = .ok ((e :: block).map Placed.label) ∧
      List.Forall₂ (fun c part => s.subtree (Entry.name c) = .ok part) (s.children e) parts ∧
      block.map Placed.label = parts.flatten
  /-- Detaching a node gives the names of its subtree in order. -/
  detach_names : ∀ n ∈ s.names, ∃ t members, s.detach n = .ok t ∧ s.subtree n = .ok members ∧
    t.names = members.map Member.name
  /-- The children of a node are those that have it as their parent, in the order of their keys. -/
  children : ∀ e ∈ s.entries, s.childrenOf (Entry.name e) = .ok (s.children e) ∧
    (s.children e).Pairwise (·.key < ·.key) ∧
      ∀ c ∈ s.entries, c ∈ s.children e ↔ s.parentOf (Entry.name c) = .ok (some e)
  /-- A root has neither a parent nor an edge above it; any other node has both, and the edge leads
  from the parent to the node. -/
  edge_above : ∀ e ∈ s.entries,
    (e.label ∈ s.roots ∧ s.parentOf (Entry.name e) = .ok none ∧
        s.edgeAbove (Entry.name e) = .ok none) ∨
      (e.label ∉ s.roots ∧ ∃ p d, s.parentOf (Entry.name e) = .ok (some p) ∧
        s.edgeAbove (Entry.name e) = .ok (some d) ∧ d.parent = p.key ∧ d.child = e.key)

theorem Reachable.views_agree {s : Schema} (h : Reachable s) : s.ViewsAgree where
  ascends := by
    intro e he
    obtain ⟨way, hway, hpath⟩ := h.sound.exists_path he
    exact ⟨way, hway, fun way' hway' => hway'.unique hway, hpath⟩
  path_ends := by
    intro e he path hpath
    refine ⟨Schema.Sound.rootOf_of_path hpath, ?_,
      h.sound.nodup_of_path? (Schema.path_eq_ok_iff.1 hpath)⟩
    obtain ⟨way, hway, hpath'⟩ := h.sound.exists_path he
    obtain rfl := Except.ok.inj (hpath'.symm.trans hpath)
    obtain ⟨above, rfl⟩ := hway.exists_cons
    simp
  path_chain := fun _ he _ hpath => h.sound.isChain_path he hpath
  inSubtree_iff := by
    intro m hm n hn
    obtain ⟨e, he, rfl⟩ := Schema.mem_names_iff.1 hn
    obtain ⟨way, -, hpath⟩ := h.sound.exists_path he
    rw [h.sound.inSubtree_iff_mem_path hm hpath, hpath]
    simp
  subtree_block := fun _ he => h.sound.exists_block he
  detach_names := fun _ hn => h.sound.exists_detach hn
  children := by
    intro e he
    exact ⟨h.sound.childrenOf_entry he, s.entries_pairwise.filter _,
      fun c hc => h.sound.mem_children_entry_iff he hc⟩
  edge_above := fun _ he => h.sound.edgeAbove_cases he

/-- The views of two chains of tables side by side. -/
theorem Sample.views_galaxy : Sample.galaxySchema.ViewsAgree :=
  Reachable.views_agree Sample.reachable_galaxy

/-!
## Depths in an outline

An outline is written from the roots downwards, one depth further for each child, while a path is
read off for each node alone. In a reachable schema both agree (`Reachable.outline_depths`): the
outline is the list of nodes in its order, where each line is indented once for each node above on
the path of its node. Along the forest the indentation counts the nodes on the way down
(`forall₂_outlineLines`), and a child has one node more on its path than its parent
(`Schema.Sound.depth_child`).
-/

/-! ### Lines of a forest -/

/-- The line of a node in an outline: an indentation for each level, the mark and the name. -/
def outlineLine (depth : Nat) (name : String) : String :=
  String.join (List.replicate depth "  ") ++ "└─ " ++ name ++ "\n"

theorem join_replicate_indent (depth : Nat) :
    String.join (List.replicate depth "  ") = String.ofList (List.replicate (2 * depth) ' ') := by
  apply String.toList_inj.1
  rw [String.toList_join, String.toList_ofList]
  induction depth with
  | zero => rfl
  | succ depth ih =>
    rw [List.replicate_succ, List.flatMap_cons, ih, Nat.mul_succ, Nat.add_comm,
      List.replicate_add]
    rfl

/-- The lines of a forest are those of its nodes, each one as deep as the way down to it is long. -/
theorem forall₂_outlineLines (depth : Nat) (f : Forest Member) :
    List.Forall₂ (fun m line => ∃ above, StandsBelow f above m ∧
      line = outlineLine (depth + above.length) m.name) f.labels (outlineLines depth f) := by
  -- By induction on the forest, for every depth at which it may stand.
  induction f generalizing depth with
  | nil => exact .nil
  | cons a cs rest ihc ihr =>
    refine .cons ⟨[], .top a cs rest, ?_⟩ (List.rel_append ?_ ?_)
    · rw [outlineLine, join_replicate_indent]
      rfl
    · apply (ihc (depth + 1)).imp
      rintro m line ⟨above, hm, rfl⟩
      refine ⟨a :: above, .child a rest hm, ?_⟩
      rw [List.length_cons, Nat.add_assoc, Nat.add_comm 1]
    · apply (ihr depth).imp
      rintro m line ⟨above, hm, rfl⟩
      exact ⟨above, .later a cs hm, rfl⟩

/-! ### Depths -/

namespace Schema

variable {s : Schema}

/-- How many nodes stand above a node: all on its path but the last. -/
def depth (s : Schema) (e : Entry) : Nat :=
  match s.path (Entry.name e) with
  | .ok path => path.length - 1
  | .error _ => 0

/-- The children of a node at a depth, with theirs. -/
def childrenAt (s : Schema) : Nat × Entry → List (Nat × Entry)
  | (depth, e) => (s.children e).map (depth + 1, ·)

/-- A node is as deep as its path is long, not counting the root. -/
theorem depth_of_path {e : Entry} {path : List Member} (h : s.path (Entry.name e) = .ok path) :
    s.depth e = path.length - 1 := by
  rw [depth, h]

namespace Sound

variable (hs : s.Sound)

include hs

/-- Going up from a node meets one node more than stand above it. -/
theorem depth_of_ascends {e : Entry} {way : List Entry} (he : e ∈ s.entries)
    (h : Ascends s e way) : way.length = s.depth e + 1 := by
  obtain ⟨way', hway', hpath⟩ := hs.exists_path he
  obtain rfl := h.unique hway'
  obtain ⟨above, rfl⟩ := h.exists_cons
  simp [depth_of_path hpath]

/-- No node stands above a root. -/
theorem depth_root {e : Entry} (he : e ∈ s.rootEntries) : s.depth e = 0 := by
  obtain ⟨he, hroot⟩ := mem_rootEntries_iff.1 he
  have hway : Ascends s e [e] := .root (by rw [parent?, hroot]; rfl)
  simpa using hs.depth_of_ascends he hway

/-- Above a child stands one node more than above its parent. -/
theorem depth_child {e c : Entry} (he : e ∈ s.entries) (hc : c ∈ s.children e) :
    s.depth c = s.depth e + 1 := by
  have hcs : c ∈ s.entries := List.mem_of_mem_filter hc
  have hparent : s.parent? c = some e := by
    have hof := (hs.mem_children_entry_iff he hcs).1 hc
    rw [hs.parentOf_entry hcs] at hof
    exact Except.ok.inj hof
  obtain ⟨way, hway, -⟩ := hs.exists_path he
  have hlength := hs.depth_of_ascends hcs (.up hparent hway)
  rw [List.length_cons, hs.depth_of_ascends he hway] at hlength
  omega

theorem childrenAt_depth {e : Entry} (he : e ∈ s.entries) :
    s.childrenAt (s.depth e, e) = (s.children e).map fun c => (s.depth c, c) :=
  List.map_congr_left fun c hc => by rw [hs.depth_child he hc]

/-- From the roots downwards over the children, with a depth that grows by one, the nodes are met
in their order and at their depths. -/
theorem depthFirst_depths :
    DepthFirst s.childrenAt (s.rootEntries.map (0, ·)) (s.entries.map fun e => (s.depth e, e)) := by
  have hroots : s.rootEntries.map (0, ·) = s.rootEntries.map fun e => (s.depth e, e) :=
    List.map_congr_left fun e he => by rw [hs.depth_root he]
  rw [hroots]
  have hlisting : DepthFirst s.children s.rootEntries s.entries := by
    rw [rootEntries_eq]
    exact depthFirst_placed s.forest
  -- Nodes with their depths have as children the children with theirs, so the listing carries over.
  apply hlisting.map
  intro e he
  exact hs.childrenAt_depth he

/-- The lines of an outline are those of the nodes at their depths. -/
theorem outlineLines_eq :
    outlineLines 0 s.forest = s.entries.map fun e => outlineLine (s.depth e) (Entry.name e) := by
  have hlines := forall₂_outlineLines 0 s.forest
  rw [← map_label_entries, List.forall₂_map_left_iff] at hlines
  rw [← List.forall₂_eq_eq_eq, List.forall₂_map_right_iff]
  apply ((List.forall₂_and_left _ _).2 ⟨fun _ he => he, hlines⟩).flip.imp
  rintro line e ⟨he, above, habove, rfl⟩
  have hpath : s.path (Entry.name e) = .ok (above ++ [e.label]) :=
    path_eq_ok_iff.2 (hs.path?_of_standsBelow habove)
  rw [depth_of_path hpath, List.length_append, List.length_singleton, Nat.add_sub_cancel,
    Nat.zero_add]
  rfl

end Sound
end Schema

/-- The outline of a reachable schema has one line for each node, in the order of the nodes,
indented as often as nodes stand above on its path. Going down from the roots over the children, one
depth further each time, gives this list and no other. -/
theorem Reachable.outline_depths {s : Schema} (h : Reachable s) :
    (∀ e ∈ s.entries, ∃ path, s.path (Entry.name e) = .ok path ∧
      s.depth e = path.length - 1) ∧
    s.outline = String.join (s.entries.map fun e => outlineLine (s.depth e) (Entry.name e)) ∧
    ∀ out, DepthFirst s.childrenAt (s.rootEntries.map (0, ·)) out ↔
      out = s.entries.map fun e => (s.depth e, e) := by
  have hs := h.sound
  refine ⟨?_, by rw [Schema.outline, hs.outlineLines_eq], ?_⟩
  · intro e he
    obtain ⟨way, -, hpath⟩ := hs.exists_path he
    exact ⟨_, hpath, Schema.depth_of_path hpath⟩
  · intro out
    constructor
    · intro hout
      exact hout.unique hs.depthFirst_depths
    · rintro rfl
      exact hs.depthFirst_depths

/-- Two trees side by side, each with one table below another. -/
theorem Sample.outline_galaxy :
    Reachable galaxySchema ∧
      galaxySchema.entries.map galaxySchema.depth = [0, 1, 0, 1] ∧
      galaxySchema.outline = String.join (galaxySchema.entries.map fun e =>
        outlineLine (galaxySchema.depth e) (Entry.name e)) :=
  ⟨reachable_galaxy, by decide, (Reachable.outline_depths reachable_galaxy).2.1⟩

end JoinForest
