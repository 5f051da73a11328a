import JoinForest.Proofs.Forest.Grafting

set_option autoImplicit false

/-!
# Trees within a forest

A node and its children, found at any depth of a forest (`TreeIn`). In the list of nodes such a tree
stands in one piece (`TreeIn.withParents_eq`), and the ways down into it lead over its top node
(`TreeIn.exists_standsBelow`). Where the keys are distinct the search by key finds exactly it
(`find?_of_treeIn`).

Grafting leaves the trees without the chosen node as they are (`GraftedAt.treeIn_apart`), is done
inside those with this node (`GraftedAt.treeIn_around`), and adds the trees of the scion
(`GraftedAt.treeIn_scion`).
-/

namespace JoinForest
namespace Forest

universe u v

variable {α : Type u} {β : Type v}

/-- The node `m` with the children `below` is found in the forest. -/
inductive TreeIn (m : α) (below : Forest α) : Forest α → Prop
  | here (rest : Forest α) : TreeIn m below (cons m below rest)
  | inside (a : α) {cs : Forest α} (rest : Forest α) :
      TreeIn m below cs → TreeIn m below (cons a cs rest)
  | later (a : α) (cs : Forest α) {rest : Forest α} :
      TreeIn m below rest → TreeIn m below (cons a cs rest)

/-- Every node is found with its children. -/
theorem exists_treeIn {f : Forest α} {m : α} (h : m ∈ f.labels) : ∃ below, TreeIn m below f := by
  refine labels_induction ?_ ?_ ?_ f h
  · exact fun cs rest => ⟨cs, .here rest⟩
  · rintro a cs rest ⟨below, hc⟩
    exact ⟨below, .inside a rest hc⟩
  · rintro a cs rest ⟨below, hr⟩
    exact ⟨below, .later a cs hr⟩

theorem treeIn_cons_iff {a m : α} {cs rest below : Forest α} :
    TreeIn m below (cons a cs rest) ↔
      (m = a ∧ below = cs ∨ TreeIn m below cs) ∨ TreeIn m below rest := by
  constructor
  · intro h
    cases h with
    | here => exact Or.inl (Or.inl ⟨rfl, rfl⟩)
    | inside _ _ h => exact Or.inl (Or.inr h)
    | later _ _ h => exact Or.inr h
  · rintro ((⟨rfl, rfl⟩ | h) | h)
    · exact .here rest
    · exact .inside a rest h
    · exact .later a cs h

theorem treeIn_tree_iff {a m : α} {cs below : Forest α} :
    TreeIn m below (tree a cs) ↔ m = a ∧ below = cs ∨ TreeIn m below cs := by
  have hnil : ¬ TreeIn m below nil := nofun
  rw [tree, treeIn_cons_iff, or_iff_left hnil]

theorem treeIn_append_iff {f g : Forest α} {m : α} {below : Forest α} :
    TreeIn m below (f ++ g) ↔ TreeIn m below f ∨ TreeIn m below g :=
  append_iff_of_cons (P := TreeIn m below) nofun (fun _ _ _ => treeIn_cons_iff) f g

namespace TreeIn

variable {f : Forest α} {m : α} {below : Forest α}

/-- What is found below a node is found in the whole forest. -/
theorem trans (h : TreeIn m below f) {x : α} {under : Forest α} (hx : TreeIn x under below) :
    TreeIn x under f := by
  induction h with
  | here rest => exact .inside m rest hx
  | inside a rest _ ih => exact .inside a rest ih
  | later a cs _ ih => exact .later a cs ih

/-- The nodes of a tree stand in one piece in the list of nodes, its top node first. -/
theorem withParents_eq (h : TreeIn m below f) (parent : Option α) :
    ∃ before above after,
      f.withParents parent = before ++ (above, m) :: (below.withParents (some m) ++ after) := by
  induction h generalizing parent with
  | here rest => exact ⟨[], parent, rest.withParents parent, rfl⟩
  | inside a rest _ ih =>
    obtain ⟨before, above, after, heq⟩ := ih (some a)
    exact ⟨(parent, a) :: before, above, after ++ rest.withParents parent,
      by simp [withParents, heq]⟩
  | later a cs _ ih =>
    obtain ⟨before, above, after, heq⟩ := ih parent
    exact ⟨(parent, a) :: (cs.withParents (some a) ++ before), above, after,
      by simp [withParents, heq]⟩

/-- A tree takes a segment of the labels, with its top in front. -/
theorem labels_eq (h : TreeIn m below f) :
    ∃ before after, f.labels = before ++ m :: (below.labels ++ after) := by
  obtain ⟨before, above, after, heq⟩ := h.withParents_eq none
  refine ⟨before.map Prod.snd, after.map Prod.snd, ?_⟩
  rw [← map_snd_withParents none f, heq, List.map_append, List.map_cons, List.map_append,
    map_snd_withParents]

theorem sublist_labels (h : TreeIn m below f) : (m :: below.labels).Sublist f.labels := by
  obtain ⟨before, after, heq⟩ := h.labels_eq
  rw [heq, ← List.cons_append]
  exact (List.sublist_append_left _ after).trans (List.sublist_append_right before _)

theorem mem_labels (h : TreeIn m below f) : m ∈ f.labels :=
  h.sublist_labels.subset List.mem_cons_self

/-- The ways down into a tree lead over the nodes above it and its top node. -/
theorem exists_standsBelow (h : TreeIn m below f) : ∃ above, StandsBelow f above m ∧
    ∀ q x, StandsBelow below q x → StandsBelow f (above ++ m :: q) x := by
  induction h with
  | here rest =>
    refine ⟨[], .top m below rest, ?_⟩
    intro q x hx
    exact .child m rest hx
  | inside a rest _ ih =>
    obtain ⟨above, hm, hbelow⟩ := ih
    refine ⟨a :: above, .child a rest hm, ?_⟩
    intro q x hx
    exact .child a rest (hbelow q x hx)
  | later a cs _ ih =>
    obtain ⟨above, hm, hbelow⟩ := ih
    refine ⟨above, .later a cs hm, ?_⟩
    intro q x hx
    exact .later a cs (hbelow q x hx)

/-- The numbered nodes of a tree stand in one piece in the list of nodes, its top node first, and
what hangs from them is what the tree places there. -/
theorem exists_placedFrom (h : TreeIn m below f) (nodes : List (Placed α)) {parent : Option Nat}
    {next : Nat} (hosts : Hosts nodes f parent next) (hparent : Precedes parent next) :
    ∃ before e after, e.label = m ∧
      f.placedFrom parent next =
        before ++ e :: (below.placedFrom (some e.key) (e.key + 1) ++ after) ∧
      nodes.filter (·.parent == some e.key) = below.topsFrom (some e.key) (e.key + 1) ∧
      Hosts nodes below (some e.key) (e.key + 1) := by
  induction h generalizing parent next with
  | here rest =>
    exact ⟨[], ⟨next, parent, m⟩, rest.placedFrom parent (next + 1 + below.size), rfl, rfl,
      hosts.filter_first hparent, hosts.children hparent⟩
  | @inside a cs rest _ ih =>
    obtain ⟨before, e, after, hlabel, heq, hunder⟩ :=
      ih (hosts.children hparent) (Precedes.some_succ next)
    exact ⟨⟨next, parent, a⟩ :: before, e, after ++ rest.placedFrom parent (next + 1 + cs.size),
      hlabel, by simp [placedFrom, heq], hunder⟩
  | @later a cs rest _ ih =>
    obtain ⟨before, e, after, hlabel, heq, hunder⟩ :=
      ih (hosts.rest hparent) (hparent.mono (by omega))
    exact ⟨⟨next, parent, a⟩ :: (cs.placedFrom (some next) (next + 1) ++ before), e, after,
      hlabel, by simp [placedFrom, heq], hunder⟩

end TreeIn

namespace StandsBelow

variable {f : Forest α} {above : List α} {x : α}

/-- A node on the way down to another one stands below those before it, and has the other one among
those below it. -/
theorem exists_treeIn (h : StandsBelow f above x) :
    ∀ {q r : List α} {m : α}, above = q ++ m :: r →
      StandsBelow f q m ∧ ∃ below, TreeIn m below f ∧ x ∈ below.labels := by
  -- One level further down, the list before `m` loses its first node, or `m` is that node.
  induction h with
  | top => intro q r m heq; simp at heq
  | @child a cs rest above x hx ih =>
    intro q r m heq
    cases q with
    | nil =>
      simp only [List.nil_append, List.cons.injEq] at heq
      obtain ⟨rfl, -⟩ := heq
      exact ⟨.top a cs rest, cs, .here rest, hx.mem_labels⟩
    | cons b q =>
      simp only [List.cons_append, List.cons.injEq] at heq
      obtain ⟨rfl, heq⟩ := heq
      obtain ⟨hm, below, hin, hmem⟩ := ih heq
      exact ⟨.child a rest hm, below, .inside a rest hin, hmem⟩
  | later a cs _ ih =>
    intro q r m heq
    obtain ⟨hm, below, hin, hmem⟩ := ih heq
    exact ⟨.later a cs hm, below, .later a cs hin, hmem⟩

/-- Every node on the way down stands below those before it. -/
theorem upTo (h : StandsBelow f above x) {q r : List α} {m : α} (heq : above = q ++ m :: r) :
    StandsBelow f q m :=
  (h.exists_treeIn heq).1

end StandsBelow

/-! ## Searching for trees -/

theorem find?_eq_none_iff {p : α → Bool} {f : Forest α} :
    f.find? p = none ↔ ∀ m ∈ f.labels, p m = false := by
  induction f with
  | nil => simp [find?, labels]
  | cons a cs rest ihc ihr =>
    by_cases ha : p a
    · simp [find?, labels, ha]
    · simp only [find?, ha, Bool.false_eq_true, if_false, Option.or_eq_none_iff, ihc, ihr, labels,
        List.forall_mem_cons, List.forall_mem_append, true_and]

/-- What is found is a tree of the forest, and its top has the property. -/
theorem treeIn_of_find? {p : α → Bool} {f : Forest α} {m : α} {below : Forest α}
    (h : f.find? p = some (m, below)) : TreeIn m below f ∧ p m = true := by
  induction f with
  | nil => simp [find?] at h
  | cons a cs rest ihc ihr =>
    by_cases ha : p a
    · simp only [find?, ha, if_true, Option.some.injEq, Prod.mk.injEq] at h
      obtain ⟨rfl, rfl⟩ := h
      exact ⟨.here rest, ha⟩
    · simp only [find?, ha, Bool.false_eq_true, if_false, Option.or_eq_some_iff] at h
      rcases h with h | ⟨-, h⟩
      · exact ⟨.inside a rest (ihc h).1, (ihc h).2⟩
      · exact ⟨.later a cs (ihr h).1, (ihr h).2⟩

section Keys

variable [BEq β] [LawfulBEq β] {key : α → β}

/-- Where keys are distinct, the search for the key of a node finds it with its children. -/
theorem find?_of_treeIn {f : Forest α} {m : α} {below : Forest α} (h : TreeIn m below f)
    (hf : (f.labels.map key).Nodup) : f.find? (key · == key m) = some (m, below) := by
  induction h with
  | here rest => simp [find?]
  | @inside a cs rest hc ih =>
    obtain ⟨hne, -, hcs⟩ := key_of_mem_children hf hc.mem_labels
    simp [find?, hne, ih hcs]
  | @later a cs rest hr ih =>
    obtain ⟨hne, hmem, hrest⟩ := key_of_mem_rest hf hr.mem_labels
    have hnone : cs.find? (key · == key m) = none :=
      find?_eq_none_iff.2 (beq_key_eq_false hmem)
    simp [find?, hne, hnone, ih hrest]

/-- Where keys are distinct, there is one tree at the node of a key. -/
theorem TreeIn.unique {f : Forest α} (hf : (f.labels.map key).Nodup) {m m' : α}
    {below below' : Forest α} (h : TreeIn m below f) (h' : TreeIn m' below' f)
    (hkey : key m = key m') : m = m' ∧ below = below' := by
  have heq := find?_of_treeIn h hf
  rw [hkey, find?_of_treeIn h' hf] at heq
  simpa [eq_comm] using heq

end Keys

/-! ## Trees of a grafted forest -/

namespace GraftedAt

variable {scion f f' : Forest α} {m x : α} {under : Forest α}

/-- The trees of the scion are found in the grafted forest. -/
theorem treeIn_scion (h : GraftedAt scion m f f') (hx : TreeIn x under scion) :
    TreeIn x under f' := by
  induction h with
  | here cs rest => exact .inside m rest (treeIn_append_iff.2 (Or.inr hx))
  | inside a rest _ ih => exact .inside a rest ih
  | later a cs _ ih => exact .later a cs ih

/-- Trees without the chosen node stay as they are. -/
theorem treeIn_apart (h : GraftedAt scion m f f') (hx : TreeIn x under f)
    (hm : m ∉ x :: under.labels) : TreeIn x under f' := by
  -- The top of the tree is not on the way to the chosen node, which would lie in the tree.
  induction h with
  | here cs rest =>
    cases hx with
    | here => exact absurd List.mem_cons_self hm
    | inside _ _ hx => exact .inside m rest (treeIn_append_iff.2 (Or.inl hx))
    | later _ _ hx => exact .later m (cs ++ scion) hx
  | inside a rest hc ih =>
    cases hx with
    | here => exact absurd (List.mem_cons_of_mem _ hc.mem_labels) hm
    | inside _ _ hx => exact .inside a rest (ih hx)
    | later _ _ hx => exact .later a _ hx
  | later a cs _ ih =>
    cases hx with
    | here => exact .here _
    | inside _ _ hx => exact .inside a _ hx
    | later _ _ hx => exact .later a cs (ih hx)

/-- A tree with the chosen node is found grafted upon this node. -/
theorem treeIn_around (h : GraftedAt scion m f f') (hf : f.labels.Nodup) (hx : TreeIn x under f)
    (hm : m ∈ x :: under.labels) :
    ∃ under', GraftedAt scion m (tree x under) (tree x under') ∧ TreeIn x under' f' := by
  induction h with
  | here cs rest =>
    simp only [labels, List.nodup_cons, List.mem_append, not_or] at hf
    cases hx with
    | here => exact ⟨under ++ scion, .here under nil, .here rest⟩
    | inside _ _ hx => exact absurd (hx.sublist_labels.subset hm) hf.1.1
    | later _ _ hx => exact absurd (hx.sublist_labels.subset hm) hf.1.2
  | @inside a cs cs' rest hc ih =>
    simp only [labels, List.nodup_cons, List.mem_append, not_or] at hf
    cases hx with
    | here => exact ⟨cs', .inside x nil hc, .here rest⟩
    | inside _ _ hx =>
      obtain ⟨under', hgraft, hunder⟩ := ih hf.2.of_append_left hx
      exact ⟨under', hgraft, .inside a rest hunder⟩
    | later _ _ hx =>
      exact absurd (hx.sublist_labels.subset hm)
        (List.disjoint_of_nodup_append hf.2 hc.mem_labels)
  | @later a cs rest rest' hr ih =>
    simp only [labels, List.nodup_cons, List.mem_append, not_or] at hf
    cases hx with
    | here =>
      rcases List.mem_cons.1 hm with rfl | hm
      · exact absurd hr.mem_labels hf.1.2
      · exact absurd hr.mem_labels (List.disjoint_of_nodup_append hf.2 hm)
    | inside _ _ hx =>
      exact absurd hr.mem_labels
        (List.disjoint_of_nodup_append hf.2 (hx.sublist_labels.subset hm))
    | later _ _ hx =>
      obtain ⟨under', hgraft, hunder⟩ := ih hf.2.of_append_right hx
      exact ⟨under', hgraft, .later a cs hunder⟩

end GraftedAt

end Forest
end JoinForest
