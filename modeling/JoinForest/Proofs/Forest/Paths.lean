import JoinForest.Forest
import Mathlib.Data.List.Nodup

set_option autoImplicit false

/-!
# Paths of a forest

A node stands below the nodes on the way down to it. Every node stands somewhere
(`exists_standsBelow`), and where the keys of the nodes are distinct it stands in one place, so
that the search from the top finds exactly the way down to it (`path?_of_standsBelow`). The top node
above it is the first one on this way (`rootOf?_eq_bind_path?`).
-/

namespace JoinForest
namespace Forest

universe u v

variable {α : Type u} {β : Type v}

/-- To say something of a forest with a certain node it is said of where this node is on top of the
first tree, and carried on from the children of the first tree, and from the other trees, to all. -/
@[elab_as_elim]
theorem labels_induction {m : α} {P : Forest α → Prop}
    (here : ∀ cs rest, P (cons m cs rest))
    (inside : ∀ a cs rest, P cs → P (cons a cs rest))
    (later : ∀ a cs rest, P rest → P (cons a cs rest))
    (f : Forest α) (h : m ∈ f.labels) : P f := by
  induction f with
  | nil => simp [labels] at h
  | cons a cs rest ihc ihr =>
    simp only [labels, List.mem_cons, List.mem_append] at h
    rcases h with rfl | h | h
    · exact here cs rest
    · exact inside a cs rest (ihc h)
    · exact later a cs rest (ihr h)

/-- What holds of a forest if something holds of one of its trees holds of two forests side by side
if it holds of one of them. -/
theorem append_iff_of_cons {P : Forest α → Prop} {top : α → Forest α → Prop} (hnil : ¬ P nil)
    (hcons : ∀ a cs rest, P (cons a cs rest) ↔ top a cs ∨ P rest) (f g : Forest α) :
    P (f ++ g) ↔ P f ∨ P g := by
  induction f with
  | nil => simp [hnil]
  | cons a cs rest _ ihr => rw [cons_append, hcons, hcons, ihr, or_assoc]

/-- `m` is a node of the forest and `above` are the nodes on the way down to it, top node first. -/
inductive StandsBelow : Forest α → List α → α → Prop
  | top (a : α) (cs rest : Forest α) : StandsBelow (cons a cs rest) [] a
  | child (a : α) {cs : Forest α} (rest : Forest α) {above : List α} {m : α} :
      StandsBelow cs above m → StandsBelow (cons a cs rest) (a :: above) m
  | later (a : α) (cs : Forest α) {rest : Forest α} {above : List α} {m : α} :
      StandsBelow rest above m → StandsBelow (cons a cs rest) above m

namespace StandsBelow

/-- The way down to a node meets nodes in the order of their listing. -/
theorem sublist_labels {f : Forest α} {above : List α} {m : α} (h : StandsBelow f above m) :
    (above ++ [m]).Sublist f.labels := by
  induction h with
  | top a cs rest => simp [labels]
  | child a rest _ ih => exact (ih.trans (List.sublist_append_left _ _)).cons_cons a
  | later a cs _ ih => exact (ih.trans (List.sublist_append_right _ _)).cons a

theorem mem_labels {f : Forest α} {above : List α} {m : α} (h : StandsBelow f above m) :
    m ∈ f.labels :=
  h.sublist_labels.subset (by simp)

/-- A node below no other one is a top node. -/
theorem mem_roots {f : Forest α} {above : List α} {m : α} (h : StandsBelow f above m) :
    above = [] → m ∈ f.roots := by
  induction h with
  | top => intro _; simp [roots]
  | child => intro heq; simp at heq
  | later a cs _ ih => intro heq; simp [roots, ih heq]

end StandsBelow

/-- Top nodes stand below no other one. -/
theorem standsBelow_of_mem_roots {f : Forest α} {m : α} (h : m ∈ f.roots) :
    StandsBelow f [] m := by
  induction f with
  | nil => simp [roots] at h
  | cons a cs rest _ ihr =>
    rw [roots, List.mem_cons] at h
    rcases h with rfl | h
    · exact .top m cs rest
    · exact .later a cs (ihr h)

theorem standsBelow_cons_iff {a m : α} {cs rest : Forest α} {above : List α} :
    StandsBelow (cons a cs rest) above m ↔
      (above = [] ∧ m = a ∨ ∃ q, above = a :: q ∧ StandsBelow cs q m) ∨
        StandsBelow rest above m := by
  constructor
  · intro h
    cases h with
    | top => exact Or.inl (Or.inl ⟨rfl, rfl⟩)
    | child _ _ h => exact Or.inl (Or.inr ⟨_, rfl, h⟩)
    | later _ _ h => exact Or.inr h
  · rintro ((⟨rfl, rfl⟩ | ⟨q, rfl, h⟩) | h)
    · exact .top m cs rest
    · exact .child a rest h
    · exact .later a cs h

theorem standsBelow_tree_iff {a m : α} {cs : Forest α} {above : List α} :
    StandsBelow (tree a cs) above m ↔
      above = [] ∧ m = a ∨ ∃ q, above = a :: q ∧ StandsBelow cs q m := by
  have hnil : ¬ StandsBelow nil above m := nofun
  rw [tree, standsBelow_cons_iff, or_iff_left hnil]

/-- Every node stands somewhere. -/
theorem exists_standsBelow {f : Forest α} {m : α} (h : m ∈ f.labels) :
    ∃ above, StandsBelow f above m := by
  refine labels_induction ?_ ?_ ?_ f h
  · exact fun cs rest => ⟨[], .top m cs rest⟩
  · rintro a cs rest ⟨above, hc⟩
    exact ⟨a :: above, .child a rest hc⟩
  · rintro a cs rest ⟨above, hr⟩
    exact ⟨above, .later a cs hr⟩

/-! ## Searching from the top -/

/-- A search fails exactly where no node is looked for. -/
theorem path?_eq_none_iff {p : α → Bool} {f : Forest α} :
    f.path? p = none ↔ ∀ m ∈ f.labels, p m = false := by
  induction f with
  | nil => simp [path?, labels]
  | cons a cs rest ihc ihr =>
    by_cases ha : p a
    · simp [path?, labels, ha]
    · simp only [path?, ha, Bool.false_eq_true, if_false, Option.or_eq_none_iff,
        Option.map_eq_none_iff, ihc, ihr, labels, List.mem_cons, List.mem_append]
      constructor
      · rintro ⟨hc, hr⟩ m (rfl | hm | hm)
        · simpa using ha
        · exact hc m hm
        · exact hr m hm
      · intro h
        exact ⟨fun m hm => h m (Or.inr (Or.inl hm)), fun m hm => h m (Or.inr (Or.inr hm))⟩

/-- A search finds a node that is looked for, with the way down to it. -/
theorem standsBelow_of_path? {p : α → Bool} {f : Forest α} {path : List α}
    (h : f.path? p = some path) :
    ∃ above m, path = above ++ [m] ∧ StandsBelow f above m ∧ p m = true := by
  induction f generalizing path with
  | nil => simp [path?] at h
  | cons a cs rest ihc ihr =>
    by_cases ha : p a
    · simp only [path?, ha, if_true, Option.some.injEq] at h
      subst h
      exact ⟨[], a, rfl, .top a cs rest, ha⟩
    · simp only [path?, ha, Bool.false_eq_true, if_false, Option.or_eq_some_iff,
        Option.map_eq_some_iff] at h
      rcases h with ⟨path, hc, rfl⟩ | ⟨-, hr⟩
      · obtain ⟨above, m, rfl, hm, hp⟩ := ihc hc
        exact ⟨a :: above, m, rfl, .child a rest hm, hp⟩
      · obtain ⟨above, m, rfl, hm, hp⟩ := ihr hr
        exact ⟨above, m, rfl, .later a cs hm, hp⟩

/-- The top node that a search names is the first node of the path it finds. -/
theorem rootOf?_eq_bind_path? (p : α → Bool) (f : Forest α) :
    f.rootOf? p = (f.path? p).bind List.head? := by
  induction f with
  | nil => rfl
  | cons a cs rest _ ihr =>
    by_cases ha : p a
    · simp [rootOf?, path?, ha]
    · cases hc : cs.path? p with
      | none =>
        have hany : cs.labels.any p = false := by
          simpa using path?_eq_none_iff.1 hc
        simp [rootOf?, path?, ha, hc, hany, ihr]
      | some path =>
        obtain ⟨above, m, rfl, hm, hp⟩ := standsBelow_of_path? hc
        have hany : cs.labels.any p = true := List.any_eq_true.2 ⟨m, hm.mem_labels, hp⟩
        simp [rootOf?, path?, ha, hc, hany]

/-! ## Distinct keys -/

section Keys

variable {key : α → β} {a m : α} {cs rest : Forest α}

/-- Where keys are distinct, that of a node below the first top node is not that of this top node,
and it is not met again behind the first tree. -/
theorem key_of_mem_children (hf : ((cons a cs rest).labels.map key).Nodup) (hm : m ∈ cs.labels) :
    key a ≠ key m ∧ key m ∉ rest.labels.map key ∧ (cs.labels.map key).Nodup := by
  simp only [labels, List.map_cons, List.map_append, List.nodup_cons, List.mem_append,
    not_or] at hf
  obtain ⟨⟨hac, -⟩, hcr⟩ := hf
  have hmem : key m ∈ cs.labels.map key := List.mem_map_of_mem hm
  exact ⟨fun heq => hac (heq ▸ hmem), List.disjoint_of_nodup_append hcr hmem, hcr.of_append_left⟩

/-- Where keys are distinct, that of a node behind the first tree is not met in this tree. -/
theorem key_of_mem_rest (hf : ((cons a cs rest).labels.map key).Nodup) (hm : m ∈ rest.labels) :
    key a ≠ key m ∧ key m ∉ cs.labels.map key ∧ (rest.labels.map key).Nodup := by
  simp only [labels, List.map_cons, List.map_append, List.nodup_cons, List.mem_append,
    not_or] at hf
  obtain ⟨⟨-, har⟩, hcr⟩ := hf
  have hmem : key m ∈ rest.labels.map key := List.mem_map_of_mem hm
  exact ⟨fun heq => har (heq ▸ hmem), fun hc => List.disjoint_of_nodup_append hcr hc hmem,
    hcr.of_append_right⟩

variable [BEq β] [LawfulBEq β]

/-- No node is found by a key that none has. -/
theorem beq_key_eq_false {f : Forest α} {n : β} (hn : n ∉ f.labels.map key) :
    ∀ c ∈ f.labels, (key c == n) = false := by
  intro c hc
  have hne : key c ≠ n := fun heq => hn (heq ▸ List.mem_map_of_mem hc)
  simpa using hne

/-- Where keys are distinct, the search for a key finds the way down to its node. -/
theorem path?_of_standsBelow {f : Forest α} {above : List α} {m : α}
    (h : StandsBelow f above m) (hf : (f.labels.map key).Nodup) :
    f.path? (key · == key m) = some (above ++ [m]) := by
  induction h with
  | top a cs rest => simp [path?]
  | @child a cs rest above m hm ih =>
    obtain ⟨hne, -, hcs⟩ := key_of_mem_children hf hm.mem_labels
    simp [path?, hne, ih hcs]
  | @later a cs rest above m hm ih =>
    -- The children are searched before the rest, so the key must not be found there.
    obtain ⟨hne, hmem, hrest⟩ := key_of_mem_rest hf hm.mem_labels
    have hnone : cs.path? (key · == key m) = none :=
      path?_eq_none_iff.2 (beq_key_eq_false hmem)
    simp [path?, hne, hnone, ih hrest]

/-- Where keys are distinct, the node of a key stands in one place. -/
theorem StandsBelow.unique {f : Forest α} (hf : (f.labels.map key).Nodup) {above above' : List α}
    {m m' : α} (h : StandsBelow f above m) (h' : StandsBelow f above' m') (hkey : key m = key m') :
    above = above' ∧ m = m' := by
  have heq := path?_of_standsBelow h hf
  rw [hkey, path?_of_standsBelow h' hf] at heq
  simpa [eq_comm] using heq

end Keys

end Forest
end JoinForest
