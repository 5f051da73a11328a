import JoinForest.Proofs.Forest.Paths
import JoinForest.Proofs.Forest.Positions

set_option autoImplicit false

/-!
# Grafting

A forest with the trees of another one appended to the children of one of its nodes, once or twice.
In the list of nodes the new trees stand in one piece (`withParents_eq`), top nodes stay, and the
new nodes stand below the way down to the chosen one (`standsBelow_iff`). Where the keys are
distinct, `Forest.graft` makes this forest (`graft_eq`).
-/

namespace JoinForest

namespace Forest

universe u v

variable {α : Type u} {β : Type v}

/-- The second forest is the first one with the trees of `scion` appended to the children of one
node `m`. -/
inductive GraftedAt (scion : Forest α) (m : α) : Forest α → Forest α → Prop
  | here (cs rest : Forest α) : GraftedAt scion m (cons m cs rest) (cons m (cs ++ scion) rest)
  | inside (a : α) {cs cs' : Forest α} (rest : Forest α) :
      GraftedAt scion m cs cs' → GraftedAt scion m (cons a cs rest) (cons a cs' rest)
  | later (a : α) (cs : Forest α) {rest rest' : Forest α} :
      GraftedAt scion m rest rest' → GraftedAt scion m (cons a cs rest) (cons a cs rest')

theorem withParents_append (parent : Option α) (f g : Forest α) :
    (f ++ g).withParents parent = f.withParents parent ++ g.withParents parent := by
  induction f with
  | nil => rfl
  | cons a cs rest _ ihr => simp [withParents, ihr]

theorem standsBelow_append_iff {f g : Forest α} {above : List α} {x : α} :
    StandsBelow (f ++ g) above x ↔ StandsBelow f above x ∨ StandsBelow g above x :=
  append_iff_of_cons (P := fun f => StandsBelow f above x) nofun
    (fun _ _ _ => standsBelow_cons_iff) f g

theorem map_append (g : α → β) (f₁ f₂ : Forest α) : (f₁ ++ f₂).map g = f₁.map g ++ f₂.map g := by
  induction f₁ with
  | nil => rfl
  | cons a cs rest _ ihr => simp [map, ihr]

theorem append_nil (f : Forest α) : f ++ nil = f := by
  induction f with
  | nil => rfl
  | cons a cs rest _ ihr => simp [ihr]

theorem append_assoc (f g h : Forest α) : f ++ g ++ h = f ++ (g ++ h) := by
  induction f with
  | nil => rfl
  | cons a cs rest _ ihr => simp [ihr]

/-- The first forest is searched before the second. -/
theorem path?_append (p : α → Bool) (f g : Forest α) :
    (f ++ g).path? p = (f.path? p).or (g.path? p) := by
  induction f with
  | nil => rfl
  | cons a cs rest _ ihr =>
    by_cases ha : p a
    · simp [path?, ha]
    · simp [path?, ha, ihr, Option.or_assoc]

/-- A forest with a divided image is divided accordingly. -/
theorem exists_append_of_map {g : α → β} {f₁ f₂ : Forest β} :
    ∀ {f : Forest α}, f.map g = f₁ ++ f₂ →
      ∃ e₁ e₂, f = e₁ ++ e₂ ∧ e₁.map g = f₁ ∧ e₂.map g = f₂ := by
  induction f₁ with
  | nil =>
    intro f h
    exact ⟨nil, f, rfl, rfl, h⟩
  | cons b cs rest _ ihr =>
    intro f h
    cases f with
    | nil => simp [map] at h
    | cons a as later =>
      simp only [map, cons_append, cons.injEq] at h
      obtain ⟨rfl, rfl, h⟩ := h
      obtain ⟨e₁, e₂, rfl, rfl, rfl⟩ := ihr h
      exact ⟨cons a as e₁, e₂, rfl, rfl, rfl⟩

/-- Every node can be grafted upon. -/
theorem exists_graftedAt {f : Forest α} {m : α} (scion : Forest α) (h : m ∈ f.labels) :
    ∃ f', GraftedAt scion m f f' := by
  refine labels_induction ?_ ?_ ?_ f h
  · exact fun cs rest => ⟨_, .here cs rest⟩
  · rintro a cs rest ⟨cs', hc⟩
    exact ⟨_, .inside a rest hc⟩
  · rintro a cs rest ⟨rest', hr⟩
    exact ⟨_, .later a cs hr⟩

namespace GraftedAt

variable {scion f f' : Forest α} {m : α}

theorem mem_labels (h : GraftedAt scion m f f') : m ∈ f.labels := by
  induction h with
  | here => simp [labels]
  | inside _ _ _ ih => simp [labels, ih]
  | later _ _ _ ih => simp [labels, ih]

/-- Changing every label of all forests keeps them grafted. -/
theorem map (h : GraftedAt scion m f f') (g : α → β) :
    GraftedAt (scion.map g) (g m) (f.map g) (f'.map g) := by
  induction h with
  | here cs rest =>
    rw [Forest.map, Forest.map, map_append]
    exact .here _ _
  | inside a rest _ ih => exact .inside (g a) _ ih
  | later a cs _ ih => exact .later (g a) _ ih

/-- A forest with a grafted image is grafted accordingly. -/
theorem exists_of_map {g : α → β} {scion f f' : Forest β} {m : β} (h : GraftedAt scion m f f') :
    ∀ {e' : Forest α}, e'.map g = f' → ∃ scion₀ m₀ e, GraftedAt scion₀ m₀ e e' ∧
      scion₀.map g = scion ∧ g m₀ = m ∧ e.map g = f := by
  induction h with
  | here cs rest =>
    intro e' h
    cases e' with
    | nil => simp [Forest.map] at h
    | cons a as later =>
      simp only [Forest.map, cons.injEq] at h
      obtain ⟨rfl, has, rfl⟩ := h
      obtain ⟨e₁, e₂, rfl, rfl, rfl⟩ := exists_append_of_map has
      exact ⟨e₂, a, cons a e₁ later, .here e₁ later, rfl, rfl, rfl⟩
  | inside b rest _ ih =>
    intro e' h
    cases e' with
    | nil => simp [Forest.map] at h
    | cons a as later =>
      simp only [Forest.map, cons.injEq] at h
      obtain ⟨rfl, has, rfl⟩ := h
      obtain ⟨scion₀, m₀, e, he, hscion, hm, rfl⟩ := ih has
      exact ⟨scion₀, m₀, cons a e later, .inside a later he, hscion, hm, rfl⟩
  | later b cs _ ih =>
    intro e' h
    cases e' with
    | nil => simp [Forest.map] at h
    | cons a as later =>
      simp only [Forest.map, cons.injEq] at h
      obtain ⟨rfl, rfl, hlater⟩ := h
      obtain ⟨scion₀, m₀, e, he, hscion, hm, rfl⟩ := ih hlater
      exact ⟨scion₀, m₀, cons a as e, .later a as he, hscion, hm, rfl⟩

theorem ne_nil (h : GraftedAt scion m f f') : f ≠ nil ∧ f' ≠ nil := by
  cases h <;> simp

/-- The nodes of the scion are put in one piece into the list of nodes, with the chosen node as the
parent of the top ones. -/
theorem withParents_eq (h : GraftedAt scion m f f') (parent : Option α) :
    ∃ before after, f.withParents parent = before ++ after ∧
      f'.withParents parent = before ++ scion.withParents (some m) ++ after := by
  induction h generalizing parent with
  | here cs rest =>
    exact ⟨(parent, m) :: cs.withParents (some m), rest.withParents parent,
      by simp [withParents], by simp [withParents, withParents_append]⟩
  | inside a rest _ ih =>
    obtain ⟨before, after, hf, hf'⟩ := ih (some a)
    exact ⟨(parent, a) :: before, after ++ rest.withParents parent,
      by simp [withParents, hf], by simp [withParents, hf']⟩
  | later a cs _ ih =>
    obtain ⟨before, after, hf, hf'⟩ := ih parent
    exact ⟨(parent, a) :: (cs.withParents (some a) ++ before), after,
      by simp [withParents, hf], by simp [withParents, hf']⟩

/-- What holds of all nodes with their parents holds of the old nodes and of the scion, and the
other way round. -/
theorem forall_withParents_iff (h : GraftedAt scion m f f') (parent : Option α)
    {P : Option α × α → Prop} : (∀ pm ∈ f'.withParents parent, P pm) ↔
      (∀ pm ∈ f.withParents parent, P pm) ∧ ∀ pm ∈ scion.withParents (some m), P pm := by
  obtain ⟨before, after, hf, hf'⟩ := h.withParents_eq parent
  simp only [hf, hf', List.forall_mem_append]
  constructor
  · rintro ⟨⟨hb, hs⟩, ha⟩
    exact ⟨⟨hb, ha⟩, hs⟩
  · rintro ⟨⟨hb, ha⟩, hs⟩
    exact ⟨⟨hb, hs⟩, ha⟩

/-- The labels of the scion are put in one piece into the list of labels. -/
theorem labels_eq (h : GraftedAt scion m f f') :
    ∃ before after, f.labels = before ++ after ∧
      f'.labels = before ++ scion.labels ++ after := by
  obtain ⟨before, after, hf, hf'⟩ := h.withParents_eq none
  refine ⟨before.map Prod.snd, after.map Prod.snd, ?_, ?_⟩
  · rw [← map_snd_withParents none f, hf, List.map_append]
  · rw [← map_snd_withParents none f', hf', List.map_append, List.map_append,
      map_snd_withParents]

/-- Grafting adds the labels of the scion and takes none away. -/
theorem labels_perm (h : GraftedAt scion m f f') :
    f'.labels.Perm (f.labels ++ scion.labels) := by
  obtain ⟨before, after, hf, hf'⟩ := h.labels_eq
  rw [hf, hf', List.append_assoc, List.append_assoc]
  exact List.perm_append_comm.append_left before

theorem map_labels_perm (h : GraftedAt scion m f f') (key : α → β) :
    (f'.labels.map key).Perm (f.labels.map key ++ scion.labels.map key) := by
  rw [← List.map_append]
  exact h.labels_perm.map key

theorem roots_eq (h : GraftedAt scion m f f') : f'.roots = f.roots := by
  induction h with
  | here => rfl
  | inside => rfl
  | later a cs _ ih => simp [roots, ih]

/-- Old nodes stand where they stood. New ones stand below the way down to the chosen node, this
node itself, and the way down to them in the scion. -/
theorem standsBelow_iff (h : GraftedAt scion m f f') :
    ∃ above, StandsBelow f above m ∧ ∀ q x, StandsBelow f' q x ↔
      StandsBelow f q x ∨ ∃ r, q = above ++ m :: r ∧ StandsBelow scion r x := by
  induction h with
  | here cs rest =>
    refine ⟨[], .top m cs rest, fun q x => ⟨fun h => ?_, ?_⟩⟩
    · cases h with
      | top => exact Or.inl (.top m cs rest)
      | child _ _ h =>
        rcases standsBelow_append_iff.1 h with h | h
        · exact Or.inl (.child m rest h)
        · exact Or.inr ⟨_, rfl, h⟩
      | later _ _ h => exact Or.inl (.later m cs h)
    · rintro (h | ⟨r, rfl, h⟩)
      · cases h with
        | top => exact .top m (cs ++ scion) rest
        | child _ _ h => exact .child m rest (standsBelow_append_iff.2 (Or.inl h))
        | later _ _ h => exact .later m (cs ++ scion) h
      · exact .child m rest (standsBelow_append_iff.2 (Or.inr h))
  | @inside a cs cs' rest _ ih =>
    obtain ⟨above, hm, hiff⟩ := ih
    refine ⟨a :: above, .child a rest hm, fun q x => ⟨fun h => ?_, ?_⟩⟩
    · cases h with
      | top => exact Or.inl (.top a cs rest)
      | child _ _ h =>
        rcases (hiff _ _).1 h with h | ⟨r, rfl, hr⟩
        · exact Or.inl (.child a rest h)
        · exact Or.inr ⟨r, rfl, hr⟩
      | later _ _ h => exact Or.inl (.later a cs h)
    · rintro (h | ⟨r, rfl, h⟩)
      · cases h with
        | top => exact .top a cs' rest
        | child _ _ h => exact .child a rest ((hiff _ _).2 (Or.inl h))
        | later _ _ h => exact .later a cs' h
      · exact .child a rest ((hiff _ _).2 (Or.inr ⟨r, rfl, h⟩))
  | @later a cs rest rest' _ ih =>
    obtain ⟨above, hm, hiff⟩ := ih
    refine ⟨above, .later a cs hm, fun q x => ⟨fun h => ?_, ?_⟩⟩
    · cases h with
      | top => exact Or.inl (.top a cs rest)
      | child _ _ h => exact Or.inl (.child a rest h)
      | later _ _ h =>
        rcases (hiff _ _).1 h with h | ⟨r, rfl, hr⟩
        · exact Or.inl (.later a cs h)
        · exact Or.inr ⟨r, rfl, hr⟩
    · rintro (h | ⟨r, rfl, h⟩)
      · cases h with
        | top => exact .top a cs rest'
        | child _ _ h => exact .child a rest' h
        | later _ _ h => exact .later a cs ((hiff _ _).2 (Or.inl h))
      · exact .later a cs ((hiff _ _).2 (Or.inr ⟨r, rfl, h⟩))

variable [BEq β] [LawfulBEq β] {key : α → β}

theorem graft_of_key_not_mem {n : β} (hn : n ∉ f.labels.map key) :
    graft (key · == n) scion f = f :=
  graft_eq_self _ _ _ (List.any_eq_false.2 fun c hc => by simp [beq_key_eq_false hn c hc])

/-- Where keys are distinct, grafting at the key of a node grafts upon this node only. -/
theorem graft_eq (h : GraftedAt scion m f f') (hf : (f.labels.map key).Nodup) :
    graft (key · == key m) scion f = f' := by
  induction h with
  | here cs rest =>
    simp only [labels, List.map_cons, List.map_append, List.nodup_cons, List.mem_append,
      not_or] at hf
    simp [graft, graft_of_key_not_mem hf.1.1, graft_of_key_not_mem hf.1.2]
  | @inside a cs cs' rest hc ih =>
    obtain ⟨hne, hmem, hcs⟩ := key_of_mem_children hf hc.mem_labels
    simp [graft, hne, ih hcs, graft_of_key_not_mem hmem]
  | @later a cs rest rest' hr ih =>
    obtain ⟨hne, hmem, hrest⟩ := key_of_mem_rest hf hr.mem_labels
    simp [graft, hne, ih hrest, graft_of_key_not_mem hmem]

/-- Where keys are distinct, the key tells the node and with it the grafted forest. -/
theorem unique (h : GraftedAt scion m f f') (hf : (f.labels.map key).Nodup) {m₁ : α}
    {f₁ : Forest α} (h₁ : GraftedAt scion m₁ f f₁) (hkey : key m = key m₁) : m = m₁ ∧ f' = f₁ := by
  refine ⟨List.inj_on_of_nodup_map hf h.mem_labels h₁.mem_labels hkey, ?_⟩
  rw [← h.graft_eq hf, ← h₁.graft_eq hf, hkey]

end GraftedAt

/-- Where keys are distinct, grafting at the key of a node grafts upon it. -/
theorem graftedAt_graft [BEq β] [LawfulBEq β] {key : α → β} {f : Forest α} {m : α}
    (scion : Forest α) (hf : (f.labels.map key).Nodup) (hm : m ∈ f.labels) :
    GraftedAt scion m f (graft (key · == key m) scion f) := by
  obtain ⟨f', h⟩ := exists_graftedAt scion hm
  rw [h.graft_eq hf]
  exact h

end Forest

/-!
## Grafting twice

Two scions meant for two nodes of one forest can be grafted in either order (`GraftedAt.swap`). A
scion meant for a node of another one can be grafted after this one has been, or before
(`GraftedAt.exists_of_later`, `GraftedAt.exists_of_scion`). Nothing but the places of the two nodes
is asked for: the second one must not lie in the other scion, or must lie nowhere else.
-/

namespace Forest

universe u

variable {α : Type u}

/-- Grafting upon two forests side by side is grafting upon one of them. -/
theorem graftedAt_append_iff {scion f g k : Forest α} {m : α} :
    GraftedAt scion m (f ++ g) k ↔
      (∃ f', GraftedAt scion m f f' ∧ k = f' ++ g) ∨
        ∃ g', GraftedAt scion m g g' ∧ k = f ++ g' := by
  induction f generalizing k with
  | nil =>
    constructor
    · intro h
      exact Or.inr ⟨k, h, rfl⟩
    · rintro (⟨f', h, -⟩ | ⟨g', h, rfl⟩)
      · cases h
      · exact h
  | cons a cs rest _ ihr =>
    constructor
    · intro h
      cases h with
      | here => exact Or.inl ⟨_, .here cs rest, rfl⟩
      | inside _ _ h => exact Or.inl ⟨_, .inside a rest h, rfl⟩
      | later _ _ h =>
        rcases ihr.1 h with ⟨rest', hrest, rfl⟩ | ⟨g', hg, rfl⟩
        · exact Or.inl ⟨_, .later a cs hrest, rfl⟩
        · exact Or.inr ⟨g', hg, rfl⟩
    · rintro (⟨f', h, rfl⟩ | ⟨g', h, rfl⟩)
      · cases h with
        | here => exact .here cs (rest ++ g)
        | inside _ _ h => exact .inside a (rest ++ g) h
        | later _ _ h => exact .later a cs (ihr.2 (Or.inl ⟨_, h, rfl⟩))
      · exact .later a cs (ihr.2 (Or.inr ⟨g', h, rfl⟩))

namespace GraftedAt

variable {s t f f₁ f₂ : Forest α} {m n : α}

/-- What is grafted upon another node outside of the scion can be grafted first. -/
theorem swap (h : GraftedAt s m f f₁) (h' : GraftedAt t n f₁ f₂) (hne : m ≠ n)
    (hn : n ∉ s.labels) : ∃ f', GraftedAt t n f f' ∧ GraftedAt s m f' f₂ := by
  -- The way down to `m` is followed, and at each node the way to `n` goes the same way or parts.
  induction h generalizing f₂ with
  | here cs rest =>
    cases h' with
    | here => exact absurd rfl hne
    | inside _ _ h' =>
      rcases graftedAt_append_iff.1 h' with ⟨cs', hcs, rfl⟩ | ⟨s', hs, rfl⟩
      · exact ⟨_, .inside m rest hcs, .here cs' rest⟩
      · exact absurd hs.mem_labels hn
    | later _ _ h' => exact ⟨_, .later m cs h', .here cs _⟩
  | @inside a cs cs₁ rest hcs ih =>
    cases h' with
    | here =>
      refine ⟨_, .here cs rest, .inside n rest ?_⟩
      exact graftedAt_append_iff.2 (Or.inl ⟨cs₁, hcs, rfl⟩)
    | inside _ _ h' =>
      obtain ⟨cs', ht, hs⟩ := ih h'
      exact ⟨_, .inside a rest ht, .inside a rest hs⟩
    | later _ _ h' => exact ⟨_, .later a cs h', .inside a _ hcs⟩
  | @later a cs rest rest₁ hrest ih =>
    cases h' with
    | here => exact ⟨_, .here cs rest, .later n _ hrest⟩
    | inside _ _ h' => exact ⟨_, .inside a rest h', .later a _ hrest⟩
    | later _ _ h' =>
      obtain ⟨rest', ht, hs⟩ := ih h'
      exact ⟨_, .later a cs ht, .later a cs hs⟩

/-- What is grafted upon a node of the scion can be grafted upon the scion first. -/
theorem exists_of_later (h : GraftedAt s m f f₁) (h' : GraftedAt t n f₁ f₂)
    (hn : n ∉ f.labels) : ∃ s', GraftedAt t n s s' ∧ GraftedAt s' m f f₂ := by
  -- The way down to `n` leads over `m`, as everything else belongs to the old forest.
  induction h generalizing f₂ with
  | here cs rest =>
    simp only [labels, List.mem_cons, List.mem_append, not_or] at hn
    cases h' with
    | here => exact absurd rfl hn.1
    | inside _ _ h' =>
      rcases graftedAt_append_iff.1 h' with ⟨cs', hcs, rfl⟩ | ⟨s', hs, rfl⟩
      · exact absurd hcs.mem_labels hn.2.1
      · exact ⟨s', hs, .here cs rest⟩
    | later _ _ h' => exact absurd h'.mem_labels hn.2.2
  | inside a rest _ ih =>
    simp only [labels, List.mem_cons, List.mem_append, not_or] at hn
    cases h' with
    | here => exact absurd rfl hn.1
    | inside _ _ h' =>
      obtain ⟨s', hs, hs'⟩ := ih h' hn.2.1
      exact ⟨s', hs, .inside a rest hs'⟩
    | later _ _ h' => exact absurd h'.mem_labels hn.2.2
  | later a cs _ ih =>
    simp only [labels, List.mem_cons, List.mem_append, not_or] at hn
    cases h' with
    | here => exact absurd rfl hn.1
    | inside _ _ h' => exact absurd h'.mem_labels hn.2.1
    | later _ _ h' =>
      obtain ⟨s', hs, hs'⟩ := ih h' hn.2.2
      exact ⟨s', hs, .later a cs hs'⟩

/-- What has been grafted upon the scion can be grafted after the scion. -/
theorem exists_of_scion {s' : Forest α} (h : GraftedAt s' m f f₂) (h' : GraftedAt t n s s') :
    ∃ f', GraftedAt s m f f' ∧ GraftedAt t n f' f₂ := by
  induction h with
  | here cs rest =>
    refine ⟨_, .here cs rest, .inside m rest ?_⟩
    exact graftedAt_append_iff.2 (Or.inr ⟨s', h', rfl⟩)
  | inside a rest _ ih =>
    obtain ⟨cs', hs, ht⟩ := ih
    exact ⟨_, .inside a rest hs, .inside a rest ht⟩
  | later a cs _ ih =>
    obtain ⟨rest', hs, ht⟩ := ih
    exact ⟨_, .later a cs hs, .later a cs ht⟩

/-- Only a tree becomes a tree by grafting, and its top node stays. -/
theorem exists_tree {x : α} {under : Forest α} (h : GraftedAt s m f (tree x under)) :
    ∃ below, f = tree x below := by
  cases h with
  | here cs => exact ⟨cs, rfl⟩
  | inside _ _ h => exact ⟨_, rfl⟩
  | later _ _ h => cases h

end GraftedAt

end Forest

end JoinForest
