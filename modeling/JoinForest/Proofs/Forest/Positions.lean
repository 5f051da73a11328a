import JoinForest.Proofs.Forest.Paths

set_option autoImplicit false

/-!
# Positions in a forest

The flat list of placed nodes is the depth-first listing of the forest: following the parents
stored with the nodes, as children of a position, gives back the list (`depthFirst_placed`). Read
with the nodes found at the stored positions it lists each node with its parent
(`map_parent_placed`), which no longer depends on numbers.
-/

namespace JoinForest

universe u v

/-- `out` lists the nodes of a list in order, each followed by the listing of its children. -/
inductive DepthFirst {α : Type u} (children : α → List α) : List α → List α → Prop
  | nil : DepthFirst children [] []
  | cons {a : α} {rest below after : List α} :
      DepthFirst children (children a) below → DepthFirst children rest after →
        DepthFirst children (a :: rest) (a :: (below ++ after))

/-- There is at most one depth-first listing. -/
theorem DepthFirst.unique {α : Type u} {children : α → List α} {nodes out : List α}
    (h : DepthFirst children nodes out) :
    ∀ {out' : List α}, DepthFirst children nodes out' → out = out' := by
  induction h with
  | nil =>
    intro out' h'
    cases h'
    rfl
  | cons _ _ ihb iha =>
    intro out' h'
    cases h' with
    | cons hb ha => rw [ihb hb, iha ha]

/-- A change of the nodes that respects the children respects the listing. -/
theorem DepthFirst.map {α : Type u} {β : Type v} {children : α → List α} {children' : β → List β}
    {g : α → β} {nodes out : List α} (h : DepthFirst children nodes out)
    (hg : ∀ a ∈ out, children' (g a) = (children a).map g) :
    DepthFirst children' (nodes.map g) (out.map g) := by
  induction h with
  | nil => exact .nil
  | @cons a rest below after _ _ ihb iha =>
    simp only [List.forall_mem_cons, List.forall_mem_append] at hg
    rw [List.map_cons, List.map_cons, List.map_append]
    refine .cons ?_ (iha hg.2.2)
    rw [hg.1]
    exact ihb hg.2.1

namespace Forest

variable {α : Type u}

/-! ## Ranges of positions and parents -/

/-- The nodes of a forest take the positions from `next` on, without gaps. -/
theorem key_mem_range {f : Forest α} {parent : Option Nat} {next : Nat} {e : Placed α}
    (h : e ∈ f.placedFrom parent next) : next ≤ e.key ∧ e.key < next + f.size := by
  have hkey : e.key ∈ (f.placedFrom parent next).map Placed.key := List.mem_map_of_mem h
  rw [map_key_placedFrom, List.mem_range'_1] at hkey
  exact hkey

/-- A node hangs below the given parent or below an earlier node of the same forest. -/
theorem parent_of_mem_placedFrom {f : Forest α} {parent : Option Nat} {next : Nat} {e : Placed α}
    (h : e ∈ f.placedFrom parent next) :
    e.parent = parent ∨ ∃ k, e.parent = some k ∧ next ≤ k ∧ k < e.key := by
  induction f generalizing parent next with
  | nil => simp [placedFrom] at h
  | cons a cs rest ihc ihr =>
    simp only [placedFrom, List.mem_cons, List.mem_append] at h
    rcases h with rfl | h | h
    · exact Or.inl rfl
    · have hkey := key_mem_range h
      rcases ihc h with hp | ⟨k, hp, hle, hlt⟩
      · exact Or.inr ⟨next, hp, (Nat.le_refl _), by omega⟩
      · exact Or.inr ⟨k, hp, by omega, hlt⟩
    · rcases ihr h with hp | ⟨k, hp, hle, hlt⟩
      · exact Or.inl hp
      · exact Or.inr ⟨k, hp, by omega, hlt⟩

/-- The parent of a forest, if it has one, stands in front of it. -/
def Precedes (parent : Option Nat) (next : Nat) : Prop := ∀ k, parent = some k → k < next

theorem Precedes.none (next : Nat) : Precedes none next := by
  intro k hk
  simp at hk

theorem Precedes.some_succ (next : Nat) : Precedes (some next) (next + 1) := by
  intro k hk
  have hnext := Option.some.inj hk
  omega

theorem Precedes.mono {parent : Option Nat} {next next' : Nat} (h : Precedes parent next)
    (hle : next ≤ next') : Precedes parent next' :=
  fun k hk => Nat.lt_of_lt_of_le (h k hk) hle

/-- No later position is that of the parent. -/
theorem Precedes.ne_some {parent : Option Nat} {next k : Nat} (h : Precedes parent next)
    (hle : next ≤ k) : parent ≠ some k := by
  intro heq
  have hk := h k heq
  omega

/-- Outside of a forest hang none of its nodes but the top ones. -/
theorem filter_parent_eq_nil {f : Forest α} {parent : Option Nat} {next k : Nat}
    (hparent : parent ≠ some k) (hk : k < next ∨ next + f.size ≤ k) :
    (f.placedFrom parent next).filter (·.parent == some k) = [] := by
  refine List.filter_eq_nil_iff.2 fun e he => ?_
  have hkey := key_mem_range he
  rcases parent_of_mem_placedFrom he with hp | ⟨j, hp, hle, hlt⟩
  · simpa [hp] using hparent
  · have hjk : j ≠ k := by omega
    simpa [hp] using hjk

/-! ## Top nodes -/

/-- The top nodes with their positions, where those count from `next`. -/
def topsFrom (parent : Option Nat) (next : Nat) : Forest α → List (Placed α)
  | nil => []
  | cons a cs rest => ⟨next, parent, a⟩ :: rest.topsFrom parent (next + 1 + cs.size)

theorem map_label_topsFrom (parent : Option Nat) (next : Nat) (f : Forest α) :
    (f.topsFrom parent next).map Placed.label = f.roots := by
  induction f generalizing next with
  | nil => rfl
  | cons a cs rest _ ihr => simp [topsFrom, roots, ihr]

/-- The top nodes are those that hang below the parent of the whole forest. -/
theorem filter_parent_placedFrom (f : Forest α) {parent : Option Nat} {next : Nat}
    (hparent : Precedes parent next) :
    (f.placedFrom parent next).filter (·.parent == parent) = f.topsFrom parent next := by
  induction f generalizing next with
  | nil => rfl
  | cons a cs rest _ ihr =>
    -- The children hang from `next` or from later positions, and the parent is in front of those.
    have hcs : (cs.placedFrom (some next) (next + 1)).filter (·.parent == parent) = [] := by
      refine List.filter_eq_nil_iff.2 fun e he => ?_
      rcases parent_of_mem_placedFrom he with hp | ⟨k, hp, hle, -⟩
      · simpa [hp] using (hparent.ne_some (Nat.le_refl _)).symm
      · simpa [hp] using (hparent.ne_some (k := k) (by omega)).symm
    have hle : next ≤ next + 1 + cs.size := by omega
    simp [placedFrom, topsFrom, hcs, ihr (hparent.mono hle)]

/-! ## The depth-first listing -/

/-- What hangs from the positions of a forest in a list of nodes is what the forest places there. -/
def Hosts (nodes : List (Placed α)) (f : Forest α) (parent : Option Nat) (next : Nat) : Prop :=
  ∀ k, next ≤ k → k < next + f.size →
    nodes.filter (·.parent == some k) = (f.placedFrom parent next).filter (·.parent == some k)

namespace Hosts

variable {nodes : List (Placed α)} {a : α} {cs later : Forest α} {parent : Option Nat} {next : Nat}

theorem filter_cons (h : Hosts nodes (cons a cs later) parent next)
    (hparent : Precedes parent next) {k : Nat} (hle : next ≤ k)
    (hlt : k < next + 1 + cs.size + later.size) :
    nodes.filter (·.parent == some k) =
      (cs.placedFrom (some next) (next + 1)).filter (·.parent == some k) ++
        (later.placedFrom parent (next + 1 + cs.size)).filter (·.parent == some k) := by
  rw [h k hle (by simp only [size]; omega)]
  simp [placedFrom, hparent.ne_some hle]

/-- The children of the first node are hosted at the position behind it. -/
theorem children (h : Hosts nodes (cons a cs later) parent next)
    (hparent : Precedes parent next) : Hosts nodes cs (some next) (next + 1) := by
  intro k hle hlt
  rw [h.filter_cons hparent (by omega) (by omega),
    filter_parent_eq_nil (hparent.ne_some (by omega)) (by omega), List.append_nil]

theorem rest (h : Hosts nodes (cons a cs later) parent next) (hparent : Precedes parent next) :
    Hosts nodes later parent (next + 1 + cs.size) := by
  intro k hle hlt
  rw [h.filter_cons hparent (by omega) (by omega),
    filter_parent_eq_nil ((Precedes.some_succ next).ne_some (by omega)) (by omega),
    List.nil_append]

/-- The nodes that hang from the first position are the top nodes of the children. -/
theorem filter_first (h : Hosts nodes (cons a cs later) parent next)
    (hparent : Precedes parent next) :
    nodes.filter (·.parent == some next) = cs.topsFrom (some next) (next + 1) := by
  rw [h.filter_cons hparent (by omega) (by omega),
    filter_parent_eq_nil (hparent.ne_some (Nat.le_refl _)) (by omega), List.append_nil]
  exact filter_parent_placedFrom cs (Precedes.some_succ next)

end Hosts

/-- The order of the positions is depth-first, from the top of every tree to its children. -/
theorem depthFirst_placedFrom {nodes : List (Placed α)} {f : Forest α} {parent : Option Nat}
    {next : Nat} (h : Hosts nodes f parent next) (hparent : Precedes parent next) :
    DepthFirst (fun e => nodes.filter (·.parent == some e.key)) (f.topsFrom parent next)
      (f.placedFrom parent next) := by
  induction f generalizing parent next with
  | nil => exact .nil
  | cons a cs rest ihc ihr =>
    refine .cons ?_ ?_
    · rw [h.filter_first hparent]
      exact ihc (h.children hparent) (Precedes.some_succ next)
    · exact ihr (h.rest hparent) (hparent.mono (by omega))

/-- The placed nodes are the depth-first listing from the top nodes. -/
theorem depthFirst_placed (f : Forest α) :
    DepthFirst (fun e => f.placed.filter (·.parent == some e.key)) (f.topsFrom none 0) f.placed :=
  depthFirst_placedFrom (fun _ _ _ => rfl) (Precedes.none 0)

/-! ## Nodes with their parents -/

/-- The nodes in pre-order, each with its parent, where top nodes hang below `parent`. -/
def withParents (parent : Option α) : Forest α → List (Option α × α)
  | nil => []
  | cons a cs rest => (parent, a) :: (cs.withParents (some a) ++ rest.withParents parent)

theorem map_snd_withParents (parent : Option α) (f : Forest α) :
    (f.withParents parent).map Prod.snd = f.labels := by
  induction f generalizing parent with
  | nil => rfl
  | cons a cs rest ihc ihr => simp [withParents, labels, ihc, ihr]

theorem mem_labels_of_mem_withParents {parent : Option α} {f : Forest α} {pm : Option α × α}
    (h : pm ∈ f.withParents parent) : pm.2 ∈ f.labels := by
  rw [← map_snd_withParents parent f]
  exact List.mem_map_of_mem h

/-- Changing every label keeps the parents. -/
theorem withParents_map {β : Type v} (g : α → β) (parent : Option α) (f : Forest α) :
    (f.map g).withParents (parent.map g) =
      (f.withParents parent).map fun pm => (pm.1.map g, g pm.2) := by
  induction f generalizing parent with
  | nil => rfl
  | cons a cs rest ihc ihr =>
    have hc := ihc (some a)
    rw [Option.map_some] at hc
    simp only [map, withParents, List.map_cons, List.map_append, hc, ihr]

/-- The parent of a node is the last one on the way down to it. -/
theorem StandsBelow.mem_withParents {f : Forest α} {above : List α} {m : α}
    (h : StandsBelow f above m) (parent : Option α) :
    (above.getLast?.or parent, m) ∈ f.withParents parent := by
  induction h generalizing parent with
  | top a cs rest => simp [withParents]
  | @child a cs rest above m _ ih =>
    have hm := ih (some a)
    have hlast : (a :: above).getLast?.or parent = above.getLast?.or (some a) := by
      cases h : above.getLast? <;> simp [List.getLast?_cons, h]
    rw [hlast, withParents]
    exact List.mem_cons_of_mem _ (List.mem_append_left _ hm)
  | later a cs _ ih =>
    exact List.mem_cons_of_mem _ (List.mem_append_right _ (ih parent))

/-- Two parents that are read alike can stand for each other. -/
theorem map_withParents_congr {γ : Type v} {F : Option α → α → γ} (parent parent' : Option α)
    (h : ∀ a, F parent a = F parent' a) (f : Forest α) :
    (f.withParents parent).map (fun pm => F pm.1 pm.2) =
      (f.withParents parent').map (fun pm => F pm.1 pm.2) := by
  induction f with
  | nil => rfl
  | cons a cs rest _ ihr => simp [withParents, h a, ihr]

theorem forall_withParents_congr {P : Option α → α → Prop} (parent parent' : Option α)
    (h : ∀ a, P parent a ↔ P parent' a) (f : Forest α) :
    (∀ pm ∈ f.withParents parent, P pm.1 pm.2) ↔ ∀ pm ∈ f.withParents parent', P pm.1 pm.2 := by
  induction f with
  | nil => simp [withParents]
  | cons a cs rest _ ihr =>
    simp only [withParents, List.forall_mem_cons, List.forall_mem_append, h a, ihr]

theorem map_parent_placedFrom {nodes : List (Placed α)} (f : Forest α) (parent : Option Nat)
    (next : Nat) (above : Option α)
    (hnodes : ∀ i, i < f.size → nodes[next + i]? = (f.placedFrom parent next)[i]?)
    (habove : (parent.bind (nodes[·]?)).map Placed.label = above) :
    (f.placedFrom parent next).map
        (fun e => ((e.parent.bind (nodes[·]?)).map Placed.label, e.label)) =
      f.withParents above := by
  induction f generalizing parent next above with
  | nil => rfl
  | cons a cs rest ihc ihr =>
    have hlength : (cs.placedFrom (some next) (next + 1)).length = cs.size := by
      simpa using congrArg List.length (map_key_placedFrom (some next) (next + 1) cs)
    have hfirst : nodes[next]? = some ⟨next, parent, a⟩ := by
      simpa [placedFrom] using hnodes 0 (by simp [size])
    have hc := ihc (some next) (next + 1) (some a)
      (fun i hi => by
        have := hnodes (i + 1) (by simp only [size]; omega)
        rw [placedFrom, List.getElem?_cons_succ, List.getElem?_append_left (by omega)] at this
        rw [← this]
        congr 1
        omega)
      (by simp [hfirst])
    have hr := ihr parent (next + 1 + cs.size) above
      (fun i hi => by
        have := hnodes (cs.size + i + 1) (by simp only [size]; omega)
        rw [placedFrom, List.getElem?_cons_succ, List.getElem?_append_right (by omega),
          hlength, Nat.add_sub_cancel_left] at this
        rw [← this]
        congr 1
        omega)
      habove
    simp only [placedFrom, List.map_cons, List.map_append, withParents, habove, hc, hr]

/-- Looking up the stored parents in the list itself gives each node with its parent. -/
theorem map_parent_placed (f : Forest α) :
    f.placed.map (fun e => ((e.parent.bind (f.placed[·]?)).map Placed.label, e.label)) =
      f.withParents none :=
  map_parent_placedFrom f none 0 none (fun i _ => by simp [placed]) rfl

end Forest
end JoinForest
