set_option autoImplicit false

/-!
# Ordered forests

A finite forest of labelled trees, written as "first tree, then the rest", so that every
definition and every proof is one structural recursion. Labels are listed in depth-first
pre-order: a node comes before its descendants, and those before its later siblings.

The lemmas say what each operation does to the list of labels (`labels_append`, `labels_map`,
`graft_eq_self`), and that positions number the nodes in that order (`map_key_placedFrom`).
-/

namespace JoinForest

universe u v

/-- An ordered forest: empty, or a first tree, with its label and its children, and the trees after
it. -/
inductive Forest (α : Type u) where
  /-- The forest without trees. -/
  | nil
  /-- A first tree with its label and its children, and the remaining trees. -/
  | cons (label : α) (children rest : Forest α)
  deriving DecidableEq, Repr

namespace Forest

variable {α : Type u} {β : Type v}

instance : Inhabited (Forest α) := ⟨nil⟩

/-- One tree. -/
def tree (label : α) (children : Forest α) : Forest α := cons label children nil

/-- The trees of the first forest, then those of the second. -/
def append : Forest α → Forest α → Forest α
  | nil, g => g
  | cons a cs rest, g => cons a cs (rest.append g)

instance : Append (Forest α) := ⟨append⟩

/-- Number of nodes. -/
def size : Forest α → Nat
  | nil => 0
  | cons _ cs rest => cs.size + rest.size + 1

/-- Labels in depth-first pre-order. -/
def labels : Forest α → List α
  | nil => []
  | cons a cs rest => a :: (cs.labels ++ rest.labels)

/-- Labels of the trees' top nodes, in order. -/
def roots : Forest α → List α
  | nil => []
  | cons a _ rest => a :: rest.roots

/-- Changes every label. -/
def map (f : α → β) : Forest α → Forest β
  | nil => nil
  | cons a cs rest => cons (f a) (cs.map f) (rest.map f)

/-- The first node in pre-order whose label satisfies `p`, with its children. -/
def find? (p : α → Bool) : Forest α → Option (α × Forest α)
  | nil => none
  | cons a cs rest => if p a then some (a, cs) else (cs.find? p).or (rest.find? p)

/-- The labels from a top node down to the first node that satisfies `p`, both included. -/
def path? (p : α → Bool) : Forest α → Option (List α)
  | nil => none
  | cons a cs rest =>
    if p a then some [a] else ((cs.path? p).map (a :: ·)).or (rest.path? p)

/-- The label on top of the first tree that holds a node satisfying `p`. -/
def rootOf? (p : α → Bool) : Forest α → Option α
  | nil => none
  | cons a cs rest => if p a || cs.labels.any p then some a else rest.rootOf? p

/-- Appends the trees of `scion` to the children of every node that satisfies `p`. -/
def graft (p : α → Bool) (scion : Forest α) : Forest α → Forest α
  | nil => nil
  | cons a cs rest =>
    let children := graft p scion cs
    cons a (if p a then children ++ scion else children) (graft p scion rest)

/-! ## What the operations do to the labels -/

@[simp] theorem nil_append (g : Forest α) : nil ++ g = g := rfl

@[simp] theorem cons_append (a : α) (cs rest g : Forest α) :
    cons a cs rest ++ g = cons a cs (rest ++ g) := rfl

/-- A forest has as many labels as nodes. -/
theorem length_labels (f : Forest α) : f.labels.length = f.size := by
  induction f with
  | nil => rfl
  | cons a cs rest ihc ihr => simp [labels, size, ihc, ihr]

/-- The labels of two forests side by side are those of the first and then those of the second. -/
@[simp] theorem labels_append (f g : Forest α) : (f ++ g).labels = f.labels ++ g.labels := by
  induction f with
  | nil => rfl
  | cons a cs rest _ ihr => simp [labels, ihr]

/-- The top nodes of two forests side by side. -/
@[simp] theorem roots_append (f g : Forest α) : (f ++ g).roots = f.roots ++ g.roots := by
  induction f with
  | nil => rfl
  | cons a cs rest _ ihr => simp [roots, ihr]

/-- Changing every label keeps their order. -/
@[simp] theorem labels_map (f : α → β) (g : Forest α) : (g.map f).labels = g.labels.map f := by
  induction g with
  | nil => rfl
  | cons a cs rest ihc ihr => simp [map, labels, ihc, ihr]

/-- Changing every label keeps the order of the top nodes. -/
@[simp] theorem roots_map (f : α → β) (g : Forest α) : (g.map f).roots = g.roots.map f := by
  induction g with
  | nil => rfl
  | cons a cs rest _ ihr => simp [map, roots, ihr]

/-- Grafting where no node is chosen changes nothing. -/
theorem graft_eq_self (p : α → Bool) (scion f : Forest α) (h : f.labels.any p = false) :
    graft p scion f = f := by
  induction f with
  | nil => rfl
  | cons a cs rest ihc ihr =>
    simp only [labels, List.any_cons, List.any_append, Bool.or_eq_false_iff] at h
    simp [graft, ihc h.2.1, ihr h.2.2, h.1]

/-! ## Nodes with their positions -/

/-- A node as it stands in its forest: its position in pre-order, the position of its parent
(none for a top node) and its label. -/
structure Placed (α : Type u) where
  key : Nat
  parent : Option Nat
  label : α
  deriving DecidableEq, Repr

/-- The nodes in pre-order, where positions count from `next` and top nodes hang below `parent`. -/
def placedFrom (parent : Option Nat) (next : Nat) : Forest α → List (Placed α)
  | nil => []
  | cons a cs rest =>
    ⟨next, parent, a⟩ ::
      (cs.placedFrom (some next) (next + 1) ++ rest.placedFrom parent (next + 1 + cs.size))

/-- The nodes in pre-order, where positions count from zero and top nodes have no parent. -/
def placed (f : Forest α) : List (Placed α) := f.placedFrom none 0

/-- Placed nodes carry the labels in pre-order. -/
theorem map_label_placedFrom (parent : Option Nat) (next : Nat) (f : Forest α) :
    (f.placedFrom parent next).map Placed.label = f.labels := by
  induction f generalizing parent next with
  | nil => rfl
  | cons a cs rest ihc ihr => simp [placedFrom, labels, ihc, ihr]

/-- Positions count the nodes in pre-order. -/
theorem map_key_placedFrom (parent : Option Nat) (next : Nat) (f : Forest α) :
    (f.placedFrom parent next).map Placed.key = List.range' next f.size := by
  induction f generalizing parent next with
  | nil => rfl
  | cons a cs rest ihc ihr =>
    have h : cs.size + rest.size + 1 = 1 + (cs.size + rest.size) := by omega
    rw [placedFrom, size, h, ← List.range'_append, ← List.range'_append]
    simp [ihc, ihr]

end Forest
end JoinForest
