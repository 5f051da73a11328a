import JoinForest.Error
import JoinForest.Forest
import JoinForest.Join
import JoinForest.Source
import JoinForest.Text.FuzzyMatch

set_option autoImplicit false

/-!
# Schemas

A schema is a forest of sources in which every node but the roots carries the join onto its parent.
Nodes are numbered in depth-first pre-order. The views below read the forest in two ways: through
the numbered list of its nodes (parents, children, edges) and by recursion on the forest itself
(paths, subtrees, roots). A name that no node has is reported together with the closest name that
one has.
-/

namespace JoinForest

/-- A source in its place: roots carry no join, all others the join onto their parent. -/
structure Member where
  source : Source
  join : Option Join
  deriving DecidableEq, Repr, Inhabited

/-- The name under which a member is addressed. -/
def Member.name (m : Member) : String := m.source.name

/-- Sources joined along the edges of a forest. -/
structure Schema where
  forest : Forest Member
  deriving DecidableEq, Repr, Inhabited

/-- A node of a schema with its position and that of its parent. -/
abbrev Entry := Forest.Placed Member

/-- The name of a node. -/
def Entry.name (e : Entry) : String := e.label.name

/-- The source of a node. -/
def Entry.source (e : Entry) : Source := e.label.source

/-- A join between the nodes at two positions. -/
structure Edge where
  parent : Nat
  child : Nat
  join : Join
  deriving DecidableEq, Repr, Inhabited

/-- The edge above a node. -/
def Entry.edge? (e : Entry) : Option Edge :=
  match e.parent, e.label.join with
  | some parent, some join => some ⟨parent, e.key, join⟩
  | _, _ => none

namespace Schema

/-! ## Numbered nodes -/

/-- The nodes in pre-order. -/
def entries (s : Schema) : List Entry := s.forest.placed

/-- Number of nodes. -/
def size (s : Schema) : Nat := s.forest.size

/-- The names in pre-order. -/
def names (s : Schema) : List String := s.forest.labels.map Member.name

/-- The members on top of the trees, in order. -/
def roots (s : Schema) : List Member := s.forest.roots

/-- The edges, ordered by their child. -/
def edges (s : Schema) : List Edge := s.entries.filterMap Entry.edge?

/-- The node of a name. -/
def node? (s : Schema) (name : String) : Option Entry := s.entries.find? (Entry.name · == name)

/-- Whether a name is in use. -/
def contains (s : Schema) (name : String) : Bool := (s.node? name).isSome

/-- The node at a position. Positions are 32-bit words, and of a longer key only the low 32 bits
count. -/
def entryAt? (s : Schema) (key : UInt64) : Option Entry := s.entries[key.toUInt32.toNat]?

/-- The nodes sorted by name. -/
def entriesByName (s : Schema) : List Entry :=
  s.entries.mergeSort fun a b => decide (Entry.name a ≤ Entry.name b)

/-- The parent of a node. -/
def parent? (s : Schema) (e : Entry) : Option Entry := e.parent.bind (s.entries[·]?)

/-- The children of a node, in order. -/
def children (s : Schema) (e : Entry) : List Entry := s.entries.filter (·.parent == some e.key)

/-! ## Recursion on the forest -/

/-- The members from the root down to a name, both included. -/
def path? (s : Schema) (name : String) : Option (List Member) :=
  s.forest.path? (Member.name · == name)

/-- The root of the tree that holds a name. -/
def rootOf? (s : Schema) (name : String) : Option Member :=
  s.forest.rootOf? (Member.name · == name)

/-- The members below and at a name, in pre-order. -/
def subtree? (s : Schema) (name : String) : Option (List Member) :=
  (s.forest.find? (Member.name · == name)).map fun (m, children) => m :: children.labels

end Schema

/-!
## Finding a node by name

A name that no node has is reported together with the closest name that one has.
-/

namespace Schema

/-- The name in use that is closest to `name`; of equally close ones the alphabetically first. -/
def suggestion? (s : Schema) (name : String) : Option String :=
  closest? name (s.entriesByName.map Entry.name)

/-- The node of a name. -/
def lookup (s : Schema) (name : String) : Except SchemaError Entry :=
  match s.node? name with
  | some e => .ok e
  | none => .error (.unknownTable name (s.suggestion? name))

/-- What a view says of a name, or that the name is unknown. -/
def orUnknown {α : Type} (s : Schema) (name : String) (view : Option α) : Except SchemaError α :=
  match view with
  | some a => .ok a
  | none => .error (.unknownTable name (s.suggestion? name))

/-- The members from the root down to a name, both included. -/
def path (s : Schema) (name : String) : Except SchemaError (List Member) :=
  s.orUnknown name (s.path? name)

/-- The root of the tree that holds a name. -/
def rootOf (s : Schema) (name : String) : Except SchemaError Member :=
  s.orUnknown name (s.rootOf? name)

/-- The members below and at a name, in pre-order. -/
def subtree (s : Schema) (name : String) : Except SchemaError (List Member) :=
  s.orUnknown name (s.subtree? name)

/-- The parent of the node of a name; none for a root. -/
def parentOf (s : Schema) (name : String) : Except SchemaError (Option Entry) :=
  (s.lookup name).map s.parent?

/-- The edge above the node of a name; none for a root. -/
def edgeAbove (s : Schema) (name : String) : Except SchemaError (Option Edge) :=
  (s.lookup name).map Entry.edge?

/-- The children of the node of a name, in order. -/
def childrenOf (s : Schema) (name : String) : Except SchemaError (List Entry) :=
  (s.lookup name).map s.children

end Schema

end JoinForest
