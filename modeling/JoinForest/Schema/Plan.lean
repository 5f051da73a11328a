import JoinForest.Schema

set_option autoImplicit false

/-!
# Join plans

The joins that connect a set of nodes to their root. Every requested node is walked up to its root
or to a node that an earlier walk has passed, and each node passed is joined onto its parent. The
joins come in pre-order, so that each is joined onto a node that is there already.
-/

namespace JoinForest

/-- One join to apply: `child` onto what is there, on rows of `parent`. -/
structure Step where
  parent : String
  child : String
  condition : Condition
  kind : JoinKind
  deriving DecidableEq, Repr, Inhabited

/-- A root and the joins to apply to it, in order. -/
structure Plan where
  root : String
  steps : List Step
  deriving DecidableEq, Repr, Inhabited

namespace Plan

/-- The tables the plan brings together, root first. -/
def tables (p : Plan) : List String := p.root :: p.steps.map Step.child

/-- Parent and child of every step. -/
def pairs (p : Plan) : List (String × String) := p.steps.map fun s => (s.parent, s.child)

end Plan

namespace Schema

/-- The join of a node onto its parent as a step; a root makes none. -/
def step? (s : Schema) (e : Entry) : Option Step :=
  match s.parent? e, e.label.join with
  | some p, some j => some ⟨Entry.name p, Entry.name e, j.condition, j.kind⟩
  | _, _ => none

end Schema

/-! ## Walks from requested nodes to their roots -/

/-- What the walks so far have found: the names of the nodes they passed, roots left out, and the
node walked first with the name of its root. -/
structure Walk where
  passed : List String := []
  anchor : Option (String × String) := none
  deriving DecidableEq, Repr, Inhabited

namespace Walk

/-- Passes the nodes of a path, given from its end up to its root, as far as a node that was passed
before. The root is given when it is reached. -/
def climb (passed : List String) : List Member → List String × Option Member
  | [] => (passed, none)
  | [root] => (passed, some root)
  | m :: above =>
    if passed.contains m.name then (passed, none) else climb (m.name :: passed) above

/-- Walks one more requested node. A walk that ends at a node passed before has the root of the
first one; any other has to arrive there as well. -/
def visit (s : Schema) (w : Walk) (name : String) : Except SchemaError Walk := do
  let path ← s.path name
  match climb w.passed path.reverse, w.anchor with
  | (passed, none), anchor => return ⟨passed, anchor⟩
  | (passed, some root), none => return ⟨passed, some (name, root.name)⟩
  | (passed, some root), some (first, firstRoot) =>
    if root.name = firstRoot then return ⟨passed, some (first, firstRoot)⟩
    else throw (.disconnected first firstRoot name root.name)

end Walk

namespace Schema

/-- The requested names in pre-order, each once. -/
def requested (s : Schema) (names : List String) : List String := s.names.filter names.contains

/-- The plan that reaches every name of a list. Unknown names are reported first, in the order of
the list. Then the requested nodes are walked in pre-order; nodes of different trees cannot be
connected. An empty request starts at the first root. -/
def plan (s : Schema) (names : List String) : Except SchemaError Plan := do
  names.forM fun name => discard (s.lookup name)
  match s.roots with
  | [] => throw (.invalidTopology .noRoot)
  | top :: _ =>
    let walk ← (s.requested names).foldlM (Walk.visit s) {}
    let root := (walk.anchor.map (·.2)).getD top.name
    return ⟨root, (s.entries.filter (walk.passed.contains ·.name)).filterMap s.step?⟩

end Schema
end JoinForest
