import JoinForest.Error
import JoinForest.Join
import JoinForest.Schema

set_option autoImplicit false

/-!
# Making schemas

Schemas of forests, of topologies with the joins that are made for them, and of other schemas.
-/

namespace JoinForest

/-!
## Schemas of forests

Every schema is made here, from a forest whose members are looked at in pre-order: those on top
may not carry a join, all others have to, no name may come twice, and there has to be a root.
-/

/-- Whether a member carries a join exactly if it stands below another one. -/
def Member.checkPlace (m : Member) (isTop : Bool) : Except SchemaError Unit :=
  match isTop, m.join with
  | true, none => .ok ()
  | false, some _ => .ok ()
  | false, none => .error (.invalidTopology (.missingJoin m.name))
  | true, some _ => .error (.invalidTopology (.missingParent m.name))

/-- The names in use after a member has been entered: those `taken` before and its own. -/
def Member.enter (m : Member) (isTop : Bool) (taken : List String) :
    Except SchemaError (List String) :=
  if isTop && m.join.isSome then .error (.invalidTopology (.joinedRoot m.name))
  else if taken.contains m.name then .error (.duplicateName m.name)
  else (m.checkPlace isTop).map fun _ => m.name :: taken

/-- The names in use after the members of a forest have been entered in pre-order. -/
def enterAll (isTop : Bool) (taken : List String) :
    Forest Member → Except SchemaError (List String)
  | .nil => .ok taken
  | .cons m children rest => do
    let own ← m.enter isTop taken
    let below ← enterAll false own children
    enterAll isTop below rest

/-- The schema of a forest. The first fault in pre-order is reported, and then a missing root. -/
def Schema.ofForest (forest : Forest Member) : Except SchemaError Schema :=
  match enterAll true [] forest, forest with
  | .error e, _ => .error e
  | .ok _, .nil => .error (.invalidTopology .noRoot)
  | .ok _, .cons _ _ _ => .ok ⟨forest⟩

/-!
## Building a schema

A topology says which source stands below which; building makes the join of every node onto its
parent. Names have to be distinct, every join has to be possible and there has to be a root;
faults are reported in this order, each kind for the first node in pre-order.
-/

/-- Sources in the places they are to take. -/
abbrev Topology := Forest Source

/-- The first element of a list that equals an earlier one or one of `seen`. -/
def firstRepeat? {α : Type} [DecidableEq α] (seen : List α) : List α → Option α
  | [] => none
  | a :: rest => if a ∈ seen then some a else firstRepeat? (a :: seen) rest

namespace Topology

/-- The names of the nodes in pre-order. -/
def names (t : Topology) : List String := t.labels.map Source.name

/-- The join of a source onto its parent. A source without a parent has none. -/
def joinOnto (overrides : Overrides) (settings : BuildSettings) (parent : Option Source)
    (source : Source) : Except SchemaError (Option Join) :=
  match parent with
  | none => .ok none
  | some p => (p.joinWith source (overrides.get? p.name source.name) settings).map some

/-- The forest with the join of every node onto its parent, where top nodes hang below `parent`;
joins are made in pre-order and the first failure ends the work. -/
def joined (overrides : Overrides) (settings : BuildSettings) :
    Option Source → Forest Source → Except SchemaError (Forest Member)
  | _, .nil => .ok .nil
  | parent, .cons source children rest => do
    let join ← joinOnto overrides settings parent source
    let below ← joined overrides settings (some source) children
    let after ← joined overrides settings parent rest
    return .cons ⟨source, join⟩ below after

end Topology

/-- The schema of a topology. -/
def Schema.build (topology : Topology) (overrides : Overrides) (settings : BuildSettings) :
    Except SchemaError Schema :=
  match firstRepeat? [] topology.names with
  | some name => .error (.duplicateName name)
  | none =>
    match Topology.joined overrides settings none topology with
    | .error e => .error e
    | .ok forest => Schema.ofForest forest

end JoinForest

namespace JoinForest.Schema

/-!
## Schemas from schemas

A subtree taken out as a schema of its own, a schema attached below a node of another, and two
schemas side by side. The given schemas stay as they are; joins inside them are kept.
-/

/-- The names in use, sorted. -/
def sortedNames (s : Schema) : List String := s.entriesByName.map Entry.name

/-- The subtree at a name. Its top node becomes the root and loses the join onto its parent. -/
def detach (s : Schema) (name : String) : Except SchemaError Schema := do
  let (top, children) ← s.orUnknown name (s.forest.find? (Member.name · == name))
  ofForest (.tree { top with join := none } children)

/-- Refuses two schemas with a name in common; the smallest such name is reported. -/
def checkDisjoint (s other : Schema) : Except SchemaError Unit :=
  match other.sortedNames.find? s.contains with
  | some name => .error (.duplicateName name)
  | none => .ok ()

/-- Attaches the one root of `other` as the last child of the node `attachTo`, joined as an override
says or as foreign keys tell. -/
def compose (s other : Schema) (attachTo : String) (override : Option Override)
    (settings : BuildSettings) : Except SchemaError Schema := do
  let host ← s.lookup attachTo
  s.checkDisjoint other
  match other.forest with
  | .cons top children .nil =>
    let join ← host.source.joinWith top.source override settings
    let scion := Forest.tree { top with join := some join } children
    ofForest (Forest.graft (Member.name · == attachTo) scion s.forest)
  | forest => throw (.invalidTopology (.manyRoots forest.roots.length))

/-- The trees of both schemas, those of `s` first. -/
def merge (s other : Schema) : Except SchemaError Schema := do
  s.checkDisjoint other
  ofForest (s.forest ++ other.forest)

end JoinForest.Schema
