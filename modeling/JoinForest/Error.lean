set_option autoImplicit false

/-!
# Errors

The reasons why a schema cannot be built, changed or asked, each with the values it reports,
and the one place where their wording is fixed.
-/

namespace JoinForest

/-- What is wrong with the shape of a join forest or of a catalog. -/
inductive TopologyFault where
  /-- There is no tree. -/
  | noRoot
  /-- Only a schema with one root can be attached; this one has `roots`. -/
  | manyRoots (roots : Nat)
  /-- An explicit join lists no columns. -/
  | emptyJoin (parent child : String)
  /-- A root says how it is joined. -/
  | rootWithJoin (name : String)
  /-- A member on top of a forest carries a join. -/
  | joinedRoot (name : String)
  /-- A member below another one carries no join. -/
  | missingJoin (name : String)
  /-- A member below no other one carries a join. -/
  | missingParent (name : String)
  /-- A join gives both column pairs and an expression. -/
  | conflictingJoin (parent child : String)
  /-- The catalog declares a name twice. -/
  | declaredTwice (name : String)
  /-- A node refers to a name that the catalog does not declare. -/
  | undeclared (table : String)
  /-- The extension of a path names no known format. -/
  | unknownFormat (path : String)
  deriving DecidableEq, Repr, Inhabited

/-- Wording of a fault. -/
def TopologyFault.message : TopologyFault → String
  | noRoot => "topology has no root"
  | manyRoots n => "cannot attach a schema with " ++ toString n ++ " roots through a single join"
  | emptyJoin p c => "explicit join between '" ++ p ++ "' and '" ++ c ++ "' has no columns"
  | rootWithJoin n => "root '" ++ n ++ "' cannot declare a join"
  | joinedRoot n => "root '" ++ n ++ "' cannot carry a join"
  | missingJoin n => "'" ++ n ++ "' has a parent but no join"
  | missingParent n => "'" ++ n ++ "' has a join but no parent"
  | conflictingJoin p c =>
    "join between '" ++ p ++ "' and '" ++ c ++ "' sets both 'on' and 'expression'"
  | declaredTwice n => "'" ++ n ++ "' is declared more than once in the catalog"
  | undeclared t => "node refers to unknown table '" ++ t ++ "'"
  | unknownFormat path =>
    "cannot tell the format of '" ++ path ++ "' (expected .json or .toml)"

/-- Why a schema cannot be built, changed or asked. -/
inductive SchemaError where
  /-- Two nodes expose one name. -/
  | duplicateName (name : String)
  /-- Several foreign keys could make the join. -/
  | ambiguousJoin (parent child : String) (candidates : Nat)
  /-- No foreign key makes the join, and none is given. -/
  | missingRelation (parent child : String)
  /-- No node has this name; `suggestion` is the closest one that exists. -/
  | unknownTable (name : String) (suggestion : Option String)
  /-- The source has no such column. -/
  | unknownColumn (table column : String)
  /-- Two requested nodes stand in different trees. -/
  | disconnected (first firstRoot second secondRoot : String)
  /-- The forest or the catalog is malformed. -/
  | invalidTopology (fault : TopologyFault)
  deriving DecidableEq, Repr, Inhabited

namespace SchemaError

/-- The name of the kind of error. -/
def kind : SchemaError → String
  | duplicateName _ => "DuplicateName"
  | ambiguousJoin _ _ _ => "AmbiguousJoin"
  | missingRelation _ _ => "MissingRelation"
  | unknownTable _ _ => "UnknownTable"
  | unknownColumn _ _ => "UnknownColumn"
  | disconnected _ _ _ _ => "DisconnectedSchema"
  | invalidTopology _ => "InvalidTopology"

/-- Wording of an error. -/
def message : SchemaError → String
  | duplicateName n => "Duplicate table name '" ++ n ++ "': alias one of the references"
  | ambiguousJoin p c n =>
    "Ambiguous join between '" ++ p ++ "' and '" ++ c ++ "': " ++ toString n ++
      " foreign keys match, supply an explicit join"
  | missingRelation p c =>
    "No relation between '" ++ p ++ "' and '" ++ c ++ "': no foreign key and no explicit join"
  | unknownTable n none => "Unknown table '" ++ n ++ "'"
  | unknownTable n (some s) => "Unknown table '" ++ n ++ "' (did you mean '" ++ s ++ "'?)"
  | unknownColumn t c => "Unknown column '" ++ t ++ "." ++ c ++ "'"
  | disconnected f fr s sr =>
    "Tables '" ++ f ++ "' and '" ++ s ++ "' belong to different roots ('" ++ fr ++ "' and '" ++
      sr ++ "')"
  | invalidTopology fault => "Invalid topology: " ++ fault.message

end SchemaError
end JoinForest
