set_option autoImplicit false

/-!
# Tables, aliases and subqueries

What can be joined: a table with declared keys, a second reference to a table under another
name, or a derived relation given as query text. Each exposes one name, the columns it offers
and, for tables, the keys from which joins are inferred.
-/

namespace JoinForest

/-- A foreign key: `columns` refer, position by position, to `referencedColumns` of the relation
`references`, or to its primary key when no referenced columns are listed. -/
structure ForeignKey where
  columns : List String
  references : String
  referencedColumns : List String := []
  deriving DecidableEq, Repr, Inhabited

/-- A foreign key of one column. -/
def ForeignKey.single (column references referenced : String) : ForeignKey :=
  ⟨[column], references, [referenced]⟩

/-! ## Tables -/

/-- A physical table with its declared columns and keys. -/
structure Table where
  name : String
  columns : List String := []
  primaryKey : List String := []
  foreignKeys : List ForeignKey := []
  deriving DecidableEq, Repr, Inhabited

/-- Appends a column unless it is listed already. -/
def addColumn (columns : List String) (column : String) : List String :=
  if columns.contains column then columns else columns ++ [column]

namespace Table

/-- A table without columns and keys. -/
def empty (name : String) : Table := ⟨name, [], [], []⟩

/-- Appends a column. -/
def withColumn (t : Table) (column : String) : Table :=
  { t with columns := t.columns ++ [column] }

/-- Appends columns. -/
def withColumns (t : Table) (columns : List String) : Table :=
  { t with columns := t.columns ++ columns }

/-- Makes one column the primary key, adding it to the columns when it is new. -/
def withPrimaryKey (t : Table) (column : String) : Table :=
  { t with columns := addColumn t.columns column, primaryKey := [column] }

/-- Adds a foreign key of one column, adding that column when it is new. -/
def withForeignKey (t : Table) (column references referenced : String) : Table :=
  { t with
    columns := addColumn t.columns column
    foreignKeys := t.foreignKeys ++ [ForeignKey.single column references referenced] }

/-- The columns named by the primary key and then by the foreign keys, in order of declaration. -/
def keyColumns (t : Table) : List String :=
  t.primaryKey ++ t.foreignKeys.flatMap ForeignKey.columns

/-- The table with every key column among its columns. -/
def withKeyColumns (t : Table) : Table :=
  { t with columns := t.keyColumns.foldl addColumn t.columns }

end Table

/-! ## Sources -/

/-- A derived relation: query text under a name, without keys. -/
structure Subquery where
  name : String
  sql : String
  columns : List String := []
  deriving DecidableEq, Repr, Inhabited

/-- What a source stands for: a relation of the database, or the text of a query. -/
inductive Relation where
  | named (name : String)
  | derived (sql : String)
  deriving DecidableEq, Repr, Inhabited

/-- Something that can take part in a join. -/
inductive Source where
  /-- A table under its own name. -/
  | table (table : Table)
  /-- A table under the name `name`. -/
  | aliased (name : String) (table : Table)
  /-- A derived relation. -/
  | subquery (query : Subquery)
  deriving DecidableEq, Repr, Inhabited

namespace Source

/-- The name under which columns of this source are addressed. -/
def name : Source → String
  | table t => t.name
  | aliased n _ => n
  | subquery q => q.name

/-- What the source stands for. -/
def relation : Source → Relation
  | table t => .named t.name
  | aliased _ t => .named t.name
  | subquery q => .derived q.sql

/-- The name foreign keys refer to: the relation's, or the exposed one for a derived relation. -/
def relationName (s : Source) : String :=
  match s.relation with
  | .named n => n
  | .derived _ => s.name

/-- The columns on offer. -/
def columns : Source → List String
  | table t => t.columns
  | aliased _ t => t.columns
  | subquery q => q.columns

/-- The primary key; a derived relation has none. -/
def primaryKey : Source → List String
  | table t => t.primaryKey
  | aliased _ t => t.primaryKey
  | subquery _ => []

/-- The foreign keys; a derived relation has none. -/
def foreignKeys : Source → List ForeignKey
  | table t => t.foreignKeys
  | aliased _ t => t.foreignKeys
  | subquery _ => []

/-- Whether the source offers a column. -/
def hasColumn (s : Source) (column : String) : Bool := s.columns.contains column

end Source
end JoinForest
