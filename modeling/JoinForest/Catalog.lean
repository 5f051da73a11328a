import JoinForest.Document
import JoinForest.Files
import JoinForest.Forest
import JoinForest.Join
import JoinForest.Json
import JoinForest.Schema.Reshape
import JoinForest.Source
import JoinForest.Toml.Text

set_option autoImplicit false

/-!
# Catalogs

A catalog declares tables and subqueries once and places references to them in a join forest. It is
what topology files hold: it is read from texts, and its topology is made of it.
-/

namespace JoinForest

/-!
## Declarations

A catalog declares tables and subqueries once and places references to them in a join forest.
It is what topology files hold.
-/

/-- A join written beside a placement: column pairs, or an expression, or neither for an inferred
condition; and the kind, if not the default one. -/
structure JoinNote where
  on : List (String × String) := []
  expression : Option String := none
  kind : Option JoinKind := none
  deriving DecidableEq, Repr, Inhabited

/-- A reference to a declared name, perhaps under another name, with the join onto the parent. -/
structure Placement where
  table : String
  rename : Option String := none
  join : Option JoinNote := none
  deriving DecidableEq, Repr, Inhabited

/-- The name under which a placement is addressed. -/
def Placement.name (p : Placement) : String := p.rename.getD p.table

/-- Declared tables and subqueries, and the forest of references to them. -/
structure Catalog where
  tables : List Table := []
  subqueries : List Subquery := []
  schema : Forest Placement := .nil
  deriving DecidableEq, Repr, Inhabited

/-!
## Catalogs as documents

The document of a catalog, and how catalogs are read from documents. A document is written with
all fields but the absent optional ones; reading it back gives the same catalog.
-/

/-! ### Reading -/

namespace Decoder

/-- A list of texts. -/
def texts : Decoder (List String) := list text

/-- A foreign key. -/
def foreignKey : Decoder ForeignKey := fun c d => do
  let fs ← fields ["columns", "references", "referenced_columns"] c d
  return ⟨← required texts fs "columns", ← required text fs "references",
    ← withDefault texts [] fs "referenced_columns"⟩

/-- A table. -/
def table : Decoder Table := fun c d => do
  let fs ← fields ["name", "columns", "primary_key", "foreign_keys"] c d
  return ⟨← required text fs "name", ← withDefault texts [] fs "columns",
    ← withDefault texts [] fs "primary_key", ← withDefault (list foreignKey) [] fs "foreign_keys"⟩

/-- A subquery. -/
def subquery : Decoder Subquery := fun c d => do
  let fs ← fields ["name", "sql", "columns"] c d
  return ⟨← required text fs "name", ← required text fs "sql",
    ← withDefault texts [] fs "columns"⟩

/-- A kind of join. -/
def joinKind : Decoder JoinKind := named JoinKind.ofName?

/-- A join beside a placement. -/
def joinNote : Decoder JoinNote := fun c d => do
  let fs ← fields ["on", "expression", "kind"] c d
  return ⟨← withDefault (list (pair text text)) [] fs "on",
    ← withDefault (optional text) none fs "expression",
    ← withDefault (optional joinKind) none fs "kind"⟩

/-- A forest from its trees, each read by `tree`. -/
def forestOf {α : Type} (tree : Document → Option (α × Forest α)) :
    List Document → Option (Forest α)
  | [] => some .nil
  | d :: ds => do
    let (label, children) ← tree d
    let rest ← forestOf tree ds
    return .cons label children rest

/-- The trees of placements at a level of nesting. Each is a record whose `children` are a list
of further ones, two levels further in. -/
def placements (dialect : Dialect) : Nat → List Document → Option (Forest Placement)
  | 0, ds => forestOf (fun _ => none) ds
  | 1, ds => forestOf (fun d => do
      let fs ← fields ["table", "alias", "join", "children"] ⟨dialect, 1⟩ d
      if (fs.2.lookup "children").isSome then none
      return (← label fs, .nil)) ds
  | levels + 2, ds => forestOf (fun d => do
      let fs ← fields ["table", "alias", "join", "children"] ⟨dialect, levels + 2⟩ d
      let children ← match fs.2.lookup "children" with
        | none => some .nil
        | some (.list children) => placements dialect levels children
        | some _ => none
      return (← label fs, children)) ds
where
  /-- The placement that the fields of a record describe. -/
  label (fs : Context × List (String × Document)) : Option Placement := do
    return ⟨← required text fs "table", ← withDefault (optional text) none fs "alias",
      ← withDefault (optional joinNote) none fs "join"⟩

/-- A list of placements. -/
def placementForest : Decoder (Forest Placement) := fun c d => do
  let (inner, ds) ← items c d
  placements inner.dialect inner.levels ds

/-- A catalog. -/
def catalog : Decoder Catalog := fun c d => do
  let fs ← fields ["tables", "subqueries", "schema"] c d
  return ⟨← withDefault (list table) [] fs "tables",
    ← withDefault (list subquery) [] fs "subqueries",
    ← withDefault placementForest .nil fs "schema"⟩

end Decoder

/-! ### Writing -/

/-- The document of a foreign key. -/
def ForeignKey.document (k : ForeignKey) : Document :=
  .record [("columns", .texts k.columns), ("references", .text k.references),
    ("referenced_columns", .texts k.referencedColumns)]

/-- The document of a table. -/
def Table.document (t : Table) : Document :=
  .record [("name", .text t.name), ("columns", .texts t.columns),
    ("primary_key", .texts t.primaryKey),
    ("foreign_keys", .list (t.foreignKeys.map ForeignKey.document))]

/-- The document of a subquery. -/
def Subquery.document (q : Subquery) : Document :=
  .record [("name", .text q.name), ("sql", .text q.sql), ("columns", .texts q.columns)]

/-- A field that is left out when there is no value. -/
def optionalField {α : Type} (name : String) (f : α → Document) :
    Option α → List (String × Document)
  | none => []
  | some a => [(name, f a)]

/-- The document of a join beside a placement. -/
def JoinNote.document (n : JoinNote) : Document :=
  .record (("on", .list (n.on.map fun (p, c) => .texts [p, c])) ::
    (optionalField "expression" .text n.expression ++
      optionalField "kind" (fun k => .text k.name) n.kind))

/-- The documents of the trees of a forest of placements. -/
def placementDocuments : Forest Placement → List Document
  | .nil => []
  | .cons p children rest =>
    .record (("table", .text p.table) :: (optionalField "alias" .text p.rename ++
      optionalField "join" JoinNote.document p.join ++
      [("children", .list (placementDocuments children))])) :: placementDocuments rest

/-- The document of a catalog. -/
def Catalog.document (c : Catalog) : Document :=
  .record [("tables", .list (c.tables.map Table.document)),
    ("subqueries", .list (c.subqueries.map Subquery.document)),
    ("schema", .list (placementDocuments c.schema))]

/-!
## The topology of a catalog

References are replaced by the sources they name, and the joins written beside them become
overrides. Faults are reported in a fixed order: a name declared twice, and then the first faulty
node in pre-order.
-/

namespace JoinNote

/-- The override that a note asks for between two names. -/
def override (n : JoinNote) (parent child : String) : Except SchemaError Override :=
  match n.on, n.expression with
  | [], none => .ok ⟨.inferred, n.kind⟩
  | [], some text => .ok ⟨.expression text, n.kind⟩
  | pairs, none => .ok ⟨.columns pairs, n.kind⟩
  | _, some _ => .error (.invalidTopology (.conflictingJoin parent child))

end JoinNote

/-- An override for the names of a parent and a child. -/
abbrev OverrideEntry := (String × String) × Override

/-- The overrides that a placement below `parent` asks for: none or one. A root may not ask. -/
def Placement.overrides (p : Placement) (parent : Option String) :
    Except SchemaError (List OverrideEntry) :=
  match parent, p.join with
  | _, none => .ok []
  | none, some _ => .error (.invalidTopology (.rootWithJoin p.name))
  | some parent, some note => (note.override parent p.name).map fun o => [((parent, p.name), o)]

/-- A source under another name, if one is given. -/
def Source.renamed (s : Source) : Option String → Source
  | none => s
  | some name =>
    match s with
    | .table t => .aliased name t
    | .aliased _ t => .aliased name t
    | .subquery q => .subquery { q with name := name }

namespace Catalog

/-- The declared sources: tables with all their key columns, then subqueries. -/
def sources (c : Catalog) : List Source :=
  c.tables.map (fun t => .table t.withKeyColumns) ++ c.subqueries.map .subquery

/-- The source that a placement refers to. -/
def resolve (sources : List Source) (p : Placement) : Except SchemaError Source :=
  match sources.find? (·.name == p.table) with
  | some s => .ok (s.renamed p.rename)
  | none => .error (.invalidTopology (.undeclared p.table))

/-- The forest of sources below `parent` with the overrides asked for, both in pre-order. The
first fault in pre-order ends the work, where the join of a node is looked at before its name. -/
def arrange (sources : List Source) :
    Option String → Forest Placement → Except SchemaError (Topology × List OverrideEntry)
  | _, .nil => .ok (.nil, [])
  | parent, .cons p children rest => do
    let own ← p.overrides parent
    let source ← resolve sources p
    let (below, inner) ← arrange sources (some p.name) children
    let (after, others) ← arrange sources parent rest
    return (.cons source below after, own ++ inner ++ others)

/-- Overrides from a list, where later ones replace earlier ones for the same pair. -/
def collect (entries : List OverrideEntry) : Overrides :=
  entries.foldl (fun os ((parent, child), o) => os.insert parent child o) .empty

/-- The topology of a catalog and its overrides. No name may be declared twice. -/
def topology (c : Catalog) : Except SchemaError (Topology × Overrides) :=
  match firstRepeat? [] (c.sources.map Source.name) with
  | some name => .error (.invalidTopology (.declaredTwice name))
  | none => (arrange c.sources none c.schema).map fun (t, entries) => (t, collect entries)

/-- The schema of a catalog. -/
def build (c : Catalog) (settings : BuildSettings) : Except SchemaError Schema := do
  let (topology, overrides) ← c.topology
  Schema.build topology overrides settings

end Catalog

/-!
## Catalogs as texts

Reading catalogs from JSON and TOML, given as texts or as files.
-/

/-- Why no schema comes from a text or a file. -/
inductive LoadError where
  /-- The file is missing or is no text. -/
  | unreadable
  /-- The text is not of its format, or its values do not form a catalog. -/
  | malformed (format : Format)
  /-- The catalog makes no schema. -/
  | schema (error : SchemaError)
  deriving DecidableEq, Repr, Inhabited

/-- Wording of an error; what is wrong inside a file is not told. -/
def LoadError.message : LoadError → String
  | unreadable => "IO error"
  | malformed .json => "JSON error"
  | malformed .toml => "TOML error"
  | schema e => e.message

namespace Catalog

/-- The catalog of a text. -/
def parse (format : Format) (text : String) : Except LoadError Catalog :=
  let read := match format with
    | .json => Json.decode? Decoder.catalog text
    | .toml => Toml.decode? Decoder.catalog text
  match read with
  | some c => .ok c
  | none => .error (.malformed format)

/-- The topology and the overrides of a text. -/
def parseTopology (format : Format) (text : String) : Except LoadError (Topology × Overrides) := do
  let c ← parse format text
  c.topology.mapError .schema

/-- The topology and the overrides of a file, whose format its path tells. -/
def loadTopology (read : String → FileContent) (path : String) :
    Except LoadError (Topology × Overrides) := do
  let format ← (Format.ofPath path).mapError .schema
  match read path with
  | .text text => parseTopology format text
  | _ => throw .unreadable

/-- The schema of a text. -/
def parseSchema (format : Format) (text : String) (settings : BuildSettings) :
    Except LoadError Schema := do
  let (topology, overrides) ← parseTopology format text
  (Schema.build topology overrides settings).mapError .schema

/-- The schema of a file, whose format its path tells. -/
def loadSchema (read : String → FileContent) (path : String) (settings : BuildSettings) :
    Except LoadError Schema := do
  let (topology, overrides) ← loadTopology read path
  (Schema.build topology overrides settings).mapError .schema

end Catalog

end JoinForest
