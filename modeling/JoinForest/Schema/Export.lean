import JoinForest.Digest.Sha256
import JoinForest.Document
import JoinForest.Schema
import JoinForest.Schema.Plan

set_option autoImplicit false

/-!
# Schemas for other programs

The forms in which a schema and what is found in it are handed on: documents, GraphViz graphs,
fingerprints and outlines.
-/

namespace JoinForest

/-!
## Joins and plans as documents

The form in which columns, joins, edges and plans are handed to other programs.
-/

/-- The document of a column. -/
def ColumnRef.document (c : ColumnRef) : Document :=
  .record [("table", .text c.table), ("column", .text c.column)]

/-- The document of a condition. -/
def Condition.document : Condition → Document
  | .columns pairs =>
    .record [("columns", .list (pairs.map fun (l, r) => .list [l.document, r.document]))]
  | .expression text => .record [("expression", .text text)]

/-- The document of a join. -/
def Join.document (j : Join) : Document :=
  .record [("condition", j.condition.document), ("kind", .text j.kind.name),
    ("overridden", .bool j.overridden)]

/-- The document of an edge. -/
def Edge.document (e : Edge) : Document :=
  .record [("parent", .nat e.parent), ("child", .nat e.child), ("join", e.join.document)]

/-- The document of a step. -/
def Step.document (s : Step) : Document :=
  .record [("parent", .text s.parent), ("child", .text s.child),
    ("condition", s.condition.document), ("kind", .text s.kind.name)]

/-- The document of a plan. -/
def Plan.document (p : Plan) : Document :=
  .record [("root", .text p.root), ("steps", .list (p.steps.map Step.document))]

/-!
## Schemas as GraphViz graphs

Every node and every join of a schema as a statement of the DOT language. Names stand in quoted
strings, where backslashes, double quotes and line feeds are escaped and carriage returns are
left out.
-/

namespace Dot

/-- A character inside a quoted string. -/
def escapeChar (c : Char) : List Char :=
  if c = '\\' then ['\\', '\\']
  else if c = '"' then ['\\', '"']
  else if c = '\n' then ['\\', 'n']
  else if c = '\r' then []
  else [c]

/-- The inside of a quoted string. -/
def escape (text : String) : String := String.ofList (text.toList.flatMap escapeChar)

/-- The lines before the first node. -/
def header : String :=
  "digraph SchemaGraph \x7b\n" ++
  "  rankdir=LR;\n" ++
  "  node [shape=box, style=\"rounded\", fontname=\"Helvetica\", fontsize=10];\n" ++
  "  edge [fontname=\"Helvetica\", fontsize=8];\n" ++
  "\n"

/-- The label of a member: its name and, below it, the relation when that has another name. -/
def label (m : Member) : String :=
  match m.source.relation with
  | .named relation =>
    if relation == m.name then escape m.name
    else escape m.name ++ "\\n(" ++ escape relation ++ ")"
  | .derived _ => escape m.name ++ "\\n(subquery)"

/-- The statement of a node; roots are drawn with a heavier line. -/
def nodeLine (e : Entry) : String :=
  let weight := if e.parent.isNone then ", penwidth=2" else ""
  "  \"" ++ escape (Entry.name e) ++ "\" [label=\"" ++ label e.label ++ "\"" ++ weight ++ "];\n"

/-- The statement of a join between two names; explicit joins are drawn dashed. -/
def edgeLine (parent child : String) (join : Join) : String :=
  let style := if join.overridden then ", style=dashed" else ""
  "  \"" ++ escape parent ++ "\" -> \"" ++ escape child ++ "\" [label=\"" ++ join.kind.name ++
    "\"" ++ style ++ "];\n"

end Dot

namespace Schema

/-- Parent name, child name and join of every edge, ordered by child. -/
def namedEdges (s : Schema) : List (String × String × Join) :=
  s.entries.filterMap fun e =>
    match s.parent? e, e.label.join with
    | some p, some j => some (Entry.name p, Entry.name e, j)
    | _, _ => none

/-- The schema as a graph: header, nodes in pre-order, an empty line, joins, closing brace. -/
def toDot (s : Schema) : String :=
  Dot.header ++ String.join (s.entries.map Dot.nodeLine) ++ "\n" ++
    String.join (s.namedEdges.map fun (p, c, j) => Dot.edgeLine p c j) ++ "\x7d\n"

end Schema

/-!
## Fingerprints

A digest of what the joins of a schema depend on: for every node in pre-order its name, what it
stands for, its parent, and the kind and condition of its join.
-/

/-- What a source stands for, as one text. -/
def Relation.text : Relation → String
  | named n => "table:" ++ n
  | derived sql => "query:" ++ sql

/-- The line of a member below the node `parent`. -/
def Member.canonicalLine (m : Member) (parent : Option String) : String :=
  let above := match parent, m.join with
    | some p, some j => p ++ "|" ++ j.kind.name ++ "|" ++ j.condition.text
    | _, _ => "<root>"
  m.name ++ "|" ++ m.source.relation.text ++ "|" ++ above ++ "\n"

/-- The lines of a forest below the node `parent`, in pre-order. -/
def canonicalLines : Option String → Forest Member → List String
  | _, .nil => []
  | parent, .cons m children rest =>
    m.canonicalLine parent ::
      (canonicalLines (some m.name) children ++ canonicalLines parent rest)

namespace Schema

/-- The text that the fingerprint digests. -/
def canonicalText (s : Schema) : String := String.join (canonicalLines none s.forest)

/-- The SHA-256 digest of the canonical text, in hexadecimal digits. -/
def fingerprint (s : Schema) : String := Sha256.hexDigest s.canonicalText

end Schema

/-!
## Outline of a schema

One line for each node, indented by two spaces for each ancestor.
-/

/-- The lines of a forest at a depth, in pre-order. -/
def outlineLines : Nat → Forest Member → List String
  | _, .nil => []
  | depth, .cons m children rest =>
    (String.ofList (List.replicate (2 * depth) ' ') ++ "└─ " ++ m.name ++ "\n") ::
      (outlineLines (depth + 1) children ++ outlineLines depth rest)

/-- The schema as an indented list of names. -/
def Schema.outline (s : Schema) : String := String.join (outlineLines 0 s.forest)

end JoinForest
