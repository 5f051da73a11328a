import JoinForest.Join
import JoinForest.Query.Request
import JoinForest.Schema.Plan
import JoinForest.Text.Reader

set_option autoImplicit false

/-!
# Queries

From a request to the text of a statement: names and texts are written so that they end where they
are meant to end, a builder is led through the plan of a request, and the statement that it makes is
laid out.
-/

namespace JoinForest

/-!
## Names and texts in queries

How a name or a text is written so that it ends where it is meant to end: a name that is a word
and not reserved may stand bare, any other stands in double quotes, and a text in single quotes.
Quotes inside are written twice.
-/

/-- Words that cannot stand as bare names, in lower case. -/
def reservedWords : List String := [
  "all", "and", "as", "asc", "between", "by", "case", "check", "column", "create", "cross",
  "default", "delete", "desc", "distinct", "drop", "else", "end", "exists", "false", "foreign",
  "from", "full", "group", "having", "in", "index", "inner", "insert", "into", "is", "join", "key",
  "left", "like", "limit", "not", "null", "on", "or", "order", "outer", "primary", "references",
  "right", "select", "set", "table", "then", "true", "union", "update", "user", "values", "when",
  "where", "with"]

/-- Whether a character may begin a bare name: a letter of ASCII or an underscore. -/
def isWordStart (c : Char) : Bool := c.isAlpha || c = '_'

/-- Whether a character may stand in a bare name: a letter or digit of ASCII or an underscore. -/
def isWordPart (c : Char) : Bool := c.isAlphanum || c = '_'

/-- Whether a name is a word. -/
def isWord (name : List Char) : Bool :=
  match name with
  | [] => false
  | c :: rest => isWordStart c && rest.all isWordPart

/-- Whether a name is a reserved word, in any case of its letters. -/
def isReserved (name : List Char) : Bool :=
  reservedWords.contains (String.ofList (name.map Char.toLower))

/-- A text in quotes, where quotes inside are written twice. -/
def enquote (mark : Char) (text : List Char) : List Char :=
  mark :: (text.flatMap (fun c => if c = mark then [mark, mark] else [c]) ++ [mark])

/-- A name as it is written: bare if it may be, or else, and always if asked for, in double quotes.
-/
def identifier (always : Bool) (name : List Char) : List Char :=
  if always || !isWord name || isReserved name then enquote '"' name else name

/-!
## From requests to queries

A request is checked against a schema, the joins it needs are planned, and a builder is led
through them: first the root, then each join in the order of the plan, then the request itself.
-/

/-- Something that makes queries: how a root starts one, how a join extends it, and how a request
completes it. -/
structure Builder (From : Type) (Query : Type) where
  start : Entry → From
  join : From → Entry → Step → From
  finish : From → Request → Query

namespace Schema

/-- The plan for all that a request mentions. Unknown tables are reported first, in the order of
their names, and then unknown columns, in the order of the request. -/
def planFor (s : Schema) (r : Request) : Except SchemaError Plan := do
  r.tables.forM fun table => discard (s.lookup table)
  r.columns.forM fun c => do
    let e ← s.lookup c.table
    discard (Source.column (Entry.source e) c.column)
  s.plan r.tables

/-- Leads a builder through a plan. -/
def assemble {From Query : Type} (s : Schema) (b : Builder From Query) (p : Plan) (r : Request) :
    Except SchemaError Query := do
  let root ← s.lookup p.root
  let all ← p.steps.foldlM (fun start step => do
    let child ← s.lookup step.child
    return b.join start child step) (b.start root)
  return b.finish all r

/-- The query that a builder makes of a request. -/
def select {From Query : Type} (s : Schema) (b : Builder From Query) (r : Request) :
    Except SchemaError Query := do
  let p ← s.planFor r
  s.assemble b p r

end Schema

/-- The builder that keeps a line of text for each call it receives. -/
def Builder.record : Builder (List String) (List String) where
  start root := ["from #" ++ toString root.key ++ " " ++ Entry.name root]
  join lines child step :=
    lines ++ [step.kind.keyword ++ " #" ++ toString child.key ++ " " ++ step.parent ++ " -> " ++
      step.child ++ " on " ++ step.condition.text]
  finish lines r :=
    lines ++ ["finish " ++ toString r.projections.length ++ " " ++ toString r.filters.length ++
      " " ++ toString r.orderBy.length]

/-!
## SELECT statements

The parts of a statement, and the builder that makes one of a request. Sources and conditions are
kept apart from their text.
-/

/-- An entry of the FROM clause. -/
inductive TableSource where
  /-- A relation under its own name. -/
  | table (name : String)
  /-- A relation under another name. -/
  | aliased (relation name : String)
  /-- A query under a name. -/
  | subquery (sql name : String)
  deriving DecidableEq, Repr, Inhabited

namespace TableSource

/-- The name that columns of the entry are qualified with. -/
def name : TableSource → String
  | table n => n
  | aliased _ n => n
  | subquery _ n => n

/-- The entry of a source. A name with a dot is one name to the schema and a qualified one to the
database, so such a relation is given its name again. -/
def ofSource (s : Source) : TableSource :=
  match s.relation with
  | .named relation =>
    if relation == s.name && !s.name.toList.contains '.' then table s.name
    else aliased relation s.name
  | .derived sql => subquery sql s.name

end TableSource

/-- A join of the FROM clause. -/
structure JoinClause where
  kind : JoinKind
  source : TableSource
  condition : Condition
  deriving DecidableEq, Repr, Inhabited

/-- The FROM clause: the root's entry, then the joins in order. -/
structure FromClause where
  root : TableSource
  joins : List JoinClause := []
  deriving DecidableEq, Repr, Inhabited

/-- A SELECT statement. -/
structure Statement where
  projections : List Projection
  source : FromClause
  filters : List Filter
  groupBy : List ColumnRef
  orderBy : List (ColumnRef × SortOrder)
  limit : Option Nat
  deriving DecidableEq, Repr, Inhabited

/-- The builder that makes statements. -/
def Builder.statement : Builder FromClause Statement where
  start root := ⟨TableSource.ofSource (Entry.source root), []⟩
  join clause child step :=
    { clause with
      joins := clause.joins ++
        [⟨step.kind, TableSource.ofSource (Entry.source child), step.condition⟩] }
  finish clause r := ⟨r.projections, clause, r.filters, r.groupBy, r.orderBy, r.limit⟩

/-!
## Statements as text

The text of a statement is laid out as a list of pieces: words and operators, names, literals,
blanks and breaks between clauses. Options decide only how a name is written, bare or in quotes,
and what stands at a break, a blank or a line feed.
-/

/-- Options of layout. -/
structure RenderOptions where
  /-- Each clause on a line of its own. -/
  pretty : Bool := false
  /-- Quotes around every name, also where they are not needed. -/
  quoteIdentifiers : Bool := false
  deriving DecidableEq, Repr, Inhabited

/-! ### Pieces -/

/-- A piece of the text of a statement. -/
inductive Piece where
  /-- A keyword, an operator or a mark. -/
  | word (text : String)
  /-- A name. -/
  | name (name : List Char)
  /-- A text literal. -/
  | text (value : String)
  /-- A number. -/
  | number (digits : String)
  /-- Text of a query or a condition as it was given. -/
  | raw (sql : String)
  /-- A blank. -/
  | blank
  /-- A break between two clauses. -/
  | clauseBreak
  deriving DecidableEq, Repr, Inhabited

/-- The text of a piece. -/
def Piece.chars (options : RenderOptions) : Piece → List Char
  | word t => t.toList
  | name n => identifier options.quoteIdentifiers n
  | text v => enquote '\x27' v.toList
  | number d => d.toList
  | raw sql => sql.toList
  | blank => [' ']
  | clauseBreak => if options.pretty then ['\n'] else [' ']

/-- A column with the name of its source. -/
def ColumnRef.pieces (c : ColumnRef) : List Piece :=
  [.name c.table.toList, .word ".", .name c.column.toList]

/-- Some pieces between each two of a list of groups. -/
def separated (divider : List Piece) (groups : List (List Piece)) : List Piece :=
  divider.intercalate groups

/-- Groups with a comma and a blank between them. -/
def commaSeparated (groups : List (List Piece)) : List Piece :=
  separated [.word ",", .blank] groups

/-- Groups with the word AND between them. -/
def conjunction (groups : List (List Piece)) : List Piece :=
  separated [.blank, .word "AND", .blank] groups

/-- A relation, each part of whose name is written on its own. -/
def relationPieces (relation : String) : List Piece :=
  separated [.word "."] ((dotParts relation.toList).map fun part => [.name part])

/-- An entry of the FROM clause. -/
def TableSource.pieces : TableSource → List Piece
  | table n => relationPieces n
  | aliased relation n =>
    relationPieces relation ++ [.blank, .word "AS", .blank, .name n.toList]
  | subquery sql n =>
    [.word "(", .raw sql, .word ")", .blank, .word "AS", .blank, .name n.toList]

/-- A join condition. -/
def Condition.pieces : Condition → List Piece
  | columns pairs =>
    conjunction (pairs.map fun (l, r) => l.pieces ++ [.blank, .word "=", .blank] ++ r.pieces)
  | expression text => [.raw text]

/-- An entry of the select list. -/
def Projection.pieces : Projection → List Piece
  | column c => c.pieces
  | allColumns t => [.name t.toList, .word ".", .word "*"]
  | aggregate f c distinct =>
    [.word f.keyword, .word "("] ++ (if distinct then [.word "DISTINCT", .blank] else []) ++
      (match c with
        | some c => c.pieces
        | none => [.word "*"]) ++ [.word ")"]

/-- A value; numbers that are not finite are written as NULL. -/
def Value.piece : Value → Piece
  | null => .word "NULL"
  | bool true => .word "TRUE"
  | bool false => .word "FALSE"
  | integer n => .number (toString n)
  | float x => if x.isFinite then .number x.text else .word "NULL"
  | text s => .text s

/-- Whether a value is written as NULL. -/
def Value.isMissing : Value → Bool
  | null => true
  | float x => !x.isFinite
  | _ => false

/-- A filter. Equality with a missing value asks whether the column is NULL. -/
def Filter.pieces (f : Filter) : List Piece :=
  f.column.pieces ++ .blank ::
    (match f.comparison, f.value.isMissing with
      | .eq, true => [.word "IS", .blank, .word "NULL"]
      | .notEq, true => [.word "IS", .blank, .word "NOT", .blank, .word "NULL"]
      | comparison, _ => [.word comparison.symbol, .blank, f.value.piece])

/-- A join. -/
def JoinClause.pieces (j : JoinClause) : List Piece :=
  [.clauseBreak, .word j.kind.keyword, .blank] ++ j.source.pieces ++
    [.blank, .word "ON", .blank] ++ j.condition.pieces

/-- A clause that is left out when it has no entries. -/
def clausePieces (keyword : String) (entries : List Piece) : List Piece :=
  if entries.isEmpty then [] else [.clauseBreak, .word keyword, .blank] ++ entries

namespace Statement

/-- The text of a statement in pieces. -/
def pieces (s : Statement) : List Piece :=
  [.word "SELECT", .blank] ++
    (if s.projections.isEmpty then [.word "*"]
      else commaSeparated (s.projections.map Projection.pieces)) ++
    [.clauseBreak, .word "FROM", .blank] ++ s.source.root.pieces ++
    s.source.joins.flatMap JoinClause.pieces ++
    clausePieces "WHERE" (conjunction (s.filters.map Filter.pieces)) ++
    clausePieces "GROUP BY" (commaSeparated (s.groupBy.map ColumnRef.pieces)) ++
    clausePieces "ORDER BY" (commaSeparated
      (s.orderBy.map fun (c, o) => c.pieces ++ [.blank, .word o.keyword])) ++
    (match s.limit with
      | none => []
      | some n => [.clauseBreak, .word "LIMIT", .blank, .number (toString n)])

/-- The text of a statement. -/
def toSql (s : Statement) (options : RenderOptions) : String :=
  String.ofList (s.pieces.flatMap (Piece.chars options))

end Statement

end JoinForest
