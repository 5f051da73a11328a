import JoinForest.Join
import JoinForest.Number

set_option autoImplicit false

/-!
# Requests

What a caller wants selected: columns, whole tables and aggregates, with filters, grouping,
order and a limit. Columns are named by the exposed names of sources; no joins are mentioned.
-/

namespace JoinForest

/-! ## Parts of a request -/

/-- A function over the rows of a group. -/
inductive Aggregate where
  | count
  | sum
  | avg
  | min
  | max
  deriving DecidableEq, Repr, Inhabited

namespace Aggregate

/-- The name used in requests. -/
def name : Aggregate → String
  | count => "count"
  | sum => "sum"
  | avg => "avg"
  | min => "min"
  | max => "max"

/-- The name used in queries. -/
def keyword : Aggregate → String
  | count => "COUNT"
  | sum => "SUM"
  | avg => "AVG"
  | min => "MIN"
  | max => "MAX"

/-- The function of a name. -/
def ofName? (name : String) : Option Aggregate :=
  [count, sum, avg, min, max].find? (·.name == name)

end Aggregate

/-- An entry of the select list. An aggregate without a column takes whole rows. -/
inductive Projection where
  | column (column : ColumnRef)
  | allColumns (table : String)
  | aggregate (function : Aggregate) (column : Option ColumnRef) (distinct : Bool)
  deriving DecidableEq, Repr, Inhabited

namespace Projection

/-- The source that an entry reads from, if any. -/
def table? : Projection → Option String
  | column c => some c.table
  | allColumns t => some t
  | aggregate _ c _ => c.map ColumnRef.table

/-- The column that an entry mentions, if any. -/
def column? : Projection → Option ColumnRef
  | column c => some c
  | allColumns _ => none
  | aggregate _ c _ => c

end Projection

/-- A comparison between a column and a value. -/
inductive Comparison where
  | eq
  | notEq
  | lt
  | ltEq
  | gt
  | gtEq
  | like
  deriving DecidableEq, Repr, Inhabited

namespace Comparison

/-- The name used in requests. -/
def name : Comparison → String
  | eq => "eq"
  | notEq => "not_eq"
  | lt => "lt"
  | ltEq => "lt_eq"
  | gt => "gt"
  | gtEq => "gt_eq"
  | like => "like"

/-- The operator used in queries. -/
def symbol : Comparison → String
  | eq => "="
  | notEq => "<>"
  | lt => "<"
  | ltEq => "<="
  | gt => ">"
  | gtEq => ">="
  | like => "LIKE"

/-- The comparison of a name. -/
def ofName? (name : String) : Option Comparison :=
  [eq, notEq, lt, ltEq, gt, gtEq, like].find? (·.name == name)

end Comparison

/-- A value that columns are compared with. -/
inductive Value where
  | null
  | bool (value : Bool)
  | integer (value : Int)
  | float (value : Binary)
  | text (value : String)
  deriving DecidableEq, Repr, Inhabited

/-- The number as a value: a whole number of 64 bits other than `-0` as it is, any other as the
nearest binary number, and none when that is infinite. -/
def Value.ofNumeral? (n : Numeral) : Option Value :=
  match n.int64? with
  | some i => some (.integer i)
  | none =>
    let x := n.toBinary
    if x.isFinite then some (.float x) else none

/-- A condition on the rows selected; all filters of a request have to hold. -/
structure Filter where
  column : ColumnRef
  comparison : Comparison
  value : Value
  deriving DecidableEq, Repr, Inhabited

/-- The direction of an order. -/
inductive SortOrder where
  | asc
  | desc
  deriving DecidableEq, Repr, Inhabited

namespace SortOrder

/-- The name used in requests. -/
def name : SortOrder → String
  | asc => "asc"
  | desc => "desc"

/-- The word used in queries. -/
def keyword : SortOrder → String
  | asc => "ASC"
  | desc => "DESC"

/-- The order of a name. -/
def ofName? (name : String) : Option SortOrder := [asc, desc].find? (·.name == name)

end SortOrder

/-! ## Requests -/

/-- What a caller wants selected. -/
structure Request where
  projections : List Projection := []
  filters : List Filter := []
  groupBy : List ColumnRef := []
  orderBy : List (ColumnRef × SortOrder) := []
  limit : Option Nat := none
  deriving DecidableEq, Repr, Inhabited

/-- Puts a name into a sorted list without repeats. -/
def insertName (name : String) : List String → List String
  | [] => [name]
  | n :: rest =>
    if name = n then n :: rest
    else if name < n then name :: n :: rest
    else n :: insertName name rest

/-- The names of a list, sorted and without repeats. -/
def sortedNames (names : List String) : List String := names.foldr insertName []

namespace Projection

/-- The entry that a text names: `table.column`, `table.*`, or a table, all of whose columns are
meant. -/
def ofText (text : String) : Projection :=
  match ColumnRef.parse? text with
  | some c => if c.column == "*" then allColumns c.table else column c
  | none => allColumns text

end Projection

namespace Request

/-- The request for some columns and tables by name. -/
def ofNames (names : List String) : Request := { projections := names.map Projection.ofText }

/-- The columns a request mentions: in projections, filters, grouping and order. -/
def columns (r : Request) : List ColumnRef :=
  r.projections.filterMap Projection.column? ++ r.filters.map Filter.column ++ r.groupBy ++
    r.orderBy.map (·.1)

/-- The sources a request mentions, sorted. -/
def tables (r : Request) : List String :=
  sortedNames (r.projections.filterMap Projection.table? ++ r.columns.map ColumnRef.table)

end Request
end JoinForest
