import JoinForest.Document
import JoinForest.Query.Request

set_option autoImplicit false

/-!
# Requests in documents

How requests are read from documents. A part with data, such as a projection, is a record whose
only field tells which part it is; a value to compare with is any scalar.
-/

namespace JoinForest

namespace Decoder

/-- A column of a source. -/
def columnRef : Decoder ColumnRef := fun c d => do
  let fs ← fields ["table", "column"] c d
  return ⟨← required text fs "table", ← required text fs "column"⟩

/-- An entry of the select list. -/
def projection : Decoder Projection := fun c d => do
  let (inner, tag, payload) ← tagged c d
  if tag = "column" then
    return .column (← columnRef inner payload)
  else if tag = "all_columns" then
    return .allColumns (← text inner payload)
  else if tag = "aggregate" then
    let fs ← variantFields ["function", "column", "distinct"] inner payload
    return .aggregate (← required (named Aggregate.ofName?) fs "function")
      (← withDefault (optional columnRef) none fs "column") (← required bool fs "distinct")
  else none

/-- A value to compare with. -/
def value : Decoder Value
  | _, .null => some .null
  | _, .bool b => some (.bool b)
  | _, .number n => Value.ofNumeral? n
  | _, .text s => some (.text s)
  | _, _ => none

/-- A filter. -/
def filter : Decoder Filter := fun c d => do
  let fs ← fields ["column", "op", "value"] c d
  return ⟨← required columnRef fs "column", ← required (named Comparison.ofName?) fs "op",
    ← required value fs "value"⟩

/-- A natural number of 64 bits. -/
def natural : Decoder Nat
  | _, .number n => n.nat64?
  | _, _ => none

/-- A request. -/
def request : Decoder Request := fun c d => do
  let fs ← fields ["projections", "filters", "group_by", "order_by", "limit"] c d
  return ⟨← withDefault (list projection) [] fs "projections",
    ← withDefault (list filter) [] fs "filters",
    ← withDefault (list columnRef) [] fs "group_by",
    ← withDefault (list (pair columnRef (named SortOrder.ofName?))) [] fs "order_by",
    ← withDefault (optional natural) none fs "limit"⟩

end Decoder
end JoinForest
