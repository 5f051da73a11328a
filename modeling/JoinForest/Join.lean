import JoinForest.Error
import JoinForest.Source
import JoinForest.Text.Reader

set_option autoImplicit false

/-!
# Joins

Columns, conditions and kinds of joins, overrides, and how the join of a child onto its parent is
made: as an override says, or of the one foreign key that links the two.
-/

namespace JoinForest

/-!
## Joins and overrides

Columns qualified by the name of their source, the condition and kind of a join, and the
overrides that replace what foreign keys would give for a pair of names. Overrides are a map: what
was put under a pair last is what is found there (`get?_insert`).
-/

/-! ### Columns -/

/-- A column of the source exposed as `table`. -/
structure ColumnRef where
  table : String
  column : String
  deriving DecidableEq, Repr, Inhabited

namespace ColumnRef

/-- The form `table.column`. -/
def qualified (c : ColumnRef) : String := c.table ++ "." ++ c.column

/-- Reads `table.column`, where the last dot divides and neither side is empty. -/
def parse? (text : String) : Option ColumnRef :=
  match splitLastDot text.toList with
  | some (table, column) =>
    if table.isEmpty || column.isEmpty then none
    else some ⟨String.ofList table, String.ofList column⟩
  | none => none

end ColumnRef

/-! ### Kinds, conditions, joins -/

/-- Which rows survive without a partner: none, those of the parent, or those of both sides. -/
inductive JoinKind where
  | inner
  | leftOuter
  | fullOuter
  deriving DecidableEq, Repr, Inhabited

namespace JoinKind

/-- The name used in files and in output. -/
def name : JoinKind → String
  | inner => "inner"
  | leftOuter => "left_outer"
  | fullOuter => "full_outer"

/-- The words that introduce the join in a query. -/
def keyword : JoinKind → String
  | inner => "JOIN"
  | leftOuter => "LEFT OUTER JOIN"
  | fullOuter => "FULL OUTER JOIN"

/-- Every kind. -/
def all : List JoinKind := [inner, leftOuter, fullOuter]

/-- The kind of a name. -/
def ofName? (name : String) : Option JoinKind := all.find? (·.name == name)

/-- Every kind has its own name. -/
theorem ofName?_name (k : JoinKind) : ofName? k.name = some k := by
  cases k <;> decide

end JoinKind

/-- When a row of the parent and a row of the child belong together. -/
inductive Condition where
  /-- All pairs are equal; the parent's column stands on the left. -/
  | columns (pairs : List (ColumnRef × ColumnRef))
  /-- A condition given as text. -/
  | expression (text : String)
  deriving DecidableEq, Repr, Inhabited

/-- The condition as text, with plain names. -/
def Condition.text : Condition → String
  | .columns pairs =>
    " AND ".intercalate (pairs.map fun (l, r) => l.qualified ++ " = " ++ r.qualified)
  | .expression text => text

/-- How a child is joined onto its parent; `overridden` tells joins given explicitly from
inferred ones. -/
structure Join where
  condition : Condition
  kind : JoinKind
  overridden : Bool
  deriving DecidableEq, Repr, Inhabited

/-! ### Overrides -/

/-- The condition asked for by an override. -/
inductive OverrideCondition where
  /-- Whatever the foreign keys give. -/
  | inferred
  /-- Equalities between a column of the parent and a column of the child. -/
  | columns (pairs : List (String × String))
  /-- A condition given as text. -/
  | expression (text : String)
  deriving DecidableEq, Repr, Inhabited

/-- A join asked for explicitly; without a kind it takes the default one. -/
structure Override where
  condition : OverrideCondition
  kind : Option JoinKind := none
  deriving DecidableEq, Repr, Inhabited

/-- Whether one pair of names comes before another in the order of their first and then of
their second names. -/
def pairBefore (a b : String × String) : Bool :=
  decide (a.1 < b.1) || (a.1 == b.1 && decide (a.2 < b.2))

/-- Overrides by the names of parent and child, at most one for a pair, sorted by the pairs. -/
structure Overrides where
  entries : List ((String × String) × Override) := []
  deriving DecidableEq, Repr, Inhabited

namespace Overrides

/-- No overrides. -/
def empty : Overrides := ⟨[]⟩

/-- Puts an entry into a list sorted by pairs, in place of one with the same pair. -/
def insertEntry (pair : String × String) (o : Override) :
    List ((String × String) × Override) → List ((String × String) × Override)
  | [] => [(pair, o)]
  | (p, q) :: rest =>
    if p = pair then (pair, o) :: rest
    else if pairBefore pair p then (pair, o) :: (p, q) :: rest
    else (p, q) :: insertEntry pair o rest

/-- The overrides with one more; a later one for the same pair replaces an earlier one. -/
def insert (os : Overrides) (parent child : String) (o : Override) : Overrides :=
  ⟨insertEntry (parent, child) o os.entries⟩

/-- The override for a pair of names. -/
def get? (os : Overrides) (parent child : String) : Option Override :=
  (os.entries.find? (·.1 = (parent, child))).map (·.2)

/-- In the list of entries a new one is found under its own pair, and the others stay. -/
theorem find?_insertEntry (pair asked : String × String) (o : Override)
    (entries : List ((String × String) × Override)) :
    ((insertEntry pair o entries).find? (·.1 = asked)).map (·.2) =
      if asked = pair then some o else (entries.find? (·.1 = asked)).map (·.2) := by
  induction entries with
  | nil => by_cases h : asked = pair <;> simp [insertEntry, h, eq_comm]
  | cons entry rest ih =>
    obtain ⟨p, q⟩ := entry
    by_cases hp : p = pair
    · subst hp
      by_cases h : asked = p <;> simp [insertEntry, h, eq_comm]
    · by_cases hb : pairBefore pair p
      · by_cases h : asked = pair <;> simp [insertEntry, hp, hb, h, List.find?_cons, eq_comm]
      · by_cases ha : p = asked
        · subst ha
          simp [insertEntry, hp, hb]
        · simp [insertEntry, hp, hb, ha, ih]

/-- An override is found under its own pair, and the others stay. -/
theorem get?_insert (os : Overrides) (parent child p c : String) (o : Override) :
    (os.insert parent child o).get? p c =
      if (p, c) = (parent, child) then some o else os.get? p c :=
  find?_insertEntry (parent, child) (p, c) o os.entries

/-- The pairs that have an override, sorted. -/
def pairs (os : Overrides) : List (String × String) := os.entries.map (·.1)

/-- Number of overrides. -/
def size (os : Overrides) : Nat := os.entries.length

end Overrides

/-!
## Inferred and explicit joins

A foreign key can make a join when it refers to the other side's relation and has as many
columns, at least one, as that side offers targets. Exactly one such key between parent and
child gives the join; with none or several of them the join has to be given explicitly.
-/

/-- How joins are made when nothing else is said. -/
structure BuildSettings where
  /-- The kind of a join that names none. -/
  defaultJoinKind : JoinKind := .leftOuter
  /-- Whether keys of the child that refer to the parent count as well. -/
  inferReverseForeignKeys : Bool := true
  deriving DecidableEq, Repr, Inhabited

/-! ### Foreign keys as joins -/

namespace ForeignKey

/-- The columns of `target` that the key refers to: those it lists, or else the primary key. -/
def targets (key : ForeignKey) (target : Source) : List String :=
  if key.referencedColumns.isEmpty then target.primaryKey else key.referencedColumns

/-- The pairs of a key column and its target; none when the numbers of columns differ. -/
def pairs (key : ForeignKey) (target : Source) : List (String × String) :=
  if key.columns.length = (key.targets target).length then key.columns.zip (key.targets target)
  else []

end ForeignKey

namespace Source

/-- The pairs that each foreign key of `s` towards `target` gives, for the keys that give any. -/
def keysTowards (s target : Source) : List (List (String × String)) :=
  ((s.foreignKeys.filter (·.references == target.relationName)).map (·.pairs target)).filter
    (!·.isEmpty)

/-- The conditions that foreign keys offer between parent and child. Keys of the child count
only when `reverse` is set and the two relations differ, so that no key counts twice. -/
def joinCandidates (parent child : Source) (reverse : Bool) : List (List (ColumnRef × ColumnRef)) :=
  let forward := (parent.keysTowards child).map fun pairs =>
    pairs.map fun (key, target) => (⟨parent.name, key⟩, ⟨child.name, target⟩)
  let backward := (child.keysTowards parent).map fun pairs =>
    pairs.map fun (key, target) => (⟨parent.name, target⟩, ⟨child.name, key⟩)
  if reverse && parent.relationName != child.relationName then forward ++ backward else forward

/-- The one condition that foreign keys offer. -/
def inferCondition (parent child : Source) (reverse : Bool) : Except SchemaError Condition :=
  match parent.joinCandidates child reverse with
  | [] => .error (.missingRelation parent.name child.name)
  | [pairs] => .ok (.columns pairs)
  | candidates => .error (.ambiguousJoin parent.name child.name candidates.length)

/-- The qualified form of a column on offer. -/
def column (s : Source) (column : String) : Except SchemaError ColumnRef :=
  if s.hasColumn column then .ok ⟨s.name, column⟩ else .error (.unknownColumn s.name column)

/-- The equalities asked for by pairs of column names; the first column that is not on offer is
reported, the parent's before the child's. -/
def columnPairs (parent child : Source) :
    List (String × String) → Except SchemaError (List (ColumnRef × ColumnRef))
  | [] => .ok []
  | (p, c) :: rest => do
    let left ← parent.column p
    let right ← child.column c
    let others ← columnPairs parent child rest
    return (left, right) :: others

/-- The condition that an override asks for. -/
def overrideCondition (parent child : Source) (reverse : Bool) :
    OverrideCondition → Except SchemaError Condition
  | .inferred => parent.inferCondition child reverse
  | .columns [] => .error (.invalidTopology (.emptyJoin parent.name child.name))
  | .columns pairs => (parent.columnPairs child pairs).map .columns
  | .expression text => .ok (.expression text)

/-- The join of a child onto its parent. -/
def joinWith (parent child : Source) (override : Option Override) (settings : BuildSettings) :
    Except SchemaError Join :=
  match override with
  | none => do
    let condition ← parent.inferCondition child settings.inferReverseForeignKeys
    return ⟨condition, settings.defaultJoinKind, false⟩
  | some o => do
    let condition ← parent.overrideCondition child settings.inferReverseForeignKeys o.condition
    return ⟨condition, o.kind.getD settings.defaultJoinKind, true⟩

end Source

end JoinForest
