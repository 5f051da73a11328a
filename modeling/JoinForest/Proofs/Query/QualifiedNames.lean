import JoinForest.Query.Request
import Mathlib.Data.List.Forall2

set_option autoImplicit false

/-!
# Names of columns and tables

A text is read as a column exactly if it is the written form of one, where the table has a name and
the column has one without a dot (`ColumnRef.parse?_eq_some_iff`). The text then has one reading
only (`ColumnRef.IsWritable.eq_of_qualified_eq`), and what it holds of dots before the last one
belongs to the table. So a list of names is read as a select list exactly if each name is that of
its entry, and a text that is no column stands for all columns of the table that it names as a whole
(`Request.ofNames_exact`).
-/

namespace JoinForest

namespace ColumnRef

/-- The column has a written form: no name is empty, and the dot before the column is the last
one. -/
structure IsWritable (c : ColumnRef) : Prop where
  table_ne : c.table ≠ ""
  column_ne : c.column ≠ ""
  dot_notMem : '.' ∉ c.column.toList

theorem toList_qualified (c : ColumnRef) :
    c.qualified.toList = c.table.toList ++ '.' :: c.column.toList := by
  simp [qualified]

/-- A written column is read as itself. -/
theorem IsWritable.parse? {c : ColumnRef} (h : c.IsWritable) : parse? c.qualified = some c := by
  have htable : c.table.toList.isEmpty = false := by simpa using h.table_ne
  have hcolumn : c.column.toList.isEmpty = false := by simpa using h.column_ne
  rw [ColumnRef.parse?, toList_qualified, splitLastDot_append _ h.dot_notMem]
  simp [htable, hcolumn]

/-- A text is read as a column exactly if it is its written form. -/
theorem parse?_eq_some_iff {text : String} {c : ColumnRef} :
    parse? text = some c ↔ text = c.qualified ∧ c.IsWritable := by
  constructor
  · intro h
    rw [ColumnRef.parse?] at h
    split at h
    · next table column hsplit =>
      obtain ⟨htext, hdot⟩ := splitLastDot_eq_some hsplit
      split at h
      · cases h
      · next hempty =>
        obtain rfl := Option.some.inj h
        simp only [Bool.or_eq_true, List.isEmpty_iff, not_or] at hempty
        refine ⟨String.toList_inj.1 ?_, ?_, ?_, ?_⟩
        · rw [toList_qualified, String.toList_ofList, String.toList_ofList, htext]
        · simpa using hempty.1
        · simpa using hempty.2
        · simpa using hdot
    · cases h
  · rintro ⟨rfl, h⟩
    exact h.parse?

/-- No two columns have the same written form. -/
theorem IsWritable.eq_of_qualified_eq {c d : ColumnRef} (hc : c.IsWritable) (hd : d.IsWritable)
    (h : c.qualified = d.qualified) : c = d := by
  have hparse := hc.parse?
  rw [h, hd.parse?] at hparse
  exact (Option.some.inj hparse).symm

/-- The star stands for a column when it is written. -/
theorem isWritable_star {table : String} (h : table ≠ "") :
    (⟨table, "*"⟩ : ColumnRef).IsWritable where
  table_ne := h
  column_ne := (by decide : "*" ≠ "")
  dot_notMem := (by decide : '.' ∉ "*".toList)

theorem qualified_star (table : String) : (⟨table, "*"⟩ : ColumnRef).qualified = table ++ ".*" := by
  apply String.toList_inj.1
  simp [qualified]

end ColumnRef

namespace Projection

/-- The names of an entry of a select list: `table.column` for one column, where a star is none, and
for all columns `table.*` or the name of the table, if that has no other reading. -/
inductive NamedBy : Projection → String → Prop
  | column {c : ColumnRef} : c.IsWritable → c.column ≠ "*" → NamedBy (column c) c.qualified
  | star {table : String} : table ≠ "" → NamedBy (allColumns table) (table ++ ".*")
  | table {text : String} : (∀ c : ColumnRef, c.IsWritable → text ≠ c.qualified) →
      NamedBy (allColumns text) text

/-- An entry is found again from its name. -/
theorem NamedBy.ofText {p : Projection} {name : String} (h : p.NamedBy name) : ofText name = p := by
  cases h with
  | column hc hstar => simp [Projection.ofText, hc.parse?, hstar]
  | star ht =>
    rw [← ColumnRef.qualified_star, Projection.ofText, (ColumnRef.isWritable_star ht).parse?]
    rfl
  | table hnone =>
    cases hparse : ColumnRef.parse? name with
    | none => rw [Projection.ofText, hparse]
    | some c =>
      obtain ⟨htext, hc⟩ := ColumnRef.parse?_eq_some_iff.1 hparse
      exact absurd htext (hnone c hc)

/-- A text is the name of the entry that it is read as. -/
theorem namedBy_ofText (text : String) : (ofText text).NamedBy text := by
  rw [ofText]
  cases hparse : ColumnRef.parse? text with
  | none =>
    refine .table fun c hc htext => ?_
    rw [htext, hc.parse?] at hparse
    cases hparse
  | some c =>
    obtain ⟨rfl, hc⟩ := ColumnRef.parse?_eq_some_iff.1 hparse
    obtain ⟨table, column⟩ := c
    by_cases hstar : column = "*"
    · subst hstar
      rw [ColumnRef.qualified_star]
      exact .star hc.table_ne
    · simp only [beq_iff_eq, hstar, if_false]
      exact .column hc hstar

/-- A text is read as the projection it names, and as no other. -/
theorem ofText_eq_iff {text : String} {p : Projection} : ofText text = p ↔ p.NamedBy text := by
  constructor
  · rintro rfl
    exact namedBy_ofText text
  · exact NamedBy.ofText

end Projection

/-- A text is a column exactly if it is the written form of one, of which there is at most one. A
list of names is read as a select list exactly if each is the name of its entry. -/
theorem Request.ofNames_exact :
    (∀ (text : String) (c : ColumnRef),
      ColumnRef.parse? text = some c ↔ text = c.qualified ∧ c.IsWritable) ∧
    (∀ c d : ColumnRef, c.IsWritable → d.IsWritable → c.qualified = d.qualified → c = d) ∧
    ∀ (names : List String) (projections : List Projection),
      Request.ofNames names = { projections := projections } ↔
        List.Forall₂ Projection.NamedBy projections names := by
  refine ⟨fun _ _ => ColumnRef.parse?_eq_some_iff,
    fun _ _ hc hd => hc.eq_of_qualified_eq hd, fun names projections => ?_⟩
  have hsame : Request.ofNames names = { projections := projections } ↔
      names.map Projection.ofText = projections := by
    simp [Request.ofNames]
  rw [hsame, ← List.forall₂_eq_eq_eq, List.forall₂_map_left_iff]
  constructor
  · intro h
    exact h.flip.imp fun _ _ hname => Projection.ofText_eq_iff.1 hname
  · intro h
    exact h.flip.imp fun _ _ hname => Projection.ofText_eq_iff.2 hname

/-- A table whose name has dots at both ends and a star, one with a dot in its name, and one that is
named as a whole. -/
theorem Sample.ofNames_dotted :
    (⟨".a.*.", "b"⟩ : ColumnRef).IsWritable ∧
      Request.ofNames [".a.*..b", "a.b.*", ".*"] =
        { projections := [.column ⟨".a.*.", "b"⟩, .allColumns "a.b", .allColumns ".*"] } := by
  have hcolumn : (⟨".a.*.", "b"⟩ : ColumnRef).IsWritable := ⟨by decide, by decide, by decide⟩
  refine ⟨hcolumn, (Request.ofNames_exact.2.2 _ _).2 ?_⟩
  refine .cons (.column hcolumn (by decide)) (.cons (.star (by decide)) (.cons (.table ?_) .nil))
  intro c hc htext
  have hnone : ColumnRef.parse? ".*" = none := by decide
  have hparse := (Request.ofNames_exact.1 _ _).2 ⟨htext, hc⟩
  rw [hnone] at hparse
  cases hparse

end JoinForest
