import JoinForest.Proofs.Query.Assembly
import JoinForest.Proofs.Query.Lexeme
import JoinForest.Proofs.Schema.Joins
import JoinForest.Proofs.Schema.Plan
import JoinForest.Query.Sql

set_option autoImplicit false

/-!
# Scopes of statements

Every entry of the FROM clause exposes one identifier, and columns are qualified with identifiers of
that kind. In a statement that is made of a request no two entries expose the same identifier, every
qualifier is exposed by one of them, and a join by columns equates columns of its own entry with
columns of one that stands before it (`Statement.Scoped`, `Reachable.scoped_select`).
-/

namespace JoinForest

/-! ## Exposed identifiers -/

namespace TableSource

/-- The pieces by which an entry is referred to: what stands behind AS, or the relation where
there is no AS. -/
def exposedPieces : TableSource → List Piece
  | table n => relationPieces n
  | aliased _ n => [.name n.toList]
  | subquery _ n => [.name n.toList]

/-- The identifier that an entry exposes. -/
def exposed (options : RenderOptions) (t : TableSource) : List Char :=
  t.exposedPieces.flatMap (Piece.chars options)

/-- An entry as it is written in a statement. -/
def text (options : RenderOptions) (t : TableSource) : List Char :=
  t.pieces.flatMap (Piece.chars options)

/-- The pieces of an entry end with those by which it is referred to, alone or behind AS. -/
theorem pieces_eq_exposedPieces (t : TableSource) :
    t.pieces = t.exposedPieces ∨
      ∃ before, t.pieces = before ++ [.blank, .word "AS", .blank] ++ t.exposedPieces := by
  cases t with
  | table n => exact Or.inl rfl
  | aliased relation n => exact Or.inr ⟨relationPieces relation, by simp [pieces, exposedPieces]⟩
  | subquery sql n =>
    exact Or.inr ⟨[.word "(", .raw sql, .word ")"], by simp [pieces, exposedPieces]⟩

/-- What an entry exposes stands at the end of its text, alone or behind AS. -/
theorem text_eq_exposed (options : RenderOptions) (t : TableSource) :
    t.text options = t.exposed options ∨
      ∃ before, t.text options = before ++ " AS ".toList ++ t.exposed options := by
  rcases t.pieces_eq_exposedPieces with hpieces | ⟨before, hpieces⟩
  · exact Or.inl (congrArg (List.flatMap (Piece.chars options)) hpieces)
  · refine Or.inr ⟨before.flatMap (Piece.chars options), ?_⟩
    rw [text, hpieces, List.flatMap_append, List.flatMap_append]
    rfl

/-- The entry exposes the identifier that columns are qualified with. -/
def ExposesName (options : RenderOptions) (t : TableSource) : Prop :=
  t.exposed options = identifier options.quoteIdentifiers t.name.toList

/-- A table whose name has no dot is exposed under its own name. -/
theorem exposesName_of_dot_notMem (options : RenderOptions) {n : String} (h : '.' ∉ n.toList) :
    (table n).ExposesName options := by
  simp [ExposesName, exposed, exposedPieces, relationPieces, dotParts_of_dot_notMem h, separated,
    Piece.chars, name, List.intercalate]

/-- A name with a dot is given again behind AS, so entries expose their whole names. -/
theorem exposesName_ofSource (options : RenderOptions) (s : Source) :
    (ofSource s).ExposesName options := by
  rw [ofSource]
  split
  · split
    · next h =>
      simp only [Bool.and_eq_true, Bool.not_eq_true', List.contains_eq_mem,
        decide_eq_false_iff_not] at h
      exact exposesName_of_dot_notMem options h.2
    · simp [ExposesName, exposed, exposedPieces, Piece.chars, name]
  · simp [ExposesName, exposed, exposedPieces, Piece.chars, name]

end TableSource

/-! ## Scopes -/

namespace Statement

/-- The names that qualify columns in the select list, the filters, the grouping and the order. -/
def qualifiers (st : Statement) : List String :=
  st.projections.filterMap Projection.table? ++ st.filters.map (·.column.table) ++
    st.groupBy.map ColumnRef.table ++ st.orderBy.map (·.1.table)

/-- The identifiers that the entries of the FROM clause expose. -/
def exposed (options : RenderOptions) (st : Statement) : List (List Char) :=
  st.source.sources.map (TableSource.exposed options)

/-- The names in a statement can be resolved as they were meant by the plan. -/
structure Scoped (st : Statement) (p : Plan) (options : RenderOptions) : Prop where
  /-- The entries are those of the plan's tables. -/
  names_eq : st.source.sources.map TableSource.name = p.tables
  /-- Each exposes the identifier that its columns are qualified with. -/
  exposes_name : ∀ t ∈ st.source.sources, t.ExposesName options
  /-- What an entry exposes stands at the end of its text, alone or behind AS. -/
  text_eq_exposed : ∀ t ∈ st.source.sources, t.text options = t.exposed options ∨
    ∃ before, t.text options = before ++ " AS ".toList ++ t.exposed options
  /-- No identifier is exposed twice. -/
  exposed_nodup : (st.exposed options).Nodup
  /-- Every qualifier is exposed by exactly one entry. -/
  qualifier_exposed : ∀ q ∈ st.qualifiers,
    (st.exposed options).count (identifier options.quoteIdentifiers q.toList) = 1
  /-- A join reads from an entry before it, and by columns from this entry and its own only. -/
  join_relates : ∀ before clause after, st.source.joins = before ++ clause :: after →
    ∃ step, p.steps[before.length]? = some step ∧ clause.condition = step.condition ∧
      (step.parent = st.source.root.name ∨ step.parent ∈ before.map (·.source.name)) ∧
        clause.condition.Relates step.parent clause.source.name

/-- What is exposed are the identifiers of the entries' names. -/
theorem exposed_eq {st : Statement} {options : RenderOptions}
    (h : ∀ t ∈ st.source.sources, t.ExposesName options) :
    st.exposed options = (st.source.sources.map TableSource.name).map
      (fun n => identifier options.quoteIdentifiers n.toList) := by
  rw [exposed, List.map_map]
  exact List.map_congr_left h

end Statement

theorem identifier_toList_injective (always : Bool) :
    Function.Injective fun n : String => identifier always n.toList :=
  (identifier_injective always).comp fun _ _ h => String.ext h

/-- Qualifiers are tables that the request mentions. -/
theorem Statement.Follows.mem_tables_of_mem_qualifiers {st : Statement} {p : Plan} {r : Request}
    (h : st.Follows p r) {q : String} (hq : q ∈ st.qualifiers) : q ∈ r.tables := by
  rw [h.parts_eq] at hq
  simp only [qualifiers, List.mem_append, List.mem_filterMap, List.mem_map] at hq
  rw [Request.mem_tables]
  simp only [Request.columns, List.mem_append, List.mem_map]
  rcases hq with ((hq | ⟨f, hf, rfl⟩) | ⟨c, hc, rfl⟩) | ⟨co, hco, rfl⟩
  · exact Or.inl hq
  · exact Or.inr ⟨f.column, Or.inl (Or.inl (Or.inr ⟨f, hf, rfl⟩)), rfl⟩
  · exact Or.inr ⟨c, Or.inl (Or.inr hc), rfl⟩
  · exact Or.inr ⟨co.1, Or.inr ⟨co, hco, rfl⟩, rfl⟩

namespace Sample

/-- The sales of the products whose brands come from one country. -/
def countryRequest : Request :=
  { projections := [.allColumns "sales", .aggregate .count (some ⟨"product", "id"⟩) true]
    filters := [⟨⟨"country", "id"⟩, .eq, .text "it's"⟩]
    groupBy := [⟨"sales", "product_id"⟩] }

end Sample

end JoinForest
