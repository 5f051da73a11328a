import JoinForest.Proofs.Query.Readable
import JoinForest.Proofs.Query.Scanning
import Mathlib

set_option autoImplicit false

/-!
# The grammar of statements

Sources, joins, entries and clauses are told from their tokens, as long as what follows does not go
on with them (`readable_source`, `readable_join`, `readable_clause`).
-/

namespace JoinForest

/-!
## The grammar of sources and joins

Columns, relations, entries of a FROM clause and joins are told from their tokens, as long as what
follows does not go on with them (`readable_source`, `readable_join`).
-/

namespace Lexeme

/-- The token of a keyword. -/
def kw (word : String) : Lexeme := keyword word.toList

/-- The token of an operator or a mark. -/
def sym (symbol : String) : Lexeme := mark symbol.toList

end Lexeme

open Lexeme (kw sym)

/-! ### Tokens of lists -/

theorem tokensOf_append (pieces later : List Piece) :
    tokensOf (pieces ++ later) = tokensOf pieces ++ tokensOf later :=
  List.flatMap_append

theorem tokensOf_separated (divider : List Piece) (groups : List (List Piece)) :
    tokensOf (separated divider groups) =
      (tokensOf divider).intercalate (groups.map tokensOf) := by
  induction groups with
  | nil => rfl
  | cons g groups ih =>
    cases groups with
    | nil => simp [separated]
    | cons g' groups =>
      rw [separated] at ih ⊢
      rw [List.intercalate_cons_cons, tokensOf_append, tokensOf_append, ih, List.map_cons,
        List.map_cons, List.map_cons, List.intercalate_cons_cons]

variable {follow : List Lexeme}

/-! ### Columns and relations -/

theorem tokensOf_column (c : ColumnRef) :
    tokensOf c.pieces = [.name c.table.toList, sym ".", .name c.column.toList] := rfl

theorem readable_column (follow : List Lexeme) :
    Readable (fun _ : ColumnRef => True) follow fun c => tokensOf c.pieces := by
  intro a b r s _ _ _ _ heq
  simp only [tokensOf_column, List.cons_append, List.nil_append, List.cons.injEq,
    Lexeme.name.injEq, String.toList_inj, true_and] at heq
  obtain ⟨htable, hcolumn, hrs⟩ := heq
  exact ⟨by cases a; cases b; simp_all, hrs⟩

theorem tokensOf_relation (n : String) :
    tokensOf (relationPieces n) =
      [sym "."].intercalate ((dotParts n.toList).map fun part => [.name part]) := by
  rw [relationPieces, tokensOf_separated, List.map_map]
  rfl

/-- The parts of a dotted relation are read back unless a dot follows. -/
theorem readable_relation (hdot : sym "." ∉ follow) :
    Readable (fun _ : String => True) follow fun n => tokensOf (relationPieces n) := by
  have hpart : Readable (fun _ : List Char => True) (sym "." :: follow)
      fun part => [Lexeme.name part] := by
    intro a b r s _ _ _ _ heq
    simpa using heq
  refine (hpart.separated hdot).comp (fun n : String => dotParts n.toList) ?_ ?_ ?_
  · intro n _
    exact ⟨dotParts_ne_nil n.toList, fun _ _ => trivial⟩
  · intro n _
    exact tokensOf_relation n
  · intro n m _ _ h
    have hjoin := congrArg ['.'].intercalate h
    rw [intercalate_dotParts, intercalate_dotParts] at hjoin
    exact String.toList_inj.1 hjoin

/-! ### Sources -/

/-- The relation of an entry, and the name that it is given. -/
def TableSource.parts : TableSource → String × Option String
  | table n => (n, none)
  | aliased relation n => (relation, some n)
  | subquery sql n => (sql, some n)

/-- The tokens of a name that is given to a relation. -/
def aliasTokens : Option String → List Lexeme
  | none => []
  | some n => [kw "AS", .name n.toList]

/-- Whether there is an alias is told by the word AS, so it must not follow. -/
theorem readable_alias (has : kw "AS" ∉ follow) :
    Readable (fun _ : Option String => True) follow aliasTokens := by
  refine Readable.optional none ?_ rfl ?_
  · intro a b r s ha hb _ _ heq
    obtain ⟨n, rfl⟩ := Option.ne_none_iff_exists'.1 ha.1
    obtain ⟨m, rfl⟩ := Option.ne_none_iff_exists'.1 hb.1
    simpa [aliasTokens, String.toList_inj] using heq
  · intro a ha _
    obtain ⟨n, rfl⟩ := Option.ne_none_iff_exists'.1 ha
    exact ⟨kw "AS", _, rfl, has⟩

theorem readable_source (hdot : sym "." ∉ follow) (has : kw "AS" ∉ follow) :
    Readable TableSource.IsRelation follow fun t => tokensOf t.pieces := by
  have hrelation : Readable (fun _ : String => True) (kw "AS" :: follow)
      fun n => tokensOf (relationPieces n) := by
    refine readable_relation ?_
    rw [List.mem_cons, not_or]
    exact ⟨by decide, hdot⟩
  have hparts := hrelation.seq (readable_alias has) ?_
  · refine hparts.comp TableSource.parts (fun _ _ => ⟨trivial, trivial⟩) ?_ ?_
    · intro t ht
      cases t with
      | table n => exact (List.append_nil _).symm
      | aliased relation n => exact tokensOf_append (relationPieces relation) _
      | subquery sql n => exact absurd rfl (ht sql n)
    · intro t u ht hu heq
      cases t <;> cases u <;> simp_all [TableSource.parts, TableSource.IsRelation]
  · intro a r _ hr
    cases a with
    | none => exact hr.mono (List.subset_cons_self _ follow)
    | some n => exact Begins.cons_iff.2 List.mem_cons_self

/-! ### Joins -/

/-- The tokens of an equality. -/
def pairTokens (pair : ColumnRef × ColumnRef) : List Lexeme :=
  tokensOf pair.1.pieces ++ ([sym "="] ++ tokensOf pair.2.pieces)

theorem readable_pair (follow : List Lexeme) :
    Readable (fun _ : ColumnRef × ColumnRef => True) follow pairTokens := by
  have hpair := Readable.seq_any readable_column ((readable_column follow).prepend [sym "="])
  exact hpair.comp id (fun _ _ => ⟨trivial, trivial⟩) (fun _ _ => rfl) fun _ _ _ _ => id

theorem tokensOf_columns (pairs : List (ColumnRef × ColumnRef)) :
    tokensOf (Condition.columns pairs).pieces = [kw "AND"].intercalate (pairs.map pairTokens) := by
  rw [Condition.pieces, conjunction, tokensOf_separated, List.map_map]
  congr 1

/-- A condition on columns is read back unless what follows goes on with AND. -/
theorem readable_condition (hand : kw "AND" ∉ follow) (hname : ∀ n, Lexeme.name n ∉ follow) :
    Readable Condition.IsColumns follow fun c => tokensOf c.pieces := by
  have hpairs : Readable (fun _ : List (ColumnRef × ColumnRef) => True) follow
      fun pairs => [kw "AND"].intercalate (pairs.map pairTokens) := by
    refine Readable.optional [] ?_ rfl ?_
    · refine ((readable_pair (kw "AND" :: follow)).separated hand).comp id ?_ ?_ ?_
      · intro pairs hpairs
        exact ⟨hpairs.1, fun _ _ => trivial⟩
      · intro pairs _
        rfl
      · intro pairs pairs' _ _ heq
        exact heq
    · intro pairs hpairs _
      obtain ⟨pair, rest, rfl⟩ := List.exists_cons_of_ne_nil hpairs
      rw [intercalate_map_cons]
      exact ⟨_, _, rfl, hname _⟩
  intro c d r s hc hd hr hs heq
  cases c with
  | columns pairs =>
    cases d with
    | columns pairs' =>
      simp only [tokensOf_columns] at heq
      obtain ⟨rfl, hrs⟩ := hpairs trivial trivial hr hs heq
      exact ⟨rfl, hrs⟩
    | expression text => exact absurd rfl (hd text)
  | expression text => exact absurd rfl (hc text)

/-- The tokens of the words for a kind. -/
def kindTokens (k : JoinKind) : List Lexeme := (Piece.word k.keyword).tokens

theorem readable_kind (follow : List Lexeme) :
    Readable (fun _ : JoinKind => True) follow kindTokens := by
  have hinner : kindTokens .inner = [kw "JOIN"] := by decide
  have hleft : kindTokens .leftOuter = [kw "LEFT", kw "OUTER", kw "JOIN"] := by decide
  have hfull : kindTokens .fullOuter = [kw "FULL", kw "OUTER", kw "JOIN"] := by decide
  intro j k r s _ _ _ _ heq
  cases j <;> cases k <;> simp_all [kw]

theorem tokensOf_join (j : JoinClause) :
    tokensOf j.pieces = kindTokens j.kind ++
      (tokensOf j.source.pieces ++ ([kw "ON"] ++ tokensOf j.condition.pieces)) := by
  simp only [JoinClause.pieces, tokensOf_append, List.append_assoc]
  congr 1
  simp [tokensOf, Piece.tokens, kindTokens]

theorem readable_join (hand : kw "AND" ∉ follow) (hname : ∀ n, Lexeme.name n ∉ follow) :
    Readable JoinClause.IsPlain follow fun j => tokensOf j.pieces := by
  have hon := (readable_condition hand hname).prepend [kw "ON"]
  have hsource : Readable TableSource.IsRelation [kw "ON"] fun t => tokensOf t.pieces :=
    readable_source (by decide) (by decide)
  have hrest := hsource.seq hon fun _ _ _ _ => Begins.cons_iff.2 List.mem_cons_self
  refine (Readable.seq_any readable_kind hrest).comp
    (fun j : JoinClause => (j.kind, j.source, j.condition)) ?_ ?_ ?_
  · intro j hj
    exact ⟨trivial, hj⟩
  · intro j _
    exact tokensOf_join j
  · rintro ⟨_, _, _⟩ ⟨_, _, _⟩ _ _ heq
    simpa using heq

end JoinForest

namespace JoinForest

open Lexeme (kw sym)

/-!
## The grammar of entries

Entries of select lists, filters and entries of ORDER BY clauses are told from their tokens
(`readable_projection`, `readable_filter`, `readable_order`), and so are the clauses that such
entries make up (`readable_clause`).
-/

variable {follow : List Lexeme}

/-! ### The select list -/

/-- The tokens of the argument of a function: a column or a star. -/
def argumentTokens : Option ColumnRef → List Lexeme
  | none => [sym "*"]
  | some c => tokensOf c.pieces

/-- The tokens in front of the argument. -/
def distinctTokens (distinct : Bool) : List Lexeme := if distinct then [kw "DISTINCT"] else []

theorem tokensOf_aggregate (f : Aggregate) (c : Option ColumnRef) (distinct : Bool) :
    tokensOf (Projection.aggregate f c distinct).pieces = [.name f.keyword.toList, sym "("] ++
      (distinctTokens distinct ++ (argumentTokens c ++ [sym ")"])) := by
  cases f <;> cases c <;> cases distinct <;> rfl

theorem readable_argument (follow : List Lexeme) :
    Readable (fun _ : Option ColumnRef => True) follow argumentTokens := by
  intro c d r s _ _ hr hs heq
  cases c with
  | none =>
    cases d with
    | none => exact ⟨rfl, (List.cons.inj heq).2⟩
    | some d => simp [argumentTokens, tokensOf_column, sym] at heq
  | some c =>
    cases d with
    | none => simp [argumentTokens, tokensOf_column, sym] at heq
    | some d =>
      obtain ⟨rfl, hrs⟩ := readable_column follow trivial trivial hr hs heq
      exact ⟨rfl, hrs⟩

/-- An argument does not begin with the word DISTINCT, which tells whether it was written. -/
theorem readable_arguments (follow : List Lexeme) :
    Readable (fun _ : Bool × Option ColumnRef => True) follow
      fun a => distinctTokens a.1 ++ argumentTokens a.2 := by
  have hne (c : Option ColumnRef) {r s : List Lexeme}
      (heq : argumentTokens c ++ r = kw "DISTINCT" :: s) : False := by
    cases c <;> simp [argumentTokens, tokensOf_column, sym, kw] at heq
  rintro ⟨d, c⟩ ⟨d', c'⟩ r s _ _ hr hs heq
  cases d with
  | false =>
    cases d' with
    | false =>
      obtain ⟨rfl, hrs⟩ := readable_argument follow trivial trivial hr hs heq
      exact ⟨rfl, hrs⟩
    | true => exact (hne c heq).elim
  | true =>
    cases d' with
    | false => exact (hne c' heq.symm).elim
    | true =>
      obtain ⟨rfl, hrs⟩ := readable_argument follow trivial trivial hr hs (List.cons.inj heq).2
      exact ⟨rfl, hrs⟩

theorem Aggregate.keyword_injective : Function.Injective Aggregate.keyword := by
  intro f g h
  cases f <;> cases g <;> first | rfl | exact absurd h (by decide)

/-- Columns, all columns of a table and aggregates are told apart by their first tokens. -/
theorem readable_projection (follow : List Lexeme) :
    Readable (fun _ : Projection => True) follow fun p => tokensOf p.pieces := by
  have hall (t : String) : tokensOf (Projection.allColumns t).pieces =
      [.name t.toList, sym ".", sym "*"] := rfl
  have hcolumn (c : ColumnRef) : tokensOf (Projection.column c).pieces =
      [.name c.table.toList, sym ".", .name c.column.toList] := rfl
  intro p q r s _ _ hr hs heq
  -- The second and the third token tell the kinds of entries apart.
  cases p with
  | column c =>
    cases q with
    | column d =>
      obtain ⟨rfl, hrs⟩ := readable_column follow trivial trivial hr hs heq
      exact ⟨rfl, hrs⟩
    | allColumns u => simp [hall, hcolumn, sym] at heq
    | aggregate g d distinct => simp [tokensOf_aggregate, hcolumn, sym] at heq
  | allColumns t =>
    cases q with
    | column d => simp [hall, hcolumn, sym] at heq
    | allColumns u => simpa [hall, sym, String.toList_inj] using heq
    | aggregate g d distinct => simp [tokensOf_aggregate, hall, sym] at heq
  | aggregate f c distinct =>
    cases q with
    | column d => simp [tokensOf_aggregate, hcolumn, sym] at heq
    | allColumns u => simp [tokensOf_aggregate, hall, sym] at heq
    | aggregate g d distinct' =>
      simp only [tokensOf_aggregate, List.cons_append, List.nil_append, List.append_assoc,
        List.cons.injEq, Lexeme.name.injEq, String.toList_inj, true_and] at heq
      obtain ⟨hkeyword, heq⟩ := heq
      obtain rfl := Aggregate.keyword_injective hkeyword
      have hmark (r : List Lexeme) : Begins [sym ")"] (sym ")" :: r) :=
        Begins.cons_iff.2 (List.mem_singleton.2 rfl)
      rw [← List.append_assoc, ← List.append_assoc] at heq
      obtain ⟨harguments, hrest⟩ :=
        readable_arguments [sym ")"] (a := (distinct, c)) (b := (distinct', d)) trivial trivial
          (hmark r) (hmark s) heq
      obtain ⟨rfl, rfl⟩ := Prod.mk.inj harguments
      exact ⟨rfl, (List.cons.inj hrest).2⟩

/-! ### Filters -/

/-- Among the values that are written exactly, only the missing one asks for `IS NULL`. -/
theorem Value.isMissing_iff {v : Value} (h : v.IsExact) : v.isMissing = true ↔ v = null := by
  cases v with
  | float x => exact absurd rfl (h x)
  | _ => simp [isMissing]

/-- The token of a value. -/
def Value.token : Value → Lexeme
  | null => kw "NULL"
  | bool true => kw "TRUE"
  | bool false => kw "FALSE"
  | integer n => .number (toString n).toList
  | float x => .number x.text.toList
  | text t => .text t.toList

theorem Value.tokens_piece {v : Value} (h : v.IsExact) : v.piece.tokens = [v.token] := by
  cases v with
  | null => decide
  | bool b => cases b <;> decide
  | integer n => rfl
  | float x => exact absurd rfl (h x)
  | text t => rfl

theorem Value.token_inj {v w : Value} (hv : v.IsExact) (hw : w.IsExact) (h : v.token = w.token) :
    v = w := by
  cases v with
  | null =>
    cases w with
    | null => rfl
    | bool b => cases b <;> exact absurd h (by decide)
    | float x => exact absurd rfl (hw x)
    | _ => cases h
  | bool b =>
    cases w with
    | null => cases b <;> exact absurd h (by decide)
    | bool c => cases b <;> cases c <;> first | rfl | exact absurd h (by decide)
    | float x => exact absurd rfl (hw x)
    | _ => cases b <;> cases h
  | integer n =>
    cases w with
    | integer m =>
      rw [token, token, Lexeme.number.injEq, String.toList_inj] at h
      rw [Int.repr_injective h]
    | bool c => cases c <;> cases h
    | float x => exact absurd rfl (hw x)
    | _ => cases h
  | float x => exact absurd rfl (hv x)
  | text t =>
    cases w with
    | text u =>
      rw [token, token, Lexeme.text.injEq, String.toList_inj] at h
      rw [h]
    | bool c => cases c <;> cases h
    | float x => exact absurd rfl (hw x)
    | _ => cases h

/-- The token of a comparison. -/
def Comparison.token : Comparison → Lexeme
  | like => kw "LIKE"
  | c => sym c.symbol

theorem Comparison.tokens_symbol (c : Comparison) : (Piece.word c.symbol).tokens = [c.token] := by
  cases c <;> decide

theorem Comparison.token_injective : Function.Injective Comparison.token := by
  intro c d h
  cases c <;> cases d <;> first | rfl | exact absurd h (by decide)

/-- The tokens of what a filter asks of its column. -/
def testTokens (test : Comparison × Value) : List Lexeme :=
  match test.1, test.2.isMissing with
  | .eq, true => [kw "IS", kw "NULL"]
  | .notEq, true => [kw "IS", kw "NOT", kw "NULL"]
  | comparison, _ => [comparison.token, test.2.token]

theorem tokensOf_filter {f : Filter} (h : f.value.IsExact) :
    tokensOf f.pieces = tokensOf f.column.pieces ++ testTokens (f.comparison, f.value) := by
  rw [Filter.pieces, tokensOf_append]
  congr 1
  rw [testTokens]
  cases f.comparison <;> cases f.value.isMissing <;>
    simp [tokensOf, Value.tokens_piece h, Comparison.tokens_symbol] <;> rfl

/-- What a filter asks: whether there is a value, or whether there is none, or how the value
compares with another one. -/
theorem testTokens_cases {test : Comparison × Value} (h : test.2.IsExact) :
    (test = (.eq, .null) ∧ testTokens test = [kw "IS", kw "NULL"]) ∨
      (test = (.notEq, .null) ∧ testTokens test = [kw "IS", kw "NOT", kw "NULL"]) ∨
        testTokens test = [test.1.token, test.2.token] := by
  obtain ⟨comparison, value⟩ := test
  by_cases hmissing : value.isMissing = true
  · obtain rfl := (Value.isMissing_iff h).1 hmissing
    cases comparison with
    | eq => exact Or.inl ⟨rfl, rfl⟩
    | notEq => exact Or.inr (Or.inl ⟨rfl, rfl⟩)
    | _ => exact Or.inr (Or.inr rfl)
  · rw [Bool.not_eq_true] at hmissing
    refine Or.inr (Or.inr ?_)
    cases comparison <;> simp [testTokens, hmissing]

/-- The question for a missing value and the comparisons are told apart by their first two tokens.
-/
theorem readable_test (follow : List Lexeme) :
    Readable (fun test : Comparison × Value => test.2.IsExact) follow testTokens := by
  have his (c : Comparison) : c.token ≠ kw "IS" := by cases c <;> decide
  intro test test' r s h h' _ _ heq
  rcases testTokens_cases h with ⟨rfl, ht⟩ | ⟨rfl, ht⟩ | ht
  · rcases testTokens_cases h' with ⟨rfl, ht'⟩ | ⟨rfl, ht'⟩ | ht'
    · exact ⟨rfl, by simpa [ht] using heq⟩
    · simp [ht, ht', kw] at heq
    · simp [ht, ht', (his test'.1).symm] at heq
  · rcases testTokens_cases h' with ⟨rfl, ht'⟩ | ⟨rfl, ht'⟩ | ht'
    · simp [ht, ht', kw] at heq
    · exact ⟨rfl, by simpa [ht] using heq⟩
    · simp [ht, ht', (his test'.1).symm] at heq
  · rcases testTokens_cases h' with ⟨rfl, ht'⟩ | ⟨rfl, ht'⟩ | ht'
    · simp [ht, ht', his] at heq
    · simp [ht, ht', his] at heq
    · rw [ht, ht'] at heq
      simp only [List.cons_append, List.nil_append, List.cons.injEq] at heq
      obtain ⟨hcomparison, hvalue, hrs⟩ := heq
      exact ⟨Prod.ext (Comparison.token_injective hcomparison) (Value.token_inj h h' hvalue), hrs⟩

theorem readable_filter (follow : List Lexeme) :
    Readable (fun f : Filter => f.value.IsExact) follow fun f => tokensOf f.pieces := by
  refine (Readable.seq_any readable_column (readable_test follow)).comp
    (fun f : Filter => (f.column, f.comparison, f.value)) ?_ ?_ ?_
  · intro f hf
    exact ⟨trivial, hf⟩
  · intro f hf
    exact tokensOf_filter hf
  · rintro ⟨_, _, _⟩ ⟨_, _, _⟩ _ _ heq
    simpa using heq

/-! ### Clauses -/

/-- The tokens of a direction. -/
def SortOrder.token : SortOrder → Lexeme
  | asc => kw "ASC"
  | desc => kw "DESC"

theorem SortOrder.tokens_keyword (o : SortOrder) : (Piece.word o.keyword).tokens = [o.token] := by
  cases o <;> decide

theorem readable_order (follow : List Lexeme) :
    Readable (fun _ : ColumnRef × SortOrder => True) follow
      fun entry => tokensOf (orderEntryPieces entry) := by
  have hdirection : Readable (fun _ : SortOrder => True) follow fun o => [o.token] := by
    refine Readable.single ?_ follow
    intro o o' _ _ heq
    cases o <;> cases o' <;> first | rfl | exact absurd heq (by decide)
  refine (Readable.seq_any readable_column hdirection).comp id ?_ ?_ ?_
  · intro co _
    exact ⟨trivial, trivial⟩
  · rintro ⟨c, o⟩ _
    rw [orderEntryPieces, tokensOf_append]
    congr 1
    simp only [tokensOf, List.flatMap_cons, List.flatMap_nil, SortOrder.tokens_keyword]
    rfl
  · intro co co' _ _ heq
    exact heq

/-- A clause without entries has no tokens, not even its keyword. -/
theorem tokensOf_clause (keyword : String) (entries : List Piece) :
    tokensOf (clausePieces keyword entries) =
      if entries = [] then [] else (Piece.word keyword).tokens ++ tokensOf entries := by
  cases entries with
  | nil => rfl
  | cons p entries =>
    simp [clausePieces, tokensOf, Piece.tokens]

/-- A clause begins with its keyword, if with anything. -/
theorem begins_clause {starts rest : List Lexeme} {t : Lexeme} {keyword : String}
    (hkeyword : (Piece.word keyword).tokens = t :: rest) (ht : t ∈ starts)
    (entries : List Piece) : Begins starts (tokensOf (clausePieces keyword entries)) := by
  rw [tokensOf_clause, hkeyword]
  split
  · exact Begins.nil starts
  · exact Begins.cons_iff.2 ht

/-- A clause of entries with one token between each two, left out when there are none. -/
theorem readable_clause {α : Type} {valid : α → Prop} {entry : α → List Piece} {keyword : String}
    {divider : List Piece} {sep t : Lexeme} {rest : List Lexeme}
    (h : Readable valid (sep :: follow) fun a => tokensOf (entry a))
    (hentry : ∀ a, entry a ≠ []) (hdivider : tokensOf divider = [sep])
    (hkeyword : (Piece.word keyword).tokens = t :: rest) (hsep : sep ∉ follow) (ht : t ∉ follow) :
    Readable (fun l : List α => ∀ a ∈ l, valid a) follow
      fun l => tokensOf (clausePieces keyword (separated divider (l.map entry))) := by
  have hne {l : List α} (hl : l ≠ []) : separated divider (l.map entry) ≠ [] := by
    obtain ⟨a, as, rfl⟩ := List.exists_cons_of_ne_nil hl
    rw [separated, intercalate_map_cons]
    exact List.append_ne_nil_of_left_ne_nil (hentry a) _
  have htokens {l : List α} (hl : l ≠ []) :
      tokensOf (clausePieces keyword (separated divider (l.map entry))) =
        (t :: rest) ++ [sep].intercalate (l.map fun a => tokensOf (entry a)) := by
    rw [tokensOf_clause, if_neg (hne hl), tokensOf_separated, hdivider, hkeyword, List.map_map]
    rfl
  refine Readable.optional [] ?_ rfl ?_
  · refine ((h.separated hsep).prepend (t :: rest)).comp id (fun _ => id) ?_ fun _ _ _ _ => id
    intro l hl
    exact htokens hl.1
  · intro l hl _
    exact ⟨t, _, htokens hl, ht⟩

end JoinForest
