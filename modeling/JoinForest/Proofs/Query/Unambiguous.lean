import JoinForest.Proofs.Query.Grammar
import JoinForest.Proofs.Query.Tokens
import JoinForest.Proofs.Query.Scope

set_option autoImplicit false

/-!
# Unambiguous statements

The clauses of a statement are told from its tokens (`readable_statement`), and its tokens from its
text. So the text of a statement without given texts in it says which statement it is
(`Statement.eq_of_toSql_eq`).
-/

namespace JoinForest

open Lexeme (kw sym)

variable {follow : List Lexeme}

/-! ## Statements -/

theorem tokensOf_limit (n : Nat) :
    tokensOf (limitPieces (some n)) = [kw "LIMIT", .number (toString n).toList] := rfl

/-- Whether there is a limit is told by the word LIMIT, so it must not follow. -/
theorem readable_limit (hlimit : kw "LIMIT" ∉ follow) :
    Readable (fun _ : Option Nat => True) follow fun limit => tokensOf (limitPieces limit) := by
  refine Readable.optional none ?_ rfl ?_
  · intro m n r s hm hn _ _ heq
    obtain ⟨m, rfl⟩ := Option.ne_none_iff_exists'.1 hm.1
    obtain ⟨n, rfl⟩ := Option.ne_none_iff_exists'.1 hn.1
    simp only [tokensOf_limit, List.cons_append, List.nil_append, List.cons.injEq,
      Lexeme.number.injEq, String.toList_inj, true_and] at heq
    exact ⟨by rw [Nat.repr_inj.1 heq.1], heq.2⟩
  · intro n hn _
    obtain ⟨n, rfl⟩ := Option.ne_none_iff_exists'.1 hn
    exact ⟨kw "LIMIT", _, tokensOf_limit n, hlimit⟩

theorem begins_limit {starts : List Lexeme} (h : kw "LIMIT" ∈ starts) (limit : Option Nat) :
    Begins starts (tokensOf (limitPieces limit)) := by
  cases limit with
  | none => exact Begins.nil starts
  | some n =>
    rw [tokensOf_limit]
    exact Begins.cons_iff.2 h

/-- The list of projections is read back, and an empty one is the star. -/
theorem readable_projections (hcomma : sym "," ∉ follow) :
    Readable (fun _ : List Projection => True) follow fun l => tokensOf (selectPieces l) := by
  have hsome (p : Projection) (ps : List Projection) : tokensOf (selectPieces (p :: ps)) =
      [sym ","].intercalate ((p :: ps).map fun q => tokensOf q.pieces) := by
    rw [selectPieces, if_neg (by simp), commaSeparated, tokensOf_separated, List.map_map]
    rfl
  have hname (p : Projection) : ∃ n rest, tokensOf p.pieces = .name n :: rest := by
    cases p with
    | column c => exact ⟨_, _, rfl⟩
    | allColumns t => exact ⟨_, _, rfl⟩
    | aggregate f c distinct => exact ⟨_, _, tokensOf_aggregate f c distinct⟩
  have hstar {p : Projection} {ps : List Projection} {r s : List Lexeme}
      (heq : tokensOf (selectPieces (p :: ps)) ++ r = sym "*" :: s) : False := by
    obtain ⟨n, rest, hp⟩ := hname p
    rw [hsome, intercalate_map_cons, hp] at heq
    cases (List.cons.inj heq).1
  have hlist := (readable_projection (sym "," :: follow)).separated hcomma
  intro l l' r s _ _ hr hs heq
  cases l with
  | nil =>
    cases l' with
    | nil => exact ⟨rfl, (List.cons.inj heq).2⟩
    | cons q qs => exact (hstar heq.symm).elim
  | cons p ps =>
    cases l' with
    | nil => exact (hstar heq).elim
    | cons q qs =>
      simp only [hsome] at heq
      exact hlist ⟨by simp, fun _ _ => trivial⟩ ⟨by simp, fun _ _ => trivial⟩ hr hs heq

theorem Statement.tokensOf_pieces (s : Statement) :
    tokensOf s.pieces = [kw "SELECT"] ++ (tokensOf (selectPieces s.projections) ++
      ([kw "FROM"] ++ (tokensOf s.source.root.pieces ++
        (s.source.joins.flatMap (fun j => tokensOf j.pieces) ++
          (tokensOf (wherePieces s.filters) ++ (tokensOf (groupPieces s.groupBy) ++
            (tokensOf (orderPieces s.orderBy) ++ tokensOf (limitPieces s.limit)))))))) := by
  have hselect : tokensOf [.word "SELECT", .blank] = [kw "SELECT"] := by decide
  have hfrom : tokensOf [.clauseBreak, .word "FROM", .blank] = [kw "FROM"] := by decide
  have hjoins : tokensOf (s.source.joins.flatMap JoinClause.pieces) =
      s.source.joins.flatMap fun j => tokensOf j.pieces := List.flatMap_assoc
  simp only [pieces_eq, tokensOf_append, hselect, hfrom, hjoins]

/-- The tokens that a clause behind the FROM clause begins with. -/
def clauseStarts : List Lexeme := [kw "WHERE", kw "GROUP", kw "ORDER", kw "LIMIT"]

/-- The tokens that a join begins with. -/
def joinStarts : List Lexeme := [kw "JOIN", kw "LEFT", kw "FULL"]

/-- Every join begins with one of the words that say its kind. -/
theorem exists_start_of_join (j : JoinClause) :
    ∃ t rest, tokensOf j.pieces = t :: rest ∧ t ∈ joinStarts := by
  rw [tokensOf_join]
  have hkind (k : JoinKind) : ∃ t rest, kindTokens k = t :: rest ∧ t ∈ joinStarts := by
    cases k with
    | inner => exact ⟨kw "JOIN", [], by decide, by decide⟩
    | leftOuter => exact ⟨kw "LEFT", [kw "OUTER", kw "JOIN"], by decide, by decide⟩
    | fullOuter => exact ⟨kw "FULL", [kw "OUTER", kw "JOIN"], by decide, by decide⟩
  obtain ⟨t, rest, hk, ht⟩ := hkind j.kind
  exact ⟨t, _, by rw [hk]; rfl, ht⟩

/-- The joins are read back one after the other, until a clause begins. -/
theorem readable_joins :
    Readable (fun l : List JoinClause => ∀ j ∈ l, j.IsPlain) clauseStarts
      fun l => l.flatMap fun j => tokensOf j.pieces := by
  have hjoin : Readable JoinClause.IsPlain (joinStarts ++ clauseStarts)
      fun j => tokensOf j.pieces := by
    refine readable_join (by decide) ?_
    intro n
    simp [joinStarts, clauseStarts, kw]
  refine hjoin.repeated ?_ (by decide)
  intro j _
  exact exists_start_of_join j

theorem tokens_where : (Piece.word "WHERE").tokens = [kw "WHERE"] := by decide

theorem tokens_groupBy : (Piece.word "GROUP BY").tokens = [kw "GROUP", kw "BY"] := by decide

theorem tokens_orderBy : (Piece.word "ORDER BY").tokens = [kw "ORDER", kw "BY"] := by decide

theorem readable_where :
    Readable (fun l : List Filter => ∀ f ∈ l, f.value.IsExact)
      [kw "GROUP", kw "ORDER", kw "LIMIT"] fun l => tokensOf (wherePieces l) := by
  refine readable_clause (readable_filter (kw "AND" :: _)) ?_ (by decide) tokens_where (by decide)
    (by decide)
  intro f
  simp [Filter.pieces, ColumnRef.pieces]

theorem readable_group :
    Readable (fun l : List ColumnRef => ∀ c ∈ l, True) [kw "ORDER", kw "LIMIT"]
      fun l => tokensOf (groupPieces l) := by
  refine readable_clause (readable_column (sym "," :: _)) ?_ (by decide) tokens_groupBy (by decide)
    (by decide)
  intro c
  simp [ColumnRef.pieces]

theorem readable_orders :
    Readable (fun l : List (ColumnRef × SortOrder) => ∀ entry ∈ l, True) [kw "LIMIT"]
      fun l => tokensOf (orderPieces l) := by
  refine readable_clause (readable_order (sym "," :: _)) ?_ (by decide) tokens_orderBy (by decide)
    (by decide)
  intro entry
  simp [orderEntryPieces]

theorem begins_where {starts : List Lexeme} (h : kw "WHERE" ∈ starts) (filters : List Filter) :
    Begins starts (tokensOf (wherePieces filters)) :=
  begins_clause tokens_where h _

theorem begins_group {starts : List Lexeme} (h : kw "GROUP" ∈ starts) (columns : List ColumnRef) :
    Begins starts (tokensOf (groupPieces columns)) :=
  begins_clause tokens_groupBy h _

theorem begins_orders {starts : List Lexeme} (h : kw "ORDER" ∈ starts)
    (entries : List (ColumnRef × SortOrder)) : Begins starts (tokensOf (orderPieces entries)) :=
  begins_clause tokens_orderBy h _

theorem begins_joins {starts : List Lexeme} (h : joinStarts ⊆ starts) (joins : List JoinClause) :
    Begins starts (joins.flatMap fun j => tokensOf j.pieces) := by
  cases joins with
  | nil => exact Begins.nil starts
  | cons j joins =>
    obtain ⟨t, rest, hj, ht⟩ := exists_start_of_join j
    rw [List.flatMap_cons, hj]
    exact Begins.cons_iff.2 (h ht)

/-- Everything in a statement is told from its tokens. -/
theorem readable_statement :
    Readable Statement.IsPlain [] fun s => tokensOf s.pieces := by
  -- The parts from the last to the first, each with what may follow it.
  have horders := readable_orders.seq_of_begins (readable_limit List.not_mem_nil)
    (List.nil_subset _) fun limit _ => begins_limit (by decide) limit
  have hgroup := readable_group.seq_of_begins horders (List.nil_subset _) fun p _ =>
    (begins_orders (by decide) p.1).append (begins_limit (by decide) p.2)
  have hwhere := readable_where.seq_of_begins hgroup (List.nil_subset _) fun p _ =>
    (begins_group (by decide) p.1).append
      ((begins_orders (by decide) p.2.1).append (begins_limit (by decide) p.2.2))
  have hjoins := readable_joins.seq_of_begins hwhere (List.nil_subset _) fun p _ =>
    (begins_where (by decide) p.1).append ((begins_group (by decide) p.2.1).append
      ((begins_orders (by decide) p.2.2.1).append (begins_limit (by decide) p.2.2.2)))
  have hsource : Readable TableSource.IsRelation (joinStarts ++ clauseStarts)
      fun t => tokensOf t.pieces := readable_source (by decide) (by decide)
  have hclauses := hsource.seq_of_begins hjoins (List.nil_subset _) fun p _ =>
    (begins_joins (by decide) p.1).append ((begins_where (by decide) p.2.1).append
      ((begins_group (by decide) p.2.2.1).append ((begins_orders (by decide) p.2.2.2.1).append
        (begins_limit (by decide) p.2.2.2.2))))
  have hlist : Readable (fun _ : List Projection => True) [kw "FROM"]
      fun l => tokensOf (selectPieces l) := readable_projections (by decide)
  have hstatement := (hlist.seq (hclauses.prepend [kw "FROM"]) fun _ _ _ _ =>
    Begins.cons_iff.2 List.mem_cons_self).prepend [kw "SELECT"]
  refine hstatement.comp (fun s : Statement => (s.projections, s.source.root, s.source.joins,
    s.filters, s.groupBy, s.orderBy, s.limit)) ?_ ?_ ?_
  · intro s hs
    exact ⟨trivial, hs.root, hs.joins, hs.filters, fun _ _ => trivial, fun _ _ => trivial, trivial⟩
  · intro s _
    exact s.tokensOf_pieces
  · rintro ⟨_, ⟨_, _⟩, _, _, _, _⟩ ⟨_, ⟨_, _⟩, _, _, _, _⟩ _ _ heq
    simpa [and_assoc] using heq

/-! ## Texts of statements -/

/-- Two statements without given texts in them are the same if their texts are. -/
theorem Statement.eq_of_toSql_eq {s t : Statement} (options : RenderOptions) (hs : s.IsPlain)
    (ht : t.IsPlain) (h : s.toSql options = t.toSql options) : s = t := by
  have hscans : Scans (t.toSql options).toList (tokensOf s.pieces) := by
    rw [← h]
    exact hs.scans_toSql options
  have htokens : tokensOf s.pieces = tokensOf t.pieces := hscans.unique (ht.scans_toSql options)
  have hwhole : tokensOf s.pieces ++ [] = tokensOf t.pieces ++ [] := by
    rw [List.append_nil, List.append_nil, htokens]
  exact (readable_statement hs ht (Begins.nil []) (Begins.nil []) hwhole).1

namespace Sample

/-- A relation whose name holds a dot, a quote and a keyword, and whose columns do so too. -/
def orders : Source :=
  .table ⟨"shop.\"order\" AS x", ["from", "a.b"], [], [.single "a.b" "SELECT" "it's"]⟩

/-- A relation with a keyword for its name. -/
def choices : Source := .table ⟨"SELECT", ["it's"], ["it's"], []⟩

/-- Orders with the choices below. -/
def quotedSchema : Schema :=
  ⟨.tree ⟨orders, none⟩
    (.tree ⟨choices, some (keyJoin "shop.\"order\" AS x" "a.b" "SELECT" "it's")⟩ .nil)⟩

/-- The orders whose choice has a text for its name that would end a careless quotation. -/
def quotedRequest : Request :=
  { projections := [.column ⟨"shop.\"order\" AS x", "from"⟩]
    filters := [⟨⟨"SELECT", "it's"⟩, .eq, .text "' OR '' = '"⟩]
    limit := some 1 }

/-- The statement for these orders. -/
def quotedStatement : Statement :=
  { projections := [.column ⟨"shop.\"order\" AS x", "from"⟩]
    source := ⟨.aliased "shop.\"order\" AS x" "shop.\"order\" AS x",
      [⟨.leftOuter, .table "SELECT",
        .columns [(⟨"shop.\"order\" AS x", "a.b"⟩, ⟨"SELECT", "it's"⟩)]⟩]⟩
    filters := [⟨⟨"SELECT", "it's"⟩, .eq, .text "' OR '' = '"⟩]
    groupBy := []
    orderBy := []
    limit := some 1 }

theorem reachable_quoted : Reachable quotedSchema :=
  .build (show Schema.build (.tree orders (.tree choices .nil)) .empty {} = .ok quotedSchema
    from rfl)

theorem isPlain_quoted : quotedStatement.IsPlain where
  root := by
    intro sql n h
    cases h
  joins := by
    intro j hj
    obtain rfl := List.mem_singleton.1 hj
    refine ⟨?_, ?_⟩
    · intro sql n h
      cases h
    · intro text h
      cases h
  filters := by
    intro f hf x h
    obtain rfl := List.mem_singleton.1 hf
    cases h

/-- The statement made for these orders is the one that its text says. -/
theorem eq_quoted : Reachable quotedSchema ∧ ∃ s,
    quotedSchema.select Builder.statement quotedRequest = .ok s ∧ s.IsPlain ∧
      quotedStatement.IsPlain ∧ s.toSql {} = quotedStatement.toSql {} ∧ s = quotedStatement :=
  ⟨reachable_quoted, _, rfl, isPlain_quoted, isPlain_quoted, rfl,
    Statement.eq_of_toSql_eq {} isPlain_quoted isPlain_quoted rfl⟩

end Sample

end JoinForest
