import JoinForest.Proofs.Query.Scanning

set_option autoImplicit false

/-!
# Statements as tokens

In every statement blanks, breaks and marks stand between names, words and numbers
(`Statement.spaced`), so that its text falls into the tokens of its pieces
(`Statement.scans_toSql`).
-/

namespace JoinForest

/-!
## Spacing of statements

In every statement blanks, breaks and marks stand between names, words and numbers, so that none
runs into the next one (`Statement.spaced`). Clauses and joins are set off by a break in front of
them (`SetOff`).
-/

/-! ### Spaced lists -/

section Spaced

variable {before after : List Piece} {p : Piece}

theorem spaced_nil : Spaced [] := .nil

theorem spaced_singleton (p : Piece) : Spaced [p] := .singleton p

/-- Nothing runs into what follows a gap or a mark. -/
theorem spaced_cons_iff (hp : p.isGap = true ∨ p.isDelimiter = true) :
    Spaced (p :: after) ↔ Spaced after := by
  have hfits (q : Piece) : p.fits q = true := by
    rcases hp with hp | hp <;> simp [Piece.fits, hp]
  cases after with
  | nil => simp [Spaced]
  | cons q after => simp [Spaced, List.isChain_cons_cons, hfits]

/-- Behind a blank everything may follow, so a gap divides the condition. -/
theorem spaced_append_gap_iff (hp : p.isGap = true) :
    Spaced (before ++ p :: after) ↔ Spaced before ∧ Spaced after := by
  have hfits (q : Piece) : q.fits p = true := by simp [Piece.fits, hp]
  have hcons : Spaced (p :: after) ↔ Spaced after := spaced_cons_iff (Or.inl hp)
  rw [← hcons, Spaced, List.isChain_append]
  simp [Spaced, hfits]

/-- A single piece in front of a gap. -/
theorem spaced_cons_gap_iff (q : Piece) (hp : p.isGap = true) :
    Spaced (q :: p :: after) ↔ Spaced after := by
  have h : Spaced ([q] ++ p :: after) ↔ Spaced [q] ∧ Spaced after := spaced_append_gap_iff hp
  exact h.trans (and_iff_right (spaced_singleton q))

/-- A delimiter ends what stands before it, and everything may follow it. -/
theorem spaced_append_delimiter_iff (hp : p.isDelimiter = true) :
    Spaced (before ++ p :: after) ↔ Spaced (before ++ [p]) ∧ Spaced after := by
  have hcons : Spaced (p :: after) ↔ Spaced after := spaced_cons_iff (Or.inr hp)
  rw [← hcons, Spaced, List.isChain_append, Spaced, List.isChain_append]
  simp only [List.head?_cons, List.isChain_singleton, true_and, Spaced]
  tauto

/-- Groups with a divider between each two are spaced if each is, also in front of a divider. -/
theorem spaced_separated {divider : List Piece} {groups : List (List Piece)}
    (h : ∀ g ∈ groups, Spaced g)
    (hdivider : ∀ g ∈ groups, ∀ rest, Spaced rest → Spaced (g ++ divider ++ rest)) :
    Spaced (separated divider groups) := by
  induction groups with
  | nil => exact spaced_nil
  | cons g groups ih =>
    rw [List.forall_mem_cons] at h hdivider
    cases groups with
    | nil =>
      rw [separated, List.intercalate_singleton]
      exact h.1
    | cons next groups =>
      rw [separated, List.intercalate_cons_cons]
      exact hdivider.1 _ (ih h.2 hdivider.2)

/-- Groups with the word AND between each two. -/
theorem spaced_conjunction {groups : List (List Piece)} (h : ∀ g ∈ groups, Spaced g) :
    Spaced (conjunction groups) := by
  refine spaced_separated h ?_
  intro g hg rest hrest
  rw [List.append_assoc, List.cons_append, spaced_append_gap_iff rfl]
  exact ⟨h g hg, (spaced_cons_gap_iff (.word "AND") rfl).2 hrest⟩

/-- Groups with a comma between each two. -/
theorem spaced_commaSeparated {groups : List (List Piece)}
    (h : ∀ g ∈ groups, Spaced (g ++ [.word ","])) : Spaced (commaSeparated groups) := by
  refine spaced_separated (fun g hg => (h g hg).left_of_append) ?_
  intro g hg rest hrest
  rw [List.append_assoc, List.cons_append, spaced_append_delimiter_iff (by decide)]
  exact ⟨h g hg, (spaced_cons_iff (Or.inl rfl)).2 hrest⟩

end Spaced

/-! ### Parts of statements -/

theorem spaced_column (c : ColumnRef) {p : Piece} (hp : p.isDelimiter = true) :
    Spaced (c.pieces ++ [p]) := by
  have hdot : (Piece.word ".").isDelimiter = true := by decide
  simp [Spaced, ColumnRef.pieces, Piece.fits, Piece.isNumber, hdot, hp]

theorem spaced_relation (n : String) : Spaced (relationPieces n) := by
  have hdot : (Piece.word ".").isDelimiter = true := by decide
  refine spaced_separated ?_ ?_
  · intro g hg
    obtain ⟨part, -, rfl⟩ := List.mem_map.1 hg
    exact spaced_singleton _
  · intro g hg rest hrest
    obtain ⟨part, -, rfl⟩ := List.mem_map.1 hg
    rw [List.append_assoc, List.singleton_append, List.singleton_append]
    have hpart : Spaced ([.name part] ++ [.word "."]) := by
      simp [Spaced, Piece.fits, Piece.isNumber, hdot]
    exact (spaced_append_delimiter_iff hdot).2 ⟨hpart, hrest⟩

theorem spaced_source (t : TableSource) : Spaced t.pieces := by
  have has (n : String) : Spaced [.word "AS", .blank, .name n.toList] :=
    (spaced_cons_gap_iff (.word "AS") rfl).2 (spaced_singleton _)
  cases t with
  | table n => exact spaced_relation n
  | aliased relation n => exact (spaced_append_gap_iff rfl).2 ⟨spaced_relation relation, has n⟩
  | subquery sql n =>
    have hopen : (Piece.word "(").isDelimiter = true := by decide
    have hclose : (Piece.word ")").isDelimiter = true := by decide
    have hquery : Spaced [.word "(", .raw sql, .word ")"] := by
      simp [Spaced, Piece.fits, Piece.isNumber, hopen, hclose]
    exact (spaced_append_gap_iff rfl).2 ⟨hquery, has n⟩

theorem spaced_condition (c : Condition) : Spaced c.pieces := by
  have hcolumn (d : ColumnRef) : Spaced d.pieces :=
    (spaced_column d (p := .word ".") (by decide)).left_of_append
  cases c with
  | columns pairs =>
    refine spaced_conjunction ?_
    intro g hg
    obtain ⟨⟨l, r⟩, -, rfl⟩ := List.mem_map.1 hg
    simp only [List.append_assoc]
    exact (spaced_append_gap_iff rfl).2
      ⟨hcolumn l, (spaced_cons_gap_iff (.word "=") rfl).2 (hcolumn r)⟩
  | expression text => exact spaced_singleton _

/-- A join keeps its keyword, its relation and its condition apart by blanks. -/
theorem spaced_join (j : JoinClause) : Spaced j.pieces := by
  rw [JoinClause.pieces]
  simp only [List.append_assoc, List.cons_append, List.nil_append]
  refine (spaced_cons_iff (Or.inl rfl)).2 ((spaced_cons_gap_iff _ rfl).2 ?_)
  refine (spaced_append_gap_iff rfl).2 ⟨spaced_source j.source, ?_⟩
  exact (spaced_cons_gap_iff (.word "ON") rfl).2 (spaced_condition j.condition)

/-- An entry of the list of projections is ended by the comma behind it. -/
theorem spaced_projection (p : Projection) : Spaced (p.pieces ++ [.word ","]) := by
  have hdot : (Piece.word ".").isDelimiter = true := by decide
  have hcomma : (Piece.word ",").isDelimiter = true := by decide
  have hopen : (Piece.word "(").isDelimiter = true := by decide
  have hclose : (Piece.word ")").isDelimiter = true := by decide
  have hstar : (Piece.word "*").isDelimiter = true := by decide
  cases p with
  | column c => exact spaced_column c hcomma
  | allColumns t => simp [Spaced, Projection.pieces, Piece.fits, Piece.isNumber, hdot, hcomma]
  | aggregate f c distinct =>
    cases distinct <;> cases c <;>
      simp [Spaced, Projection.pieces, ColumnRef.pieces, Piece.fits, Piece.isNumber, Piece.isGap,
        hdot, hcomma, hopen, hclose, hstar]

theorem spaced_filter (f : Filter) : Spaced f.pieces := by
  rw [Filter.pieces]
  refine (spaced_append_gap_iff rfl).2 ⟨?_, ?_⟩
  · exact (spaced_column f.column (p := .word ".") (by decide)).left_of_append
  · split
    · exact (spaced_cons_gap_iff _ rfl).2 (spaced_singleton _)
    · exact (spaced_cons_gap_iff _ rfl).2 ((spaced_cons_gap_iff _ rfl).2 (spaced_singleton _))
    · exact (spaced_cons_gap_iff _ rfl).2 (spaced_singleton _)

theorem spaced_orderEntry (entry : ColumnRef × SortOrder) :
    Spaced (orderEntryPieces entry ++ [.word ","]) := by
  have hcomma : (Piece.word ",").isDelimiter = true := by decide
  rw [orderEntryPieces, List.append_assoc, List.cons_append]
  refine (spaced_append_gap_iff rfl).2 ⟨(spaced_column entry.1 hcomma).left_of_append, ?_⟩
  simp [Spaced, Piece.fits, Piece.isNumber, hcomma]

theorem spaced_select (projections : List Projection) : Spaced (selectPieces projections) := by
  rw [selectPieces]
  split
  · exact spaced_singleton _
  · refine spaced_commaSeparated ?_
    intro g hg
    obtain ⟨p, -, rfl⟩ := List.mem_map.1 hg
    exact spaced_projection p

/-! ### Clauses -/

/-- A spaced list that is empty or begins with a gap. -/
structure SetOff (pieces : List Piece) : Prop where
  spaced : Spaced pieces
  head_isGap : ∀ p ∈ pieces.head?, p.isGap = true

namespace SetOff

theorem nil : SetOff [] := ⟨spaced_nil, by simp⟩

/-- What is set off may follow anything. -/
theorem spaced_append {before after : List Piece} (hbefore : Spaced before)
    (h : SetOff after) : Spaced (before ++ after) := by
  refine List.isChain_append.2 ⟨hbefore, h.spaced, ?_⟩
  intro q _ p hp
  simp [Piece.fits, h.head_isGap p hp]

theorem append {before after : List Piece} (hbefore : SetOff before) (hafter : SetOff after) :
    SetOff (before ++ after) := by
  refine ⟨hafter.spaced_append hbefore.spaced, ?_⟩
  cases before with
  | nil => exact hafter.head_isGap
  | cons p before => exact hbefore.head_isGap

theorem flatMap {α : Type} {f : α → List Piece} {l : List α} (h : ∀ a ∈ l, SetOff (f a)) :
    SetOff (l.flatMap f) := by
  induction l with
  | nil => exact nil
  | cons a l ih =>
    rw [List.forall_mem_cons] at h
    rw [List.flatMap_cons]
    exact h.1.append (ih h.2)

/-- A clause begins with a gap, or it is empty. -/
theorem clause {entries : List Piece} (keyword : String) (h : Spaced entries) :
    SetOff (clausePieces keyword entries) := by
  rw [clausePieces]
  split
  · exact nil
  · refine ⟨?_, by simp [Piece.isGap]⟩
    exact (spaced_cons_iff (Or.inl rfl)).2 ((spaced_cons_gap_iff _ rfl).2 h)

theorem join (j : JoinClause) : SetOff j.pieces := by
  refine ⟨spaced_join j, ?_⟩
  simp [JoinClause.pieces, Piece.isGap]

theorem limit (n : Option Nat) : SetOff (limitPieces n) := by
  cases n with
  | none => exact nil
  | some n =>
    refine ⟨?_, by simp [limitPieces, Piece.isGap]⟩
    exact (spaced_cons_iff (Or.inl rfl)).2 ((spaced_cons_gap_iff _ rfl).2 (spaced_singleton _))

end SetOff

/-! ### Statements -/

/-- No piece of a statement runs into the next one. -/
theorem Statement.spaced (s : Statement) : Spaced s.pieces := by
  have hwhere : SetOff (wherePieces s.filters) := by
    refine .clause "WHERE" (spaced_conjunction ?_)
    intro g hg
    obtain ⟨f, -, rfl⟩ := List.mem_map.1 hg
    exact spaced_filter f
  have hgroup : SetOff (groupPieces s.groupBy) := by
    refine .clause "GROUP BY" (spaced_commaSeparated ?_)
    intro g hg
    obtain ⟨c, -, rfl⟩ := List.mem_map.1 hg
    exact spaced_column c (by decide)
  have horder : SetOff (orderPieces s.orderBy) := by
    refine .clause "ORDER BY" (spaced_commaSeparated ?_)
    intro g hg
    obtain ⟨entry, -, rfl⟩ := List.mem_map.1 hg
    exact spaced_orderEntry entry
  have hjoins : SetOff (s.source.joins.flatMap JoinClause.pieces) :=
    .flatMap fun j _ => .join j
  have hclauses := hjoins.append (hwhere.append (hgroup.append (horder.append (.limit s.limit))))
  have hsource := hclauses.spaced_append (spaced_source s.source.root)
  rw [pieces_eq]
  refine (spaced_cons_gap_iff (.word "SELECT") rfl).2 ?_
  refine (spaced_append_gap_iff rfl).2 ⟨spaced_select s.projections, ?_⟩
  exact (spaced_cons_gap_iff (.word "FROM") rfl).2 hsource

/-!
## Tokens of a statement

The text of a statement without given texts in it falls into the tokens of its pieces, whatever the
options (`Statement.scans_toSql`).
-/

/-! ### Lexical pieces -/

/-- The text of every piece is what its kind says. -/
def AllLexical (pieces : List Piece) : Prop := ∀ p ∈ pieces, p.IsLexical

namespace AllLexical

theorem append {pieces later : List Piece} (h : AllLexical pieces) (h' : AllLexical later) :
    AllLexical (pieces ++ later) :=
  List.forall_mem_append.2 ⟨h, h'⟩

theorem separated {divider : List Piece} {groups : List (List Piece)} (hd : AllLexical divider)
    (h : ∀ g ∈ groups, AllLexical g) : AllLexical (separated divider groups) := by
  induction groups with
  | nil => simp [AllLexical, JoinForest.separated]
  | cons g groups ih =>
    rw [List.forall_mem_cons] at h
    cases groups with
    | nil =>
      rw [JoinForest.separated, List.intercalate_singleton]
      exact h.1
    | cons next groups =>
      rw [JoinForest.separated, List.intercalate_cons_cons]
      exact (h.1.append hd).append (ih h.2)

theorem conjunction {groups : List (List Piece)} (h : ∀ g ∈ groups, AllLexical g) :
    AllLexical (conjunction groups) :=
  separated (by simp [AllLexical, Piece.IsLexical]; decide) h

theorem commaSeparated {groups : List (List Piece)} (h : ∀ g ∈ groups, AllLexical g) :
    AllLexical (commaSeparated groups) :=
  separated (by simp [AllLexical, Piece.IsLexical]; decide) h

theorem clause {keyword : String} {entries : List Piece}
    (hkeyword : Piece.isLexicalWord keyword = true) (h : AllLexical entries) :
    AllLexical (clausePieces keyword entries) := by
  rw [clausePieces]
  split
  · simp [AllLexical]
  · refine append ?_ h
    simp [AllLexical, Piece.IsLexical, hkeyword]

theorem column (c : ColumnRef) : AllLexical c.pieces := by
  have hdot : Piece.isLexicalWord "." = true := by decide
  simp [AllLexical, ColumnRef.pieces, Piece.IsLexical, hdot]

theorem relation (n : String) : AllLexical (relationPieces n) := by
  have hdot : Piece.isLexicalWord "." = true := by decide
  refine separated (by simp [AllLexical, Piece.IsLexical, hdot]) ?_
  intro g hg
  obtain ⟨part, -, rfl⟩ := List.mem_map.1 hg
  simp [AllLexical, Piece.IsLexical]

/-- A relation is written with names; only a subquery brings in text of its own. -/
theorem source {t : TableSource} (h : t.IsRelation) : AllLexical t.pieces := by
  have has : Piece.isLexicalWord "AS" = true := by decide
  cases t with
  | table n => exact relation n
  | aliased relation' n =>
    refine (relation relation').append ?_
    simp [AllLexical, Piece.IsLexical, has]
  | subquery sql n => exact absurd rfl (h sql n)

theorem condition {c : Condition} (h : c.IsColumns) : AllLexical c.pieces := by
  have heq : Piece.isLexicalWord "=" = true := by decide
  cases c with
  | columns pairs =>
    refine conjunction ?_
    intro g hg
    obtain ⟨⟨l, r⟩, -, rfl⟩ := List.mem_map.1 hg
    refine ((column l).append ?_).append (column r)
    simp [AllLexical, Piece.IsLexical, heq]
  | expression text => exact absurd rfl (h text)

theorem join {j : JoinClause} (h : j.IsPlain) : AllLexical j.pieces := by
  have hkind : Piece.isLexicalWord j.kind.keyword = true := by cases j.kind <;> decide
  have hon : Piece.isLexicalWord "ON" = true := by decide
  refine append (append (append ?_ (source h.1)) ?_) (condition h.2)
  · simp [AllLexical, Piece.IsLexical, hkind]
  · simp [AllLexical, Piece.IsLexical, hon]

theorem projection (p : Projection) : AllLexical p.pieces := by
  have hword : ∀ t ∈ [".", ",", "(", ")", "*", "DISTINCT"], Piece.isLexicalWord t = true := by
    decide
  cases p with
  | column c => exact column c
  | allColumns t => simp [AllLexical, Projection.pieces, Piece.IsLexical, hword]
  | aggregate f c distinct =>
    have hf : Piece.isLexicalWord f.keyword = true := by cases f <;> decide
    refine append (append (append ?_ ?_) ?_) ?_
    · simp [AllLexical, Piece.IsLexical, hf, hword]
    · cases distinct <;> simp [AllLexical, Piece.IsLexical, hword]
    · cases c with
      | none => simp [AllLexical, Piece.IsLexical, hword]
      | some c => exact column c
    · simp [AllLexical, Piece.IsLexical, hword]

theorem filter {f : Filter} (h : f.value.piece.IsLexical) : AllLexical f.pieces := by
  have hword : ∀ t ∈ ["IS", "NOT", "NULL"], Piece.isLexicalWord t = true := by decide
  have hsymbol (c : Comparison) : Piece.isLexicalWord c.symbol = true := by cases c <;> decide
  refine (column f.column).append ?_
  split
  · simp [AllLexical, Piece.IsLexical, hword]
  · simp [AllLexical, Piece.IsLexical, hword]
  · rw [AllLexical, List.forall_mem_cons, List.forall_mem_cons, List.forall_mem_cons,
      List.forall_mem_singleton]
    exact ⟨trivial, hsymbol _, trivial, h⟩

theorem orderEntry (entry : ColumnRef × SortOrder) : AllLexical (orderEntryPieces entry) := by
  have hword : Piece.isLexicalWord entry.2.keyword = true := by cases entry.2 <;> decide
  refine (column entry.1).append ?_
  simp [AllLexical, Piece.IsLexical, hword]

end AllLexical

/-! ### Numbers -/

theorem isDigit_of_mem_repr {n : Nat} {c : Char} (h : c ∈ n.repr.toList) : c.isDigit = true := by
  rw [Nat.toList_repr] at h
  exact Nat.isDigit_of_mem_toDigits (by decide) (by decide) h

theorem isNumeric_nat (n : Nat) : IsNumeric (toString n).toList := by
  have hne : n.repr.toList ≠ [] := by
    rw [Nat.toList_repr]
    exact Nat.toDigits_ne_nil
  obtain ⟨c, rest, hdigits⟩ := List.exists_cons_of_ne_nil hne
  have hall (d : Char) (hd : d ∈ c :: rest) : d.isDigit = true :=
    isDigit_of_mem_repr (hdigits ▸ hd)
  refine ⟨c, rest, hdigits, ?_, ?_⟩
  · simp [isNumberStart, hall c List.mem_cons_self]
  · intro d hd
    simp [isNumberPart, hall d (List.mem_cons_of_mem c hd)]

/-- A whole number is written in digits, behind a minus sign if it is negative. -/
theorem isNumeric_int (n : Int) : IsNumeric (toString n).toList := by
  have hrepr : toString n = if 0 ≤ n then n.toNat.repr else "-" ++ (-n).toNat.repr :=
    Int.repr_eq_if
  rw [hrepr]
  split
  · exact isNumeric_nat n.toNat
  · rw [String.toList_append]
    refine ⟨'-', (-n).toNat.repr.toList, rfl, rfl, ?_⟩
    intro d hd
    simp [isNumberPart, isDigit_of_mem_repr hd]

/-- Values are lexical where they are written exactly. -/
theorem isLexical_value {v : Value} (h : v.IsExact) : v.piece.IsLexical := by
  have hword : ∀ t ∈ ["NULL", "TRUE", "FALSE"], Piece.isLexicalWord t = true := by decide
  cases v with
  | null => exact hword "NULL" (by simp)
  | bool b =>
    cases b with
    | false => exact hword "FALSE" (by simp)
    | true => exact hword "TRUE" (by simp)
  | integer n => exact isNumeric_int n
  | float x => exact absurd rfl (h x)
  | text t => exact trivial

/-! ### Statements -/

namespace Statement

/-- A statement is lexical if it has no foreign text: no subquery and no raw condition. -/
theorem allLexical {s : Statement} (hroot : s.source.root.IsRelation)
    (hjoins : ∀ j ∈ s.source.joins, j.IsPlain)
    (hvalues : ∀ f ∈ s.filters, f.value.piece.IsLexical) : AllLexical s.pieces := by
  have hword : ∀ t ∈ ["SELECT", "FROM", "WHERE", "GROUP BY", "ORDER BY", "LIMIT", "*"],
      Piece.isLexicalWord t = true := by decide
  have hselect : AllLexical (selectPieces s.projections) := by
    rw [selectPieces]
    split
    · simp [AllLexical, Piece.IsLexical, hword]
    · refine .commaSeparated ?_
      intro g hg
      obtain ⟨p, -, rfl⟩ := List.mem_map.1 hg
      exact .projection p
  have hjoinPieces : AllLexical (s.source.joins.flatMap JoinClause.pieces) := by
    intro p hp
    obtain ⟨j, hj, hmem⟩ := List.mem_flatMap.1 hp
    exact AllLexical.join (hjoins j hj) p hmem
  have hwhere : AllLexical (wherePieces s.filters) := by
    refine .clause (hword "WHERE" (by simp)) (.conjunction ?_)
    intro g hg
    obtain ⟨f, hf, rfl⟩ := List.mem_map.1 hg
    exact .filter (hvalues f hf)
  have hgroup : AllLexical (groupPieces s.groupBy) := by
    refine .clause (hword "GROUP BY" (by simp)) (.commaSeparated ?_)
    intro g hg
    obtain ⟨c, -, rfl⟩ := List.mem_map.1 hg
    exact .column c
  have horder : AllLexical (orderPieces s.orderBy) := by
    refine .clause (hword "ORDER BY" (by simp)) (.commaSeparated ?_)
    intro g hg
    obtain ⟨entry, -, rfl⟩ := List.mem_map.1 hg
    exact .orderEntry entry
  have hlimit : AllLexical (limitPieces s.limit) := by
    cases s.limit with
    | none => simp [AllLexical, limitPieces]
    | some n =>
      rw [AllLexical, limitPieces, List.forall_mem_cons, List.forall_mem_cons,
        List.forall_mem_cons, List.forall_mem_singleton]
      exact ⟨trivial, hword "LIMIT" (by simp), trivial, isNumeric_nat n⟩
  rw [pieces_eq]
  refine .append ?_ (hselect.append (.append ?_ ((AllLexical.source hroot).append
    (hjoinPieces.append (hwhere.append (hgroup.append (horder.append hlimit)))))))
  · simp [AllLexical, Piece.IsLexical, hword]
  · simp [AllLexical, Piece.IsLexical, hword]

/-- The text of a statement falls into the tokens of its pieces, whatever the options. -/
theorem scans_toSql {s : Statement} (hroot : s.source.root.IsRelation)
    (hjoins : ∀ j ∈ s.source.joins, j.IsPlain)
    (hvalues : ∀ f ∈ s.filters, f.value.piece.IsLexical) (options : RenderOptions) :
    Scans (s.toSql options).toList (tokensOf s.pieces) := by
  rw [toSql, String.toList_ofList]
  exact scans_pieces options s.spaced (allLexical hroot hjoins hvalues)

/-- The text of a plain statement is scanned as the tokens of its pieces, whatever the options. -/
theorem IsPlain.scans_toSql {s : Statement} (h : s.IsPlain) (options : RenderOptions) :
    Scans (s.toSql options).toList (tokensOf s.pieces) :=
  Statement.scans_toSql h.root h.joins (fun f hf => isLexical_value (h.filters f hf)) options

end Statement

end JoinForest
