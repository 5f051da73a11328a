import JoinForest.Proofs.Query.Lexeme
import JoinForest.Query.Sql
import Mathlib.Data.List.Chain

set_option autoImplicit false

/-!
# Pieces as tokens

The pieces of a statement fall into the same tokens however names are quoted and clauses are broken
(`scans_pieces`), and what is written for one name or text is one token (`encodings_delimit`).
-/

namespace JoinForest

/-!
## Pieces

The pieces of a statement have the same tokens however names are quoted and clauses are broken
(`Piece.tokens`). Pieces that do not run into each other (`Spaced`) are read back as these tokens
(`scans_pieces`). All pieces of statements are set in this way (`Statement.spaced`), so the text of
one without given texts in it falls into the tokens of its pieces.
-/

/-! ### Tokens of pieces -/

/-- The token of a word without blanks: a keyword or a name if it is of letters, or else a mark. -/
def Lexeme.ofPart (part : List Char) : Lexeme :=
  if isWord part then ofWord part else mark part

/-- Whether a part of a word is one token: a word of letters, or an operator. -/
def isLexicalPart (part : List Char) : Bool :=
  isWord part || (!part.isEmpty && part.all isOperatorPart)

/-- Digits, after a minus sign or not, and with a decimal point or not. -/
def IsNumeric (digits : List Char) : Prop :=
  ∃ c rest, digits = c :: rest ∧ isNumberStart c = true ∧ ∀ d ∈ rest, isNumberPart d = true

namespace Piece

/-- The tokens of a piece. -/
def tokens : Piece → List Lexeme
  | word t => (t.toList.splitOn ' ').map Lexeme.ofPart
  | name n => [.name n]
  | text v => [.text v.toList]
  | number d => [.number d.toList]
  | raw _ => []
  | blank => []
  | clauseBreak => []

/-- Whether the piece is a blank or a break. -/
def isGap : Piece → Bool
  | blank => true
  | clauseBreak => true
  | _ => false

/-- Whether the piece is a mark of one character. -/
def isDelimiter : Piece → Bool
  | word t =>
    match t.toList with
    | [c] => isMark c
    | _ => false
  | _ => false

/-- Whether the piece is a number. -/
def isNumber : Piece → Bool
  | number _ => true
  | _ => false

/-- Whether the second piece may follow the first one without a blank between them. -/
def fits (p q : Piece) : Bool :=
  p.isGap || p.isDelimiter || q.isGap || (q.isDelimiter && !p.isNumber)

/-- Whether the word is a mark, or of words and operators with blanks between them. -/
def isLexicalWord (t : String) : Bool :=
  (word t).isDelimiter || (t.toList.splitOn ' ').all isLexicalPart

/-- The text of the piece is what its kind says. Given texts are never known to be of a kind. -/
def IsLexical : Piece → Prop
  | word t => isLexicalWord t = true
  | number d => IsNumeric d.toList
  | raw _ => False
  | _ => True

end Piece

/-- The tokens of some pieces. -/
def tokensOf (pieces : List Piece) : List Lexeme := pieces.flatMap Piece.tokens

/-- The text of some pieces. -/
def charsOf (options : RenderOptions) (pieces : List Piece) : List Char :=
  pieces.flatMap (Piece.chars options)

/-- No piece runs into the next one. -/
def Spaced (pieces : List Piece) : Prop := pieces.IsChain fun p q => p.fits q = true

/-! ### Statements in parts -/

/-- The entry stands for a relation. -/
def TableSource.IsRelation (t : TableSource) : Prop := ∀ sql name, t ≠ subquery sql name

/-- The condition is one by columns. -/
def Condition.IsColumns (c : Condition) : Prop := ∀ text, c ≠ expression text

/-- The join is onto a relation and by columns. -/
def JoinClause.IsPlain (j : JoinClause) : Prop := j.source.IsRelation ∧ j.condition.IsColumns

/-- The value is no binary number. -/
def Value.IsExact (v : Value) : Prop := ∀ x, v ≠ float x

/-- No source is a query, no condition a given text, and no value a binary number. -/
structure Statement.IsPlain (s : Statement) : Prop where
  root : s.source.root.IsRelation
  joins : ∀ j ∈ s.source.joins, j.IsPlain
  filters : ∀ f ∈ s.filters, f.value.IsExact

/-- The pieces of a select list. -/
def selectPieces (projections : List Projection) : List Piece :=
  if projections.isEmpty then [.word "*"] else commaSeparated (projections.map Projection.pieces)

/-- The pieces of a WHERE clause. -/
def wherePieces (filters : List Filter) : List Piece :=
  clausePieces "WHERE" (conjunction (filters.map Filter.pieces))

/-- The pieces of a GROUP BY clause. -/
def groupPieces (columns : List ColumnRef) : List Piece :=
  clausePieces "GROUP BY" (commaSeparated (columns.map ColumnRef.pieces))

/-- The pieces of an entry of an ORDER BY clause. -/
def orderEntryPieces (entry : ColumnRef × SortOrder) : List Piece :=
  entry.1.pieces ++ [.blank, .word entry.2.keyword]

/-- The pieces of an ORDER BY clause. -/
def orderPieces (entries : List (ColumnRef × SortOrder)) : List Piece :=
  clausePieces "ORDER BY" (commaSeparated (entries.map orderEntryPieces))

/-- The pieces of a limit. -/
def limitPieces : Option Nat → List Piece
  | none => []
  | some n => [.clauseBreak, .word "LIMIT", .blank, .number (toString n)]

theorem Statement.pieces_eq (s : Statement) :
    s.pieces = [.word "SELECT", .blank] ++ (selectPieces s.projections ++
      ([.clauseBreak, .word "FROM", .blank] ++ (s.source.root.pieces ++
        (s.source.joins.flatMap JoinClause.pieces ++ (wherePieces s.filters ++
          (groupPieces s.groupBy ++ (orderPieces s.orderBy ++ limitPieces s.limit))))))) := by
  simp only [← List.append_assoc]
  rfl

/-! ### What stands behind a piece -/

/-- Whether a character ends every word, quotation and operator before it. -/
def IsBoundary (c : Char) : Prop := c.isWhitespace = true ∨ isMark c = true

/-- A character that ends a token belongs to no word, no quote and no operator. -/
theorem IsBoundary.ends {c : Char} (h : IsBoundary c) :
    isWordPart c = false ∧ c ≠ '"' ∧ c ≠ '\x27' ∧ isOperatorPart c = false := by
  rcases h with hblank | hmark
  · rcases eq_of_isWhitespace hblank with rfl | rfl | rfl | rfl <;> decide
  · rcases eq_of_isMark hmark with rfl | rfl | rfl | rfl | rfl <;> decide

theorem isNumberPart_of_isWhitespace {c : Char} (h : c.isWhitespace = true) :
    isNumberPart c = false := by
  rcases eq_of_isWhitespace h with rfl | rfl | rfl | rfl <;> decide

namespace Piece

variable {p : Piece}

theorem exists_mark_of_isDelimiter (options : RenderOptions) (h : p.isDelimiter = true) :
    ∃ c, isMark c = true ∧ p.chars options = [c] ∧ p.tokens = [.mark [c]] := by
  cases p with
  | word t =>
    rw [isDelimiter] at h
    split at h
    · next c ht =>
      have htoken : ([c].splitOn ' ').map Lexeme.ofPart = [.mark [c]] := by
        rcases eq_of_isMark h with rfl | rfl | rfl | rfl | rfl <;> decide
      exact ⟨c, h, ht, by rw [tokens, ht, htoken]⟩
    · cases h
  | _ => cases h

theorem exists_blank_of_isGap (options : RenderOptions) (h : p.isGap = true) :
    ∃ c, c.isWhitespace = true ∧ p.chars options = [c] ∧ p.tokens = [] := by
  cases p with
  | blank => exact ⟨' ', rfl, rfl, rfl⟩
  | clauseBreak =>
    by_cases hpretty : options.pretty
    · exact ⟨'\n', rfl, by simp [chars, hpretty], rfl⟩
    · exact ⟨' ', rfl, by simp [chars, hpretty], rfl⟩
  | _ => cases h

/-- Behind a piece that is no gap or mark itself stands nothing or a boundary. -/
theorem boundary_of_spaced (options : RenderOptions) {rest : List Piece}
    (h : Spaced (p :: rest)) (hgap : p.isGap = false) (hdelimiter : p.isDelimiter = false) :
    ∀ c ∈ (charsOf options rest).head?,
      IsBoundary c ∧ (p.isNumber = true → c.isWhitespace = true) := by
  cases rest with
  | nil => simp [charsOf]
  | cons q rest =>
    have hfits := (List.isChain_cons_cons.1 h).1
    simp only [fits, hgap, hdelimiter, Bool.false_or, Bool.or_eq_true, Bool.and_eq_true,
      Bool.not_eq_true'] at hfits
    intro c hc
    rcases hfits with hq | ⟨hq, hnumber⟩
    · obtain ⟨d, hd, hchars, -⟩ := exists_blank_of_isGap options hq
      obtain rfl : d = c := by simpa [charsOf, hchars] using hc
      exact ⟨Or.inl hd, fun _ => hd⟩
    · obtain ⟨d, hd, hchars, -⟩ := exists_mark_of_isDelimiter options hq
      obtain rfl : d = c := by simpa [charsOf, hchars] using hc
      exact ⟨Or.inr hd, by simp [hnumber]⟩

end Piece

/-! ### Reading pieces back -/

section Reading

variable {after : List Char} {tokens : List Lexeme} (h : Scans after tokens)
  (hafter : ∀ c ∈ after.head?, IsBoundary c)

include h hafter

/-- A part of a word that is a token by itself is scanned as this token. -/
theorem scans_part_append {part : List Char} (hpart : isLexicalPart part = true) :
    Scans (part ++ after) (.ofPart part :: tokens) := by
  by_cases hword : isWord part = true
  · rw [Lexeme.ofPart, if_pos hword]
    exact scans_word_append h hword fun c hc => (hafter c hc).ends.1
  · rw [Lexeme.ofPart, if_neg hword]
    cases part with
    | nil => simp [isLexicalPart, isWord] at hpart
    | cons c rest =>
      simp only [isLexicalPart, hword, Bool.false_or, List.isEmpty_cons, Bool.not_false,
        Bool.true_and, List.all_cons, Bool.and_eq_true, List.all_eq_true] at hpart
      exact scans_operator_append h hpart.1 hpart.2 fun d hd => (hafter d hd).ends.2.2.2

/-- Words and operators with blanks between them are read one after the other. -/
theorem scans_parts_append {parts : List (List Char)}
    (hparts : ∀ part ∈ parts, isLexicalPart part = true) :
    Scans ([' '].intercalate parts ++ after) (parts.map Lexeme.ofPart ++ tokens) := by
  induction parts with
  | nil => exact h
  | cons part parts ih =>
    rw [List.forall_mem_cons] at hparts
    cases parts with
    | nil =>
      rw [List.intercalate_singleton]
      exact scans_part_append h hafter hparts.1
    | cons next parts =>
      rw [List.intercalate_cons_cons, List.append_assoc, List.append_assoc]
      refine scans_part_append (.blank rfl (ih hparts.2)) ?_ hparts.1
      intro c hc
      obtain rfl : ' ' = c := by simpa using hc
      exact Or.inl rfl

end Reading

/-- Pieces that do not run into each other are read back as their tokens. -/
theorem scans_pieces (options : RenderOptions) {pieces : List Piece} (hspaced : Spaced pieces)
    (hlexical : ∀ p ∈ pieces, p.IsLexical) : Scans (charsOf options pieces) (tokensOf pieces) := by
  induction pieces with
  | nil => exact .done
  | cons p rest ih =>
    rw [List.forall_mem_cons] at hlexical
    have hrest := ih (List.isChain_of_isChain_cons hspaced) hlexical.2
    rw [charsOf, tokensOf, List.flatMap_cons, List.flatMap_cons, ← charsOf, ← tokensOf]
    -- Gaps have no tokens, marks end at once, and what follows other pieces ends them.
    by_cases hgap : p.isGap = true
    · obtain ⟨c, hc, hchars, htokens⟩ := Piece.exists_blank_of_isGap options hgap
      rw [hchars, htokens]
      exact .blank hc hrest
    by_cases hdelimiter : p.isDelimiter = true
    · obtain ⟨c, hc, hchars, htokens⟩ := Piece.exists_mark_of_isDelimiter options hdelimiter
      rw [hchars, htokens]
      exact scans_mark_append hrest hc
    rw [Bool.not_eq_true] at hgap hdelimiter
    have hboundary := Piece.boundary_of_spaced options hspaced hgap hdelimiter
    cases p with
    | word t =>
      have hparts : ∀ part ∈ t.toList.splitOn ' ', isLexicalPart part = true := by
        have hword : Piece.isLexicalWord t = true := hlexical.1
        rwa [Piece.isLexicalWord, hdelimiter, Bool.false_or, List.all_eq_true] at hword
      have hscans := scans_parts_append hrest (fun c hc => (hboundary c hc).1) hparts
      rw [List.intercalate_splitOn] at hscans
      exact hscans
    | name n =>
      exact scans_identifier_append hrest _ n fun c hc =>
        ⟨(hboundary c hc).1.ends.1, (hboundary c hc).1.ends.2.1⟩
    | text v =>
      refine scans_text_append hrest v.toList ?_
      intro hhead
      exact (hboundary _ hhead).1.ends.2.2.1 rfl
    | number d =>
      obtain ⟨c, digits, hd, hstart, hdigits⟩ := hlexical.1
      rw [Piece.chars, Piece.tokens, hd]
      exact scans_number_append hrest hstart hdigits fun e he =>
        isNumberPart_of_isWhitespace ((hboundary e he).2 rfl)
    | raw sql => exact absurd hlexical.1 id
    | blank => cases hgap
    | clauseBreak => cases hgap

/-!
## Names and texts end where they are meant to

What a query writes for a name or a text is one token, whatever characters these hold and whatever
the options: it neither ends early nor takes in what follows, as long as that begins with no
character that would go on with it (`encodings_delimit`). A relation is written as the parts of its
name with dots between them, and read back as these parts (`readsParts_iff`), which make up the name
again.
-/

/-! ### Relations part by part -/

/-- A text begins with identifiers of these parts, with a dot between each two, and goes on with
something else than a dot. -/
inductive ReadsParts : List Char → List (List Char) → List Char → Prop
  | last {text part after : List Char} : readIdentifier text = some (part, after) →
      after.head? ≠ some '.' → ReadsParts text [part] after
  | more {text part rest after : List Char} {parts : List (List Char)} :
      readIdentifier text = some (part, '.' :: rest) → ReadsParts rest parts after →
        ReadsParts text (part :: parts) after

/-- The parts can be read in one way at most. -/
theorem ReadsParts.unique {text after : List Char} {parts : List (List Char)}
    (h : ReadsParts text parts after) : ∀ {parts' : List (List Char)} {after' : List Char},
      ReadsParts text parts' after' → parts' = parts ∧ after' = after := by
  induction h with
  | last hread hdot =>
    intro parts' after' h'
    cases h' with
    | last hread' _ =>
      obtain ⟨rfl, rfl⟩ := Prod.mk.inj (Option.some.inj (hread.symm.trans hread'))
      exact ⟨rfl, rfl⟩
    | more hread' _ =>
      obtain ⟨-, rfl⟩ := Prod.mk.inj (Option.some.inj (hread.symm.trans hread'))
      exact absurd rfl hdot
  | more hread _ ih =>
    intro parts' after' h'
    cases h' with
    | last hread' hdot =>
      obtain ⟨-, rfl⟩ := Prod.mk.inj (Option.some.inj (hread.symm.trans hread'))
      exact absurd rfl hdot
    | more hread' h' =>
      obtain ⟨rfl, hrest⟩ := Prod.mk.inj (Option.some.inj (hread.symm.trans hread'))
      obtain rfl := List.cons.inj hrest |>.2
      obtain ⟨rfl, rfl⟩ := ih h'
      exact ⟨rfl, rfl⟩

theorem charsOf_names_cons (options : RenderOptions) (part next : List Char)
    (parts : List (List Char)) :
    charsOf options (separated [.word "."] ((part :: next :: parts).map fun p => [.name p])) =
      identifier options.quoteIdentifiers part ++ '.' ::
        charsOf options (separated [.word "."] ((next :: parts).map fun p => [.name p])) := by
  simp [charsOf, separated, List.intercalate_cons_cons, Piece.chars]

/-- Names with dots between them are read back, whatever the names are. -/
theorem readsParts_names (options : RenderOptions) {after : List Char}
    (hafter : ∀ c ∈ after.head?, isWordPart c = false ∧ c ≠ '"' ∧ c ≠ '.')
    (part : List Char) (parts : List (List Char)) :
    ReadsParts (charsOf options (separated [.word "."] ((part :: parts).map fun p => [.name p])) ++
      after) (part :: parts) after := by
  induction parts generalizing part with
  | nil =>
    apply ReadsParts.last
    · have hread := readIdentifier_identifier options.quoteIdentifiers part
        fun c hc => ⟨(hafter c hc).1, (hafter c hc).2.1⟩
      simpa [charsOf, separated, Piece.chars] using hread
    · intro hdot
      exact (hafter '.' hdot).2.2 rfl
  | cons next parts ih =>
    rw [charsOf_names_cons, List.append_assoc, List.cons_append]
    exact .more (readIdentifier_identifier _ part (by simp; decide)) (ih next)

/-- A relation is read back as the parts of its name, and in no other way. -/
theorem readsParts_iff (options : RenderOptions) (relation : String) {after : List Char}
    (hafter : ∀ c ∈ after.head?, isWordPart c = false ∧ c ≠ '"' ∧ c ≠ '.')
    {parts : List (List Char)} {rest : List Char} :
    ReadsParts (charsOf options (relationPieces relation) ++ after) parts rest ↔
      parts = dotParts relation.toList ∧ rest = after := by
  obtain ⟨first, others, hparts⟩ := List.exists_cons_of_ne_nil (dotParts_ne_nil relation.toList)
  have hread := readsParts_names options hafter first others
  rw [relationPieces, hparts]
  constructor
  · exact hread.unique
  · rintro ⟨rfl, rfl⟩
    exact hread

/-! ### Tokens that end by themselves -/

/-- A name, a relation and a text literal are read back from what is written for them, and reading
ends at their end, unless what follows begins as they might go on: for a name with a character of a
word or a quote, for a relation also with a dot, and for a literal with an apostrophe. -/
theorem encodings_delimit (options : RenderOptions) :
    (∀ name after : List Char, (∀ c ∈ after.head?, isWordPart c = false ∧ c ≠ '"') →
      readIdentifier ((Piece.name name).chars options ++ after) = some (name, after) ∧
      Lexeme.read? ((Piece.name name).chars options ++ after) = some (.name name, after)) ∧
    (∀ (relation : String) (after : List Char),
      (∀ c ∈ after.head?, isWordPart c = false ∧ c ≠ '"' ∧ c ≠ '.') →
        (∀ parts rest, ReadsParts (charsOf options (relationPieces relation) ++ after) parts rest ↔
          parts = dotParts relation.toList ∧ rest = after) ∧
        ['.'].intercalate (dotParts relation.toList) = relation.toList ∧
        ∀ part ∈ dotParts relation.toList, '.' ∉ part) ∧
    ∀ (value : String) (after : List Char), after.head? ≠ some '\x27' →
      (∃ inner, (Value.text value).piece.chars options ++ after = '\x27' :: inner ∧
        readQuoted '\x27' inner = some (value.toList, after)) ∧
      Lexeme.read? ((Value.text value).piece.chars options ++ after) =
        some (.text value.toList, after) := by
  refine ⟨?_, ?_, ?_⟩
  · intro name after hafter
    exact ⟨readIdentifier_identifier options.quoteIdentifiers name hafter,
      Lexeme.read?_identifier options.quoteIdentifiers name hafter⟩
  · intro relation after hafter
    refine ⟨?_, intercalate_dotParts relation.toList, ?_⟩
    · intro parts rest
      exact readsParts_iff options relation hafter
    · intro part hpart
      exact dot_notMem_of_mem_dotParts hpart
  · intro value after hafter
    exact ⟨readQuoted_enquote hafter value.toList, Lexeme.read?_text value.toList hafter⟩

/-- A reserved word in mixed case before a closing bracket, a relation with an empty part and a
quote at its end before a blank, and a text of apostrophes at the end of a query. -/
theorem Sample.delimited_quotes :
    (∀ c ∈ [')'].head?, isWordPart c = false ∧ c ≠ '"') ∧
    readIdentifier ((Piece.name "Select".toList).chars {} ++ [')']) =
      some ("Select".toList, [')']) ∧
    (∀ c ∈ [' '].head?, isWordPart c = false ∧ c ≠ '"' ∧ c ≠ '.') ∧
    ReadsParts (charsOf {} (relationPieces "sales..fact\"") ++ [' '])
      (dotParts "sales..fact\"".toList) [' '] ∧
    ([] : List Char).head? ≠ some '\x27' ∧
    Lexeme.read? ((Value.text "''").piece.chars {} ++ []) = some (.text "''".toList, []) := by
  have hbracket : ∀ c ∈ [')'].head?, isWordPart c = false ∧ c ≠ '"' := by
    rintro c ⟨⟩
    decide
  have hblank : ∀ c ∈ [' '].head?, isWordPart c = false ∧ c ≠ '"' ∧ c ≠ '.' := by
    rintro c ⟨⟩
    decide
  have hend : ([] : List Char).head? ≠ some '\x27' := by decide
  obtain ⟨hname, hrelation, htext⟩ := encodings_delimit {}
  exact ⟨hbracket, (hname _ _ hbracket).1, hblank,
    ((hrelation _ _ hblank).1 _ _).2 ⟨rfl, rfl⟩, hend, (htext _ _ hend).2⟩

end JoinForest
