import JoinForest.Query.Sql

set_option autoImplicit false

/-!
# Tokens of queries

Names and texts are read back from what a query writes for them, and the text of a query falls into
tokens in one way (`Scans.unique`).
-/

namespace JoinForest

/-!
## Reading names and texts back

A quotation ends at the first mark that is not written twice, and a bare name with its last word
character. Read in this way, a text in quotes gives back the text (`readQuoted_enquote`) and an
identifier its name (`readIdentifier_identifier`), whatever characters they hold, as long as the
next character cannot be taken for a part of them. So different names have different identifiers
(`identifier_injective`).
-/

/-! ### Quotations -/

/-- The text up to the mark that closes a quotation, where two marks stand for one, and what is left
behind this mark. -/
def readQuoted (mark : Char) : List Char → Option (List Char × List Char)
  | [] => none
  | [c] => if c = mark then some ([], []) else none
  | c :: d :: rest =>
    if c = mark then
      if d = mark then (readQuoted mark rest).map fun (text, after) => (mark :: text, after)
      else some ([], d :: rest)
    else (readQuoted mark (d :: rest)).map fun (text, after) => (c :: text, after)

section Quotation

variable {mark : Char} {after : List Char}

theorem readQuoted_mark (h : after.head? ≠ some mark) :
    readQuoted mark (mark :: after) = some ([], after) := by
  cases after with
  | nil => simp [readQuoted]
  | cons d rest =>
    have hd : d ≠ mark := by simpa using h
    simp [readQuoted, hd]

theorem readQuoted_cons_of_ne {c : Char} (h : c ≠ mark) (text : List Char) :
    readQuoted mark (c :: text) =
      (readQuoted mark text).map fun (text, after) => (c :: text, after) := by
  cases text with
  | nil => simp [readQuoted, h]
  | cons d rest => simp [readQuoted, h]

/-- Quoted text ends with its own closing mark, unless another mark follows. -/
theorem readQuoted_append (h : after.head? ≠ some mark) (text : List Char) :
    readQuoted mark ((text.flatMap fun c => if c = mark then [mark, mark] else [c]) ++
      mark :: after) = some (text, after) := by
  induction text with
  | nil => exact readQuoted_mark h
  | cons c text ih =>
    by_cases hc : c = mark
    · subst hc
      simp [readQuoted, ih]
    · rw [List.flatMap_cons, if_neg hc, List.singleton_append, List.cons_append,
        readQuoted_cons_of_ne hc, ih]
      rfl

/-- The text of a quotation: its first mark opens it. -/
theorem readQuoted_enquote (h : after.head? ≠ some mark) (text : List Char) :
    ∃ inner, enquote mark text ++ after = mark :: inner ∧
      readQuoted mark inner = some (text, after) := by
  refine ⟨(text.flatMap fun c => if c = mark then [mark, mark] else [c]) ++ mark :: after, ?_,
    readQuoted_append h text⟩
  simp [enquote]

end Quotation

/-! ### Bare names -/

theorem isWordPart_of_isWordStart {c : Char} (h : isWordStart c = true) :
    isWordPart c = true := by
  simp only [isWordStart, isWordPart, Char.isAlphanum, Bool.or_eq_true] at h ⊢
  rcases h with h | h
  · exact Or.inl (Or.inl h)
  · exact Or.inr h

theorem isWordStart_mark : isWordStart '"' = false := by decide

/-- The characters of a word are word characters. -/
theorem isWordPart_of_isWord {name : List Char} (h : isWord name = true) {c : Char}
    (hc : c ∈ name) : isWordPart c = true := by
  cases name with
  | nil => simp at hc
  | cons d rest =>
    simp only [isWord, Bool.and_eq_true, List.all_eq_true] at h
    rcases List.mem_cons.1 hc with rfl | hc
    · exact isWordPart_of_isWordStart h.1
    · exact h.2 c hc

/-- A run of characters of one class ends where one of another class follows. -/
theorem span_append {p : Char → Bool} {run after : List Char} (hrun : ∀ c ∈ run, p c = true)
    (hafter : ∀ c ∈ after.head?, p c = false) :
    (run ++ after).takeWhile p = run ∧ (run ++ after).dropWhile p = after := by
  rw [List.takeWhile_append_of_pos hrun, List.dropWhile_append_of_pos hrun]
  cases after with
  | nil => simp
  | cons d rest =>
    have hd : p d = false := hafter d (by simp)
    simp [hd]

/-! ### Identifiers -/

/-- The name that an identifier at the front of a text stands for, and what is left behind it. -/
def readIdentifier (text : List Char) : Option (List Char × List Char) :=
  match text with
  | '"' :: inner => readQuoted '"' inner
  | _ =>
    if isWord (text.takeWhile isWordPart) then
      some (text.takeWhile isWordPart, text.dropWhile isWordPart)
    else none

/-- An identifier is in quotes, or it is the name itself, a word that is not reserved. -/
theorem identifier_eq (always : Bool) (name : List Char) :
    identifier always name = enquote '"' name ∨
      identifier always name = name ∧ isWord name = true ∧ isReserved name = false := by
  by_cases hbare : always || !isWord name || isReserved name
  · exact Or.inl (by simp [identifier, hbare])
  · refine Or.inr ⟨by simp [identifier, hbare], ?_⟩
    simp only [Bool.or_eq_true, Bool.not_eq_true', not_or, Bool.not_eq_false,
      Bool.not_eq_true] at hbare
    exact ⟨hbare.1.2, hbare.2⟩

/-- An identifier is read back as its name and ends where it was meant to, before any character that
is neither of a word nor a quote. -/
theorem readIdentifier_identifier (always : Bool) (name : List Char) {after : List Char}
    (hafter : ∀ c ∈ after.head?, isWordPart c = false ∧ c ≠ '"') :
    readIdentifier (identifier always name ++ after) = some (name, after) := by
  rcases identifier_eq always name with hquoted | ⟨hbare, hword, -⟩
  · have hmark : after.head? ≠ some '"' := fun h => (hafter '"' (by simp [h])).2 rfl
    obtain ⟨inner, heq, hread⟩ := readQuoted_enquote hmark name
    rw [hquoted, heq, readIdentifier]
    exact hread
  · obtain ⟨htake, hdrop⟩ :=
      span_append (fun c hc => isWordPart_of_isWord hword hc) fun c hc => (hafter c hc).1
    rw [hbare, readIdentifier]
    · rw [htake, hdrop, if_pos hword]
    · intro inner heq
      cases name with
      | nil => simp [isWord] at hword
      | cons c rest =>
        obtain ⟨rfl, -⟩ := List.cons.inj heq
        simp [isWord, isWordStart_mark] at hword

/-- Different names have different identifiers. -/
theorem identifier_injective (always : Bool) : Function.Injective (identifier always) := by
  intro a b h
  have ha : readIdentifier (identifier always a ++ []) = some (a, []) :=
    readIdentifier_identifier always a (by simp)
  have hb : readIdentifier (identifier always b ++ []) = some (b, []) :=
    readIdentifier_identifier always b (by simp)
  rw [h, hb, Option.some.injEq, Prod.mk.injEq] at ha
  exact ha.1.symm

/-!
## Tokens

How the text of a query falls into names, keywords, texts, numbers and marks. A token is as long as
it can be; blanks outside of quotes stand between tokens and are none (`Scans`). A text has at most
one list of tokens (`Scans.unique`). The lemmas `Lexeme.read?_...` and `scans_..._append` say for
each kind of token where it ends, given what follows.
-/

/-- A token of a query. -/
inductive Lexeme where
  /-- A name, bare or in double quotes. -/
  | name (name : List Char)
  /-- A reserved word as it is written. -/
  | keyword (word : List Char)
  /-- A text in single quotes. -/
  | text (value : List Char)
  /-- A number as it is written. -/
  | number (digits : List Char)
  /-- An operator, or a mark of one character. -/
  | mark (symbol : List Char)
  deriving DecidableEq, Repr, Inhabited

/-- Whether a character may begin a number: a digit or a minus sign. -/
def isNumberStart (c : Char) : Bool := c.isDigit || c = '-'

/-- Whether a character may go on in a number: a digit or a decimal point. -/
def isNumberPart (c : Char) : Bool := c.isDigit || c = '.'

/-- Whether a character may stand in an operator. -/
def isOperatorPart (c : Char) : Bool := c = '<' || c = '=' || c = '>'

/-- Whether a character is a mark by itself. -/
def isMark (c : Char) : Bool := c = '.' || c = ',' || c = '(' || c = ')' || c = '*'

theorem eq_of_isMark {c : Char} (h : isMark c = true) :
    c = '.' ∨ c = ',' ∨ c = '(' ∨ c = ')' ∨ c = '*' := by
  simpa [isMark, or_assoc] using h

theorem eq_of_isWhitespace {c : Char} (h : c.isWhitespace = true) :
    c = ' ' ∨ c = '\t' ∨ c = '\r' ∨ c = '\n' := by
  simpa [Char.isWhitespace, or_assoc] using h

namespace Lexeme

/-- The token of a bare word. -/
def ofWord (word : List Char) : Lexeme := if isReserved word then keyword word else name word

/-- The token at the front of a text, and what is left behind it. -/
def read? : List Char → Option (Lexeme × List Char)
  | [] => none
  | c :: rest =>
    if c = '"' then (readQuoted '"' rest).map fun (n, after) => (name n, after)
    else if c = '\x27' then (readQuoted '\x27' rest).map fun (v, after) => (text v, after)
    else if isWordStart c then
      some (ofWord (c :: rest.takeWhile isWordPart), rest.dropWhile isWordPart)
    else if isNumberStart c then
      some (number (c :: rest.takeWhile isNumberPart), rest.dropWhile isNumberPart)
    else if isOperatorPart c then
      some (mark (c :: rest.takeWhile isOperatorPart), rest.dropWhile isOperatorPart)
    else if isMark c then some (mark [c], rest)
    else none

/-- No token begins with a blank. -/
theorem read?_blank {c : Char} (h : c.isWhitespace = true) (rest : List Char) :
    read? (c :: rest) = none := by
  rcases eq_of_isWhitespace h with rfl | rfl | rfl | rfl <;> rfl

end Lexeme

/-- A text falls into the tokens of a list. -/
inductive Scans : List Char → List Lexeme → Prop
  | done : Scans [] []
  | blank {c : Char} {rest : List Char} {tokens : List Lexeme} :
      c.isWhitespace = true → Scans rest tokens → Scans (c :: rest) tokens
  | token {text after : List Char} {token : Lexeme} {tokens : List Lexeme} :
      Lexeme.read? text = some (token, after) → Scans after tokens → Scans text (token :: tokens)

/-- A text falls into tokens in one way at most. -/
theorem Scans.unique {text : List Char} {tokens : List Lexeme} (h : Scans text tokens) :
    ∀ {tokens' : List Lexeme}, Scans text tokens' → tokens = tokens' := by
  induction h with
  | done =>
    intro tokens' h'
    cases h' with
    | done => rfl
    | token hread _ => cases hread
  | blank hc _ ih =>
    intro tokens' h'
    cases h' with
    | blank _ h' => exact ih h'
    -- A blank is skipped in both, for no token begins with one.
    | token hread _ =>
      rw [Lexeme.read?_blank hc] at hread
      cases hread
  | token hread _ ih =>
    intro tokens' h'
    cases h' with
    | done => cases hread
    | blank hc _ =>
      rw [Lexeme.read?_blank hc] at hread
      cases hread
    | token hread' h' =>
      obtain ⟨rfl, rfl⟩ := Prod.mk.inj (Option.some.inj (hread.symm.trans hread'))
      rw [ih h']

/-! ### Where tokens end -/

theorem isAlpha_of_isDigit {c : Char} (h : c.isDigit = true) : c.isAlpha = false := by
  have hdigit : (decide (c.val ≥ '0'.val) && decide (c.val ≤ '9'.val)) = true := h
  change (decide (c.val ≥ 'A'.val ∧ c.val ≤ 'Z'.val) ||
    (decide (c.val ≥ 'a'.val) && decide (c.val ≤ 'z'.val))) = false
  grind

theorem isWordStart_of_isNumberStart {c : Char} (h : isNumberStart c = true) :
    isWordStart c = false := by
  simp only [isNumberStart, Bool.or_eq_true, decide_eq_true_eq] at h
  rcases h with h | rfl
  · have hc : c ≠ '_' := by
      rintro rfl
      simp at h
    simp [isWordStart, isAlpha_of_isDigit h, hc]
  · rfl

/-! ### Tokens in front of a text -/

namespace Lexeme

section Reading

variable {after : List Char}

theorem read?_quotedName (name : List Char) (hafter : after.head? ≠ some '"') :
    read? (enquote '"' name ++ after) = some (.name name, after) := by
  obtain ⟨inner, heq, hread⟩ := readQuoted_enquote hafter name
  rw [heq, read?, if_pos rfl, hread]
  rfl

theorem read?_text (value : List Char) (hafter : after.head? ≠ some '\x27') :
    read? (enquote '\x27' value ++ after) = some (.text value, after) := by
  obtain ⟨inner, heq, hread⟩ := readQuoted_enquote hafter value
  rw [heq, read?, if_neg (by decide), if_pos rfl, hread]
  rfl

/-- A word ends before a character that is none of a word. -/
theorem read?_word {word : List Char} (hword : isWord word = true)
    (hafter : ∀ c ∈ after.head?, isWordPart c = false) :
    read? (word ++ after) = some (.ofWord word, after) := by
  cases word with
  | nil => simp [isWord] at hword
  | cons c rest =>
    simp only [isWord, Bool.and_eq_true, List.all_eq_true] at hword
    obtain ⟨hstart, hrest⟩ := hword
    obtain ⟨htake, hdrop⟩ := span_append hrest hafter
    have hquote : c ≠ '"' := by
      rintro rfl
      simp [isWordStart_mark] at hstart
    have hapostrophe : c ≠ '\x27' := by
      rintro rfl
      simp [isWordStart] at hstart
    rw [List.cons_append, read?, if_neg hquote, if_neg hapostrophe, if_pos hstart, htake, hdrop]

/-- An identifier is read as its name, whether it is bare or not. -/
theorem read?_identifier (always : Bool) (name : List Char)
    (hafter : ∀ c ∈ after.head?, isWordPart c = false ∧ c ≠ '"') :
    read? (identifier always name ++ after) = some (.name name, after) := by
  rcases identifier_eq always name with hquoted | ⟨hbare, hword, hreserved⟩
  · rw [hquoted]
    exact read?_quotedName name fun hhead => (hafter '"' (by simp [hhead])).2 rfl
  · have hread := read?_word hword fun c hc => (hafter c hc).1
    rw [ofWord, hreserved, if_neg Bool.false_ne_true] at hread
    rw [hbare]
    exact hread

end Reading
end Lexeme

section Ends

variable {after : List Char} {tokens : List Lexeme} (h : Scans after tokens)

include h

theorem scans_text_append (value : List Char) (hafter : after.head? ≠ some '\x27') :
    Scans (enquote '\x27' value ++ after) (.text value :: tokens) :=
  .token (Lexeme.read?_text value hafter) h

/-- A word ends before the first character that cannot go on in it. -/
theorem scans_word_append {word : List Char} (hword : isWord word = true)
    (hafter : ∀ c ∈ after.head?, isWordPart c = false) :
    Scans (word ++ after) (.ofWord word :: tokens) :=
  .token (Lexeme.read?_word hword hafter) h

theorem scans_number_append {c : Char} {rest : List Char} (hstart : isNumberStart c = true)
    (hrest : ∀ d ∈ rest, isNumberPart d = true)
    (hafter : ∀ d ∈ after.head?, isNumberPart d = false) :
    Scans (c :: rest ++ after) (.number (c :: rest) :: tokens) := by
  obtain ⟨htake, hdrop⟩ := span_append hrest hafter
  have hword := isWordStart_of_isNumberStart hstart
  have hquote : c ≠ '"' := by
    rintro rfl
    simp [isNumberStart] at hstart
  have hapostrophe : c ≠ '\x27' := by
    rintro rfl
    simp [isNumberStart] at hstart
  refine .token ?_ h
  rw [List.cons_append, Lexeme.read?, if_neg hquote, if_neg hapostrophe, hword,
    if_neg Bool.false_ne_true, if_pos hstart, htake, hdrop]

theorem scans_operator_append {c : Char} {rest : List Char} (hstart : isOperatorPart c = true)
    (hrest : ∀ d ∈ rest, isOperatorPart d = true)
    (hafter : ∀ d ∈ after.head?, isOperatorPart d = false) :
    Scans (c :: rest ++ after) (.mark (c :: rest) :: tokens) := by
  obtain ⟨htake, hdrop⟩ := span_append hrest hafter
  have hc : c = '<' ∨ c = '=' ∨ c = '>' := by simpa [isOperatorPart, or_assoc] using hstart
  obtain ⟨hquote, hapostrophe, hword, hnumber⟩ : c ≠ '"' ∧ c ≠ '\x27' ∧ isWordStart c = false ∧
      isNumberStart c = false := by
    rcases hc with rfl | rfl | rfl <;> decide
  refine .token ?_ h
  rw [List.cons_append, Lexeme.read?, if_neg hquote, if_neg hapostrophe, hword, hnumber,
    if_neg Bool.false_ne_true, if_neg Bool.false_ne_true, if_pos hstart, htake, hdrop]

/-- A mark ends at once, whatever follows. -/
theorem scans_mark_append {c : Char} (hmark : isMark c = true) :
    Scans (c :: after) (.mark [c] :: tokens) := by
  have hread : Lexeme.read? (c :: after) = some (.mark [c], after) := by
    rcases eq_of_isMark hmark with rfl | rfl | rfl | rfl | rfl <;>
      simp [Lexeme.read?, isWordStart, isNumberStart, isOperatorPart, isMark]
  exact .token hread h

/-- An identifier is one token, in quotes or not. -/
theorem scans_identifier_append (always : Bool) (name : List Char)
    (hafter : ∀ c ∈ after.head?, isWordPart c = false ∧ c ≠ '"') :
    Scans (identifier always name ++ after) (.name name :: tokens) :=
  .token (Lexeme.read?_identifier always name hafter) h

end Ends

end JoinForest
