import JoinForest.Number

set_option autoImplicit false

/-!
# Reading texts

What the readers of texts have in common: values at the start of a text, escapes of one letter, and
the division of texts at their dots.
-/

namespace JoinForest

/-!
## Readers

Reading a value at the start of a text: a reader gives the value and the text after it, or nothing
when there is no such value.
-/

/-- A reader of values at the start of a text. -/
abbrev Reader (α : Type) := List Char → Option (α × List Char)

/-- The character whose code has the given hexadecimal digits. -/
def coded? (digits : List Char) : Option Char :=
  let n := ofDigits 16 digits
  if digits.all isHexDigit && decide n.isValidChar then some (Char.ofNat n) else none

/-- A character in front of what a reader gives. -/
def withChar (c : Option Char) (tail : Option (List Char × List Char)) :
    Option (List Char × List Char) := do
  let c ← c
  let (cs, rest) ← tail
  return (c :: cs, rest)

end JoinForest

namespace JoinForest.Escape

/-!
## Escapes of one letter

The characters that quoted texts write as a backslash and a letter: quotes, backslashes, and those
control characters that have a letter of their own. A letter is read back as the character it was
written for (`ofLetter?_of_letterOf?`).
-/

/-- Each letter with the character it stands for after a backslash. -/
def table : List (Char × Char) :=
  [('"', '"'), ('\\', '\\'), ('b', '\x08'), ('t', '\t'), ('n', '\n'), ('f', '\x0c'), ('r', '\r')]

/-- The character that a letter stands for. -/
def ofLetter? (letter : Char) : Option Char := table.lookup letter

/-- The letter that stands for a character. -/
def letterOf? (c : Char) : Option Char := (table.find? (·.2 == c)).map (·.1)

/-- The letter that stands for a character is read back as that character. -/
theorem ofLetter?_of_letterOf? {c letter : Char} (h : letterOf? c = some letter) :
    ofLetter? letter = some c := by
  obtain ⟨entry, found, rfl⟩ := Option.map_eq_some_iff.1 h
  have same : entry.2 = c := by simpa using List.find?_some found
  subst same
  have all : ∀ e ∈ table, ofLetter? e.1 = some e.2 := by decide
  exact all entry (List.mem_of_find?_eq_some found)

end JoinForest.Escape

namespace JoinForest

/-!
## Texts with dots

The divisions of a text at its dots: at the last one only, and at every one. Both lose nothing: the
parts make up the text again (`splitLastDot_eq_some`, `intercalate_dotParts`), and the parts between
dots hold none (`dot_notMem_of_mem_dotParts`). Two parts of which the second holds no dot are found
again in the text that they make up (`splitLastDot_append`).
-/

/-- Splits a text at its last dot; none when it has no dot. -/
def splitLastDot : List Char → Option (List Char × List Char)
  | [] => none
  | c :: rest =>
    match splitLastDot rest with
    | some (before, after) => some (c :: before, after)
    | none => if c = '.' then some ([], rest) else none

/-- A text has no last dot just when it has no dot at all. -/
theorem splitLastDot_eq_none {text : List Char} (h : splitLastDot text = none) : '.' ∉ text := by
  induction text with
  | nil => simp
  | cons c rest ih =>
    rw [splitLastDot] at h
    split at h
    · simp at h
    · next hrest =>
      split at h
      · simp at h
      · next hc => simp [ih hrest, Ne.symm hc]

/-- The two parts make up the text around a dot, and the second part has none. -/
theorem splitLastDot_eq_some {text before after : List Char}
    (h : splitLastDot text = some (before, after)) :
    text = before ++ '.' :: after ∧ '.' ∉ after := by
  induction text generalizing before after with
  | nil => simp [splitLastDot] at h
  | cons c rest ih =>
    rw [splitLastDot] at h
    split at h
    · next b a hrest =>
      obtain ⟨rfl, rfl⟩ : c :: b = before ∧ a = after := by simpa using h
      simpa using ih hrest
    · next hrest =>
      split at h
      · next hc =>
        obtain ⟨rfl, rfl⟩ : [] = before ∧ rest = after := by simpa using h
        simp [hc, splitLastDot_eq_none hrest]
      · simp at h

/-- A text without a dot is not divided. -/
theorem splitLastDot_of_dot_notMem {text : List Char} (h : '.' ∉ text) :
    splitLastDot text = none := by
  cases hs : splitLastDot text with
  | none => rfl
  | some parts =>
    obtain ⟨rfl, -⟩ := splitLastDot_eq_some hs
    exact absurd (List.mem_append_right _ List.mem_cons_self) h

/-- A text is divided at a dot behind which there is none, whatever dots stand in front of it. -/
theorem splitLastDot_append (before : List Char) {after : List Char} (h : '.' ∉ after) :
    splitLastDot (before ++ '.' :: after) = some (before, after) := by
  induction before with
  | nil => rw [List.nil_append, splitLastDot, splitLastDot_of_dot_notMem h, if_pos rfl]
  | cons c rest ih => rw [List.cons_append, splitLastDot, ih]

/-- The parts of a text between its dots; a text without a dot is its only part. -/
def dotParts : List Char → List (List Char)
  | [] => [[]]
  | c :: rest =>
    if c = '.' then [] :: dotParts rest
    else
      match dotParts rest with
      | [] => [[c]]
      | part :: parts => (c :: part) :: parts

/-- A text has at least one part. -/
theorem dotParts_ne_nil (text : List Char) : dotParts text ≠ [] := by
  cases text with
  | nil => simp [dotParts]
  | cons c rest =>
    rw [dotParts]
    split
    · simp
    · split <;> simp

/-- No part holds a dot. -/
theorem dot_notMem_of_mem_dotParts {text part : List Char} (h : part ∈ dotParts text) :
    '.' ∉ part := by
  induction text generalizing part with
  | nil => simp_all [dotParts]
  | cons c rest ih =>
    rw [dotParts] at h
    split at h
    · rcases List.mem_cons.1 h with rfl | h
      · simp
      · exact ih h
    · next hc =>
      split at h
      · simp_all [Ne.symm hc]
      · next first others hrest =>
        rw [hrest] at ih
        rcases List.mem_cons.1 h with rfl | h
        · simp [Ne.symm hc, ih (List.mem_cons_self)]
        · exact ih (List.mem_cons_of_mem _ h)

/-- A text without a dot is its only part. -/
theorem dotParts_of_dot_notMem {text : List Char} (h : '.' ∉ text) : dotParts text = [text] := by
  induction text with
  | nil => rfl
  | cons c rest ih =>
    simp only [List.mem_cons, not_or] at h
    rw [dotParts, if_neg (Ne.symm h.1), ih h.2]

/-- The parts with dots between them make up the text again. -/
theorem intercalate_dotParts (text : List Char) : ['.'].intercalate (dotParts text) = text := by
  induction text with
  | nil => rfl
  | cons c rest ih =>
    rw [dotParts]
    split
    · next hc =>
      obtain ⟨part, parts, h⟩ := List.exists_cons_of_ne_nil (dotParts_ne_nil rest)
      rw [h] at ih ⊢
      simpa [List.intercalate_cons_cons, hc] using ih
    · split
      · next h => exact absurd h (dotParts_ne_nil rest)
      · next part parts h =>
        rw [h] at ih
        cases parts with
        | nil => simpa [List.intercalate] using ih
        | cons next others => simpa [List.intercalate_cons_cons] using ih

end JoinForest
