set_option autoImplicit false

/-!
# Fuzzy matching

A pattern matches a text when its letters occur in the text in order. The score of a match
rewards letters that start a word and letters that follow each other, and charges for gaps.
Upper case in the pattern makes the match sensitive to case.

The table of scores is filled row by row, one row for each letter of the pattern, in two rows that
take turns; only the last row counts. A matcher keeps the table between two matches, and each match
starts anew the cells that it needs: the whole row before the first letter, and the leftmost cell
of the row after it. A cell to the left of a row's leftmost match holds what an earlier row, or an
earlier match, left there.
-/

namespace JoinForest
namespace FuzzyMatch

/-! ## Letters -/

/-- How a character takes part in a word. -/
inductive Shape where
  | empty
  | hard
  | soft
  | digit
  | upper
  | lower
  deriving DecidableEq, Repr

/-- The shape of a character; NUL stands for the start of the text. -/
def Shape.ofChar (c : Char) : Shape :=
  if c = Char.ofNat 0 then empty
  else if [' ', '/', '\\', '|', '(', ')', '[', ']', '\x7b', '\x7d'].contains c then hard
  else if ('!' ≤ c ∧ c ≤ '\x27') ∨ ('*' ≤ c ∧ c ≤ '.') ∨ (':' ≤ c ∧ c ≤ '@') ∨
      ('^' ≤ c ∧ c ≤ '\x60') ∨ c = '~' then soft
  else if '0' ≤ c ∧ c ≤ '9' then digit
  else if 'A' ≤ c ∧ c ≤ 'Z' then upper
  else lower

/-- What a match is worth for standing after a character of the first shape. -/
def placeBonus (before here : Shape) : Int :=
  match before, here with
  | .empty, _ => 8
  | .hard, _ => 8
  | .soft, _ => 7
  | .lower, .upper => 6
  | .digit, .upper => 6
  | _, _ => 0

/-- Equality of characters, up to ASCII case unless `sensitive` is set. -/
def sameLetter (sensitive : Bool) (a b : Char) : Bool :=
  if sensitive then a == b else a.toLower == b.toLower

/-! ## Leftmost positions -/

/-- The positions, counted from `start`, at which the letters of the pattern occur when each is
taken as early as possible; none when they do not all occur. -/
def leftmost (same : Char → Char → Bool) (start : Nat) :
    List Char → List Char → Option (List Nat)
  | _, [] => some []
  | [], _ :: _ => none
  | c :: text, p :: pattern =>
    if same c p then (leftmost same (start + 1) text pattern).map (start :: ·)
    else leftmost same (start + 1) text (p :: pattern)

/-! ## Scores -/

/-- The score of a cell that no match reaches. -/
def unreachable : Int := -32768

/-- One cell of the table: best score of a match that ends there, best score of a match that ended
earlier, and the bonus of the run of letters that ends there. -/
structure Cell where
  ending : Int
  gapped : Int
  run : Int
  deriving DecidableEq, Repr

/-- A cell that nothing has reached. -/
def Cell.blank : Cell := ⟨unreachable, unreachable, 0⟩

/-- A cell before the first letter: the match may start after it. -/
def Cell.start : Cell := ⟨unreachable, -1, 0⟩

/-- What one match goes by: the text, the bonus of each place and the case rule. -/
structure Setting where
  text : Array Char
  places : Array Int
  sensitive : Bool

/-- The cells of a row: one for each letter of the text and one before them. -/
def Setting.width (setting : Setting) : Nat := setting.text.size + 1

/-- Fills the cell after letter `j` in the row that starts at `here`, from the row of the letter
before, which starts at `before`. -/
def fillCell (setting : Setting) (letter : Char) (before here : Nat) (table : Array Cell)
    (j : Nat) : Array Cell :=
  let c := setting.text.getD j ' '
  let above := table.getD (before + j) .blank
  let left := table.getD (here + j) .blank
  let gap := max (left.ending - 4) (left.gapped - 1)
  if sameLetter setting.sensitive c letter then
    let place := setting.places.getD (j + 1) 0
    let bonus := max (max left.run place) 4
    let worth : Int := if setting.sensitive || c == letter then 16 else 14
    let best := worth + max (above.ending + bonus) (above.gapped + place)
    let right := table.getD (here + j + 1) .blank
    (table.setIfInBounds (here + j) { left with run := bonus }).setIfInBounds (here + j + 1)
      ⟨best, gap, right.run⟩
  else table.setIfInBounds (here + j + 1) ⟨unreachable, gap, 0⟩

/-- Fills a row from the leftmost match of its letter to the end of the text. -/
def fillRow (setting : Setting) (letter : Char) (start before here : Nat) (table : Array Cell) :
    Array Cell :=
  (List.range' start (setting.text.size - start)).foldl
    (fillCell setting letter before here) table

/-- Fills the rows of all letters and says where the last one starts. The row before the first
letter starts at `before`; the two rows take turns. -/
def fillRows (setting : Setting) :
    List (Char × Nat) → (before here : Nat) → Array Cell → Array Cell × Nat
  | [], before, _, table => (table, before)
  | (letter, start) :: rest, before, here, table =>
    fillRows setting rest here before (fillRow setting letter start before here table)

/-- The bonus of every place of a text: that of column `j + 1` belongs to letter `j`, and the first
letter counts double. -/
def placesOf (text : List Char) : List Int :=
  match text with
  | [] => [0]
  | first :: rest =>
    0 :: 2 * placeBonus .empty (Shape.ofChar first) ::
      (List.zipWith (fun a b => placeBonus (Shape.ofChar a) (Shape.ofChar b)) (first :: rest) rest)

/-- The largest of the numbers, at least `least`. -/
def largest (least : Int) (numbers : List Int) : Int := numbers.foldl max least

end FuzzyMatch

/-! ## The matcher -/

/-- A fuzzy matcher, with the table that its last match left. -/
structure FuzzyMatcher where
  cells : Array FuzzyMatch.Cell := #[]

namespace FuzzyMatcher

open FuzzyMatch

/-- The table in which a match starts: two rows of the given width, the second with a blank cell at
the leftmost match. -/
def table (m : FuzzyMatcher) (width leftmost : Nat) : Array Cell :=
  Array.ofFn fun i : Fin (2 * width) =>
    if i.val < width then .start
    else if i.val = width + leftmost then .blank
    else m.cells.getD i.val .blank

/-- The score of a pattern in a text, and the matcher after it; no score when the letters of the
pattern do not occur in order. -/
def score (m : FuzzyMatcher) (text pattern : String) : Option Int × FuzzyMatcher :=
  let sensitive := pattern.toList.any Char.isUpper
  match leftmost (sameLetter sensitive) 0 text.toList pattern.toList with
  | none => (none, m)
  | some [] => (some 0, m)
  | some (start :: starts) =>
    let setting : Setting := ⟨text.toList.toArray, (placesOf text.toList).toArray, sensitive⟩
    let (cells, last) := fillRows setting (pattern.toList.zip (start :: starts)) 0 setting.width
      (m.table setting.width start)
    let row := (cells.toList.drop last).take setting.width
    (some (largest unreachable
        ((row.drop ((start :: starts).getLastD 0)).map Cell.ending)), ⟨cells⟩)

/-- How close a candidate is to a name: the score of the name in the candidate, or else that of
the candidate in the name. -/
def closeness (m : FuzzyMatcher) (name candidate : String) : Option Int × FuzzyMatcher :=
  match m.score candidate name with
  | (some score, m) => (some score, m)
  | (none, m) => m.score name candidate

/-- The candidates with their closeness to a name, each found by the matcher that the one before
left. -/
def rate (m : FuzzyMatcher) (name : String) : List String → List (String × Option Int)
  | [] => []
  | candidate :: rest =>
    let (score, m) := m.closeness name candidate
    (candidate, score) :: m.rate name rest

end FuzzyMatcher

/-- The first of the rated candidates with the highest closeness; none when none has any. -/
def best? (rated : List (String × Option Int)) : Option String :=
  (rated.foldl (fun best (candidate, closeness) =>
    match closeness, best with
    | none, _ => best
    | some score, none => some (score, candidate)
    | some score, some (bestScore, _) =>
      if bestScore < score then some (score, candidate) else best)
    (none : Option (Int × String))).map (·.2)

/-- The first of the candidates that is closest to a name; none when none comes close. -/
def closest? (name : String) (candidates : List String) : Option String :=
  best? (FuzzyMatcher.rate ⟨#[]⟩ name candidates)

end JoinForest
