import JoinForest.Document
import JoinForest.Text.Characters
import JoinForest.Text.Reader

set_option autoImplicit false

/-!
# INI

Sections in brackets, and keys with their values after `=` or `:`. All values are texts. A
backslash starts an escape everywhere, quotes around the first part of a value keep line feeds in
it, and a comment takes a line of its own from its first column on.
-/

namespace JoinForest.Ini

/-! ## Characters -/

/-- The character that a letter stands for after a backslash; most stand for themselves. -/
def escape (letter : Char) : Char :=
  (([('0', '\x00'), ('a', '\x07'), ('b', '\x08'), ('t', '\t'), ('r', '\r'), ('n', '\n')] :
    List (Char × Char)).lookup letter).getD letter

/-- Whether a character ends a line. -/
def endsLine (c : Char) : Bool := c = '\n' || c = '\r'

/-- The character with a code of hexadecimal digits, in front of which a plus sign may stand. -/
def escapeCode? : List Char → Option Char
  | '+' :: digits => coded? digits
  | digits => coded? digits

/-- The characters up to one that stops, with their escapes resolved; `endStops` tells whether the
end of the text stops as well. A backslash before a line feed takes it out. -/
def takeUntil? (stops : Char → Bool) (endStops : Bool) : Reader (List Char)
  | [] => if endStops then some ([], []) else none
  | '\\' :: 'x' :: a :: b :: c :: d :: rest =>
    withChar (escapeCode? [a, b, c, d]) (takeUntil? stops endStops rest)
  | '\\' :: '\n' :: rest => takeUntil? stops endStops rest
  | '\\' :: letter :: rest =>
    if letter = 'x' then none else withChar (some (escape letter)) (takeUntil? stops endStops rest)
  | c :: rest =>
    if c = '\\' then none
    else if stops c then some ([], c :: rest)
    else withChar (some c) (takeUntil? stops endStops rest)

/-! ## Lines -/

/-- What a text says: the start of a section, or a key and its value. -/
inductive Line where
  | header (name : String)
  | entry (key value : String)
  deriving DecidableEq, Repr

/-- The inside of quotes after the opening quote. -/
def inQuotes? (quote : Char) : Reader (List Char) := fun text =>
  (takeUntil? (· == quote) false text).map fun (inside, rest) => (inside, rest.drop 1)

/-- A value up to the end of the line, of which the first part may be in quotes. Blanks at its two
ends do not count, also within the quotes. -/
def value? : Reader String := fun text => do
  let (inside, rest) ← match text with
    | '"' :: rest => inQuotes? '"' rest
    | '\x27' :: rest => inQuotes? '\x27' rest
    | text => some ([], text)
  let (after, rest) ← takeUntil? endsLine true rest
  return (String.ofList (trim (inside ++ after)), rest)

/-- The text after blanks and line feeds, and whether it starts in the first column. -/
def dropBlanks : Bool → List Char → Bool × List Char
  | atStart, [] => (atStart, [])
  | atStart, c :: rest => if isBlank c then dropBlanks (c = '\n') rest else (atStart, c :: rest)

/-- The lines of a text, at most `bound` of them. The second argument tells whether the text starts
in the first column. -/
def lines? : Nat → Bool → List Char → Option (List Line)
  | 0, _, _ => none
  | bound + 1, atStart, text =>
    let (atStart, text) := dropBlanks atStart text
    match text with
    | [] => some []
    | '[' :: rest => do
      let (name, rest) ← takeUntil? (· == ']') false rest
      let lines ← lines? bound false (rest.drop 1)
      return .header (String.ofList (trim name)) :: lines
    | c :: rest =>
      if c = ';' || c = '#' then
        if atStart then lines? bound true ((rest.dropWhile (· != '\n')).drop 1) else none
      else do
        let (key, rest) ← takeUntil? (fun c => c = '=' || c = ':') false text
        if (trim key).isEmpty then none
        let rest := (rest.drop 1).dropWhile fun c => isBlank c && !endsLine c
        let (value, rest) ← value? rest
        let lines ← lines? bound false rest
        return .entry (String.ofList (trim key)) value :: lines

/-! ## Documents -/

/-- The keys before the first section with their values, and the sections. -/
def collect : List Line → List (String × Document) × List (String × Document)
  | [] => ([], [])
  | .entry key value :: rest =>
    let (entries, sections) := collect rest
    ((key, .text value) :: entries, sections)
  | .header name :: rest =>
    let (entries, sections) := collect rest
    ([], (name, .record entries) :: sections)

/-- The document of a text: its keys before the first section and its sections. -/
def parse? (text : String) : Option Document :=
  (lines? (text.length + 1) true text.toList).map fun lines =>
    .record ((collect lines).1 ++ (collect lines).2)

end JoinForest.Ini
