import JoinForest.Number
import JoinForest.Text.Reader

set_option autoImplicit false

/-!
# Scalars of YAML

The characters of a text with the places where they stand, and the scalars in their three notations:
without quotes, in quotes, and in blocks of lines.
-/

namespace JoinForest.Yaml

/-!
## Characters in their places

A YAML text as a list of characters with the lines and columns in which they stand, since
indentation has a meaning; classes of characters; and the blanks and comments between tokens.
-/

/-! ### Classes of characters -/

/-- Whether a character is a blank within a line. -/
def isBlank (c : Char) : Bool := c = ' ' || c = '\t'

/-- Whether a character ends a line: a line feed, or the null character, which ends the text. -/
def endsLine (c : Char) : Bool := c = '\n' || c = '\x00'

/-- Whether a character is a blank or ends a line. -/
def isGap (c : Char) : Bool := isBlank c || endsLine c

/-- Whether a character is a bracket or a comma of a sequence or a mapping in brackets. -/
def isFlowMark (c : Char) : Bool := [',', '[', ']', '\x7b', '\x7d'].contains c

/-- Whether a character may stand in the name of a handle or a directive. -/
def isNameChar (c : Char) : Bool := c.isAlphanum || c = '_' || c = '-'

/-! ### Places -/

/-- A character with its line and column, counted from zero. -/
structure Placed where
  char : Char
  line : Nat
  column : Nat
  /-- Whether only blanks stand before the character on its line. -/
  isLeading : Bool
  deriving DecidableEq, Repr

/-- A text of characters in their places, which ends with a null character. -/
abbrev PlacedText := List Placed

/-- A reader of values at the start of a text. -/
abbrev Reader (α : Type) := PlacedText → Option (α × PlacedText)

/-- The characters of a text up to the first null character, from a place on. A line ends at a line
feed, a carriage return or both, and gets a line feed for its end. -/
def placeFrom (line column : Nat) (isLeading : Bool) : List Char → PlacedText
  | [] => [⟨'\x00', line, column, isLeading⟩]
  | '\r' :: '\n' :: rest => ⟨'\n', line, column, isLeading⟩ :: placeFrom (line + 1) 0 true rest
  | c :: rest =>
    if c = '\x00' then [⟨c, line, column, isLeading⟩]
    else if c = '\n' || c = '\r' then
      ⟨'\n', line, column, isLeading⟩ :: placeFrom (line + 1) 0 true rest
    else ⟨c, line, column, isLeading⟩ :: placeFrom line (column + 1) (isLeading && isBlank c) rest

namespace PlacedText

/-- The characters of a text in their places. -/
def ofString (text : String) : PlacedText := placeFrom 0 0 true text.toList

/-- The first character with its place. -/
def here (text : PlacedText) : Placed := text.headD ⟨'\x00', 0, 0, false⟩

/-- The first character. -/
def char (text : PlacedText) : Char := text.here.char

/-- The second character. -/
def next (text : PlacedText) : Char := char (text.drop 1)

/-- The text after blanks on its line. -/
def dropBlanks (text : PlacedText) : PlacedText := text.dropWhile fun p => isBlank p.char

/-- The text from the end of its line on. -/
def dropLine (text : PlacedText) : PlacedText := text.dropWhile fun p => !endsLine p.char

/-- Whether a line begins with a mark of three characters that is followed by nothing or a blank. -/
def isMarked (text : PlacedText) (mark : Char) : Bool :=
  text.here.column = 0 && (text.take 3).map (·.char) == [mark, mark, mark] &&
    isGap (char (text.drop 3))

/-- Whether a line begins with the mark of the start or the end of a document. -/
def isDocumentMark (text : PlacedText) : Bool := text.isMarked '-' || text.isMarked '.'

end PlacedText

/-! ### Blanks and comments -/

/-- What kinds of blanks stand in a gap. -/
structure Gap where
  tabs : Bool
  spaces : Bool
  deriving DecidableEq, Repr

/-- The blanks up to the next content on the line, and a comment after them. A comment needs a blank
before it. -/
def gap? : Reader Gap := fun text =>
  let blanks := (text.takeWhile fun p => isBlank p.char).map (·.char)
  let rest := text.dropBlanks
  if rest.char = '#' then
    if blanks.isEmpty then none
    else some (⟨blanks.contains '\t', blanks.contains ' '⟩, rest.dropLine)
  else some (⟨blanks.contains '\t', blanks.contains ' '⟩, rest)

/-- The text from its next content on, and whether a line feed stands before it. A tab before the
column `indent` may only lead to an empty line or a comment. The first argument tells whether the
text starts within a comment. -/
def dropSpace? (indent : Nat) : Bool → Reader Bool
  | _, [] => some (false, [])
  | inComment, p :: rest =>
    if p.char = '\n' then (dropSpace? indent false rest).map fun (_, rest) => (true, rest)
    else if p.char = '\x00' then some (false, p :: rest)
    else if inComment || p.char = '#' then dropSpace? indent true rest
    else if isBlank p.char then
      let content := PlacedText.char (PlacedText.dropBlanks rest)
      if p.char = '\t' && p.isLeading && p.column < indent && !endsLine content && content != '#'
      then none
      else dropSpace? indent false rest
    else some (false, p :: rest)

/-! ### Lines that are folded -/

/-- What so many line feeds between two parts of a scalar stand for: one for a space, more for one
less of them. -/
def fold : Nat → List Char
  | 0 => []
  | 1 => [' ']
  | n + 2 => List.replicate (n + 1) '\n'

end JoinForest.Yaml

namespace JoinForest.Yaml.Plain

/-!
## Scalars without quotes

A scalar without quotes goes on over several lines, whose ends are folded, up to a mark that cannot
belong to it.
-/

/-- Whether the first character of a text may belong to a scalar without quotes. -/
def admits (inFlow : Bool) (text : PlacedText) : Bool :=
  if isGap text.char then false
  else if text.char = ':' then !(isGap text.next || (inFlow && isFlowMark text.next))
  else !(inFlow && isFlowMark text.char)

/-- The characters up to a blank or a mark, and the text after them. -/
def word (inFlow : Bool) : PlacedText → List Char × PlacedText
  | [] => ([], [])
  | p :: rest =>
    if admits inFlow (p :: rest) then
      let (cs, rest) := word inFlow rest
      (p.char :: cs, rest)
    else ([], p :: rest)

/-- Which part of a gap between two words is read. -/
inductive GapPart where
  | blanks
  /-- After a tab that does not indent: the line has no more content. -/
  | tabbed
  | comment
  deriving DecidableEq, Repr

/-- The characters for a gap between two words: its blanks, or its line feeds, folded. Lines are
indented by `indent` columns. -/
def between? (indent : Nat) : GapPart → List Char → Nat → Reader (List Char)
  | _, _, _, [] => none
  | part, blanks, feeds, p :: rest =>
    let c := p.char
    if c = '\n' then between? indent .blanks [] (feeds + 1) rest
    else if part = .comment && c != '\x00' then between? indent .comment [] feeds rest
    else if isBlank c then
      if feeds = 0 then between? indent part (blanks ++ [c]) feeds rest
      else
        let part := if c = '\t' && p.column < indent then .tabbed else part
        between? indent part [] feeds rest
    else if part = .tabbed && c != '\x00' then
      if c = '#' then between? indent .comment [] feeds rest else none
    else some (if feeds = 0 then blanks else fold feeds, p :: rest)

/-- The words of a scalar, at most `bound` of them. -/
def words? (inFlow : Bool) (indent : Nat) : Nat → Reader (List Char)
  | 0, text => some ([], text)
  | bound + 1, text =>
    if text.isDocumentMark || text.char = '#' then some ([], text)
    else if inFlow && text.char = '-' && isFlowMark text.next then none
    else
      let (cs, rest) := word inFlow text
      if isBlank rest.char || rest.char = '\n' then do
        let (gap, rest) ← between? indent .blanks [] 0 rest
        if !inFlow && rest.here.column < indent then return (cs, rest)
        let (more, rest) ← words? inFlow indent bound rest
        return (if more.isEmpty then cs else cs ++ gap ++ more, rest)
      else some (cs, rest)

/-- A scalar without quotes. In brackets it has to be indented itself. -/
def scalar? (inFlow : Bool) (indent : Nat) : Reader String := fun text =>
  if inFlow && text.here.column < indent then none
  else (words? inFlow indent text.length text).map fun (cs, rest) => (String.ofList cs, rest)

end JoinForest.Yaml.Plain

namespace JoinForest.Yaml.Quoted

/-!
## Scalars in quotes

Scalars in single quotes, where a quote is written twice, and in double quotes, with escapes. Both
may go on over several lines, whose ends are folded.
-/

/-- The character that a letter stands for after a backslash. -/
def escape? (letter : Char) : Option Char :=
  ([('0', '\x00'), ('a', '\x07'), ('b', '\x08'), ('t', '\t'), ('\t', '\t'), ('n', '\n'),
    ('v', '\x0b'), ('f', '\x0c'), ('r', '\r'), ('e', '\x1b'), (' ', ' '), ('"', '"'), ('/', '/'),
    ('\\', '\\'), ('N', '\u0085'), ('_', '\u00a0'), ('L', '\u2028'), ('P', '\u2029')] :
    List (Char × Char)).lookup letter

/-- How many digits follow a letter that starts an escape by code. -/
def codeLength? (letter : Char) : Option Nat :=
  ([('x', 2), ('u', 4), ('U', 8)] : List (Char × Nat)).lookup letter

/-- The character of an escape after its backslash. -/
def escaped? : Reader Char := fun text =>
  match codeLength? text.char with
  | some n =>
    let digits := ((text.drop 1).take n).map (·.char)
    if digits.length < n then none else (coded? digits).map (·, text.drop (n + 1))
  | none => (escape? text.char).map (·, text.drop 1)

/-- The characters up to a blank, the end of a line or the closing quote, at most `bound` of them;
and whether a backslash takes out the end of the line after them. -/
def word? (quote : Char) : Nat → Reader (List Char × Bool)
  | 0, text => some (([], false), text)
  | bound + 1, text =>
    let c := text.char
    let more (c : Char) (rest : PlacedText) : Option ((List Char × Bool) × PlacedText) :=
      (word? quote bound rest).map fun ((cs, joins), rest) => ((c :: cs, joins), rest)
    if isGap c then some (([], false), text)
    else if c = quote then
      if quote = '\x27' && text.next = quote then more c (text.drop 2)
      else some (([], false), text)
    else if quote = '"' && c = '\\' then
      if text.next = '\n' then some (([], true), text.drop 2)
      else do
        let (c, rest) ← escaped? (text.drop 1)
        more c rest
    else more c (text.drop 1)

/-- The blanks and line feeds between two words. On a new line a tab does not indent. -/
def between? (indent : Nat) : (onNewLine : Bool) → List Char → Nat → Reader (List Char × Nat)
  | _, blanks, feeds, [] => some ((blanks, feeds), [])
  | onNewLine, blanks, feeds, p :: rest =>
    if p.char = '\n' then between? indent true [] (feeds + 1) rest
    else if isBlank p.char then
      if !onNewLine then between? indent false (blanks ++ [p.char]) feeds rest
      else if p.char = '\t' && p.column < indent then none
      else between? indent true [] feeds rest
    else some ((blanks, feeds), p :: rest)

/-- The inside of a scalar after its opening quote, of at most `bound` words. Lines are indented by
`indent` columns. -/
def inside? (quote : Char) (indent : Nat) : Nat → Reader (List Char)
  | 0, _ => none
  | bound + 1, text =>
    if text.isDocumentMark || text.char = '\x00' || text.here.column < indent then none
    else do
      let ((cs, joins), rest) ← word? quote (bound + 1) text
      if rest.char = quote then return (cs, rest.drop 1)
      let ((blanks, feeds), rest) ← between? indent joins [] 0 rest
      let gap := if joins then List.replicate feeds '\n' else blanks ++ fold feeds
      let (more, rest) ← inside? quote indent bound rest
      return (cs ++ gap ++ more, rest)

/-- A scalar with its quotes. After it the line ends, or a colon or, in brackets, another mark
follows. Outside brackets a scalar before a colon has one line. -/
def scalar? (inFlow : Bool) (indent : Nat) : Reader String := fun text => do
  let (cs, rest) ← inside? text.char indent text.length (text.drop 1)
  let (_, rest) ← gap? rest
  let c := rest.char
  let isFollowed := endsLine c || (c = ':' && (inFlow || rest.here.line = text.here.line)) ||
    (inFlow && [',', ']', '\x7d'].contains c)
  if isFollowed then return (String.ofList cs, rest) else none

end JoinForest.Yaml.Quoted

namespace JoinForest.Yaml.Block

/-!
## Scalars in blocks of lines

The lines of a block are indented alike. Their ends are kept or folded, and the line feeds at the
end of the block are kept, dropped, or all but one dropped.
-/

/-- What becomes of the line feeds at the end of a block. -/
inductive Ending where
  /-- The first one is kept. -/
  | clip
  | strip
  | keep
  deriving DecidableEq, Repr

/-- What is said about a block after its mark: its ending, and its indentation within the value that
it belongs to, or zero if its first line shows it. -/
structure Header where
  ending : Ending
  indent : Nat
  deriving DecidableEq, Repr

/-- The ending that a sign asks for. -/
def ending? (sign : Char) : Option Ending :=
  if sign = '+' then some .keep else if sign = '-' then some .strip else none

/-- A digit for an indentation, which is not zero, if one stands there. -/
def indent? : Reader Nat := fun text =>
  if text.char.isDigit then
    if text.char = '0' then none else some (digitValue text.char, text.drop 1)
  else some (0, text)

/-- The header of a block, which gives the ending and the indentation in either order. -/
def header? : Reader Header := fun text =>
  match ending? text.char with
  | some ending => (indent? (text.drop 1)).map fun (indent, rest) => (⟨ending, indent⟩, rest)
  | none =>
    (indent? text).map fun (indent, rest) =>
      match if indent = 0 then none else ending? rest.char with
      | some ending => (⟨ending, indent⟩, rest.drop 1)
      | none => (⟨.clip, indent⟩, rest)

/-! ### Lines -/

/-- How many empty lines come before the next content, and the text from the column `indent` of its
line on, or from the content if that comes first. -/
def emptyLines (indent : Nat) : PlacedText → Nat × PlacedText
  | [] => (0, [])
  | p :: rest =>
    if p.char = '\n' then
      let (feeds, rest) := emptyLines indent rest
      (feeds + 1, rest)
    else if p.char = ' ' && p.column < indent then emptyLines indent rest
    else (0, p :: rest)

/-- The largest column that is reached by spaces in the lines before the next content and in its
line. -/
def widest : PlacedText → Nat
  | [] => 0
  | p :: rest =>
    if p.char = '\n' then max p.column (widest rest)
    else if p.char = ' ' then widest rest
    else p.column

/-- What the lines of a block have been read to: their text, whether a line feed ends the last of
them, the empty lines after it, and the text after those. -/
structure Lines where
  chars : List Char
  isEnded : Bool
  feeds : Nat
  rest : PlacedText

/-- The characters before a line of a block, after so many empty lines. Line feeds are folded
between two lines that do not start with a blank; `before` tells of the line before whether it
does. -/
def separator (folds startsBlank : Bool) (before : Option Bool) (feeds : Nat) : List Char :=
  match before with
  | none => List.replicate feeds '\n'
  | some blankBefore =>
    if folds && !blankBefore && !startsBlank then fold (feeds + 1)
    else List.replicate (feeds + 1) '\n'

/-- The lines of a block, at most `bound` of them. -/
def lines (folds : Bool) (indent : Nat) : Nat → Option Bool → Nat → PlacedText → Lines
  | 0, before, feeds, text => ⟨[], before.isSome, feeds, text⟩
  | bound + 1, before, feeds, text =>
    if text.here.column ≠ indent || text.char = '\x00' || text.isMarked '.' then
      ⟨[], before.isSome, feeds, text⟩
    else
      let startsBlank := isBlank text.char
      let line := (text.takeWhile fun p => !endsLine p.char).map (·.char)
      let cs := separator folds startsBlank before feeds ++ line
      let rest := text.dropLine
      if rest.char = '\x00' then ⟨cs, false, 0, rest⟩
      else
        let (feeds, rest) := emptyLines indent (rest.drop 1)
        let after := lines folds indent bound (some startsBlank) feeds rest
        { after with chars := cs ++ after.chars }

/-- The line feeds at the end of a block. A last line without a line feed counts as one with it,
also if it holds no more than its indentation. -/
def Lines.tail (lines : Lines) (ending : Ending) (indent : Nat) : List Char :=
  let isCut := lines.rest.char = '\x00' && max indent 1 ≤ lines.rest.here.column
  let first := if lines.isEnded then ['\n'] else []
  let second := if isCut then ['\n'] else []
  match ending with
  | .strip => []
  | .clip => first ++ second
  | .keep => first ++ second ++ List.replicate lines.feeds '\n'

/-- The text of a block that has no content up to the end of the text. -/
def empty (ending : Ending) (isOpened : Bool) (feeds : Nat) : List Char :=
  if !isOpened then []
  else
    match ending with
    | .strip => []
    | .clip => ['\n']
    | .keep => List.replicate (max feeds 1) '\n'

/-- A scalar in a block, after its mark. It belongs to a value in the column `parent`, which is `-1`
outside all values. -/
def scalar? (folds : Bool) (parent : Int) : Reader String := fun text => do
  let (header, rest) ← header? text
  let (_, rest) ← gap? rest
  if !endsLine rest.char then none
  let isOpened := rest.char = '\n'
  let body : PlacedText := if isOpened then rest.drop 1 else rest
  if body.char = '\t' then none
  let indent := if header.indent = 0 then max (widest body) (parent + 1).toNat
    else parent.toNat + header.indent
  let (feeds, content) := emptyLines indent body
  if content.char = '\x00' then
    return (String.ofList (empty header.ending isOpened feeds), content)
  let column := content.here.column
  if column < indent && parent < column then none
  let read := lines folds indent (content.length + 1) none feeds content
  return (String.ofList (read.chars ++ read.tail header.ending indent), read.rest)

end JoinForest.Yaml.Block
