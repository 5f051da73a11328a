import JoinForest.Json
import JoinForest.Text.Characters
import JoinForest.Text.Reader

set_option autoImplicit false

/-!
# JSON5

JSON5 is read in two steps: its tokens, which have more notations than those of JSON, and then the
text of JSON that they stand for.
-/

namespace JoinForest.Json5

/-!
## Tokens of JSON5

JSON5 has the tokens of JSON in more notations: names without quotes, two kinds of quotes,
hexadecimal numbers, signs and points at the ends of numbers, infinities, and comments.
-/

/-! ### Blanks and comments -/

/-- Whether a character ends a line. -/
def endsLine (c : Char) : Bool :=
  c = '\n' || c = '\r' || c.toNat = 0x2028 || c.toNat = 0x2029

/-- Whether a character may stand between two tokens. -/
def isSpace (c : Char) : Bool := (isBlank c && c.toNat != 0x85) || c.toNat = 0xFEFF

/-- The text after the end of a comment in slashes and stars. -/
def afterComment? : List Char → Option (List Char)
  | '*' :: '/' :: rest => some rest
  | _ :: rest => afterComment? rest
  | [] => none

/-! ### Strings -/

/-- The character that a letter stands for after a backslash; most stand for themselves, but a
digit stands for none. -/
def escape? (letter : Char) : Option Char :=
  match ([('b', '\x08'), ('f', '\x0c'), ('n', '\n'), ('r', '\r'), ('t', '\t'), ('v', '\x0b'),
    ('0', '\x00')] : List (Char × Char)).lookup letter with
  | some c => some c
  | none => if letter.isDigit || letter = 'x' || letter = 'u' then none else some letter

/-- The code that some hexadecimal digits write. -/
def code? (digits : List Char) : Option Nat :=
  if digits.all isHexDigit then some (ofDigits 16 digits) else none

/-- A unit in front of what a reader gives. -/
def withUnit (unit : Option Json.Unit16) (tail : Option (List Json.Unit16 × List Char)) :
    Option (List Json.Unit16 × List Char) := do
  let unit ← unit
  let (units, rest) ← tail
  return (unit :: units, rest)

/-- The characters of some units. Two halves of a pair make one character, to whose code either of
them gives some bits. -/
def joinUnits? : List Json.Unit16 → Option (List Char)
  | [] => some []
  | .char c :: rest => (joinUnits? rest).map (c :: ·)
  | .half high :: .half low :: rest =>
    if Json.isHighHalf high && Json.isLowHalf low then
      let code := (high - 0xD800) * 0x400 ||| (low - 0xDC00 + 0x10000)
      (joinUnits? rest).map (Char.ofNat code :: ·)
    else none
  | .half _ :: _ => none

/-- The inside of a string, after the opening quote. A backslash at the end of a line takes out the
end of the line. -/
def units? (quote : Char) : Reader (List Json.Unit16)
  | [] => none
  | '\\' :: '\r' :: '\n' :: rest => units? quote rest
  | '\\' :: 'x' :: a :: b :: rest =>
    withUnit ((code? [a, b]).map .ofCode) (units? quote rest)
  | '\\' :: 'u' :: a :: b :: c :: d :: rest =>
    withUnit ((code? [a, b, c, d]).map .ofCode) (units? quote rest)
  | '\\' :: letter :: rest =>
    if endsLine letter then units? quote rest
    else withUnit ((escape? letter).map .char) (units? quote rest)
  | c :: rest =>
    if c = quote then some ([], rest)
    else if c = '\\' || endsLine c then none
    else withUnit (some (.char c)) (units? quote rest)

/-- The text of the units that a reader gives. -/
def joined? (units? : Reader (List Json.Unit16)) : Reader String := fun text => do
  let (units, rest) ← units? text
  let cs ← joinUnits? units
  return (String.ofList cs, rest)

/-! ### Names -/

/-- Whether a character may start a name. -/
def startsName (c : Char) : Bool := c = '$' || c = '_' || isLetter c

/-- Whether a character may go on with a name; two of those join letters and show nothing. -/
def continuesName (c : Char) : Bool :=
  startsName c || isWordMark c || c.toNat = 0x200C || c.toNat = 0x200D

/-- The units of a name or of its rest, in which characters may be written by their codes. -/
def nameUnits? : Reader (List Json.Unit16)
  | '\\' :: 'u' :: a :: b :: c :: d :: rest =>
    withUnit ((code? [a, b, c, d]).map .ofCode) (nameUnits? rest)
  | c :: rest =>
    if continuesName c then withUnit (some (.char c)) (nameUnits? rest)
    else if c = '\\' then none
    else some ([], c :: rest)
  | [] => some ([], [])

/-! ### Numbers -/

/-- The exponent of a number, if one stands there. -/
def exponent? : List Char → Option (Int × List Char)
  | e :: rest =>
    let (negative, digits) := splitSign rest
    let (digits, rest) := splitDigits digits
    if (e = 'e' || e = 'E') && !digits.isEmpty then some (signedOfDigits negative digits, rest)
    else none
  | [] => none

/-- Digits before a point, of which the first is no zero unless it is the only one. -/
def splitUnits : List Char → List Char × List Char
  | '0' :: rest => (['0'], rest)
  | text => splitDigits text

/-- A decimal number. One with a point or an exponent is a binary number, which has to be finite;
any other is a whole number of 64 bits. -/
def decimal? (negative : Bool) : Reader Numeral := fun text => do
  let (units, rest) := splitUnits text
  let (point, fraction, rest) := match rest with
    | '.' :: rest => let (fraction, rest) := splitDigits rest; (true, fraction, rest)
    | rest => (false, [], rest)
  if units.isEmpty && fraction.isEmpty then none
  match point, exponent? rest with
  | false, none =>
    let n := signedOfDigits negative units
    if inInt64 n then return (.ofInt n, rest) else none
  | _, e =>
    let (e, rest) := e.getD (0, rest)
    let x := Binary.nearest negative (ofDigits 10 (units ++ fraction)) (e - fraction.length)
    if x.isFinite then return (.binary x, rest) else none

/-- A hexadecimal number of 32 bits, after its mark. -/
def hexadecimal? : Reader Numeral := fun text =>
  let digits := text.takeWhile isHexDigit
  let n := ofDigits 16 digits
  if digits.isEmpty || decide (twoTo 32 ≤ n) then none
  else some (.whole false n, text.dropWhile isHexDigit)

/-- A number after its sign, which is missing if it is `none`. One in hexadecimal digits has no
sign; an infinity and what is no number have no plus sign. -/
def number? (sign : Option Bool) : Reader Numeral
  | '0' :: 'x' :: rest => if sign.isSome then none else hexadecimal? rest
  | '0' :: 'X' :: rest => if sign.isSome then none else hexadecimal? rest
  | 'I' :: 'n' :: 'f' :: 'i' :: 'n' :: 'i' :: 't' :: 'y' :: rest =>
    if sign = some false then none else some (.binary (.infinite (sign.getD false)), rest)
  | 'N' :: 'a' :: 'N' :: rest => if sign = some false then none else some (.binary .nan, rest)
  | text => decimal? (sign.getD false) text

/-! ### Tokens -/

/-- A token of JSON, or a name without quotes. -/
inductive Lexeme where
  | token (token : Json.Token)
  | name (name : String)
  deriving DecidableEq, Repr

/-- The token of a punctuation mark. -/
def mark? (c : Char) : Option Json.Token :=
  ([('\x7b', .openRecord), ('\x7d', .closeRecord), ('[', .openList), (']', .closeList),
    (',', .comma), (':', .colon)] : List (Char × Json.Token)).lookup c

/-- One lexeme, where no blank or comment stands. -/
def lexeme? : Reader Lexeme
  | [] => none
  | '"' :: rest => text? '"' rest
  | '\x27' :: rest => text? '\x27' rest
  | '+' :: rest => (number? (some false) rest).map fun (n, rest) => (.token (.number n), rest)
  | '-' :: rest => (number? (some true) rest).map fun (n, rest) => (.token (.number n), rest)
  | c :: rest =>
    match mark? c with
    | some mark => some (.token mark, rest)
    | none =>
      if c.isDigit || c = '.' then
        (number? none (c :: rest)).map fun (n, rest) => (.token (.number n), rest)
      else if startsName c || c = '\\' then
        (joined? nameUnits? (c :: rest)).map fun (s, rest) => (.name s, rest)
      else none
where
  /-- A string after its opening quote. -/
  text? (quote : Char) (text : List Char) : Option (Lexeme × List Char) :=
    (joined? (units? quote) text).map fun (s, rest) => (.token (.text (some s)), rest)

/-- The lexemes of a text, at most `bound` of them and of the blanks and comments between them. -/
def lexemes? : Nat → List Char → Option (List Lexeme)
  | 0, _ => none
  | bound + 1, text =>
    match text with
    | [] => some []
    | '/' :: '/' :: rest => lexemes? bound (rest.dropWhile fun c => !endsLine c)
    | '/' :: '*' :: rest => (afterComment? rest).bind (lexemes? bound)
    | c :: rest =>
      if isSpace c then lexemes? bound rest
      else do
        let (lexeme, rest) ← lexeme? (c :: rest)
        let lexemes ← lexemes? bound rest
        return lexeme :: lexemes

/-!
## JSON5 texts

A text of JSON5 is read through the text of JSON that it stands for: names become strings or words
by their places, and commas before closing brackets go.
-/

/-- The token of a name that stands for a value. -/
def valueOf? (name : String) : Option Json.Token :=
  ([("null", .null), ("true", .bool true), ("false", .bool false),
    ("Infinity", .number (.binary (.infinite false))), ("NaN", .number (.binary .nan))] :
    List (String × Json.Token)).lookup name

/-- The tokens of some lexemes, where a name before a colon is a key and any other a value. -/
def tokens? : List Lexeme → Option (List Json.Token)
  | [] => some []
  | .name name :: .token .colon :: rest =>
    (tokens? rest).map fun tokens => .text (some name) :: .colon :: tokens
  | .name name :: rest => do
    let token ← valueOf? name
    let tokens ← tokens? rest
    return token :: tokens
  | .token token :: rest => (tokens? rest).map (token :: ·)

/-- Whether a value may end with a token. -/
def endsValue : Json.Token → Bool
  | .openRecord => false
  | .openList => false
  | .comma => false
  | .colon => false
  | _ => true

/-- Whether a token closes a list or a record. -/
def closes (token : Json.Token) : Bool := token == .closeRecord || token == .closeList

/-- The tokens without the commas between a value and a closing bracket. -/
def dropTrailing : List Json.Token → List Json.Token
  | [] => []
  | before :: .comma :: after :: rest =>
    if endsValue before && closes after then before :: dropTrailing (after :: rest)
    else before :: dropTrailing (.comma :: after :: rest)
  | token :: rest => token :: dropTrailing rest

/-- The document of a text; none when the text is not JSON5. -/
def parse? (text : String) : Option Document := do
  let lexemes ← lexemes? (text.length + 1) text.toList
  let tokens ← tokens? lexemes
  Json.document? (dropTrailing tokens)

end JoinForest.Json5
