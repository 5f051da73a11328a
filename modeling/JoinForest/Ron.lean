import JoinForest.Document
import JoinForest.Number
import JoinForest.Text.Reader

set_option autoImplicit false

/-!
# RON

Documents of an object notation with named and unnamed structures in parentheses.
-/

namespace JoinForest.Ron

/-!
## Tokens of RON

The lexical units of RON, an object notation with named and unnamed structures in parentheses.
Blanks and comments stand between them; comments with stars may stand inside each other.
-/

/-- A lexical unit. -/
inductive Token where
  /-- A bracket, a comma, a colon, or a mark that starts an attribute. -/
  | mark (c : Char)
  /-- Two parentheses with nothing between them. -/
  | unit
  /-- A name; one that is marked as a name is never a word with a meaning of its own. -/
  | name ( isMarked : Bool) (name : String)
  | number (value : Numeral)
  | char (value : Char)
  | text (value : String)
  deriving DecidableEq, Repr, Inhabited

/-! ### Blanks and comments -/

/-- Whether a character may stand between two tokens. -/
def isSpace (c : Char) : Bool := c = ' ' || c = '\t' || c = '\n' || c = '\r'

/-- The text after the end of so many comments that stand inside each other. -/
def afterComment? : Nat → List Char → Option (List Char)
  | 0, text => some text
  | _ + 1, [] => none
  | depth + 1, '*' :: '/' :: rest => afterComment? depth rest
  | depth + 1, '/' :: '*' :: rest => afterComment? (depth + 2) rest
  | depth + 1, _ :: rest => afterComment? (depth + 1) rest

/-! ### Strings -/

/-- The character that a letter stands for after a backslash. -/
def escape? (letter : Char) : Option Char :=
  ([('\x27', '\x27'), ('"', '"'), ('\\', '\\'), ('n', '\n'), ('r', '\r'), ('t', '\t'),
    ('0', '\x00')] : List (Char × Char)).lookup letter

/-- One character of a string, perhaps in an escape. -/
def char? : Reader Char
  | '\\' :: 'x' :: a :: b :: rest => (coded? [a, b]).map (·, rest)
  | '\\' :: 'u' :: '\x7b' :: rest =>
    let digits := rest.takeWhile (· != '\x7d')
    if digits.isEmpty || 6 < digits.length then none
    else (coded? digits).map (·, rest.drop (digits.length + 1))
  | '\\' :: letter :: rest => (escape? letter).map (·, rest)
  | c :: rest => if c = '\\' then none else some (c, rest)
  | [] => none

/-- The inside of a string after the opening quote, of at most `bound` characters. -/
def inside? : Nat → Reader (List Char)
  | _, '"' :: rest => some ([], rest)
  | 0, _ => none
  | bound + 1, text => do
    let (c, rest) ← char? text
    let (cs, rest) ← inside? bound rest
    return (c :: cs, rest)

/-- The inside of a string without escapes, after the opening quote. It ends with a quote and so
many number signs. -/
def rawInside? (signs : Nat) : Reader (List Char)
  | [] => none
  | c :: rest =>
    if c = '"' && (List.replicate signs '#').isPrefixOf rest then some ([], rest.drop signs)
    else withChar (some c) (rawInside? signs rest)

/-- A string without escapes, from its number signs on. -/
def raw? (text : List Char) : Option (List Char × List Char) :=
  let signs := (text.takeWhile (· == '#')).length
  match text.drop signs with
  | '"' :: rest => rawInside? signs rest
  | _ => none

/-! ### Numbers -/

/-- Whether a character may stand in a decimal number after its first digit. -/
def isNumberChar (c : Char) : Bool :=
  c.isDigit || c = '_' || c = '.' || c = 'e' || c = 'E' || c = '+' || c = '-'

/-- Whether a number has a whole number of 64 bits for its value, with or without a sign. -/
def isWord ( isSigned : Bool) (n : Int) : Bool :=
  if isSigned then inInt64 n else decide (n < twoTo 64)

/-- A number without its sign, which is missing if it is `none`. Whole numbers have 64 bits, and
underscores may stand between their digits. A number in plain decimal digits that has a point, an
exponent or more bits is a binary number. -/
def number? (sign : Option Bool) : Reader Numeral
  | '0' :: 'x' :: rest => whole? 16 isHexDigit rest
  | '0' :: 'b' :: rest => whole? 2 (fun c => c = '0' || c = '1') rest
  | '0' :: 'o' :: rest => whole? 8 (fun c => c.isDigit && decide (c < '8')) rest
  | 'i' :: 'n' :: 'f' :: rest => some (.binary (.infinite isNegative), rest)
  | 'N' :: 'a' :: 'N' :: rest => some (.binary .nan, rest)
  | text =>
    let digits := text.takeWhile isNumberChar
    let binary := (Numeral.unsignedFloat? isNegative digits).map fun x =>
      (Numeral.binary x, text.drop digits.length)
    if digits.any fun c => c = '.' || c = 'e' || c = 'E' then binary
    else (whole? 10 Char.isDigit text).or binary
where
  /-- Whether the sign is a minus sign. -/
  isNegative : Bool := sign.getD false
  /-- Digits of a base with underscores between them. -/
  whole? (base : Nat) (isDigit : Char → Bool) (text : List Char) : Option (Numeral × List Char) :=
    let digits := text.takeWhile fun c => isDigit c || c = '_'
    let n := ofDigits base (digits.filter (· != '_'))
    let n : Int := if isNegative then -(n : Int) else n
    if digits.any isDigit && digits.head? != some '_' && isWord sign.isSome n then
      some (.ofInt n, text.drop digits.length)
    else none

/-! ### Tokens -/

/-- Whether a character may start a name. -/
def startsName (c : Char) : Bool := c.isAlpha || c = '_'

/-- Whether a character may go on with a name. -/
def continuesName (c : Char) : Bool := c.isAlphanum || c = '_'

/-- Whether a character may stand in a name after a mark that makes it one. -/
def isRawNameChar (c : Char) : Bool := continuesName c || c = '.' || c = '+' || c = '-'

/-- The brackets and other marks that are tokens by themselves. -/
def marks : List Char := ['(', ')', '[', ']', '\x7b', '\x7d', ',', ':', '#', '!']

/-- One token, where no blank or comment stands. -/
def token? : Reader Token
  | [] => none
  | '(' :: ')' :: rest => some (.unit, rest)
  | '"' :: rest => (inside? rest.length rest).map fun (s, rest) => (.text (String.ofList s), rest)
  | '\x27' :: '\x27' :: _ => none
  | '\x27' :: rest =>
    match char? rest with
    | some (c, '\x27' :: rest) => some (.char c, rest)
    | _ => none
  | 'r' :: '"' :: rest => (raw? ('"' :: rest)).map fun (s, rest) => (.text (String.ofList s), rest)
  | 'r' :: '#' :: rest =>
    match raw? ('#' :: rest) with
    | some (s, rest) => some (.text (String.ofList s), rest)
    | none =>
      let name := rest.takeWhile isRawNameChar
      if name.isEmpty then none
      else some (.name true (String.ofList name), rest.dropWhile isRawNameChar)
  | '+' :: rest => (number? (some false) rest).map fun (n, rest) => (.number n, rest)
  | '-' :: rest => (number? (some true) rest).map fun (n, rest) => (.number n, rest)
  | c :: rest =>
    if marks.contains c then some (.mark c, rest)
    else if c.isDigit || c = '.' then
      (number? none (c :: rest)).map fun (n, rest) => (.number n, rest)
    else if startsName c then
      let name := c :: rest.takeWhile continuesName
      some (.name false (String.ofList name), rest.dropWhile continuesName)
    else none

/-- The tokens of a text, at most `bound` of them and of the blanks and comments between them. -/
def tokens? : Nat → List Char → Option (List Token)
  | 0, _ => none
  | bound + 1, text =>
    match text with
    | [] => some []
    | '/' :: '/' :: rest => tokens? bound (rest.dropWhile (· != '\n'))
    | '/' :: '*' :: rest => (afterComment? 1 rest).bind (tokens? bound)
    | c :: rest =>
      if isSpace c then tokens? bound rest
      else do
        let (token, rest) ← token? (c :: rest)
        let tokens ← tokens? bound rest
        return token :: tokens

/-!
## RON texts

Documents of RON texts. A structure with named fields and a map with texts for keys are records, a
structure without names is a list, and what has no content is null. Attributes in front of the value
may enable extensions; one of them makes the parentheses of optional values optional.
-/

/-- A reader of values at the start of a list of tokens. -/
abbrev TokenReader (α : Type) := List Token → Option (α × List Token)

/-! ### Parts of values -/

/-- The items up to a closing bracket, with commas between them; at most `bound` of them. -/
def items? {α : Type} (item? : TokenReader α) (closing : Char) : Nat → TokenReader (List α)
  | 0, _ => none
  | bound + 1, tokens =>
    match tokens with
    | .mark c :: rest => if c = closing then some ([], rest) else next bound (.mark c :: rest)
    | tokens => next bound tokens
where
  /-- One item and those after it. -/
  next (bound : Nat) (tokens : List Token) : Option (List α × List Token) := do
    let (item, rest) ← item? tokens
    match rest with
    | .mark ',' :: rest =>
      let (items, rest) ← items? item? closing bound rest
      return (item :: items, rest)
    | .mark c :: rest => if c = closing then some ([item], rest) else none
    | _ => none

/-- A named field of a structure. -/
def field? (value? : TokenReader Document) : TokenReader (String × Document)
  | .name _ name :: .mark ':' :: rest => (value? rest).map fun (d, rest) => ((name, d), rest)
  | _ => none

/-- A text or a character for a key of a map, and its value; the first component tells whether it is
a character. -/
def pair? (value? : TokenReader Document) : TokenReader (Bool × String × Document)
  | .text key :: .mark ':' :: rest => (value? rest).map fun (d, rest) => ((false, key, d), rest)
  | .char c :: .mark ':' :: rest =>
    (value? rest).map fun (d, rest) => ((true, String.singleton c, d), rest)
  | _ => none

/-- The fields of some pairs, where those with characters for keys come first. -/
def fieldsOf (pairs : List (Bool × String × Document)) : List (String × Document) :=
  let (characters, texts) := pairs.partition (·.1)
  (characters ++ texts).map (·.2)

/-- The inside of a structure after its opening parenthesis. -/
def structure? (value? : TokenReader Document) : TokenReader Document := fun tokens =>
  match tokens with
  | .name _ _ :: .mark ':' :: _ =>
    (items? (field? value?) ')' tokens.length tokens).map fun (fields, rest) =>
      (.record fields, rest)
  | _ => (items? value? ')' tokens.length tokens).map fun (ds, rest) => (.list ds, rest)

/-- What an optional value holds, after the opening parenthesis. -/
def some? (value? : TokenReader Document) : TokenReader Document := fun tokens => do
  let (d, rest) ← value? tokens
  match rest with
  | .mark ')' :: rest => return (d, rest)
  | .mark ',' :: .mark ')' :: rest => return (d, rest)
  | _ => none

/-- The value of a word. -/
def word? (name : String) : Option Document :=
  ([("true", .bool true), ("false", .bool false), ("None", .null),
    ("inf", .number (.binary (.infinite false))), ("NaN", .number (.binary .nan))] :
    List (String × Document)).lookup name

/-! ### Values -/

/-- How deep values may be nested: a bracket and each of its items count one level each, and so does
an optional value. -/
def levels : Nat := 128

/-- A value with so many levels. The first argument tells whether optional values may go without
parentheses. -/
def value? (isImplicit : Bool) : Nat → TokenReader Document
  | _, .unit :: rest => some (.null, rest)
  | _, .text s :: rest => some (.text s, rest)
  | _, .char c :: rest => some (.text (String.singleton c), rest)
  | _, .number n :: rest => some (.number n, rest)
  | 0, .name isMarked name :: rest =>
    if isMarked || (word? name).isNone then
      match rest with
      | .unit :: _ => none
      | .mark '(' :: _ => none
      | _ => if !isMarked && name = "Some" then none else some (.null, rest)
    else (word? name).map (·, rest)
  | level + 1, .name isMarked name :: rest =>
    if !isMarked && name = "Some" then
      match rest with
      | .mark '(' :: rest => some? (value? isImplicit level) rest
      | .unit :: _ => none
      | rest => if isImplicit then value? isImplicit level rest else none
    else
      match if isMarked then none else word? name, rest with
      | some d, rest => some (d, rest)
      | none, .unit :: rest => some (.list [], rest)
      | none, .mark '(' :: rest => structure? (inner level) rest
      | none, rest => some (.null, rest)
  | level + 1, .mark '(' :: rest => structure? (inner level) rest
  | level + 1, .mark '[' :: rest =>
    (items? (inner level) ']' (rest.length + 1) rest).map fun (ds, rest) => (.list ds, rest)
  | level + 1, .mark '\x7b' :: rest =>
    (items? (pair? (inner level)) '\x7d' (rest.length + 1) rest).map fun (pairs, rest) =>
      (.record (fieldsOf pairs), rest)
  | _, _ => none
where
  /-- A value inside a bracket with so many levels. -/
  inner : Nat → TokenReader Document
    | 0, _ => none
    | level + 1, tokens => value? isImplicit level tokens

/-! ### Attributes -/

/-- The extensions that an attribute may enable. -/
def extensions : List String := ["implicit_some", "unwrap_newtypes", "unwrap_variant_newtypes"]

/-- The name of an extension. -/
def extension? : TokenReader String
  | .name _ name :: rest => if extensions.contains name then some (name, rest) else none
  | _ => none

/-- The extensions that the attributes in front of a value enable, at most `bound` of them. Each
attribute enables one extension or more. -/
def enabled? : Nat → TokenReader (List String)
  | 0, _ => none
  | bound + 1, .mark '#' :: rest =>
    match rest with
    | .mark '!' :: .mark '[' :: .name false "enable" :: .mark '(' :: rest => do
      let (names, rest) ← items? extension? ')' rest.length rest
      match rest with
      | .mark ']' :: rest =>
        let (others, rest) ← enabled? bound rest
        if names.isEmpty then none else return (names ++ others, rest)
      | _ => none
    | _ => none
  | _, tokens => some ([], tokens)

/-- The document of a text; none when the text is not RON. -/
def parse? (text : String) : Option Document := do
  let tokens ← tokens? (text.length + 1) text.toList
  let (names, tokens) ← enabled? (tokens.length + 1) tokens
  match ← value? (names.contains "implicit_some") levels tokens with
  | (d, []) => return d
  | _ => none

end JoinForest.Ron
