import JoinForest.Document
import JoinForest.Number
import JoinForest.Text.Reader

set_option autoImplicit false

/-!
# Scalars of TOML

The values that are no lists and no tables: strings in four notations, numbers, truth values, dates
and times.
-/

namespace JoinForest.Toml

/-!
## Quoted strings of TOML

Strings in their four notations: in double quotes with escapes or in single quotes without, each
on one line or, in triple quotes, over several.
-/

/-! ### Characters -/

/-- Whether a character may stand in a comment or a string: no control character but the tab. -/
def isPlain (c : Char) : Bool := c = '\t' || (decide (32 ≤ c.toNat) && c.toNat != 127)

/-! ### Strings -/

/-- The inside of a string in double quotes, after the opening quote. -/
def basic? : Reader (List Char)
  | [] => none
  | '"' :: rest => some ([], rest)
  | '\\' :: 'u' :: a :: b :: c :: d :: rest => withChar (coded? [a, b, c, d]) (basic? rest)
  | '\\' :: 'U' :: a :: b :: c :: d :: e :: f :: g :: h :: rest =>
    withChar (coded? [a, b, c, d, e, f, g, h]) (basic? rest)
  | '\\' :: e :: rest => withChar (Escape.ofLetter? e) (basic? rest)
  | c :: rest => if isPlain c then withChar (some c) (basic? rest) else none

/-- The inside of a string in single quotes, after the opening quote. -/
def literal? : Reader (List Char)
  | [] => none
  | '\x27' :: rest => some ([], rest)
  | c :: rest => if isPlain c then withChar (some c) (literal? rest) else none

/-- Where a reader stands with respect to a line feed that a backslash takes out of a string:
outside, before that line feed, or after it, where blanks and further line feeds go as well. -/
inductive LineJoin where
  | outside
  | before
  | after
  deriving DecidableEq, Repr

/-- The inside of a string in triple double quotes, after the opening quotes. Up to two quotes
may stand before the closing ones. -/
def multilineBasic? : LineJoin → Reader (List Char)
  | _, [] => none
  | .before, '\n' :: rest => multilineBasic? .after rest
  | .before, '\r' :: '\n' :: rest => multilineBasic? .after rest
  | .before, c :: rest => if c = ' ' || c = '\t' then multilineBasic? .before rest else none
  | .after, ' ' :: rest => multilineBasic? .after rest
  | .after, '\t' :: rest => multilineBasic? .after rest
  | .after, '\n' :: rest => multilineBasic? .after rest
  | .after, '\r' :: '\n' :: rest => multilineBasic? .after rest
  | _, '"' :: '"' :: '"' :: '"' :: '"' :: rest => some (['"', '"'], rest)
  | _, '"' :: '"' :: '"' :: '"' :: rest => some (['"'], rest)
  | _, '"' :: '"' :: '"' :: rest => some ([], rest)
  | _, '\n' :: rest => withChar (some '\n') (multilineBasic? .outside rest)
  | _, '\r' :: '\n' :: rest => withChar (some '\n') (multilineBasic? .outside rest)
  | _, '\\' :: 'u' :: a :: b :: c :: d :: rest =>
    withChar (coded? [a, b, c, d]) (multilineBasic? .outside rest)
  | _, '\\' :: 'U' :: a :: b :: c :: d :: e :: f :: g :: h :: rest =>
    withChar (coded? [a, b, c, d, e, f, g, h]) (multilineBasic? .outside rest)
  | _, '\\' :: e :: rest =>
    if e = '\n' then multilineBasic? .after rest
    else if e = ' ' || e = '\t' || e = '\r' then multilineBasic? .before (e :: rest)
    else withChar (Escape.ofLetter? e) (multilineBasic? .outside rest)
  | _, c :: rest =>
    if isPlain c && c != '\\' then withChar (some c) (multilineBasic? .outside rest) else none

/-- The inside of a string in triple single quotes, after the opening quotes. Up to two quotes may
stand before the closing ones. -/
def multilineLiteral? : Reader (List Char)
  | [] => none
  | '\x27' :: '\x27' :: '\x27' :: '\x27' :: '\x27' :: rest => some (['\x27', '\x27'], rest)
  | '\x27' :: '\x27' :: '\x27' :: '\x27' :: rest => some (['\x27'], rest)
  | '\x27' :: '\x27' :: '\x27' :: rest => some ([], rest)
  | '\n' :: rest => withChar (some '\n') (multilineLiteral? rest)
  | '\r' :: '\n' :: rest => withChar (some '\n') (multilineLiteral? rest)
  | c :: rest => if isPlain c then withChar (some c) (multilineLiteral? rest) else none

/-- The text without a line feed at its start. -/
def dropNewline : List Char → List Char
  | '\n' :: rest => rest
  | '\r' :: '\n' :: rest => rest
  | text => text

/-- A string in any notation. -/
def string? : Reader (List Char)
  | '"' :: '"' :: '"' :: rest => multilineBasic? .outside (dropNewline rest)
  | '"' :: rest => basic? rest
  | '\x27' :: '\x27' :: '\x27' :: rest => multilineLiteral? (dropNewline rest)
  | '\x27' :: rest => literal? rest
  | _ => none

/-!
## Numbers of TOML

Whole numbers in four bases and decimal fractions, where single underscores may stand between
digits. Each reader takes a whole text.
-/

/-- Digits without the underscores between them; none when an underscore stands elsewhere. -/
def digits? (isDigit : Char → Bool) : List Char → Option (List Char)
  | [] => none
  | [c] => if isDigit c then some [c] else none
  | c :: '_' :: rest => if isDigit c then (digits? isDigit rest).map (c :: ·) else none
  | c :: rest => if isDigit c then (digits? isDigit rest).map (c :: ·) else none

/-- Digits of a whole number, which do not start with a zero unless that is the only one. -/
def unitDigits? (text : List Char) : Option (List Char) :=
  match text with
  | ['0'] => some ['0']
  | '0' :: _ => none
  | _ => digits? Char.isDigit text

/-- A whole number of 64 bits in decimal, hexadecimal, octal or binary digits. -/
def integer? (text : List Char) : Option Int :=
  let value : Option Int :=
    match text with
    | '0' :: 'x' :: rest => (digits? isHexDigit rest).map fun ds => (ofDigits 16 ds : Int)
    | '0' :: 'o' :: rest =>
      (digits? (fun c => c.isDigit && decide (c < '8')) rest).map fun ds => (ofDigits 8 ds : Int)
    | '0' :: 'b' :: rest =>
      (digits? (fun c => c = '0' || c = '1') rest).map fun ds => (ofDigits 2 ds : Int)
    | _ =>
      let (negative, rest) := splitSign text
      (unitDigits? rest).map (signedOfDigits negative)
  value.bind fun n => if inInt64 n then some n else none

/-- Whether a character is a digit or an underscore. -/
def isDigitOrUnderscore (c : Char) : Bool := c.isDigit || c = '_'

/-- The exponent of a number, up to the end of the text; none when it is malformed. -/
def exponent? : List Char → Option Int
  | [] => some 0
  | e :: rest =>
    if e = 'e' || e = 'E' then
      let (negative, ds) := splitSign rest
      (digits? Char.isDigit ds).map (signedOfDigits negative)
    else none

/-- A number with a fraction or an exponent, an infinity or no number; one that would be rounded
up to infinity is refused. -/
def float? (text : List Char) : Option Binary :=
  let (negative, unsigned) := splitSign text
  if unsigned = ['i', 'n', 'f'] then some (.infinite negative)
  else if unsigned = ['n', 'a', 'n'] then some .nan
  else do
    let units ← unitDigits? (unsigned.takeWhile isDigitOrUnderscore)
    let rest := unsigned.dropWhile isDigitOrUnderscore
    let (fraction, rest) ← match rest with
      | '.' :: rest => do
        let ds ← digits? Char.isDigit (rest.takeWhile isDigitOrUnderscore)
        pure (ds, rest.dropWhile isDigitOrUnderscore)
      | [] => none
      | rest => pure ([], rest)
    let e ← exponent? rest
    match Binary.nearest negative (ofDigits 10 (units ++ fraction)) (e - fraction.length) with
    | .infinite false => none
    | x => return x

/-!
## Dates and times

Dates and times of day in the notation of RFC 3339, brought into a normal form: a capital `T`
between date and time, a capital `Z`, and no zeros at the end of a fraction of a second.
-/

/-- The number of two digits, if it lies in a range. -/
def twoDigits? (low high : Nat) (a b : Char) : Option Nat :=
  let n := ofDigits 10 [a, b]
  if a.isDigit && b.isDigit && decide (low ≤ n) && decide (n ≤ high) then some n else none

/-- Number of days of a month. -/
def daysIn (year month : Nat) : Nat :=
  if month = 2 then
    if year % 4 = 0 ∧ (year % 100 ≠ 0 ∨ year % 400 = 0) then 29 else 28
  else if [4, 6, 9, 11].contains month then 30
  else 31

/-- Reads a date `yyyy-mm-dd`; gives its text and what follows. -/
def date? : List Char → Option (List Char × List Char)
  | y₁ :: y₂ :: y₃ :: y₄ :: '-' :: m₁ :: m₂ :: '-' :: d₁ :: d₂ :: rest => do
    let month ← twoDigits? 1 12 m₁ m₂
    let day ← twoDigits? 1 31 d₁ d₂
    if [y₁, y₂, y₃, y₄].all Char.isDigit &&
        decide (day ≤ daysIn (ofDigits 10 [y₁, y₂, y₃, y₄]) month) then
      some ([y₁, y₂, y₃, y₄, '-', m₁, m₂, '-', d₁, d₂], rest)
    else none
  | _ => none

/-- The text without the zeros at its end. -/
def dropZeros (digits : List Char) : List Char := (digits.reverse.dropWhile (· == '0')).reverse

/-- Reads a fraction of a second; digits after the ninth do not count. -/
def fraction? : List Char → Option (List Char × List Char)
  | '.' :: rest =>
    let (digits, rest) := splitDigits rest
    if digits.isEmpty then none
    else
      let kept := dropZeros (digits.take 9)
      some (if kept.isEmpty then [] else '.' :: kept, rest)
  | rest => some ([], rest)

/-- Reads a time of day `hh:mm:ss` with an optional fraction, up to the hour `lastHour`. -/
def time? (lastHour : Nat) : List Char → Option (List Char × List Char)
  | h₁ :: h₂ :: ':' :: m₁ :: m₂ :: ':' :: s₁ :: s₂ :: rest => do
    let _ ← twoDigits? 0 lastHour h₁ h₂
    let _ ← twoDigits? 0 59 m₁ m₂
    let _ ← twoDigits? 0 60 s₁ s₂
    let (fraction, rest) ← fraction? rest
    return ([h₁, h₂, ':', m₁, m₂, ':', s₁, s₂] ++ fraction, rest)
  | _ => none

/-- Reads the distance from universal time, up to the end of the text. An empty text stands for
a local time. -/
def offset? : List Char → Option (List Char)
  | [] => some []
  | ['Z'] => some ['Z']
  | ['z'] => some ['Z']
  | [sign, h₁, h₂, ':', m₁, m₂] => do
    let hours ← twoDigits? 0 23 h₁ h₂
    let minutes ← twoDigits? 0 59 m₁ m₂
    if sign = '+' ∨ (sign = '-' ∧ hours = 0 ∧ minutes = 0) then
      some ['+', h₁, h₂, ':', m₁, m₂]
    else if sign = '-' then some ['-', h₁, h₂, ':', m₁, m₂]
    else none
  | _ => none

/-- Reads a date, a time of day, or both with an optional offset. -/
def moment? (text : List Char) : Option (List Char) :=
  match date? text with
  | some (date, []) => some date
  | some (date, divider :: rest) =>
    if divider = 'T' ∨ divider = 't' ∨ divider = ' ' then do
      let (time, rest) ← time? 23 rest
      let offset ← offset? rest
      return date ++ 'T' :: (time ++ offset)
    else none
  | none =>
    match time? 23 text with
    | some (time, []) => some time
    | _ => none

/-!
## Scalars

Strings, numbers, truth values, dates and times. A reader takes the text at its place and gives
the value and the text after it, or none if there is no such value.
-/

/-- Whether a character may stand in a value that is not in quotes. -/
def isWordChar (c : Char) : Bool :=
  c.isAlphanum || c = '+' || c = '-' || c = '.' || c = '_' || c = ':'

/-- The value that a word stands for. -/
def word? (word : List Char) : Option Document :=
  if word = ['t', 'r', 'u', 'e'] then some (.bool true)
  else if word = ['f', 'a', 'l', 's', 'e'] then some (.bool false)
  else
    match moment? word with
    | some m => some (.moment (String.ofList m))
    | none =>
      match integer? word with
      | some n => some (.int n)
      | none => (float? word).map fun x => .number (.binary x)

/-- A date and a time with a space between them. -/
def spacedMoment? (text : List Char) : Option (List Char × List Char) :=
  match date? text with
  | some (_, ' ' :: rest) =>
    (moment? (text.take 11 ++ rest.takeWhile isWordChar)).map (·, rest.dropWhile isWordChar)
  | _ => none

/-- A string, number, truth value, date or time. -/
def scalar? : Reader Document := fun text =>
  match text with
  | [] => none
  | c :: _ =>
    if c = '"' || c = '\x27' then
      (string? text).map fun (s, rest) => (.text (String.ofList s), rest)
    else
      match spacedMoment? text with
      | some (m, rest) => some (.moment (String.ofList m), rest)
      | none => (word? (text.takeWhile isWordChar)).map (·, text.dropWhile isWordChar)

end JoinForest.Toml
