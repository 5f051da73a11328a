import JoinForest.Document
import JoinForest.Number
import JoinForest.Text.Reader

set_option autoImplicit false

/-!
# JSON

Documents from and to texts of JSON. A text is divided into tokens, among them numbers, which have a
machine of their own, and documents are read from the list of tokens and written as such lists.
-/

namespace JoinForest.Json

/-!
## Numbers of JSON

Numbers are read one character at a time, by a machine that knows which part of the number it
stands in. The digits make a significand of at most 64 bits. A digit before the point that does not
fit counts only as a place, and so do the digits after it up to the point; the first digit after
the point that does not fit and those after it count for nothing.
-/

/-- What has been read of a number. -/
inductive NumberPart where
  /-- A minus sign only. -/
  | sign
  /-- A leading zero, after which no digit follows. -/
  | zero
  /-- Digits before the point. -/
  | units
  /-- The point only. -/
  | point
  /-- Digits after the point. -/
  | fraction
  /-- The letter of the exponent only. -/
  | exponent
  /-- The sign of the exponent. -/
  | exponentSign
  /-- Digits of the exponent. -/
  | exponentDigits
  deriving DecidableEq, Repr

/-- A number under way: where it stands, its sign, its significand and the power of ten to take it
times, whether a digit of this part did not fit, and sign and value of the exponent. -/
structure NumberState where
  part : NumberPart
  negative : Bool := false
  significand : Nat := 0
  shift : Int := 0
  full : Bool := false
  exponentNegative : Bool := false
  exponent : Nat := 0
  deriving DecidableEq, Repr

namespace NumberState

/-- Takes one more digit before the point. -/
def addUnit (s : NumberState) (digit : Nat) : NumberState :=
  let grown := s.significand * 10 + digit
  if s.full || decide (twoTo 64 ≤ grown) then
    { s with part := .units, full := true, shift := s.shift + 1 }
  else { s with part := .units, significand := grown }

/-- Takes one more digit after the point. -/
def addPlace (s : NumberState) (digit : Nat) : NumberState :=
  let grown := s.significand * 10 + digit
  if s.full || decide (twoTo 64 ≤ grown) then { s with part := .fraction, full := true }
  else { s with part := .fraction, significand := grown, shift := s.shift - 1 }

/-- The state after one more character; none when it does not belong to the number. -/
def next? (s : NumberState) (c : Char) : Option NumberState :=
  let digit := c.isDigit
  match s.part with
  | .sign =>
    if c = '0' then some { s with part := .zero }
    else if digit then some (s.addUnit (digitValue c))
    else none
  | .zero =>
    if c = '.' then some { s with part := .point, full := false }
    else if c = 'e' || c = 'E' then some { s with part := .exponent }
    else none
  | .units =>
    if digit then some (s.addUnit (digitValue c))
    else if c = '.' then some { s with part := .point, full := false }
    else if c = 'e' || c = 'E' then some { s with part := .exponent }
    else none
  | .point =>
    if digit then some (s.addPlace (digitValue c))
    else none
  | .fraction =>
    if digit then some (s.addPlace (digitValue c))
    else if c = 'e' || c = 'E' then some { s with part := .exponent }
    else none
  | .exponent =>
    if digit then some { s with part := .exponentDigits, exponent := digitValue c }
    else if c = '+' then some { s with part := .exponentSign }
    else if c = '-' then some { s with part := .exponentSign, exponentNegative := true }
    else none
  | .exponentSign =>
    if digit then some { s with part := .exponentDigits, exponent := digitValue c } else none
  | .exponentDigits =>
    if digit then some { s with exponent := s.exponent * 10 + digitValue c } else none

/-- The number read, if it may end here. -/
def finish? (s : NumberState) : Option Numeral :=
  let e : Int := if s.exponentNegative then -(s.exponent : Int) else s.exponent
  match s.part with
  | .zero => some (.whole s.negative 0)
  | .units =>
    if s.full then some (.binary (.shortWay s.negative s.significand s.shift))
    else some (.whole s.negative s.significand)
  | .fraction => some (.binary (.shortWay s.negative s.significand s.shift))
  | .exponentDigits => some (.binary (.shortWay s.negative s.significand (s.shift + e)))
  | _ => none

end NumberState

/-!
## Tokens of JSON

The lexical units of JSON and the text of each.
-/

/-- A lexical unit. The text of a string is missing when it holds half of a surrogate pair. -/
inductive Token where
  | openRecord
  | closeRecord
  | openList
  | closeList
  | comma
  | colon
  | null
  | bool (value : Bool)
  | number (value : Numeral)
  | text (value : Option String)
  deriving DecidableEq, Repr, Inhabited

/-! ### Writing -/

/-- A character inside a string: quotes, backslashes and control characters are escaped. -/
def escapeChar (c : Char) : List Char :=
  match Escape.letterOf? c with
  | some letter => ['\\', letter]
  | none => if c.toNat < 32 then ['\\', 'u', '0', '0'] ++ hexPair c.toNat else [c]

/-- A string in quotes. -/
def quote (text : List Char) : List Char := '"' :: (text.flatMap escapeChar ++ ['"'])

/-- A numeral; what is no real number is written as null. -/
def numeralChars : Numeral → List Char
  | .whole negative n => signed negative (decimalDigits n)
  | .binary x => if x.isFinite then x.text.toList else ['n', 'u', 'l', 'l']

/-- The text of a token. -/
def Token.chars : Token → List Char
  | openRecord => ['\x7b']
  | closeRecord => ['\x7d']
  | openList => ['[']
  | closeList => [']']
  | comma => [',']
  | colon => [':']
  | null => ['n', 'u', 'l', 'l']
  | bool true => ['t', 'r', 'u', 'e']
  | bool false => ['f', 'a', 'l', 's', 'e']
  | number n => numeralChars n
  | text (some s) => quote s.toList
  | text none => ['n', 'u', 'l', 'l']

/-!
## The tokens of a text

The division of a text into tokens by a machine that reads one character at a time. Strings may
use every escape of RFC 8259; a character beyond the first plane may be written as two halves,
and a half without its other half makes a string that is well formed and yet denotes no text.
-/

/-! ### Strings -/

/-- A unit of a string: a character, or half of a surrogate pair. -/
inductive Unit16 where
  | char (c : Char)
  | half (value : Nat)
  deriving DecidableEq, Repr

/-- Whether a code stands for the first half of a pair. -/
def isHighHalf (n : Nat) : Bool := decide (0xD800 ≤ n) && decide (n < 0xDC00)

/-- Whether a code stands for the second half of a pair. -/
def isLowHalf (n : Nat) : Bool := decide (0xDC00 ≤ n) && decide (n < 0xE000)

/-- The unit that an escape of four hexadecimal digits writes. -/
def Unit16.ofCode (n : Nat) : Unit16 :=
  if isHighHalf n || isLowHalf n then half n else char (Char.ofNat n)

/-- The text of some units, where two halves of a pair make one character. -/
def joinUnits : List Unit16 → Option (List Char)
  | [] => some []
  | .char c :: rest => (joinUnits rest).map (c :: ·)
  | .half high :: .half low :: rest =>
    if isHighHalf high && isLowHalf low then
      (joinUnits rest).map (Char.ofNat ((high - 0xD800) * 0x400 + (low - 0xDC00) + 0x10000) :: ·)
    else none
  | .half _ :: _ => none

/-- The character that a one-letter escape stands for; a slash may be escaped as well. -/
def escaped? (c : Char) : Option Char := if c = '/' then some c else Escape.ofLetter? c

/-! ### The machine -/

/-- Where the machine stands in the text. -/
inductive Mode where
  /-- Between two tokens. -/
  | between
  /-- In a word, with the letters still to come and the token it makes. -/
  | word (left : List Char) (token : Token)
  /-- In a number. -/
  | number (state : NumberState)
  /-- In a string, with the units read, the last one first. -/
  | text (units : List Unit16)
  /-- After a backslash in a string. -/
  | escape (units : List Unit16)
  /-- In an escape by code, with the digits still to come and the value of those read. -/
  | code (units : List Unit16) (left : Nat) (value : Nat)
  deriving DecidableEq, Repr

/-- A character between two tokens: the tokens it completes and the mode after it. -/
def start? (c : Char) : Option (List Token × Mode) :=
  if c = ' ' || c = '\t' || c = '\n' || c = '\r' then some ([], .between)
  else if c = '\x7b' then some ([.openRecord], .between)
  else if c = '\x7d' then some ([.closeRecord], .between)
  else if c = '[' then some ([.openList], .between)
  else if c = ']' then some ([.closeList], .between)
  else if c = ',' then some ([.comma], .between)
  else if c = ':' then some ([.colon], .between)
  else if c = '"' then some ([], .text [])
  else if c = 'n' then some ([], .word ['u', 'l', 'l'] .null)
  else if c = 't' then some ([], .word ['r', 'u', 'e'] (.bool true))
  else if c = 'f' then some ([], .word ['a', 'l', 's', 'e'] (.bool false))
  else if c = '-' then some ([], .number { part := .sign, negative := true })
  else if c = '0' then some ([], .number { part := .zero })
  else if c.isDigit then some ([], .number { part := .units, significand := digitValue c })
  else none

/-- The tokens that a character completes and the mode after it; none when it cannot stand there.
-/
def step? (mode : Mode) (c : Char) : Option (List Token × Mode) :=
  match mode with
  | .between => start? c
  | .word [] token => (start? c).map fun (tokens, mode) => (token :: tokens, mode)
  | .word (expected :: left) token => if c = expected then some ([], .word left token) else none
  | .number state =>
    match state.next? c with
    | some state => some ([], .number state)
    | none => do
      let n ← state.finish?
      let (tokens, mode) ← start? c
      return (.number n :: tokens, mode)
  | .text units =>
    if c = '"' then some ([.text ((joinUnits units.reverse).map String.ofList)], .between)
    else if c = '\\' then some ([], .escape units)
    else if c.toNat < 32 then none
    else some ([], .text (.char c :: units))
  | .escape units =>
    if c = 'u' then some ([], .code units 4 0)
    else (escaped? c).map fun e => ([], .text (.char e :: units))
  | .code units left value =>
    if isHexDigit c then
      let value := value * 16 + digitValue c
      if left ≤ 1 then some ([], .text (Unit16.ofCode value :: units))
      else some ([], .code units (left - 1) value)
    else none

/-- The tokens that the end of the text completes; none when it cannot end there. -/
def finish? : Mode → Option (List Token)
  | .between => some []
  | .word [] token => some [token]
  | .number state => state.finish?.map fun n => [.number n]
  | _ => none

/-- The machine's mode and the tokens so far, the last one first, after one more character. -/
def read? : Mode × List Token → Char → Option (Mode × List Token)
  | (mode, done), c => (step? mode c).map fun (tokens, mode) => (mode, tokens.reverse ++ done)

/-- The tokens of a text; none when it cannot be divided into tokens. -/
def tokens? (text : List Char) : Option (List Token) := do
  let (mode, done) ← text.foldlM read? (.between, [])
  let last ← finish? mode
  return done.reverse ++ last

/-!
## JSON texts

Documents from and to JSON. A document is written through its list of tokens, and read from a
list of tokens by a machine with a stack of the lists and records that are still open.
-/

/-! ### Reading -/

/-- A list or a record that is still open, with what it holds so far, the last first; a record
waits for the value of a key. -/
inductive Frame where
  | list (before : List Document)
  | record (before : List (Option String × Document)) (key : Option String)

/-- What the reader stands before or after. -/
inductive State where
  /-- A value has to follow. -/
  | value (stack : List Frame)
  /-- A list has just been opened. -/
  | firstItem (stack : List Frame)
  /-- A record has just been opened. -/
  | firstKey (stack : List Frame)
  /-- A key has to follow. -/
  | key (stack : List Frame) (before : List (Option String × Document))
  /-- A colon has to follow. -/
  | colon (stack : List Frame) (before : List (Option String × Document)) (key : Option String)
  /-- A value has just been completed. -/
  | after (stack : List Frame) (value : Document)

/-- The record of some fields; one with a key that is no text is garbled. -/
def recordOf (fields : List (Option String × Document)) : Document :=
  match fields.mapM fun (key, d) => key.map (·, d) with
  | some fields => .record fields
  | none => .garbled

/-- The state after the first token of a value. -/
def beginValue? (stack : List Frame) : Token → Option State
  | .openRecord => some (.firstKey stack)
  | .openList => some (.firstItem stack)
  | .null => some (.after stack .null)
  | .bool b => some (.after stack (.bool b))
  | .number n => some (.after stack (.number n))
  | .text (some s) => some (.after stack (.text s))
  | .text none => some (.after stack .garbled)
  | _ => none

/-- The state after one more token; none when it cannot stand there. -/
def advance? : State → Token → Option State
  | .value stack, t => beginValue? stack t
  | .firstItem stack, .closeList => some (.after stack (.list []))
  | .firstItem stack, t => beginValue? (.list [] :: stack) t
  | .firstKey stack, .closeRecord => some (.after stack (.record []))
  | .firstKey stack, .text key => some (.colon stack [] key)
  | .firstKey _, _ => none
  | .key stack before, .text key => some (.colon stack before key)
  | .key _ _, _ => none
  | .colon stack before key, .colon => some (.value (.record before key :: stack))
  | .colon _ _ _, _ => none
  | .after (.list before :: stack) d, .comma => some (.value (.list (d :: before) :: stack))
  | .after (.list before :: stack) d, .closeList =>
    some (.after stack (.list (d :: before).reverse))
  | .after (.record before key :: stack) d, .comma => some (.key stack ((key, d) :: before))
  | .after (.record before key :: stack) d, .closeRecord =>
    some (.after stack (recordOf ((key, d) :: before).reverse))
  | .after _ _, _ => none

/-- The document of a list of tokens. -/
def document? (tokens : List Token) : Option Document :=
  match tokens.foldlM advance? (.value []) with
  | some (.after [] d) => some d
  | _ => none

/-- The document of a text; none when the text is not JSON. -/
def parse? (text : String) : Option Document := (tokens? text.toList).bind document?

/-! ### Writing -/

mutual

/-- The tokens of a document. -/
def tokens : Document → List Token
  | .null => [.null]
  | .bool b => [.bool b]
  | .number n => [.number n]
  | .text s => [.text (some s)]
  | .moment s => [.text (some s)]
  | .list [] => [.openList, .closeList]
  | .list (d :: ds) => .openList :: (tokens d ++ itemTokens ds ++ [.closeList])
  | .record [] => [.openRecord, .closeRecord]
  | .record ((key, d) :: fields) =>
    .openRecord :: .text (some key) :: .colon :: (tokens d ++ fieldTokens fields ++ [.closeRecord])
  | .garbled => [.text none]

/-- The tokens of the items after the first. -/
def itemTokens : List Document → List Token
  | [] => []
  | d :: ds => .comma :: (tokens d ++ itemTokens ds)

/-- The tokens of the fields after the first. -/
def fieldTokens : List (String × Document) → List Token
  | [] => []
  | (key, d) :: fields => .comma :: .text (some key) :: .colon :: (tokens d ++ fieldTokens fields)

end

/-- A document on one line, without blanks. -/
def compact (d : Document) : String := String.ofList ((tokens d).flatMap Token.chars)

/-- A line feed and two spaces for each level. -/
def lineBreak (level : Nat) : List Char := '\n' :: List.replicate (2 * level) ' '

mutual

/-- A document at a level of indentation, with a line for each item and each field. -/
def prettyChars (level : Nat) : Document → List Char
  | .list [] => ['[', ']']
  | .list (d :: ds) =>
    '[' :: (lineBreak (level + 1) ++ prettyChars (level + 1) d ++ prettyItems (level + 1) ds ++
      lineBreak level ++ [']'])
  | .record [] => ['\x7b', '\x7d']
  | .record ((key, d) :: fields) =>
    '\x7b' :: (lineBreak (level + 1) ++ quote key.toList ++ [':', ' '] ++
      prettyChars (level + 1) d ++ prettyFields (level + 1) fields ++ lineBreak level ++ ['\x7d'])
  | .null => Token.null.chars
  | .bool b => (Token.bool b).chars
  | .number n => (Token.number n).chars
  | .text s => quote s.toList
  | .moment s => quote s.toList
  | .garbled => (Token.text none).chars

/-- The items after the first, each on a line. -/
def prettyItems (level : Nat) : List Document → List Char
  | [] => []
  | d :: ds => ',' :: (lineBreak level ++ prettyChars level d ++ prettyItems level ds)

/-- The fields after the first, each on a line. -/
def prettyFields (level : Nat) : List (String × Document) → List Char
  | [] => []
  | (key, d) :: fields =>
    ',' :: (lineBreak level ++ quote key.toList ++ [':', ' '] ++ prettyChars level d ++
      prettyFields level fields)

end

/-- A document over several lines, indented by two spaces for each level. -/
def pretty (d : Document) : String := String.ofList (prettyChars 0 d)

/-! ### Typed values -/

/-- Whether a document is null, which may stand beside the name of a variant without data. -/
def isNull : Document → Bool
  | .null => true
  | _ => false

/-- Values in a text of their own. -/
def textDialect : Dialect := ⟨isNull, true, false⟩

/-- Values inside a document that has been read as a whole, where the fields of a variant have to
be named. -/
def partDialect : Dialect := ⟨isNull, false, false⟩

/-- The deepest nesting of lists and records that is read. -/
def levels : Nat := 127

/-- A typed value from JSON text. -/
def decode? {α : Type} (decoder : Decoder α) (text : String) : Option α :=
  (parse? text).bind (decoder ⟨textDialect, levels⟩)

/-- A typed value from a document. -/
def ofDocument? {α : Type} (decoder : Decoder α) (d : Document) : Option α :=
  decoder ⟨partDialect, levels⟩ d

end JoinForest.Json
