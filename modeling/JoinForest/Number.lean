set_option autoImplicit false

/-!
# Numbers

Whole numbers by their digits, binary numbers of 64 bits, how a decimal number is rounded to one and
how one is written in decimal, and the numerals of texts, which are read as either kind.
-/

namespace JoinForest

/-!
## Powers of two and of ten

The sizes of words of so many bits and the values of decimal places.
-/

/-- Two to the power of a natural number: how many words of so many bits there are. -/
def twoTo (bits : Nat) : Nat := Nat.pow 2 bits

/-- Ten to the power of a natural number: the value of a decimal place. -/
def tenTo (place : Nat) : Nat := Nat.pow 10 place

theorem twoTo_succ (n : Nat) : twoTo (n + 1) = twoTo n * 2 := rfl

theorem twoTo_pos (n : Nat) : 0 < twoTo n := Nat.pow_pos (by decide)

/-!
## Digits

Numbers as lists of digits, the most significant first, in bases up to sixteen. Digits of
hexadecimal numbers are read in either case and written in lower case, and a number below 256 is
read back from its two digits (`ofDigits_hexPair`).
-/

/-- The value of a digit of any base up to sixteen. -/
def digitValue (c : Char) : Nat :=
  if '0' ≤ c ∧ c ≤ '9' then c.toNat - '0'.toNat
  else if 'a' ≤ c ∧ c ≤ 'f' then c.toNat - 'a'.toNat + 10
  else if 'A' ≤ c ∧ c ≤ 'F' then c.toNat - 'A'.toNat + 10
  else 0

/-- Whether a character is a hexadecimal digit. -/
def isHexDigit (c : Char) : Bool :=
  c.isDigit || (decide ('a' ≤ c) && decide (c ≤ 'f')) || (decide ('A' ≤ c) && decide (c ≤ 'F'))

/-- The number that digits of a base write. -/
def ofDigits (base : Nat) (digits : List Char) : Nat :=
  digits.foldl (fun n c => n * base + digitValue c) 0

/-- A natural number in decimal digits. -/
def decimalDigits (n : Nat) : List Char := Nat.toDigits 10 n

/-- A number below 256 in two hexadecimal digits. -/
def hexPair (n : Nat) : List Char := [Nat.digitChar (n / 16), Nat.digitChar (n % 16)]

/-- A number below 100 in two decimal digits. -/
def decimalPair (n : Nat) : List Char := [Nat.digitChar (n / 10), Nat.digitChar (n % 10)]

/-- A minus sign if asked for. -/
def signed (negative : Bool) (digits : List Char) : List Char :=
  if negative then '-' :: digits else digits

/-- Takes a sign off a text and tells whether it was a minus sign. -/
def splitSign : List Char → Bool × List Char
  | '-' :: rest => (true, rest)
  | '+' :: rest => (false, rest)
  | rest => (false, rest)

/-- Decimal digits at the start of a text, and what follows them. -/
def splitDigits (text : List Char) : List Char × List Char :=
  (text.takeWhile Char.isDigit, text.dropWhile Char.isDigit)

/-- The number of some digits with a sign. -/
def signedOfDigits (negative : Bool) (digits : List Char) : Int :=
  if negative then -(ofDigits 10 digits : Int) else ofDigits 10 digits

/-! ### Hexadecimal digits -/

/-- The digit of a value below sixteen has this value. -/
theorem digitValue_digitChar : ∀ n < 16, digitValue (Nat.digitChar n) = n := by decide

theorem isHexDigit_digitChar : ∀ n < 16, isHexDigit (Nat.digitChar n) = true := by decide

/-- Two hexadecimal digits write their number. -/
theorem ofDigits_hexPair {n : Nat} (h : n < 256) : ofDigits 16 (hexPair n) = n := by
  have hhigh := digitValue_digitChar (n / 16) (by omega)
  have hlow := digitValue_digitChar (n % 16) (by omega)
  simp only [ofDigits, hexPair, List.foldl_cons, List.foldl_nil, hhigh, hlow]
  omega

/-!
## Binary numbers of 64 bits

The values of the format with 53 significant bits, as exact products of a natural number and a
power of two, and the interval of reals that round to such a value.
-/

/-- What 64 bits stand for: not a number, an infinity, or `± significand · 2 ^ exponent`, where the
significand is below `2 ^ 53`, and below `2 ^ 52` only with the least exponent, `-1074`. -/
inductive Binary where
  | nan
  | infinite (negative : Bool)
  | finite (negative : Bool) (significand : Nat) (exponent : Int)
  deriving DecidableEq, Repr, Inhabited

namespace Binary

/-- Zero with a sign. -/
def zero (negative : Bool) : Binary := finite negative 0 (-1074)

/-- Whether the value is a real number. -/
def isFinite : Binary → Bool
  | finite _ _ _ => true
  | _ => false

end Binary

/-- The positive rational numbers between `low / unit` and `high / unit`, with the two ends if
`closed` is set, around `middle / unit`. -/
structure Neighbourhood where
  low : Nat
  middle : Nat
  high : Nat
  unit : Nat
  closed : Bool
  deriving DecidableEq, Repr

/-- The numbers that round to `significand · 2 ^ exponent`. Below a power of two the neighbouring
value is half as far away; the ends round to the even significand. -/
def Neighbourhood.around (significand : Nat) (exponent : Int) : Neighbourhood :=
  let scale := twoTo exponent.toNat
  let below := if significand = twoTo 52 ∧ exponent ≠ -1074 then 1 else 2
  ⟨(4 * significand - below) * scale, 4 * significand * scale, (4 * significand + 2) * scale,
    4 * twoTo (-exponent).toNat, significand % 2 == 0⟩

/-!
## Rounding to binary numbers

The binary number nearest to a ratio of natural numbers, in exact arithmetic; of two equally near
ones the one with the even significand. A decimal number is rounded either as a whole, or, by the
short way, in steps: first its digits, then the power of ten, then their product or quotient.
-/

/-- The natural number nearest to a ratio; of two equally near ones the even one. -/
def roundedRatio (num den : Nat) : Nat :=
  let floor := num / den
  let twice := 2 * (num % den)
  if den < twice || (twice == den && floor % 2 == 1) then floor + 1 else floor

namespace Binary

/-- A ratio in units of `2 ^ exponent`, as another ratio. -/
def inUnits (num den : Nat) (exponent : Int) : Nat × Nat :=
  (num * twoTo (-exponent).toNat, den * twoTo exponent.toNat)

/-- The exponent of the binary numbers around a positive ratio: the one that leaves 53 bits before
the point, but not below the least exponent. -/
def exponentOf (num den : Nat) : Int :=
  let low := (Nat.log2 num : Int) - Nat.log2 den - 53
  let (n, d) := inUnits num den low
  max (if n / d < twoTo 53 then low else low + 1) (-1074)

/-- The binary number nearest to `± num / den`; one beyond the largest is infinite. -/
def ofRatio (negative : Bool) (num den : Nat) : Binary :=
  if num = 0 then zero negative
  else
    let e := exponentOf num den
    let (n, d) := inUnits num den e
    let m := roundedRatio n d
    let (m, e) := if m = twoTo 53 then (twoTo 52, e + 1) else (m, e)
    if 971 < e then infinite negative else finite negative m e

/-- The binary number nearest to `± coefficient · 10 ^ exponent`. Powers of ten that lead far out
of the range are not formed: the result is zero or infinite whatever the exponent is. -/
def nearest (negative : Bool) (coefficient : Nat) (exponent : Int) : Binary :=
  let size := ((decimalDigits coefficient).length : Int) + exponent
  if coefficient = 0 || size < -400 then zero negative
  else if 400 < size then infinite negative
  else ofRatio negative (coefficient * tenTo exponent.toNat) (tenTo (-exponent).toNat)

/-! ### The short way -/

/-- The power of ten nearest to `10 ^ exponent`. -/
def powerOfTen (exponent : Nat) : Binary := nearest false 1 exponent

/-- The product of a value with a positive one, rounded. -/
def scaleUp : Binary → Binary → Binary
  | finite negative m e, finite _ m' e' =>
    ofRatio negative (m * m' * twoTo (e + e').toNat) (twoTo (-(e + e')).toNat)
  | finite negative 0 _, _ => zero negative
  | finite negative _ _, infinite _ => infinite negative
  | x, _ => x

/-- The quotient of a value by a positive one, rounded. -/
def scaleDown : Binary → Binary → Binary
  | finite negative m e, finite _ m' e' =>
    ofRatio negative (m * twoTo (e - e').toNat) (m' * twoTo (e' - e).toNat)
  | finite negative _ _, infinite _ => zero negative
  | x, _ => x

/-- A binary number near `± significand · 10 ^ exponent`, where the significand has at most 64
bits: the nearest one to the significand times or divided by the nearest one to a power of ten,
the division in two steps if one is not enough. -/
def shortWay (negative : Bool) (significand : Nat) (exponent : Int) : Binary :=
  let x := nearest negative significand 0
  if significand = 0 || exponent < -616 then zero negative
  else if exponent < -308 then
    (x.scaleDown (powerOfTen 308)).scaleDown (powerOfTen (-exponent - 308).toNat)
  else if exponent < 0 then x.scaleDown (powerOfTen (-exponent).toNat)
  else if exponent ≤ 308 then x.scaleUp (powerOfTen exponent.toNat)
  else infinite negative

end Binary

/-!
## Shortest decimal text of a binary number

The text has as few digits as tell the number from its neighbours and, of those texts, the one
nearest to the number. It is always written positionally, without an exponent.
-/

namespace Neighbourhood

/-- Whether `d · step / scale` lies in the neighbourhood. -/
def holds (n : Neighbourhood) (d step scale : Nat) : Bool :=
  if n.closed then n.low * scale ≤ d * step && d * step ≤ n.high * scale
  else n.low * scale < d * step && d * step < n.high * scale

/-- The multiple of `10 ^ place` in the neighbourhood that is nearest to the middle, as the number
of times; of two equally near ones the larger. -/
def onGrid? (n : Neighbourhood) (place : Int) : Option Nat :=
  let step := tenTo place.toNat * n.unit
  let scale := tenTo (-place).toNat
  let floor := n.middle * scale / step
  match n.holds floor step scale, n.holds (floor + 1) step scale with
  | true, true =>
    if 2 * (n.middle * scale) < (2 * floor + 1) * step then some floor else some (floor + 1)
  | true, false => some floor
  | false, true => some (floor + 1)
  | false, false => none

/-- The coarsest of `count` decimal grids, from `10 ^ place` downwards, that meets the
neighbourhood, with the number found there. -/
def coarsest? (n : Neighbourhood) : Nat → Int → Option (Nat × Int)
  | 0, _ => none
  | count + 1, place =>
    match n.onGrid? place with
    | some d => some (d, place)
    | none => n.coarsest? count (place - 1)

end Neighbourhood

/-- The number `coefficient · 10 ^ place` in positional notation. -/
def positional (coefficient : Nat) (place : Int) : List Char :=
  let digits := decimalDigits coefficient
  if 0 ≤ place then digits ++ List.replicate place.toNat '0'
  else
    let after := (-place).toNat
    if digits.length ≤ after then
      ['0', '.'] ++ List.replicate (after - digits.length) '0' ++ digits
    else
      digits.take (digits.length - after) ++ '.' :: digits.drop (digits.length - after)

/-- The grids tried by `shortestDigits`: from `10 ^ 309`, above all numbers, down to `10 ^ -325`,
below the distance of any two. -/
def gridCount : Nat := 635

/-- A positive number in its shortest decimal text. -/
def shortestDigits (significand : Nat) (exponent : Int) : List Char :=
  match (Neighbourhood.around significand exponent).coarsest? gridCount 309 with
  | some (d, place) => positional d place
  | none => []

/-- The text of a binary number. -/
def Binary.text : Binary → String
  | nan => "NaN"
  | infinite negative => String.ofList (signed negative ['i', 'n', 'f'])
  | finite negative significand exponent =>
    String.ofList (signed negative
      (if significand = 0 then ['0'] else shortestDigits significand exponent))

/-!
## Numerals

A number as a text gives it: a whole number, exactly, or a binary number, which is what a decimal
fraction, a power of ten or a special value is read as.
-/

/-- A number as read. A whole number keeps its sign, so that `-0` differs from `0`. -/
inductive Numeral where
  | whole (negative : Bool) (magnitude : Nat)
  | binary (value : Binary)
  deriving DecidableEq, Repr, Inhabited

/-- The smallest and the largest number of 64 bits with a sign. -/
def inInt64 (n : Int) : Bool := decide (-(twoTo 63 : Int) ≤ n) && decide (n < twoTo 63)

namespace Numeral

/-- A whole number as a numeral. -/
def ofInt (n : Int) : Numeral := whole (decide (n < 0)) n.natAbs

/-- The value of a whole number other than `-0`, if it is a signed number of 64 bits. -/
def int64? : Numeral → Option Int
  | whole true 0 => none
  | whole negative n =>
    let value : Int := if negative then -(n : Int) else n
    if inInt64 value then some value else none
  | _ => none

/-- The value of a whole number without a sign that fits into 64 bits. -/
def nat64? : Numeral → Option Nat
  | whole false n => if n < twoTo 64 then some n else none
  | _ => none

/-- The nearest binary number. -/
def toBinary : Numeral → Binary
  | whole negative n => .nearest negative n 0
  | binary x => x

/-! ### Floating-point literals -/

/-- Reads an exponent `e±digits` that ends the text; an absent exponent is zero. -/
def exponent? : List Char → Option Int
  | [] => some 0
  | e :: rest =>
    if e = 'e' ∨ e = 'E' then
      let (negative, digits) := splitSign rest
      if digits.isEmpty || !digits.all Char.isDigit then none
      else some (signedOfDigits negative digits)
    else none

/-- Reads an unsigned floating-point literal: digits with an optional point, at least one digit,
and an optional exponent, or one of `inf`, `infinity` and `nan` in any case. -/
def unsignedFloat? (negative : Bool) (text : List Char) : Option Binary :=
  let lower := String.ofList (text.map Char.toLower)
  if lower == "inf" || lower == "infinity" then some (.infinite negative)
  else if lower == "nan" then some .nan
  else
    let (units, rest) := splitDigits text
    let (fraction, rest) := match rest with
      | '.' :: rest => splitDigits rest
      | rest => ([], rest)
    if units.isEmpty && fraction.isEmpty then none
    else (exponent? rest).map fun e =>
      .nearest negative (ofDigits 10 (units ++ fraction)) (e - fraction.length)

/-- Reads a floating-point literal with an optional sign. -/
def float? (text : String) : Option Binary :=
  let (negative, rest) := splitSign text.toList
  unsignedFloat? negative rest

/-- Reads a whole number of 64 bits with an optional sign. -/
def integer? (text : String) : Option Int :=
  let (negative, digits) := splitSign text.toList
  if digits.isEmpty || !digits.all Char.isDigit then none
  else
    let value := signedOfDigits negative digits
    if inInt64 value then some value else none

end Numeral

end JoinForest
