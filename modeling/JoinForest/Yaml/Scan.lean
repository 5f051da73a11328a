import JoinForest.Text.Reader
import JoinForest.Yaml.Scalar

set_option autoImplicit false

/-!
# Tokens of YAML

The division of a YAML text into tokens. Indentation counts, so that it depends on the collections
and brackets that are open at a place.
-/

namespace JoinForest.Yaml

/-!
## Tags and names

Tags of values, the names of anchors, and the directives in front of a document, which tell what the
handles of its tags stand for.
-/

/-- A tag: a handle, or what a directive puts in its place, and what follows it. -/
structure Tag where
  handle : String
  suffix : String
  deriving DecidableEq, Repr, Inhabited

/-- A line in front of a document: its version, the meaning of a handle, or anything else. -/
inductive Directive where
  | version
  | handle (handle meaning : String)
  | other
  deriving DecidableEq, Repr, Inhabited

namespace Tag

/-! ### Characters by their codes -/

/-- Whether a character may stand in a tag between angle brackets. -/
def isUriChar (c : Char) : Bool :=
  isNameChar c || "#;/?:@&=+$,_.!~*'()[]%".toList.contains c

/-- Whether a character may stand in a tag without brackets. -/
def isTagChar (c : Char) : Bool := isUriChar c && !isFlowMark c && c != '!'

/-- A byte, written as a percent sign and two hexadecimal digits. -/
def byte? : Reader Nat := fun text =>
  match (text.take 3).map (·.char) with
  | ['%', a, b] =>
    if isHexDigit a && isHexDigit b then some (ofDigits 16 [a, b], text.drop 3) else none
  | _ => none

/-- A number whose bytes follow, so many of them, after those that make up `number`. All of them are
bytes that go on with a character. -/
def bytes? : Nat → Nat → Reader Nat
  | 0, number, text => some (number, text)
  | left + 1, number, text => do
    let (byte, rest) ← byte? text
    if byte / 64 ≠ 2 then none
    bytes? left (number * 256 + byte) rest

/-- A character in bytes. The first byte tells how many follow, and all of them together are the
code. -/
def escaped? : Reader Char := fun text => do
  let (first, rest) ← byte? text
  let left ← if first / 128 = 0 then some 0
    else if first / 32 = 6 then some 1
    else if first / 16 = 14 then some 2
    else if first / 8 = 30 then some 3
    else none
  let (code, rest) ← bytes? left first rest
  if code.isValidChar then return (Char.ofNat code, rest) else none

/-- The characters of a class at the start of a text, at most `bound` of them. A percent sign starts
one in bytes. -/
def chars? (isChar : Char → Bool) : Nat → Reader (List Char)
  | 0, text => some ([], text)
  | bound + 1, text =>
    if !isChar text.char then some ([], text)
    else do
      let (c, rest) ← if text.char = '%' then escaped? text else some (text.char, text.drop 1)
      let (cs, rest) ← chars? isChar bound rest
      return (c :: cs, rest)

/-! ### Tags -/

/-- The characters of a name at the start of a text. -/
def name (text : PlacedText) : List Char × PlacedText :=
  ((text.takeWhile fun p => isNameChar p.char).map (·.char),
    text.dropWhile fun p => isNameChar p.char)

/-- An exclamation mark with a name and perhaps another exclamation mark. -/
def handle? : Reader (List Char) := fun text =>
  if text.char = '!' then
    let (cs, rest) := name (text.drop 1)
    if rest.char = '!' then some ('!' :: cs ++ ['!'], rest.drop 1) else some ('!' :: cs, rest)
  else none

/-- Whether a handle has an exclamation mark at each of its two ends. -/
def isClosed (handle : List Char) : Bool := decide (2 ≤ handle.length) && handle.getLast? = some '!'

/-- A tag between angle brackets, after the first of them. -/
def bracketed? : Reader Tag := fun text => do
  let (cs, rest) ← chars? isUriChar text.length text
  if rest.char = '>' then return (⟨"", String.ofList cs⟩, rest.drop 1) else none

/-- A tag without brackets. Something follows a handle with two exclamation marks; a tag that is no
more than one exclamation mark has no handle. -/
def short? : Reader Tag := fun text => do
  let (handle, rest) ← handle? text
  let (cs, rest) ← chars? isTagChar rest.length rest
  if isClosed handle then
    if cs.isEmpty then none else return (⟨String.ofList handle, String.ofList cs⟩, rest)
  else
    match handle.drop 1 ++ cs with
    | [] => return (⟨"", "!"⟩, rest)
    | suffix => return (⟨"!", String.ofList suffix⟩, rest)

/-- A tag, which is followed by a blank, the end of the line or, in brackets, a mark. -/
def tag? (inFlow : Bool) : Reader Tag := fun text => do
  let (tag, rest) ← if text.next = '<' then bracketed? (text.drop 2) else short? text
  if isGap rest.char || (inFlow && isFlowMark rest.char) then return (tag, rest) else none

/-! ### Anchors -/

/-- Whether a character may stand in the name of an anchor. -/
def isAnchorChar (c : Char) : Bool := !isGap c && !isFlowMark c && c != '\ufeff'

/-- The name of an anchor. -/
def anchor? : Reader String := fun text =>
  let cs := (text.takeWhile fun p => isAnchorChar p.char).map (·.char)
  if cs.isEmpty then none else some (String.ofList cs, text.drop cs.length)

/-! ### Directives -/

/-- A number of at most nine digits. -/
def number? : Reader Unit := fun text =>
  let digits := text.takeWhile fun p => p.char.isDigit
  if digits.isEmpty || 9 < digits.length then none else some ((), text.drop digits.length)

/-- The two numbers of a version. -/
def version? : Reader Directive := fun text => do
  let (_, rest) ← number? text.dropBlanks
  if rest.char ≠ '.' then none
  let (_, rest) ← number? (rest.drop 1)
  return (.version, rest)

/-- A handle and what it stands for. -/
def meaning? : Reader Directive := fun text => do
  let (handle, rest) ← handle? text.dropBlanks
  if !isClosed handle && handle ≠ ['!'] then none
  let rest := rest.dropBlanks
  let isFirst (c : Char) : Bool := c = '!' || isTagChar c
  if !isFirst rest.char then none
  let (cs, rest) ← chars? isUriChar rest.length rest
  if isGap rest.char then return (.handle (String.ofList handle) (String.ofList cs), rest) else none

/-- A directive after its percent sign, with the end of its line. -/
def directive? : Reader Directive := fun text => do
  let (cs, rest) := name text
  if cs.isEmpty || !isGap rest.char then none
  let (directive, rest) ← if cs = "YAML".toList then version? rest
    else if cs = "TAG".toList then meaning? rest
    else some (.other, rest.dropLine)
  let (_, rest) ← gap? rest
  if endsLine rest.char then return (directive, if rest.char = '\n' then rest.drop 1 else rest)
  else none

end Tag

/-!
## Tokens

The lexical units of YAML. Collections that are shown by indentation have tokens for their starts
and ends as well.
-/

/-- A lexical unit. -/
inductive Token where
  | directive (directive : Directive)
  | documentStart
  | documentEnd
  | blockSequenceStart
  | blockMappingStart
  | blockEnd
  /-- The hyphen of an item. -/
  | blockItem
  | flowSequenceStart
  | flowSequenceEnd
  | flowMappingStart
  | flowMappingEnd
  /-- The comma between two items in brackets. -/
  | flowItem
  /-- What follows is a key. -/
  | key
  /-- What follows is the value of a key. -/
  | value
  | alias (name : String)
  | anchor (name : String)
  | tag (tag : Tag)
  | scalar ( isPlain : Bool) (text : String)
  deriving DecidableEq, Repr, Inhabited

/-!
## Layout of a text

What the division of a YAML text into tokens depends on: the columns of the collections that are
open, the brackets, and the places where a key without a mark may have started. Such a key is only
known by the colon after it; its token then goes to where it started.
-/

/-- A place where a key may have started. -/
structure PossibleKey where
  line : Nat
  column : Nat
  /-- How many tokens stand before the key. -/
  position : Nat
  /-- Whether nothing but a key may stand there. -/
  isRequired : Bool
  deriving DecidableEq, Repr

/-- An indentation around the present one. -/
structure Indent where
  /-- The column of the collection around. -/
  outer : Int
  /-- Whether it belongs to a collection, whose end needs a token, or only to a value that must be
  indented more than its key. -/
  isBlock : Bool
  deriving DecidableEq, Repr

/-- How far a text has been divided into tokens. -/
structure Layout where
  /-- The rest of the text. -/
  text : PlacedText
  tokens : Array Token := #[]
  /-- The place of a possible key within the innermost brackets. -/
  possible : Option PossibleKey := none
  /-- The places of possible keys within the brackets around those, the innermost first. -/
  outer : List (Option PossibleKey) := []
  /-- Whether a key may start at the next content. -/
  allowsKey : Bool := true
  /-- The column of the innermost collection outside brackets; `-1` if there is none. -/
  indent : Int := -1
  indents : List Indent := []
  /-- A place where a colon needs no blank after it. -/
  adjacent : Option Placed := none
  /-- Whether a mapping in braces, or a key with a mark in brackets, has started. -/
  isMapping : Bool := false
  /-- For each sequence in brackets, the innermost first, whether a pair without braces is open. -/
  pairs : List Bool := []

namespace Layout

/-- Whether brackets are open. -/
def inFlow (s : Layout) : Bool := !s.outer.isEmpty

/-- The place where the rest of the text starts. -/
def here (s : Layout) : Placed := s.text.here

/-- Adds a token and goes on with another text. -/
def push (s : Layout) (token : Token) (text : PlacedText) : Layout :=
  { s with tokens := s.tokens.push token, text := text }

/-! ### Keys -/

/-- The most characters of a key without a mark. -/
def keyLimit : Nat := 1024

/-- Keeps the next content as a possible key, if a key may start there. Outside brackets one is
required in the column of the innermost collection. -/
def saveKey (s : Layout) : Layout :=
  if s.allowsKey then
    let isRequired := !s.inFlow && decide (s.indent = s.here.column) &&
      (s.indents.head?.map Indent.isBlock).getD false
    { s with possible := some ⟨s.here.line, s.here.column, s.tokens.size, isRequired⟩ }
  else s

/-- Gives up the possible key, unless it is required. -/
def dropKey? (s : Layout) : Option Layout :=
  if (s.possible.map PossibleKey.isRequired).getD false then none
  else some { s with possible := none }

/-- Gives up a possible key that has ended without a colon: one outside brackets on an earlier line
or too far back. -/
def dropStale? (s : Layout) : Option Layout :=
  match s.possible with
  | some key =>
    let isPast := key.line < s.here.line || key.column + keyLimit < s.here.column
    if !s.inFlow && isPast then s.dropKey? else some s
  | none => some s

/-! ### Indentation -/

/-- The indentation after the collections in columns beyond `column` have ended, what is around it,
and how many of those need a token for their ends. -/
def unwound (column : Int) (indent : Int) : List Indent → Int × List Indent × Nat
  | [] => (indent, [], 0)
  | i :: rest =>
    if column < indent then
      let (indent, indents, ends) := unwound column i.outer rest
      (indent, indents, if i.isBlock then ends + 1 else ends)
    else (indent, i :: rest, 0)

/-- Ends the collections in columns beyond `column`. In brackets indentation ends nothing. -/
def unwind (s : Layout) (column : Int) : Layout :=
  if s.inFlow then s
  else
    let (indent, indents, ends) := unwound column s.indent s.indents
    { s with indent, indents, tokens := s.tokens ++ Array.replicate ends .blockEnd }

/-- The indentation of the innermost collection, and what is around it. -/
def blockIndent (indent : Int) : List Indent → Int × List Indent
  | [] => (indent, [])
  | i :: rest => if i.isBlock then (indent, i :: rest) else blockIndent i.outer rest

/-- Leaves the indentations that belong to no collection. -/
def toBlock (s : Layout) : Layout :=
  let (indent, indents) := blockIndent s.indent s.indents
  { s with indent, indents }

/-- Starts a collection in a column, unless it has started there. Its token goes after the first
`position` tokens. -/
def openBlock (s : Layout) (column : Int) (position : Nat) (token : Token) : Layout :=
  if s.inFlow then s
  else
    let s := match s.indents with
      | i :: rest =>
        if s.indent ≤ column && !i.isBlock then { s with indent := i.outer, indents := rest } else s
      | [] => s
    if s.indent < column then
      { s with
        indents := ⟨s.indent, true⟩ :: s.indents
        indent := column
        tokens := s.tokens.insertIdxIfInBounds position token }
    else s

/-- Asks what follows to be indented more than the innermost collection. -/
def indentMore (s : Layout) : Layout :=
  if !s.inFlow && (s.indents.head?.map Indent.isBlock).getD false then
    { s with indents := ⟨s.indent, false⟩ :: s.indents, indent := s.indent + 1 }
  else s

/-! ### Brackets -/

/-- The most brackets that may be open. -/
def flowLimit : Nat := 255

/-- Opens a bracket. -/
def openFlow? (s : Layout) : Option Layout :=
  if s.outer.length < flowLimit then
    some { s with possible := none, outer := s.possible :: s.outer }
  else none

/-- Closes a bracket, if one is open. -/
def closeFlow (s : Layout) : Layout :=
  match s.outer with
  | [] => s
  | key :: rest => { s with possible := key, outer := rest }

/-- Ends a pair without braces, if one is open in the innermost sequence. -/
def endPair (s : Layout) : Layout :=
  match s.pairs with
  | true :: rest =>
    { s with isMapping := false, pairs := false :: rest, tokens := s.tokens.push .flowMappingEnd }
  | _ => s

end Layout

/-!
## The tokens of a text

The division of a YAML text into tokens, one after the other, each of which takes at least one
character.
-/

namespace Layout

/-! ### Documents -/

/-- A directive. -/
def directive? (s : Layout) : Option Layout := do
  let s ← (s.unwind (-1)).dropKey?
  let (directive, rest) ← Tag.directive? (s.text.drop 1)
  return { s.push (.directive directive) rest with allowsKey := false }

/-- The mark of the start or the end of a document. -/
def documentMark? (s : Layout) (token : Token) : Option Layout := do
  let s ← (s.unwind (-1)).dropKey?
  return { s.push token (s.text.drop 3) with allowsKey := false }

/-- The mark of the end of a document, with nothing more on its line. -/
def documentEnd? (s : Layout) : Option Layout := do
  let s ← s.documentMark? .documentEnd
  let (_, rest) ← gap? s.text
  if endsLine rest.char then return { s with text := rest } else none

/-! ### Collections in brackets -/

/-- An opening bracket, with which a key may start. -/
def openBracket? (s : Layout) ( isMapping : Bool) : Option Layout := do
  let s ← s.saveKey.indentMore.openFlow?
  let (_, rest) ← gap? (s.text.drop 1)
  let s := if isMapping then { s with isMapping := true } else { s with pairs := false :: s.pairs }
  return { s.push (if isMapping then .flowMappingStart else .flowSequenceStart) rest with
    allowsKey := true }

/-- A closing bracket. -/
def closeBracket? (s : Layout) ( isMapping : Bool) : Option Layout := do
  let s := (← s.dropKey?).closeFlow
  let s := if isMapping then s else { s.endPair with pairs := s.pairs.drop 1 }
  let (_, rest) ← gap? (s.text.drop 1)
  let adjacent := if s.inFlow then some rest.here else s.adjacent
  return { s.push (if isMapping then .flowMappingEnd else .flowSequenceEnd) rest with
    allowsKey := false, adjacent }

/-- A comma in brackets. -/
def comma? (s : Layout) : Option Layout := do
  let s := (← s.dropKey?).endPair
  let (_, rest) ← gap? (s.text.drop 1)
  return { s.push .flowItem rest with allowsKey := true }

/-! ### Collections in blocks -/

/-- The hyphen of an item. -/
def hyphen? (s : Layout) : Option Layout := do
  if s.inFlow || !s.allowsKey then none
  let s := s.openBlock s.here.column s.tokens.size .blockSequenceStart
  let (gap, rest) ← gap? (s.text.drop 1)
  if gap.tabs && rest.char = '-' && isGap rest.next then none
  let s := if rest.char = '\n' || isFlowMark rest.char then s.indentMore else s
  let s ← s.dropKey?
  return { s.push .blockItem rest with allowsKey := true }

/-- The text after the blanks, line feeds and comments after the mark of a key, none of which is a
tab. -/
def afterMark? : (inComment : Bool) → PlacedText → Option PlacedText
  | _, [] => some []
  | inComment, p :: rest =>
    if p.char = '\n' then afterMark? false rest
    else if p.char = '\x00' then some (p :: rest)
    else if inComment || p.char = '#' then afterMark? true rest
    else if p.char = ' ' then afterMark? false rest
    else if p.char = '\t' then none
    else some (p :: rest)

/-- The mark of a key. -/
def question? (s : Layout) : Option Layout := do
  if !s.inFlow && !s.allowsKey then none
  let s := s.openBlock s.here.column s.tokens.size .blockMappingStart
  let s ← (if s.inFlow then { s with isMapping := true } else s).dropKey?
  if s.text.next ≠ ' ' && s.text.next ≠ '\n' then none
  let rest ← afterMark? false (s.text.drop 1)
  return { s.push .key rest with allowsKey := !s.inFlow }

/-- The text after a colon, and after the gap that a tab starts. A gap of nothing but tabs cannot
stand before a letter or a digit. -/
def afterColon? (text : PlacedText) : Option PlacedText :=
  if text.char = '\t' then
    (gap? text).bind fun (gap, rest) =>
      if !gap.spaces && isNameChar rest.char then none else some rest
  else some text

/-- The colon before a value. Where a key may have started, it has; elsewhere the colon belongs to a
key with a mark, or to none. In a sequence in brackets the two are a mapping by themselves. -/
def colon? (s : Layout) : Option Layout := do
  let isPair := !s.pairs.isEmpty && !s.isMapping
  let start := s.here
  let rest ← afterColon? (s.text.drop 1)
  let s := { s with text := rest, pairs := if isPair then true :: s.pairs.drop 1 else s.pairs }
  match s.possible with
  | some key =>
    let s := { s with tokens := s.tokens.insertIdxIfInBounds key.position .key }
    if isPair && key.line < start.line then none
    let s := if isPair then
        { s with tokens := s.tokens.insertIdxIfInBounds key.position .flowMappingStart }
      else s
    let s := (s.openBlock key.column key.position .blockMappingStart).indentMore
    return { s with tokens := s.tokens.push .value, possible := none, allowsKey := false }
  | none =>
    let s := if isPair then { s with tokens := s.tokens.push .flowMappingStart } else s
    if !s.inFlow && !s.allowsKey then none
    let s := (s.openBlock start.column s.tokens.size .blockMappingStart).indentMore
    return { s with tokens := s.tokens.push .value, allowsKey := !s.inFlow }

/-! ### Parts of values -/

/-- An alias. -/
def alias? (s : Layout) : Option Layout := do
  let s := s.saveKey
  let (name, rest) ← Tag.anchor? (s.text.drop 1)
  return { s.push (.alias name) rest with allowsKey := false }

/-- An anchor. -/
def anchor? (s : Layout) : Option Layout := do
  let s := s.saveKey
  let (name, rest) ← Tag.anchor? (s.text.drop 1)
  return { s.push (.anchor name) rest with allowsKey := false }

/-- A tag. -/
def tag? (s : Layout) : Option Layout := do
  let s := s.saveKey
  let (tag, rest) ← Tag.tag? s.inFlow s.text
  return { s.push (.tag tag) rest with allowsKey := false }

/-- A scalar in a block of lines. -/
def block? (s : Layout) (folds : Bool) : Option Layout := do
  let s := s.saveKey.toBlock
  let (text, rest) ← Block.scalar? folds s.indent (s.text.drop 1)
  return { s.push (.scalar false text) rest with allowsKey := true }

/-- A scalar in quotes. In brackets a colon after it needs no blank. -/
def quoted? (s : Layout) : Option Layout := do
  let s := s.saveKey
  let (text, rest) ← Quoted.scalar? s.inFlow s.indent.toNat s.text
  let (hasFeed, rest) ← dropSpace? s.indent.toNat false rest
  return { s.push (.scalar false text) rest with
    allowsKey := hasFeed && !s.inFlow, adjacent := some rest.here }

/-- A scalar without quotes. -/
def plain? (s : Layout) : Option Layout := do
  let s := s.saveKey.toBlock
  let (text, rest) ← Plain.scalar? s.inFlow (s.indent + 1).toNat s.text
  return { s.push (.scalar true text) rest with allowsKey := rest.here.isLeading }

/-! ### Tokens -/

/-- The next token, which starts with the first character of the rest. -/
def token? (s : Layout) : Option Layout :=
  let c := s.text.char
  let isLast := isGap s.text.next
  let isBeforeFlow := s.inFlow && (isFlowMark s.text.next || s.adjacent = some s.here)
  if s.here.column = 0 && c = '%' then s.directive?
  else if s.text.isMarked '-' then s.documentMark? .documentStart
  else if s.text.isMarked '.' then s.documentEnd?
  else if s.here.column < s.indent then none
  else if c = '[' then s.openBracket? false
  else if c = '\x7b' then s.openBracket? true
  else if c = ']' then s.closeBracket? false
  else if c = '\x7d' then s.closeBracket? true
  else if c = ',' then s.comma?
  else if c = '-' && isLast then s.hyphen?
  else if c = '?' && isLast then s.question?
  else if c = ':' && (isLast || isBeforeFlow) then s.colon?
  else if c = '*' then s.alias?
  else if c = '&' then s.anchor?
  else if c = '!' then s.tag?
  else if (c = '|' || c = '>') && !s.inFlow then s.block? (c = '>')
  else if c = '"' || c = '\x27' then s.quoted?
  else if ['%', '@', '\x60'].contains c then none
  else s.plain?

/-- The layout before the next token, where the blanks and comments before it are left out, and what
ends before its column has ended. -/
def toNext? (s : Layout) : Option Layout := do
  let (hasFeed, rest) ← dropSpace? s.indent.toNat false s.text
  let s ← { s with
    text := rest, allowsKey := s.allowsKey || (hasFeed && !s.inFlow) }.dropStale?
  return s.unwind s.here.column

/-- All tokens of a text, of which at most `bound` are left. -/
def tokens? : Nat → Layout → Option (Array Token)
  | 0, _ => none
  | bound + 1, s => do
    let s ← s.toNext?
    if s.text.char = '\x00' then
      let s ← (s.unwind (-1)).dropKey?
      return s.tokens
    let s ← s.token?
    tokens? bound s

end Layout

/-- The tokens of a text; none when it cannot be divided into tokens. -/
def tokens? (text : String) : Option (List Token) :=
  let text := PlacedText.ofString text
  (Layout.tokens? text.length { text }).map Array.toList

end JoinForest.Yaml
