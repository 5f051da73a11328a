import JoinForest.Document
import JoinForest.Yaml.Scan

set_option autoImplicit false

/-!
# Values of YAML

From tokens to nodes, with their tags, anchors and aliases, from nodes to the values that they stand
for, and the documents of whole texts.
-/

namespace JoinForest.Yaml

/-!
## Nodes of YAML

The values of a YAML text as it writes them: with their tags and anchors, and with aliases for other
values. Tokens are read as nodes by readers that are bounded by the number of calls inside each
other, which the number of tokens gives.
-/

/-- A value as it is written. -/
inductive Node where
  | scalar ( isPlain : Bool) (tag : Option Tag) (text : String)
  | sequence (items : List Node)
  /-- The keys and values of a mapping in turn. -/
  | mapping (parts : List Node)
  | anchored (name : String) (node : Node)
  | alias (name : String)
  deriving Repr, Inhabited

/-- A reader of values at the start of a list of tokens. -/
abbrev TokenReader (α : Type) := List Token → Option (α × List Token)

namespace Node

/-- What stands where a value is left out: null. -/
def absent : Node := scalar true none "~"

/-- Whether one of some tokens comes next. -/
def isNext (expected : List Token) (tokens : List Token) : Bool :=
  (tokens.head?.map expected.contains).getD false

/-! ### Tags -/

/-- What the handle of two exclamation marks stands for. -/
def coreHandle : String := "tag:yaml.org,2002:"

/-- A tag with the meaning of its handle. Handles with exclamation marks at both ends need one. -/
def tag? (handles : List (String × String)) (tag : Tag) : Option Tag :=
  match handles.lookup tag.handle with
  | some meaning => some { tag with handle := meaning }
  | none =>
    if tag.handle = "!!" then some { tag with handle := coreHandle }
    else if Tag.isClosed tag.handle.toList then none
    else some tag

/-- The anchor and the tag in front of a value, in either order. -/
def properties? (handles : List (String × String)) : TokenReader (Option String × Option Tag)
  | .anchor name :: .tag tag :: rest =>
    (tag? handles tag).map fun tag => ((some name, some tag), rest)
  | .anchor name :: rest => some ((some name, none), rest)
  | .tag tag :: .anchor name :: rest =>
    (tag? handles tag).map fun tag => ((some name, some tag), rest)
  | .tag tag :: rest => (tag? handles tag).map fun tag => ((none, some tag), rest)
  | tokens => some ((none, none), tokens)

/-! ### Nodes -/

mutual

/-- A value. In a block it may be a collection that is shown by indentation; `admitsItems` tells
whether its items may stand in the column of its key. -/
def node? (handles : List (String × String)) :
    Nat → (inBlock admitsItems : Bool) → TokenReader Node
  | 0, _, _, _ => none
  | _, _, _, .alias name :: rest => some (.alias name, rest)
  | bound + 1, inBlock, admitsItems, tokens => do
    let ((anchor, tag), tokens) ← properties? handles tokens
    let (node, rest) ← match tokens with
      | .scalar isPlain text :: rest => some (.scalar isPlain tag text, rest)
      | .flowSequenceStart :: rest =>
        (flowItems? handles bound true rest).map fun (items, rest) => (.sequence items, rest)
      | .flowMappingStart :: rest =>
        (flowFields? handles bound true rest).map fun (parts, rest) => (.mapping parts, rest)
      | tokens =>
        match inBlock, admitsItems, tokens with
        | _, true, .blockItem :: _ =>
          (columnItems? handles bound tokens).map fun (items, rest) => (.sequence items, rest)
        | true, _, .blockSequenceStart :: rest =>
          (blockItems? handles bound rest).map fun (items, rest) => (.sequence items, rest)
        | true, _, .blockMappingStart :: rest =>
          (blockFields? handles bound rest).map fun (parts, rest) => (.mapping parts, rest)
        | _, _, tokens =>
          if anchor.isSome || tag.isSome then some (.scalar true tag "", tokens) else none
    match anchor with
    | some name => return (.anchored name node, rest)
    | none => return (node, rest)

/-- A value, or what stands for it when one of some tokens comes next. -/
def nodeUnless? (handles : List (String × String)) :
    Nat → (inBlock admitsItems : Bool) → List Token → TokenReader Node
  | 0, _, _, _, _ => none
  | bound + 1, inBlock, admitsItems, closing, tokens =>
    if isNext closing tokens then some (absent, tokens)
    else node? handles bound inBlock admitsItems tokens

/-- A value after a colon, if there is one. -/
def value? (handles : List (String × String)) :
    Nat → (inBlock : Bool) → List Token → TokenReader Node
  | 0, _, _, _ => none
  | bound + 1, inBlock, closing, tokens =>
    match tokens with
    | .value :: rest => nodeUnless? handles bound inBlock inBlock closing rest
    | tokens => some (absent, tokens)

/-- The items in a column, up to the end of the sequence. -/
def blockItems? (handles : List (String × String)) : Nat → TokenReader (List Node)
  | 0, _ => none
  | bound + 1, tokens =>
    match tokens with
    | .blockEnd :: rest => some ([], rest)
    | .blockItem :: rest => do
      let (item, rest) ← nodeUnless? handles bound true false [.blockItem, .blockEnd] rest
      let (items, rest) ← blockItems? handles bound rest
      return (item :: items, rest)
    | _ => none

/-- The items in the column of a key. -/
def columnItems? (handles : List (String × String)) : Nat → TokenReader (List Node)
  | 0, _ => none
  | bound + 1, tokens =>
    match tokens with
    | .blockItem :: rest => do
      let closing := [.blockItem, .key, .value, .blockEnd]
      let (item, rest) ← nodeUnless? handles bound true false closing rest
      let (items, rest) ← columnItems? handles bound rest
      return (item :: items, rest)
    | tokens => some ([], tokens)

/-- The keys and values in a column, up to the end of the mapping. -/
def blockFields? (handles : List (String × String)) : Nat → TokenReader (List Node)
  | 0, _ => none
  | bound + 1, tokens =>
    let closing := [.key, .value, .blockEnd]
    let andRest (key : Node) (rest : List Token) : Option (List Node × List Token) := do
      let (value, rest) ← value? handles bound true closing rest
      let (parts, rest) ← blockFields? handles bound rest
      return (key :: value :: parts, rest)
    match tokens with
    | .blockEnd :: rest => some ([], rest)
    | .key :: rest => do
      let (key, rest) ← nodeUnless? handles bound true true closing rest
      andRest key rest
    | .value :: rest => andRest absent (.value :: rest)
    | _ => none

/-- The key and the value of an item in brackets, after the mark of the key. Without a key the next
token is passed over, whatever it is. -/
def pair? (handles : List (String × String)) : Nat → TokenReader Node
  | 0, _ => none
  | bound + 1, tokens => do
    let closing := [.value, .flowItem, .flowSequenceEnd]
    let (key, rest) ← if isNext closing tokens then some (absent, tokens.drop 1)
      else node? handles bound false false tokens
    let (value, rest) ← value? handles bound false [.flowItem, .flowSequenceEnd] rest
    return (.mapping [key, value], rest)

/-- The items of a sequence in brackets; a comma stands before each but the first. One with a key is
a mapping by itself. -/
def flowItems? (handles : List (String × String)) : Nat → (isFirst : Bool) → TokenReader (List Node)
  | 0, _, _ => none
  | bound + 1, isFirst, tokens => do
    let tokens ← match isFirst, tokens with
      | false, .flowItem :: rest => some rest
      | false, .flowSequenceEnd :: _ => some tokens
      | false, _ => none
      | true, tokens => some tokens
    match tokens with
    | .flowSequenceEnd :: rest => return ([], rest)
    | tokens =>
      let (item, rest) ← match tokens with
        | .key :: rest => pair? handles bound rest
        | tokens => node? handles bound false false tokens
      let (items, rest) ← flowItems? handles bound false rest
      return (item :: items, rest)

/-- The keys and values of a mapping in braces; a comma stands before each but the first. A value
without a mark before it is a key without a value. -/
def flowFields? (handles : List (String × String)) :
    Nat → (isFirst : Bool) → TokenReader (List Node)
  | 0, _, _ => none
  | bound + 1, isFirst, tokens => do
    let tokens ← match isFirst, tokens with
      | false, .flowItem :: rest => some rest
      | false, .flowMappingEnd :: _ => some tokens
      | false, _ => none
      | true, tokens => some tokens
    match tokens with
    | .flowMappingEnd :: rest => return ([], rest)
    | tokens =>
      let (key, rest) ← match tokens with
        | .key :: rest =>
          nodeUnless? handles bound false false [.value, .flowItem, .flowMappingEnd] rest
        | .value :: _ => some (absent, tokens)
        | tokens => node? handles bound false false tokens
      let (value, rest) ← if isNext [.key, .value] tokens then
          value? handles bound false [.flowItem, .flowMappingEnd] rest
        else some (absent, rest)
      let (parts, rest) ← flowFields? handles bound false rest
      return (key :: value :: parts, rest)

end

/-! ### Documents -/

/-- What the directives in front of a document say about handles. Only the last directive counts,
and there is at most one version. -/
def handles? :
    (hasVersion : Bool) → List (String × String) → TokenReader (List (String × String))
  | hasVersion, _, .directive .version :: rest =>
    if hasVersion then none else handles? true [] rest
  | hasVersion, _, .directive (.handle handle meaning) :: rest =>
    handles? hasVersion [(handle, meaning)] rest
  | hasVersion, _, .directive .other :: rest => handles? hasVersion [] rest
  | _, handles, tokens => some (handles, tokens)

/-- The value of a document; none when nothing stands in it. -/
def content? (handles : List (String × String)) : TokenReader Node := fun tokens =>
  let isEmpty := match tokens with
    | [] => true
    | .directive _ :: _ => true
    | .documentStart :: _ => true
    | .documentEnd :: _ => true
    | _ => false
  if isEmpty then some (absent, tokens)
  else node? handles (4 * tokens.length + 4) true false tokens

/-- The only document of some tokens, if there is one. After directives comes its mark, which is
optional otherwise. -/
def document? (tokens : List Token) : Option (Option Node) :=
  match tokens.dropWhile (· == .documentEnd) with
  | [] => some none
  | tokens => do
    let (handles, rest) ← handles? false [] tokens
    let (node, rest) ← match rest with
      | .documentStart :: rest => content? handles rest
      | _ => if rest.length = tokens.length then content? handles rest else none
    if rest.all (· == .documentEnd) then return some node else none

end Node

/-!
## Values

What the nodes of a YAML text stand for. Scalars without quotes are truth values, numbers, null or
texts, unless a tag says which; aliases stand for the latest value with their anchor; and a mapping
has no two values for one key.
-/

/-! ### Scalars -/

/-- What a scalar stands for. A number with a fraction keeps its text. -/
inductive Scalar where
  /-- Nothing, because the text does not fit the tag. -/
  | missing
  | null
  | bool (value : Bool)
  | integer (value : Int)
  | decimal (text : String)
  | text (value : String)
  deriving DecidableEq, Repr, Inhabited

namespace Scalar

/-- A whole number of 64 bits in a base, with an optional sign. -/
def based? (base : Nat) (isDigit : Char → Bool) (text : List Char) : Option Int :=
  let (negative, digits) := splitSign text
  let n : Int := if negative then -(ofDigits base digits : Int) else ofDigits base digits
  if !digits.isEmpty && digits.all isDigit && inInt64 n then some n else none

/-- A whole number in decimal digits, where a plus sign may stand before another sign, or in
hexadecimal or octal digits after a mark. -/
def integer? (text : String) : Option Int :=
  match text.toList with
  | '0' :: 'x' :: rest => based? 16 isHexDigit rest
  | '0' :: 'o' :: rest => based? 8 (fun c => c.isDigit && decide (c < '8')) rest
  | '+' :: rest => (based? 10 Char.isDigit rest).or (based? 10 Char.isDigit ('+' :: rest))
  | cs => based? 10 Char.isDigit cs

/-- The texts for infinities and for no number. -/
def special : List String :=
  [".inf", ".Inf", ".INF", "+.inf", "+.Inf", "+.INF", "-.inf", "-.Inf", "-.INF", ".nan", "NaN",
    ".NaN", ".NAN"]

/-- Whether a text is one of a number with a fraction or of a special value. -/
def isDecimal (text : String) : Bool := special.contains text || (Numeral.float? text).isSome

/-- What a scalar without quotes and without a tag stands for. -/
def ofPlain (s : String) : Scalar :=
  match integer? s with
  | some n => integer n
  | none =>
    if s = "~" || s = "null" then null
    else if s = "true" then bool true
    else if s = "false" then bool false
    else if isDecimal s then decimal s
    else text s

/-- What a scalar without quotes stands for. Tags other than those of the core handle make it a
text. -/
def ofTagged (s : String) : Option Tag → Scalar
  | none => ofPlain s
  | some tag =>
    if tag.handle ≠ Node.coreHandle then text s
    else if tag.suffix = "bool" then
      if s = "true" then bool true else if s = "false" then bool false else missing
    else if tag.suffix = "int" then ((Numeral.integer? s).map integer).getD missing
    else if tag.suffix = "float" then if isDecimal s then decimal s else missing
    else if tag.suffix = "null" then if s = "~" || s = "null" then null else missing
    else text s

/-- The document of a scalar. Those special values that are written with a point have none. -/
def document? : Scalar → Option Document
  | missing => some .null
  | null => some .null
  | bool b => some (.bool b)
  | integer n => some (.int n)
  | decimal s => (Numeral.float? s).map fun x => .number (.binary x)
  | text s => some (.text s)

/-- The text of a scalar as a key, which null has none of. -/
def key? : Scalar → Option String
  | missing => none
  | null => none
  | bool b => some (toString b)
  | integer n => some (toString n)
  | decimal s => some s
  | text s => some s

end Scalar

/-! ### Values -/

/-- What a node stands for. -/
inductive Value where
  | scalar (value : Scalar)
  | list (items : List Value)
  | record (fields : List (Value × Value))
  deriving Repr, Inhabited

/-- The anchors read so far with their values. Within its own value an anchor has none. -/
abbrev Anchors := Array (String × Value)

namespace Value

/-- The scalar of a value. -/
def scalar? : Value → Option Scalar
  | scalar s => some s
  | _ => none

/-- The fields of a mapping whose keys and values come in turn. A key that stands for nothing is
passed over, so that the value after it becomes a key; a last key without a value is dropped. -/
def fields : Option Value → List Value → List (Value × Value)
  | _, [] => []
  | none, v :: rest => fields (if v.scalar? = some .missing then none else some v) rest
  | some key, v :: rest => (key, v) :: fields none rest

/-- A mapping of some keys and values in turn, of which no two keys are the same. -/
def mapping? (parts : List Value) : Option Value :=
  let fields := fields none parts
  if (fields.filterMap fun (key, _) => key.scalar?).Nodup then some (record fields) else none

mutual

/-- The value of a node, and the anchors after it. -/
def ofNode? (anchors : Anchors) : Node → Option (Value × Anchors)
  | .scalar isPlain tag s =>
    some (scalar (if isPlain then .ofTagged s tag else .text s), anchors)
  | .sequence items => (ofNodes? anchors items).map fun (vs, anchors) => (list vs, anchors)
  | .mapping parts => do
    let (vs, anchors) ← ofNodes? anchors parts
    let v ← mapping? vs
    return (v, anchors)
  | .anchored name node => do
    let (v, after) ← ofNode? (anchors.push (name, scalar .missing)) node
    return (v, after.setIfInBounds anchors.size (name, v))
  | .alias name =>
    (anchors.toList.reverse.find? fun (anchor, _) => anchor = name).map fun (_, v) => (v, anchors)

/-- The values of some nodes, and the anchors after them. -/
def ofNodes? (anchors : Anchors) : List Node → Option (List Value × Anchors)
  | [] => some ([], anchors)
  | node :: rest => do
    let (v, anchors) ← ofNode? anchors node
    let (vs, anchors) ← ofNodes? anchors rest
    return (v :: vs, anchors)

end

/-! ### Documents -/

mutual

/-- The document of a value. -/
def document? : Value → Option Document
  | scalar s => s.document?
  | list items => (documents? items).map .list
  | record fields => (fields? fields).map .record

/-- The documents of some values. -/
def documents? : List Value → Option (List Document)
  | [] => some []
  | v :: rest => do
    let d ← document? v
    let ds ← documents? rest
    return d :: ds

/-- The fields of a mapping, all of whose keys are scalars with a text. -/
def fields? : List (Value × Value) → Option (List (String × Document))
  | [] => some []
  | (key, v) :: rest => do
    let key ← key.scalar?.bind Scalar.key?
    let d ← document? v
    let fields ← fields? rest
    return (key, d) :: fields

end

end Value

/-!
## YAML texts

Documents of YAML texts, by way of their tokens, nodes and values.
-/

/-- The document of a text with at most one; a text without any is an empty mapping. -/
def parse? (text : String) : Option Document := do
  let tokens ← tokens? text
  match ← Node.document? tokens with
  | none => return .record []
  | some node =>
    let (value, _) ← Value.ofNode? #[] node
    value.document?

end JoinForest.Yaml
