import JoinForest.Document
import JoinForest.Join
import JoinForest.Number
import JoinForest.Query.Sql
import JoinForest.Text.Characters

set_option autoImplicit false

/-!
# Settings

The settings of the program and the layers of keys and values that they come from: one layer goes
over another, and what is left is read as settings, with values converted where a sensible reading
exists.
-/

namespace JoinForest

/-!
## Settings for joins, statements and logs

The settings of the program: how joins are made, how statements are laid out and what is logged.
Those for joins and for layout can be read from a document on their own.
-/

/-- What is logged. -/
structure LogSettings where
  filter : String := "warn"
  deriving DecidableEq, Repr, Inhabited

/-- All settings. -/
structure Settings where
  build : BuildSettings := {}
  render : RenderOptions := {}
  logging : LogSettings := {}
  deriving DecidableEq, Repr

/-! ### Plain documents -/

namespace Decoder

/-- The settings for building, without conversions. -/
def buildSettings : Decoder BuildSettings := fun c d => do
  let fs ← fields ["default_join_kind", "infer_reverse_foreign_keys"] c d
  return ⟨← withDefault (named JoinKind.ofName?) .leftOuter fs "default_join_kind",
    ← withDefault bool true fs "infer_reverse_foreign_keys"⟩

/-- The settings for rendering, without conversions. -/
def renderOptions : Decoder RenderOptions := fun c d => do
  let fs ← fields ["pretty", "quote_identifiers"] c d
  return ⟨← withDefault bool false fs "pretty", ← withDefault bool false fs "quote_identifiers"⟩

end Decoder

/-!
## Paths of keys

The keys of settings that lead below the top: names with dots between them, and positions in lists
in brackets, as in `logging.filter` and `render[0]`. A position below zero counts from the end.
-/

/-- One step of a path: to the field of a name or to the item at a position. -/
inductive KeyStep where
  | field (name : String)
  | item (index : Int)
  deriving DecidableEq, Repr, Inhabited

namespace KeyStep

/-- Whether a character may stand in a name on a path. -/
def isNameChar (c : Char) : Bool := c.isAlphanum || c = ' ' || c = '_' || c = '-'

/-- Whether a character may stand around the digits of a position. -/
def isBlank (c : Char) : Bool := c = ' ' || c = '\t'

/-- The position that stands between brackets. -/
def index? (text : List Char) : Option Int :=
  let text := text.dropWhile isBlank
  let (negative, text) := match text with
    | '-' :: rest => (true, rest)
    | rest => (false, rest)
  let (digits, rest) := splitDigits text
  let n := signedOfDigits negative digits
  if !digits.isEmpty && rest.all isBlank && inInt64 n then some n
  else none

/-- The steps that a text writes, each name after a dot; at most `bound` of them. -/
def steps? : Nat → List Char → Option (List KeyStep)
  | _, [] => some []
  | 0, _ => none
  | bound + 1, '.' :: rest =>
    let name := rest.takeWhile isNameChar
    if name.isEmpty then none
    else (steps? bound (rest.dropWhile isNameChar)).map (field (String.ofList name) :: ·)
  | bound + 1, '[' :: rest =>
    match rest.dropWhile (· != ']') with
    | ']' :: after => do
      let i ← index? (rest.takeWhile (· != ']'))
      let steps ← steps? bound after
      return item i :: steps
    | _ => none
  | _, _ => none

/-- The path that a key writes; a key that writes none is a name itself. -/
def ofKey (key : String) : List KeyStep :=
  (steps? (key.length + 1) ('.' :: key.toList)).getD [field key]

/-- The place in a list of a length that a position means. A position before the first item means
the first. -/
def place (length : Nat) (index : Int) : Nat :=
  if index < 0 then (length + index).toNat else index.toNat

end KeyStep

/-!
## Layers of settings

Keys and values from one source of settings, and how one layer goes over another. Keys do not
depend on case, and at the top a key may be a path.
-/

/-- The keys and values of one source of settings. -/
abbrev Layer := List (String × Document)

namespace Layer

/-- Puts a value under a key: in place of the one that stands there, or else at the end. -/
def put (key : String) (value : Document) : Layer → Layer
  | [] => [(key, value)]
  | (k, v) :: rest => if k = key then (key, value) :: rest else (k, v) :: put key value rest

/-- The fields of a record; other documents have none. -/
def fieldsOf : Document → Layer
  | .record fields => fields
  | _ => []

/-- The items of a list; other documents have none. -/
def itemsOf : Document → List Document
  | .list items => items
  | _ => []

mutual

/-- Puts a value over what stands under a key. The fields of a record go over those of the record
that stands there, one by one; any other value replaces what stands there. -/
def set (key : String) (fields : Layer) : Document → Layer
  | .record incoming =>
    put key (setAll ((fields.lookup key).getD (.record [])) incoming) fields
  | value => put key value fields

/-- Puts fields over a document. One that is no record gives way to the first of them. -/
def setAll (target : Document) : List (String × Document) → Document
  | [] => target
  | (key, value) :: rest =>
    setAll (.record (set (lowerCase key) (fieldsOf target) value)) rest

end

/-- Puts a value into a document at the end of a path. On the way, what has no fields gives way to
a record, what has no items to a list, and a list that ends too early goes on with nulls. The value
goes over what stands under a name, and replaces what stands at a position. -/
def setAt (value : Document) : List KeyStep → Document → Document
  | [], _ => value
  | [.field name], d => .record (set (lowerCase name) (fieldsOf d) value)
  | .field name :: step :: path, d =>
    let key := lowerCase name
    let inner := ((fieldsOf d).lookup key).getD .null
    .record (put key (setAt value (step :: path) inner) (fieldsOf d))
  | .item index :: path, d =>
    let place := KeyStep.place (itemsOf d).length index
    let items := itemsOf d ++ List.replicate (place + 1 - (itemsOf d).length) .null
    .list (items.set place (setAt value path (items.getD place .null)))

/-- A layer over another. -/
def onto (upper lower : Layer) : Layer :=
  upper.foldl (fun fields (key, value) =>
    fieldsOf (setAt value (KeyStep.ofKey key) (.record fields))) lower

mutual

/-- The document with texts for dates and times and without all but the last of fields of one key.
-/
def settled : Document → Document
  | .moment s => .text s
  | .list items => .list (settledItems items)
  | .record fields => .record (settledFields [] fields)
  | d => d

/-- The items of a list, settled. -/
def settledItems : List Document → List Document
  | [] => []
  | d :: rest => settled d :: settledItems rest

/-- The fields of a record, settled, after those of `done`. -/
def settledFields (done : Layer) : List (String × Document) → Layer
  | [] => done
  | (key, d) :: rest => settledFields (put key (settled d) done) rest

end

/-! ### Environment -/

/-- The value of a variable: a truth value, a number, or else the text itself. -/
def ofVariable (value : String) : Document :=
  let lower := lowerCase value
  if lower == "true" then .bool true
  else if lower == "false" then .bool false
  else
    match Numeral.integer? value with
    | some n => .int n
    | none =>
      match Numeral.float? value with
      | some x => .number (.binary x)
      | none => .text value

/-- What the names of variables for settings begin with, in lower case. -/
def variablePrefix : List Char := "star_schema__".toList

/-- The text with a dot for every two underscores. -/
def dotted : List Char → List Char
  | '_' :: '_' :: rest => '.' :: dotted rest
  | c :: rest => c :: dotted rest
  | [] => []

/-- The settings in some variables. -/
def ofEnvironment (environment : List (String × String)) : Layer :=
  environment.filterMap fun (name, value) =>
    let name := (lowerCase name).toList
    if variablePrefix.isPrefixOf name then
      some (String.ofList (dotted (name.drop variablePrefix.length)), ofVariable value)
    else none

end Layer

/-!
## Settings from loose values

How settings are read from the values that files and variables give them. Values are converted
where a sensible reading exists: numbers and some words are truth values, and truth values and
numbers are texts.
-/

namespace Setting

/-- A truth value, a number other than zero, or one of some words. -/
def bool? : Document → Option Bool
  | .bool b => some b
  | .number n =>
    match n.toBinary with
    | .finite _ 0 _ => some false
    | _ => some true
  | .text s =>
    let s := lowerCase s
    if ["1", "true", "on", "yes"].contains s then some true
    else if ["0", "false", "off", "no"].contains s then some false
    else none
  | _ => none

/-- A text, or the text of a truth value or a number. -/
def text? : Document → Option String
  | .text s => some s
  | .bool b => some (if b then "true" else "false")
  | .number n =>
    match n.int64? with
    | some i => some (toString i)
    | none => some n.toBinary.text
  | _ => none

/-- A kind of join by its name in any case, which may also be the only key of a record. -/
def joinKind? : Document → Option JoinKind
  | .text s => JoinKind.ofName? (lowerCase s)
  | .record [(key, _)] => JoinKind.ofName? (lowerCase key)
  | _ => none

/-- The values of a section, given by their keys or in the order of the keys. -/
def section? (keys : List String) : Document → Option (List (String × Document))
  | .record fields => some fields
  | .list items => some (keys.zip items)
  | _ => none

/-- A value of a section, or its default. -/
def get? {α : Type} (convert : Document → Option α) (default : α)
    (fields : List (String × Document)) (key : String) : Option α :=
  match fields.lookup key with
  | some d => convert d
  | none => some default

/-- The settings for building. -/
def build? (d : Document) : Option BuildSettings := do
  let fields ← section? ["default_join_kind", "infer_reverse_foreign_keys"] d
  return ⟨← get? joinKind? .leftOuter fields "default_join_kind",
    ← get? bool? true fields "infer_reverse_foreign_keys"⟩

/-- The settings for rendering. -/
def render? (d : Document) : Option RenderOptions := do
  let fields ← section? ["pretty", "quote_identifiers"] d
  return ⟨← get? bool? false fields "pretty", ← get? bool? false fields "quote_identifiers"⟩

/-- The settings for logging. -/
def logging? (d : Document) : Option LogSettings := do
  let fields ← section? ["filter"] d
  return ⟨← get? text? "warn" fields "filter"⟩

end Setting

/-- The settings that a record of sections describes. -/
def Settings.ofFields? (fields : List (String × Document)) : Option Settings := do
  return ⟨← Setting.get? Setting.build? {} fields "build",
    ← Setting.get? Setting.render? {} fields "render",
    ← Setting.get? Setting.logging? {} fields "logging"⟩

end JoinForest
