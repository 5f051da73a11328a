import JoinForest.Number

set_option autoImplicit false

/-!
# Documents

The common shape of what JSON and TOML texts say, and how typed values are read from it.
-/

namespace JoinForest

/-!
## Scalars, lists and records

The common shape of what JSON and TOML texts say: scalars, lists, and records whose fields keep
the order of the text.
-/

/-- A value read from a text or to be written as one. -/
inductive Document where
  | null
  | bool (value : Bool)
  | number (value : Numeral)
  | text (value : String)
  /-- A date, a time of day or both, in its normal form. -/
  | moment (value : String)
  | list (items : List Document)
  | record (fields : List (String × Document))
  /-- A string, or a record with a key, that is well formed and yet no text, because it holds half
  of a surrogate pair. -/
  | garbled
  deriving Repr, Inhabited

namespace Document

/-- A whole number. -/
def int (n : Int) : Document := number (Numeral.ofInt n)

/-- A natural number. -/
def nat (n : Nat) : Document := number (.whole false n)

/-- A list of texts. -/
def texts (items : List String) : Document := list (items.map text)

/-- The document of a value, or null. -/
def ofOption {α : Type} (f : α → Document) : Option α → Document
  | none => null
  | some a => f a

/-- The first value of a field. -/
def field? (d : Document) (name : String) : Option Document :=
  match d with
  | record fields => fields.lookup name
  | _ => none

mutual

/-- How many lists and records stand inside each other at most. -/
def depth : Document → Nat
  | list items => depthOfItems items + 1
  | record fields => depthOfFields fields + 1
  | _ => 0

/-- The largest depth of a list's items. -/
def depthOfItems : List Document → Nat
  | [] => 0
  | d :: rest => max d.depth (depthOfItems rest)

/-- The largest depth of a record's values. -/
def depthOfFields : List (String × Document) → Nat
  | [] => 0
  | (_, d) :: rest => max d.depth (depthOfFields rest)

end

end Document

/-!
## Decoding documents

How typed values are read from documents. A record type may be written as a record, where
unknown fields are ignored and no known one stands twice, or as a list of its fields in the
order of their declaration, where the last ones may be left out if they have a default. Some
formats let such a list go on, and what follows counts for nothing. A date
or a time has no fields of its own, so it reads as a record in which every known field is left
out.
-/

/-- What differs between the places where typed values are read. -/
structure Dialect where
  /-- Which value may stand beside the name of a variant without data. -/
  isUnit : Document → Bool
  /-- Whether the fields of a variant may be written as a list. -/
  listsVariantFields : Bool
  /-- Whether a list may go on after the last item that is asked for. -/
  admitsSurplus : Bool

/-- Where a value is read: the format, and how many more levels of lists and records the format
admits. -/
structure Context where
  dialect : Dialect
  levels : Nat

/-- The context of the values inside a list or a record. -/
def Context.enter? (c : Context) : Option Context :=
  match c.levels with
  | 0 => none
  | levels + 1 => some { c with levels := levels }

/-- A reading of documents as values of a type. -/
abbrev Decoder (α : Type) := Context → Document → Option α

namespace Decoder

/-- A text. -/
def text : Decoder String
  | _, .text s => some s
  | _, _ => none

/-- A truth value. -/
def bool : Decoder Bool
  | _, .bool b => some b
  | _, _ => none

/-- A value, or null for none. -/
def optional {α : Type} (item : Decoder α) : Decoder (Option α)
  | _, .null => some none
  | c, d => (item c d).map some

/-- The items of a list, with their context. -/
def items : Decoder (Context × List Document)
  | c, .list ds => c.enter?.map (·, ds)
  | _, _ => none

/-- A list. -/
def list {α : Type} (item : Decoder α) : Decoder (List α) := fun c d => do
  let (inner, ds) ← items c d
  ds.mapM (item inner)

/-- The first items of a list, with their context: at most as many as asked for, and no others
unless the format admits them. -/
def leading (count : Nat) : Decoder (Context × List Document) := fun c d => do
  let (inner, ds) ← items c d
  if ds.length ≤ count || c.dialect.admitsSurplus then return (inner, ds.take count) else none

/-- A list of two. -/
def pair {α β : Type} (first : Decoder α) (second : Decoder β) : Decoder (α × β) := fun c d => do
  let (inner, ds) ← leading 2 c d
  match ds with
  | [a, b] => return (← first inner a, ← second inner b)
  | _ => none

/-! ### Records -/

/-- The fields of a value of a record type with the given field names, with their context. -/
def fields (names : List String) : Decoder (Context × List (String × Document))
  | c, .record entries =>
    if names.all fun name => decide ((entries.filter (·.1 == name)).length ≤ 1) then
      c.enter?.map (·, entries)
    else none
  | c, .list ds =>
    (leading names.length c (.list ds)).map fun (inner, ds) => (inner, names.zip ds)
  | c, .moment _ => some (c, [])
  | _, _ => none

/-- The fields of a variant with the given field names, with their context. -/
def variantFields (names : List String) : Decoder (Context × List (String × Document))
  | c, .list ds => if c.dialect.listsVariantFields then fields names c (.list ds) else none
  | c, d => fields names c d

/-- A field that has to be there. -/
def required {α : Type} (item : Decoder α) (fs : Context × List (String × Document))
    (name : String) : Option α :=
  (fs.2.lookup name).bind (item fs.1)

/-- A field with a default. -/
def withDefault {α : Type} (item : Decoder α) (default : α)
    (fs : Context × List (String × Document)) (name : String) : Option α :=
  match fs.2.lookup name with
  | some d => item fs.1 d
  | none => some default

/-! ### Variants -/

/-- One of some named values: the name itself, or a record with the name and a unit. -/
def named {α : Type} (ofName? : String → Option α) : Decoder α
  | _, .text name => ofName? name
  | c, .record [(name, payload)] => do
    let inner ← c.enter?
    if inner.dialect.isUnit payload then ofName? name else none
  | _, _ => none

/-- A variant with data: a record of one field, whose name selects the variant. -/
def tagged : Decoder (Context × String × Document)
  | c, .record [(tag, payload)] => c.enter?.map (·, tag, payload)
  | _, _ => none

end Decoder

end JoinForest
