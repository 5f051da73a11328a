import JoinForest.Document
import JoinForest.Toml.Scalar

set_option autoImplicit false

/-!
# TOML texts

Documents of TOML texts: the rules by which headers and keys add to tables, the readers of a whole
text, and the texts whose values are read for their own sake and not for a type.
-/

namespace JoinForest.Toml

/-!
## Tables of TOML

The tables of a text under construction, and the rules by which headers and keys may add to
them: no key is given a value twice, no table is opened twice, and a dotted key adds only to
tables that dotted keys or longer headers have brought about.
-/

/-- How a table came about. -/
inductive Origin where
  /-- Opened by its own header. -/
  | opened
  /-- Named on the way to another header. -/
  | implied
  /-- Named on the way to the last part of a dotted key. -/
  | dotted
  deriving DecidableEq, Repr

/-- What stands under a key: a value, a table, or a list of tables, the last of them first. -/
inductive Item where
  | value (value : Document)
  | table (origin : Origin) (entries : List (String × Item))
  | tables (tables : List (List (String × Item)))

/-- The keys of a table, in the order of the text. -/
abbrev Entries := List (String × Item)

namespace Entries

/-- Puts an item under a key: in place of the one that stands there, or else at the end. -/
def put (key : String) (item : Item) : Entries → Entries
  | [] => [(key, item)]
  | (k, i) :: rest => if k = key then (key, item) :: rest else (k, i) :: put key item rest

/-- Gives a dotted key its value. Tables on the way come about as dotted ones; a table opened by
its own header is not entered, and the last part of the key goes only into a dotted one. -/
def define (value : Document) : List String → Entries → Option Entries
  | [], _ => none
  | [key], entries =>
    match entries.lookup key with
    | none => some (put key (.value value) entries)
    | some _ => none
  | key :: next :: path, entries =>
    match entries.lookup key with
    | none => (define value (next :: path) []).map fun sub => put key (.table .dotted sub) entries
    | some (.table origin sub) =>
      if origin = .opened || (path.isEmpty && origin != .dotted) then none
      else (define value (next :: path) sub).map fun sub => put key (.table origin sub) entries
    | some (.tables (last :: earlier)) =>
      if path.isEmpty then none
      else (define value (next :: path) last).map fun last =>
        put key (.tables (last :: earlier)) entries
    | some _ => none

/-- Changes the table that a header names. Tables on the way come about as implied ones, and of a
list of tables the last is meant. -/
def change (f : Entries → Option Entries) : List String → Entries → Option Entries
  | [], entries => f entries
  | key :: path, entries =>
    match entries.lookup key with
    | none => (change f path []).map fun sub => put key (.table .implied sub) entries
    | some (.table origin sub) =>
      (change f path sub).map fun sub => put key (.table origin sub) entries
    | some (.tables (last :: earlier)) =>
      (change f path last).map fun last => put key (.tables (last :: earlier)) entries
    | some _ => none

/-- Opens a table under a key, where there is none or only an implied one, which moves to the end.
-/
def openTable (key : String) (entries : Entries) : Option Entries :=
  match entries.lookup key with
  | none => some (put key (.table .opened []) entries)
  | some (.table .implied sub) => some (entries.filter (·.1 != key) ++ [(key, .table .opened sub)])
  | some _ => none

/-- Adds a table to the list of tables under a key. -/
def addTable (key : String) (entries : Entries) : Option Entries :=
  match entries.lookup key with
  | none => some (put key (.tables [[]]) entries)
  | some (.tables tables) => some (put key (.tables ([] :: tables)) entries)
  | some _ => none

end Entries

/-! ### Documents -/

mutual

/-- The document of an item. -/
def Item.document : Item → Document
  | .value d => d
  | .table _ entries => .record (fieldsOf entries)
  | .tables tables => .list (recordsOf tables).reverse

/-- The fields of a table. -/
def fieldsOf : List (String × Item) → List (String × Document)
  | [] => []
  | (key, item) :: rest => (key, item.document) :: fieldsOf rest

/-- The records of a list of tables. -/
def recordsOf : List (List (String × Item)) → List Document
  | [] => []
  | entries :: rest => .record (fieldsOf entries) :: recordsOf rest

end

/-!
## Texts

Documents from TOML. Lists and records in a value may stand inside each other up to a limit, and
a key may have so many parts; the loops over the parts of a text are bounded by its length.
-/

/-- The deepest nesting inside one value, and the largest number of parts of a key. -/
def nesting : Nat := 79

/-! ### Blanks -/

/-- The text without blanks at its start. -/
def dropBlanks (text : List Char) : List Char := text.dropWhile fun c => c = ' ' || c = '\t'

/-- The text after blanks, line feeds and comments; the first argument tells whether it starts
inside a comment. None when a comment holds a control character. -/
def dropSpace? : Bool → List Char → Option (List Char)
  | false, [] => some []
  | false, '\r' :: '\n' :: rest => dropSpace? false rest
  | false, c :: rest =>
    if c = ' ' || c = '\t' || c = '\n' then dropSpace? false rest
    else if c = '#' then dropSpace? true rest
    else some (c :: rest)
  | true, [] => some []
  | true, '\r' :: '\n' :: rest => dropSpace? false rest
  | true, c :: rest =>
    if c = '\n' then dropSpace? false rest
    else if isPlain c then dropSpace? true rest
    else none

/-- The text after the end of a line, which the end of the text may replace. -/
def dropLineEnd? : List Char → Option (List Char)
  | [] => some []
  | '\n' :: rest => some rest
  | '\r' :: '\n' :: rest => some rest
  | _ => none

/-- The text after the rest of a line that holds no more than a comment. -/
def dropLine? (text : List Char) : Option (List Char) :=
  match dropBlanks text with
  | '#' :: rest => dropLineEnd? (rest.dropWhile isPlain)
  | rest => dropLineEnd? rest

/-! ### Keys -/

/-- Whether a character may stand in a key without quotes. -/
def isBare (c : Char) : Bool := c.isAlphanum || c = '-' || c = '_'

/-- One part of a key. -/
def keyPart? : Reader String
  | '"' :: rest => (basic? rest).map fun (s, rest) => (String.ofList s, rest)
  | '\x27' :: rest => (literal? rest).map fun (s, rest) => (String.ofList s, rest)
  | text =>
    let part := text.takeWhile isBare
    if part.isEmpty then none else some (String.ofList part, text.dropWhile isBare)

/-- A key of at most so many parts, with dots between them. -/
def key? : Nat → Reader (List String)
  | 0, _ => none
  | parts + 1, text => do
    let (part, rest) ← keyPart? (dropBlanks text)
    match dropBlanks rest with
    | '.' :: rest => do
      let (path, rest) ← key? parts rest
      return (part :: path, rest)
    | rest => return ([part], rest)

/-! ### Values -/

/-- The items of a list after its opening bracket, at most `bound` of them. -/
def items? (item? : Reader Document) : Nat → Reader (List Document)
  | 0, _ => none
  | bound + 1, text => do
    match ← dropSpace? false text with
    | ']' :: rest => return ([], rest)
    | text =>
      let (d, rest) ← item? text
      match ← dropSpace? false rest with
      | ',' :: rest => do
        let (ds, rest) ← items? item? bound rest
        return (d :: ds, rest)
      | ']' :: rest => return ([d], rest)
      | _ => none

/-- A key with its value. -/
def pair? (value? : Reader Document) : Reader (List String × Document) := fun text => do
  let (path, rest) ← key? nesting text
  match rest with
  | '=' :: rest =>
    let (d, rest) ← value? (dropBlanks rest)
    return ((path, d), rest)
  | _ => none

/-- The keys and values of a table on one line, at most `bound` of them and at least one. -/
def pairs? (value? : Reader Document) : Nat → Reader (List (List String × Document))
  | 0, _ => none
  | bound + 1, text => do
    let (pair, rest) ← pair? value? text
    match dropBlanks rest with
    | ',' :: rest => do
      let (pairs, rest) ← pairs? value? bound rest
      return (pair :: pairs, rest)
    | '\x7d' :: rest => return ([pair], rest)
    | _ => none

/-- The record of a table on one line. -/
def inlineRecord? (pairs : List (List String × Document)) : Option Document :=
  (pairs.foldlM (fun entries (path, d) => Entries.define d path entries) []).map fun entries =>
    .record (fieldsOf entries)

/-- A value in which so many lists and records stand inside each other. -/
def value? : Nat → Reader Document
  | 0, text => scalar? text
  | levels + 1, '[' :: rest =>
    (items? (value? levels) (rest.length + 1) rest).map fun (ds, rest) => (.list ds, rest)
  | levels + 1, '\x7b' :: rest =>
    match dropBlanks rest with
    | '\x7d' :: rest => some (.record [], rest)
    | rest => do
      let (pairs, rest) ← pairs? (value? levels) (rest.length + 1) rest
      let d ← inlineRecord? pairs
      return (d, rest)
  | _ + 1, text => scalar? text

/-! ### Lines -/

/-- The tables so far, and the header under which keys are read. -/
structure Draft where
  root : Entries
  header : List String

namespace Draft

/-- Changes the table that the first parts of a path name, at the last part. -/
def atLast (d : Draft) (f : String → Entries → Option Entries) (path : List String) :
    Option Draft := do
  let last ← path.getLast?
  let root ← Entries.change (f last) path.dropLast d.root
  return ⟨root, path⟩

/-- Gives a key below the current header its value. -/
def define (d : Draft) (path : List String) (value : Document) : Option Draft := do
  let root ← Entries.change (Entries.define value path) d.header d.root
  return { d with root := root }

end Draft

/-- One line, other than an empty one, and the text after it. -/
def line? (draft : Draft) : Reader Draft
  | '[' :: '[' :: rest => do
    let (path, rest) ← key? nesting rest
    match rest with
    | ']' :: ']' :: rest =>
      let rest ← dropLine? rest
      return (← draft.atLast Entries.addTable path, rest)
    | _ => none
  | '[' :: rest => do
    let (path, rest) ← key? nesting rest
    match rest with
    | ']' :: rest =>
      let rest ← dropLine? rest
      return (← draft.atLast Entries.openTable path, rest)
    | _ => none
  | text => do
    let ((path, d), rest) ← pair? (value? nesting) text
    let rest ← dropLine? rest
    return (← draft.define path d, rest)

/-- The lines of a text, at most `bound` of them. -/
def lines? : Nat → Draft → List Char → Option Draft
  | 0, _, _ => none
  | bound + 1, draft, text => do
    match ← dropSpace? false text with
    | [] => return draft
    | text =>
      let (draft, rest) ← line? draft text
      lines? bound draft rest

/-- The text without a byte order mark. -/
def dropMark : List Char → List Char
  | c :: rest => if c.toNat = 0xFEFF then rest else c :: rest
  | [] => []

/-- The document of a text; none when the text is not TOML. -/
def parse? (text : String) : Option Document :=
  (lines? (text.length + 1) ⟨[], []⟩ (dropMark text.toList)).map fun draft =>
    .record (fieldsOf draft.root)

/-! ### Typed values -/

/-- Whether a document is an empty table or an empty list, which may stand beside the name of a
variant without data. -/
def isEmpty : Document → Bool
  | .record [] => true
  | .list [] => true
  | _ => false

/-- Values in a text of their own. -/
def dialect : Dialect := ⟨isEmpty, true, true⟩

/-- A typed value from TOML text. -/
def decode? {α : Type} (decoder : Decoder α) (text : String) : Option α :=
  (parse? text).bind fun d => decoder ⟨dialect, d.depth⟩ d

/-!
## TOML texts without types

Documents of TOML texts whose values are read for their own sake and not for a type. Here a table
may stand for a date or a time: one whose first key is the marker, which has the date or the time
as a text. Dates and times in such a table may break the limits of the notation in some ways.
-/

/-! ### Dates and times in tables -/

/-- Reads the distance from universal time, of up to 24 hours, up to the end of the text; more than
59 minutes are carried over. -/
def carriedOffset? : List Char → Option (List Char)
  | [] => some []
  | ['Z'] => some ['Z']
  | ['z'] => some ['Z']
  | [sign, h₁, h₂, ':', m₁, m₂] => do
    let hours ← twoDigits? 0 99 h₁ h₂
    let minutes ← twoDigits? 0 99 m₁ m₂
    let total := hours * 60 + minutes
    if (sign = '+' ∨ sign = '-') ∧ total ≤ 24 * 60 then
      some ((if sign = '-' ∧ total ≠ 0 then '-' else '+') ::
        (decimalPair (total / 60) ++ ':' :: decimalPair (total % 60)))
    else none
  | _ => none

/-- Reads a date with an optional time of day and an optional offset, or a time of day. The hour may
be 24. -/
def looseMoment? (text : List Char) : Option (List Char) :=
  match date? text with
  | some (date, rest) => do
    let (time, rest) ← match rest with
      | [] => pure ([], [])
      | divider :: after =>
        if divider = 'T' ∨ divider = 't' ∨ divider = ' ' then do
          let (time, rest) ← time? 24 after
          pure ('T' :: time, rest)
        else pure ([], rest)
    let offset ← carriedOffset? rest
    return date ++ time ++ offset
  | none =>
    match time? 24 text with
    | some (time, []) => some time
    | _ => none

/-! ### Tables -/

/-- The key that marks a table as a date or a time. -/
def marker : String := "$__toml_private_datetime"

mutual

/-- The document with the dates and times that its tables stand for; none when a marked table has
none. -/
def unmark? : Document → Option Document
  | .list items => (unmarkItems? items).map .list
  | .record [] => some (.record [])
  | .record ((key, d) :: fields) =>
    if key = marker then
      match d with
      | .text s => (looseMoment? s.toList).map fun m => .moment (String.ofList m)
      | _ => none
    else do
      let d ← unmark? d
      let fields ← unmarkFields? fields
      return .record ((key, d) :: fields)
  | d => some d

/-- The items of a list, unmarked. -/
def unmarkItems? : List Document → Option (List Document)
  | [] => some []
  | d :: rest => do
    let d ← unmark? d
    let rest ← unmarkItems? rest
    return d :: rest

/-- The values of a table after the first, unmarked. -/
def unmarkFields? : List (String × Document) → Option (List (String × Document))
  | [] => some []
  | (key, d) :: rest => do
    let d ← unmark? d
    let rest ← unmarkFields? rest
    return (key, d) :: rest

end

/-- The document of a text that is read for its own sake. -/
def parseWhole? (text : String) : Option Document := (parse? text).bind unmark?

end JoinForest.Toml
