import JoinForest.Files
import JoinForest.Ini
import JoinForest.Json
import JoinForest.Json5
import JoinForest.Ron
import JoinForest.Settings
import JoinForest.Toml.Text
import JoinForest.Yaml.Value

set_option autoImplicit false

/-!
# Loading settings

Settings come from layers, of which later ones go over earlier ones: files at fixed places, a file
of the user, a file named by the caller, and variables of the environment. A file is read in one of
several formats, which its extension tells.
-/

namespace JoinForest

/-!
## Formats of settings

The text formats in which settings may be written, the extensions that tell them, and the reading
of a text in each.
-/

namespace Json

mutual

/-- Whether every value of a document has a meaning: no half of a surrogate pair, no number out of
range. -/
def isMeaningful : Document → Bool
  | .garbled => false
  | .number n => n.toBinary.isFinite
  | .list items => areMeaningful items
  | .record fields => haveMeaning fields
  | _ => true

/-- Whether every item has a meaning. -/
def areMeaningful : List Document → Bool
  | [] => true
  | d :: rest => isMeaningful d && areMeaningful rest

/-- Whether every field has a meaning. -/
def haveMeaning : List (String × Document) → Bool
  | [] => true
  | (_, d) :: rest => isMeaningful d && haveMeaning rest

end

/-- The document of a text all of whose values have a meaning and are not nested too deep. -/
def parseWhole? (text : String) : Option Document :=
  (parse? text).bind fun d => if isMeaningful d && d.depth ≤ levels then some d else none

end Json

/-- A format of settings. -/
inductive SettingsFormat where
  | toml
  | json
  | yaml
  | ini
  | ron
  | json5
  deriving DecidableEq, Repr, Inhabited

namespace SettingsFormat

/-- All formats. -/
def all : List SettingsFormat := [toml, json, yaml, ini, ron, json5]

/-- The extensions of files of a format. -/
def extensions : SettingsFormat → List String
  | toml => ["toml"]
  | json => ["json"]
  | yaml => ["yaml", "yml"]
  | ini => ["ini"]
  | ron => ["ron"]
  | json5 => ["json5"]

/-- The format that the extension of a path tells. -/
def ofPath? (path : String) : Option SettingsFormat :=
  (extension? path).bind fun extension => all.find? (·.extensions.contains extension)

/-- The document of a text in a format. -/
def parse? : SettingsFormat → String → Option Document
  | toml => Toml.parseWhole?
  | json => Json.parseWhole?
  | yaml => Yaml.parse?
  | ini => Ini.parse?
  | ron => Ron.parse?
  | json5 => Json5.parse?

end SettingsFormat

/-!
## Layers from files

Settings come from layers, of which later ones go over earlier ones: files at fixed places, a file
of the user, a file named by the caller, and variables of the environment.
-/

/-- Why settings cannot be loaded. -/
inductive SettingsError where
  /-- There is no such file. -/
  | missing (path : String)
  /-- The extension of a file tells no known format. -/
  | unknownFormat (path : String)
  /-- A file cannot be read as a text. -/
  | unreadable (path : String)
  /-- A file is not of its format. -/
  | malformed (path : String)
  /-- A setting has a value of a wrong kind. -/
  | invalid
  deriving DecidableEq, Repr, Inhabited

/-! ### Files -/

/-- A path without slashes and dots at its end that name nothing; none when it does not end in a
name. -/
def basePath? (path : String) : Option String :=
  let isNameless (part : String) : Bool := part.isEmpty || part == "."
  let parts := ((slashParts path).reverse.dropWhile isNameless).reverse
  match parts.getLast? with
  | none => none
  | some last => if last == ".." then none else some (String.intercalate "/" parts)

namespace Layer

/-- The paths at which the file of a path is looked for: at the path itself, and at the path with
an extension at its end. -/
def candidates (path : String) : List String :=
  path :: match basePath? path with
    | none => []
    | some base =>
      (SettingsFormat.all.flatMap SettingsFormat.extensions).map fun extension =>
        base ++ "." ++ extension

/-- The first file that is found for a path. -/
def find? (read : String → FileContent) (path : String) : Option (String × FileContent) :=
  ((candidates path).map fun p => (p, read p)).find? (·.2.isFile)

/-- The format, the place and the text of the file that is found for a path. -/
def text? (read : String → FileContent) (path : String) :
    Except SettingsError (SettingsFormat × String × String) :=
  match find? read path with
  | none => .error (.missing path)
  | some (place, content) =>
    match SettingsFormat.ofPath? place, content with
    | none, _ => .error (.unknownFormat place)
    | some format, .text text => .ok (format, place, text)
    | some _, _ => .error (.unreadable place)

/-- The layer of a file. Unless it is required, a file that gives no text counts as empty. -/
def load (read : String → FileContent) (required : Bool) (path : String) :
    Except SettingsError Layer :=
  match text? read path with
  | .error e => if required then .error e else .ok []
  | .ok (format, place, text) =>
    match (format.parse? text).map settled with
    | some (.record fields) => .ok fields
    | _ => .error (.malformed place)

end Layer

/-! ### Layers -/

namespace Settings

/-- The places where settings are looked for, the most general first. -/
def defaultPlaces : List String :=
  ["star-schema.toml", ".star-schema.toml", "config/star-schema.toml"]

/-- The place of the user's file below the directory for configuration. -/
def userPlace : String := "star-schema/star-schema.toml"

/-- The layer of the user's file, which is looked for only if its own path leads to something. -/
def userLayer (read : String → FileContent) (userFile : String) : Except SettingsError Layer :=
  if read userFile = .missing then .ok [] else Layer.load read false userFile

/-- The layers of all files: those at the default places, the user's if it exists, and the named
one. -/
def fileLayers (read : String → FileContent) (userFile : String) (path : Option String) :
    Except SettingsError (List Layer) := do
  let general ← defaultPlaces.mapM (Layer.load read false)
  let user ← userLayer read userFile
  let named ← match path with
    | some path => (Layer.load read true path).map ([·])
    | none => pure []
  return general ++ user :: named

/-- The settings from all layers. -/
def load (read : String → FileContent) (userFile : String) (path : Option String)
    (environment : List (String × String)) : Except SettingsError Settings := do
  let layers ← fileLayers read userFile path
  let fields := (layers ++ [Layer.ofEnvironment environment]).foldl
    (fun lower upper => upper.onto lower) []
  match ofFields? fields with
  | some s => return s
  | none => throw .invalid

end Settings

end JoinForest
