import JoinForest.Error
import JoinForest.Join

set_option autoImplicit false

/-!
# Files

Paths, the formats that their extensions tell, and a small file tree in memory with the rules by
which paths lead through directories, from the root or from the directory where relative paths
start.
-/

namespace JoinForest

/-! ## Paths -/

/-- What stands between the slashes of a path. -/
def slashParts (path : String) : List String := (path.toList.splitOn '/').map String.ofList

/-- The parts of a path between slashes that name something; `.` after the first part and empty
parts name nothing. -/
def pathParts (path : String) : List String :=
  match (slashParts path).filter (!·.isEmpty) with
  | [] => []
  | first :: rest => first :: rest.filter (· != ".")

/-- The extension of a path: what follows the last dot of its last part, where a dot in front of
the part does not count. A path that ends in `..` has none. -/
def extension? (path : String) : Option String :=
  match (pathParts path).getLast? with
  | none => none
  | some part =>
    if part == ".." then none
    else
      match splitLastDot part.toList with
      | some ([], _) => none
      | some (_, extension) => some (String.ofList extension)
      | none => none

/-- A text format. -/
inductive Format where
  | json
  | toml
  deriving DecidableEq, Repr, Inhabited

namespace Format

/-- The name of a format, which is also the extension of its files. -/
def name : Format → String
  | json => "json"
  | toml => "toml"

/-- The format of an extension. -/
def ofExtension? (extension : String) : Option Format :=
  [json, toml].find? (·.name == extension)

/-- The format that the extension of a path tells. -/
def ofPath? (path : String) : Option Format := (extension? path).bind ofExtension?

/-- The format that the extension of a path tells, or that it tells none. -/
def ofPath (path : String) : Except SchemaError Format :=
  match ofPath? path with
  | some f => .ok f
  | none => .error (.invalidTopology (.unknownFormat path))

end Format

/-! ## Contents -/

/-- What is found at a path. -/
inductive FileContent where
  /-- Nothing. -/
  | missing
  /-- A directory. -/
  | directory
  /-- A file that is not valid UTF-8. -/
  | binary
  /-- A file with a text. -/
  | text (text : String)
  deriving DecidableEq, Repr, Inhabited

/-- Whether a file is found. -/
def FileContent.isFile : FileContent → Bool
  | missing => false
  | directory => false
  | binary => true
  | text _ => true

/-! ## File trees -/

/-- Files by the names that lead to them from the root, further directories, and the directory where
relative paths start. -/
structure FileTree where
  files : List (List String × FileContent) := []
  directories : List (List String) := []
  here : List String := []
  deriving Repr, Inhabited

/-- Why a file cannot be written. -/
inductive WriteError where
  | notFound
  | notDirectory
  | isDirectory
  deriving DecidableEq, Repr, Inhabited

/-- Wording of the system for a file that cannot be written. -/
def WriteError.message : WriteError → String
  | notFound => "No such file or directory (os error 2)"
  | notDirectory => "Not a directory (os error 20)"
  | isDirectory => "Is a directory (os error 21)"

namespace FileTree

/-- The directory in which a tree of given files starts. -/
def startPlace : List String := ["work"]

/-- A tree of files and directories given by their relative paths. -/
def ofFiles (files : List (String × FileContent)) (directories : List String) : FileTree where
  files := files.map fun (path, content) => (startPlace ++ pathParts path, content)
  directories := directories.map fun path => startPlace ++ pathParts path
  here := startPlace

/-- The file at a place. -/
def file? (t : FileTree) (place : List String) : Option FileContent := t.files.lookup place

/-- Whether a place is a directory: one where relative paths start, a further one, or one on the way
to these or to a file. -/
def isDirectory (t : FileTree) (place : List String) : Bool :=
  place.isPrefixOf t.here || t.directories.any place.isPrefixOf ||
    t.files.any fun (file, _) => place.isPrefixOf file && place.length < file.length

/-- Follows the parts of a path from a directory, where every part but the last has to be one. The
directory above the root is the root. -/
def follow (t : FileTree) : List String → List String → Except WriteError (List String)
  | place, [] => .ok place
  | place, part :: parts =>
    if !t.isDirectory place then
      .error (if (t.file? place).isSome then .notDirectory else .notFound)
    else if part.isEmpty || part == "." then t.follow place parts
    else if part == ".." then t.follow place.dropLast parts
    else t.follow (place ++ [part]) parts

/-- The place that the parts of a path lead to: from the root if nothing stands before the first
slash, else from the directory where relative paths start. The empty path leads nowhere. -/
def place (t : FileTree) : List String → Except WriteError (List String)
  | [""] => .error .notFound
  | "" :: parts => t.follow [] parts
  | parts => t.follow t.here parts

/-- What is found at a path. -/
def read (t : FileTree) (path : String) : FileContent :=
  match t.place (slashParts path) with
  | .error _ => .missing
  | .ok place =>
    match t.file? place with
    | some content => content
    | none => if t.isDirectory place then .directory else .missing

/-- The tree after a text has been written to a path. The directory has to be there, and a path
with a slash at its end can only mean a directory. -/
def write (t : FileTree) (path text : String) : Except WriteError FileTree := do
  let parts := slashParts path
  let named := (parts.reverse.dropWhile String.isEmpty).reverse
  match named.getLast? with
  | none => throw (if path.isEmpty then .notFound else .isDirectory)
  | some last =>
    let parent ← t.place (named.dropLast ++ ["."])
    let place := parent ++ [last]
    if named.length < parts.length || last == "." || last == ".." || t.isDirectory place then
      throw .isDirectory
    return { t with files := (place, .text text) :: t.files }

end FileTree
end JoinForest
