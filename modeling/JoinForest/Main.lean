import JoinForest.CommandLine

set_option autoImplicit false

/-!
# The program

Reads the files that a run may look at, runs the command line on them, and carries out its outcome.
-/

namespace JoinForest

/-- What is found at a path. -/
def readContent (path : String) : IO FileContent := do
  try
    let bytes ← IO.FS.readBinFile path
    return match String.fromUTF8? bytes with
      | some text => .text text
      | none => .binary
  catch e =>
    return match e with
      | .inappropriateType _ 21 _ => .directory
      | _ => .missing

/-- The contents of some files, as a function of their paths. -/
def readAll (paths : List String) : IO (String → FileContent) := do
  let found ← paths.mapM fun path => return (path, ← readContent path)
  return fun path => (found.lookup path).getD .missing

/-- Cuts bytes at every zero byte. -/
def cutAtZeros (bytes : List UInt8) : List (List UInt8) :=
  bytes.foldr (fun b parts =>
    match b, parts with
    | 0, parts => [] :: parts
    | b, part :: parts => (b :: part) :: parts
    | b, [] => [[b]]) [[]]

/-- A variable written as `name=value`. -/
def assignment? (bytes : List UInt8) : Option (String × String) :=
  (String.fromUTF8? ⟨bytes.toArray⟩).bind fun text =>
    match text.toList.dropWhile (· != '=') with
    | _ :: value => some (String.ofList (text.toList.takeWhile (· != '=')), String.ofList value)
    | [] => none

/-- The variables of the process. -/
def processEnvironment : IO (List (String × String)) := do
  try
    let bytes ← IO.FS.readBinFile "/proc/self/environ"
    return (cutAtZeros bytes.toList).filterMap assignment?
  catch _ => return []

/-- The place of the user's file of settings: below the directory for configuration, where only an
absolute path counts, or else below the user's own directory. -/
def userFile (environment : List (String × String)) : String :=
  match (environment.lookup "XDG_CONFIG_HOME").filter (·.startsWith "/") with
  | some directory => directory ++ "/" ++ Settings.userPlace
  | none => (environment.lookup "HOME").getD "" ++ "/.config/" ++ Settings.userPlace

/-- Wording for a failure to write. -/
def writeMessage : IO.Error → String
  | .noFileOrDirectory _ _ _ => WriteError.notFound.message
  | .inappropriateType _ 20 _ => WriteError.notDirectory.message
  | .inappropriateType _ 21 _ => WriteError.isDirectory.message
  | e => toString e

/-- Writes a text into a file, or says why that fails. -/
def saveText (path text : String) : IO CommandLine.Outcome := do
  try
    IO.FS.writeFile path text
    return .saved path text
  catch e => return CommandLine.writeFailed path (writeMessage e)

end JoinForest

open JoinForest in
/-- Runs the command line. -/
def main (arguments : List String) : IO UInt32 := do
  let environment ← processEnvironment
  let user := userFile environment
  let named := match CommandLine.parse? arguments with
    | some i => i.topology :: i.config.toList
    | none => []
  let places := Settings.defaultPlaces ++ [user] ++ named
  let read ← readAll (places.flatMap Layer.candidates)
  let outcome ← match CommandLine.run read user environment arguments with
    | .saved path text => saveText path text
    | outcome => pure outcome
  match outcome with
  | .shown text => IO.print text
  | .saved path _ => IO.eprintln ("Exported DOT to: " ++ path)
  | .failed error cause =>
    IO.eprintln ("Error: " ++ error)
    if let some cause := cause then
      IO.eprintln ("\nCaused by:\n    " ++ cause)
  | .misused => IO.eprintln CommandLine.usage
  return outcome.code.toUInt32
