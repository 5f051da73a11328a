import JoinForest.Catalog
import JoinForest.Json
import JoinForest.Query.Sql
import JoinForest.Schema.Export
import JoinForest.Schema.Reshape
import JoinForest.Settings.Load

set_option autoImplicit false

/-!
# The command line

What the arguments of a run ask for, and the outcome of doing it, given what is found in files and
the environment.
-/

namespace JoinForest.CommandLine

/-!
## Command-line arguments

What the arguments of a run ask for. Options stand before the command or behind it, according to
what they belong to; everything after `--` is a value.
-/

/-- What is to be shown. -/
inductive Command where
  /-- The schema as an indented list. -/
  | outline
  /-- The schema as a graph, perhaps into a file. -/
  | dot (output : Option String)
  /-- The joins that some columns need. -/
  | plan (columns : List String)
  /-- The statement that selects some columns. -/
  | sql (columns : List String) (pretty : Bool)
  /-- The digest of the schema. -/
  | fingerprint
  deriving DecidableEq, Repr, Inhabited

/-- What the arguments ask for. -/
structure Invocation where
  topology : String
  config : Option String
  detach : Option String
  command : Command
  deriving DecidableEq, Repr, Inhabited

/-- An argument by its form. -/
inductive Argument where
  /-- Two dashes, after which no option follows. -/
  | terminator
  /-- An option by its long name, perhaps with a value after an equals sign. -/
  | long (name : String) (value : Option String)
  /-- An option by its letter, perhaps with a value behind it. -/
  | short (letter : Char) (value : Option String)
  /-- Anything else. -/
  | plain (value : String)
  deriving DecidableEq, Repr, Inhabited

/-- The form of an argument. -/
def Argument.ofText (text : String) : Argument :=
  match text.toList with
  | ['-', '-'] => terminator
  | '-' :: '-' :: rest =>
    match rest.dropWhile (· != '=') with
    | _ :: value => long (String.ofList (rest.takeWhile (· != '='))) (some (String.ofList value))
    | [] => long (String.ofList rest) none
  | '-' :: letter :: rest =>
    match rest with
    | [] => short letter none
    | '=' :: value => short letter (some (String.ofList value))
    | value => short letter (some (String.ofList value))
  | _ => plain text

/-- A path, which must not be empty. -/
def nonEmpty (path : String) : Option String := if path.isEmpty then none else some path

/-- The values among arguments without options, after those of `before`. -/
def values (before : List String) : List String → Option (List String)
  | [] => some before
  | text :: rest =>
    match Argument.ofText text with
    | .terminator => some (before ++ rest)
    | .plain value => values (before ++ [value]) rest
    | _ => none

/-- The values among arguments that may hold the flag `--pretty` once, and whether they do. -/
def valuesAndFlag (before : List String) (pretty : Bool) :
    List String → Option (List String × Bool)
  | [] => some (before, pretty)
  | text :: rest =>
    match Argument.ofText text with
    | .terminator => some (before ++ rest, pretty)
    | .plain value => valuesAndFlag (before ++ [value]) pretty rest
    | .long "pretty" none => if pretty then none else valuesAndFlag before true rest
    | _ => none

/-- Whether nothing is left but perhaps two dashes. -/
def isFinished (arguments : List String) : Bool := arguments.isEmpty || arguments == ["--"]

/-- The file that arguments name for the graph, if they name one. -/
def outputFile : List String → Option (Option String)
  | [] => some none
  | text :: rest =>
    match Argument.ofText text, rest with
    | .terminator, [] => some none
    | .long "output" (some path), rest => last path rest
    | .short 'o' (some path), rest => last path rest
    | .long "output" none, path :: rest => next path rest
    | .short 'o' none, path :: rest => next path rest
    | _, _ => none
where
  /-- The path, if nothing follows it. -/
  last (path : String) (rest : List String) : Option (Option String) :=
    if isFinished rest then (nonEmpty path).map some else none
  /-- The path in an argument of its own, if nothing follows it. -/
  next (path : String) (rest : List String) : Option (Option String) :=
    match Argument.ofText path with
    | .plain path => last path rest
    | _ => none

/-- The command of a name with the arguments after it. Absent: no command has that name; absent
inside: the arguments do not suit it. -/
def command? (name : String) (arguments : List String) : Option (Option Command) :=
  if name == "tree" then some (if isFinished arguments then some .outline else none)
  else if name == "fingerprint" then
    some (if isFinished arguments then some .fingerprint else none)
  else if name == "dot" then some ((outputFile arguments).map .dot)
  else if name == "plan" then
    some ((values [] arguments).bind fun columns =>
      if columns.isEmpty then none else some (.plan columns))
  else if name == "sql" then
    some ((valuesAndFlag [] false arguments).bind fun (columns, pretty) =>
      if columns.isEmpty then none else some (.sql columns pretty))
  else none

/-- What has been read before the command. -/
structure Before where
  topology : Option String := none
  config : Option String := none
  detach : Option String := none

namespace Before

/-- Takes the path of the topology, unless there is one already. -/
def withTopology? (b : Before) (path : String) : Option Before :=
  if b.topology.isSome || path.isEmpty then none else some { b with topology := some path }

/-- Takes the path of a file of settings, unless there is one already. -/
def withConfig? (b : Before) (path : String) : Option Before :=
  if b.config.isSome || path.isEmpty then none else some { b with config := some path }

/-- Takes the name to detach, unless there is one already. -/
def withDetach? (b : Before) (name : String) : Option Before :=
  if b.detach.isSome then none else some { b with detach := some name }

end Before

/-- The option whose value the next argument has to be. -/
inductive Awaited where
  | nothing
  | config
  | detach
  deriving DecidableEq, Repr

/-- Reads the arguments up to the command, and the command. -/
def invocation? : Before → Awaited → List String → Option Invocation
  | _, _, [] => none
  | before, .config, text :: rest =>
    match Argument.ofText text with
    | .plain path => (before.withConfig? path).bind fun b => invocation? b .nothing rest
    | _ => none
  | before, .detach, text :: rest =>
    match Argument.ofText text with
    | .plain name => (before.withDetach? name).bind fun b => invocation? b .nothing rest
    | _ => none
  | before, .nothing, text :: rest =>
    match command? text rest with
    | some command => do
      let topology ← before.topology
      let command ← command
      return ⟨topology, before.config, before.detach, command⟩
    | none =>
      match Argument.ofText text with
      | .long "config" (some path) =>
        (before.withConfig? path).bind fun b => invocation? b .nothing rest
      | .short 'c' (some path) =>
        (before.withConfig? path).bind fun b => invocation? b .nothing rest
      | .long "config" none => invocation? before .config rest
      | .short 'c' none => invocation? before .config rest
      | .long "detach" (some name) =>
        (before.withDetach? name).bind fun b => invocation? b .nothing rest
      | .long "detach" none => invocation? before .detach rest
      | .plain path => (before.withTopology? path).bind fun b => invocation? b .nothing rest
      | _ => none

/-- What the arguments ask for; none when they ask for nothing that can be done. -/
def parse? (arguments : List String) : Option Invocation := invocation? {} .nothing arguments

/-- How the program is to be called. -/
def usage : String :=
  "usage: [-c FILE] [--detach NAME] TOPOLOGY COMMAND\n" ++
  "commands: tree | dot [-o FILE] | plan NAME... | sql [--pretty] NAME... | fingerprint"

/-!
## Commands

The outcome of doing what the arguments ask for, given what is found in files and the environment.
-/

/-- What a run has to say for itself. -/
inductive Outcome where
  /-- A text for standard output. -/
  | shown (text : String)
  /-- A text to be written into a file. -/
  | saved (path text : String)
  /-- A failure, perhaps with what it goes back to. -/
  | failed (error : String) (cause : Option String)
  /-- Arguments that ask for nothing that can be done. -/
  | misused
  deriving DecidableEq, Repr, Inhabited

/-- The code a run ends with. -/
def Outcome.code : Outcome → Nat
  | shown _ => 0
  | saved _ _ => 0
  | failed _ _ => 1
  | misused => 2

/-- The failure to write a file. -/
def writeFailed (path reason : String) : Outcome :=
  .failed ("failed to write " ++ path) (some reason)

/-- What a command shows of a schema. -/
def Command.run (s : Schema) (options : RenderOptions) :
    Command → Except SchemaError Outcome
  | outline => .ok (.shown s.outline)
  | dot none => .ok (.shown s.toDot)
  | dot (some path) => .ok (.saved path s.toDot)
  | plan columns => do
    let p ← s.planFor (.ofNames columns)
    return .shown (Json.pretty p.document ++ "\n")
  | sql columns pretty => do
    let statement ← s.select .statement (.ofNames columns)
    return .shown (statement.toSql { options with pretty := options.pretty || pretty } ++ "\n")
  | fingerprint => .ok (.shown (s.fingerprint ++ "\n"))

/-- What an invocation shows, with the detached subtree in place of the schema if it asks for one.
-/
def Invocation.show (i : Invocation) (s : Schema) (options : RenderOptions) :
    Except SchemaError Outcome := do
  let s ← match i.detach with
    | some name => s.detach name
    | none => pure s
  i.command.run s options

/-- The outcome of some arguments, given what is found in files and the environment. -/
def run (read : String → FileContent) (userFile : String) (environment : List (String × String))
    (arguments : List String) : Outcome :=
  match parse? arguments with
  | none => .misused
  | some i =>
    match Settings.load read userFile i.config environment with
    | .error _ => .failed "failed to load configuration" (some "Configuration error")
    | .ok settings =>
      match Catalog.loadSchema read i.topology settings.build with
      | .error e => .failed ("failed to build schema from " ++ i.topology) (some e.message)
      | .ok s =>
        match i.show s settings.render with
        | .error e => .failed e.message none
        | .ok outcome => outcome

end JoinForest.CommandLine
