import JoinForest.Files
import JoinForest.Number
import JoinForest.Settings
import JoinForest.Text.Reader

set_option autoImplicit false

/-!
# Saved settings

The text of settings: every section with every key. Texts are written in the plainest of the
notations of TOML that can hold them: on one line in double or in single quotes, over several
lines in triple quotes, and only then with escapes.
-/

namespace JoinForest

namespace Quoting

/-- The longest run of a character in a text, after `run` of them. -/
def longestRun (mark : Char) (run : Nat) : List Char → Nat
  | [] => run
  | c :: rest =>
    if c = mark then longestRun mark (run + 1) rest else max run (longestRun mark 0 rest)

/-- Whether a character can stand in a string only as an escape: a control character other than a
tab and a line feed. -/
def needsEscape (c : Char) : Bool :=
  (decide (c.toNat < 32) && c != '\t' && c != '\n') || c.toNat == 127

/-- A character inside double quotes, other than a double quote. -/
def escapeChar (keepLines : Bool) (c : Char) : List Char :=
  if keepLines && c = '\n' then [c]
  else
    match Escape.letterOf? c with
    | some letter => ['\\', letter]
    | none =>
      if needsEscape c then ['\\', 'u', '0', '0'] ++ (hexPair c.toNat).map Char.toUpper else [c]

/-- The inside of double quotes, where no more than `bare` double quotes in a row, after `run` of
them, stay without an escape. -/
def escaped (keepLines : Bool) (bare run : Nat) : List Char → List Char
  | [] => []
  | c :: rest =>
    if c = '"' then
      if run < bare then '"' :: escaped keepLines bare (run + 1) rest
      else '\\' :: '"' :: escaped keepLines bare 0 rest
    else escapeChar keepLines c ++ escaped keepLines bare 0 rest

/-- A text in double quotes on one line. -/
def basic (text : List Char) : List Char := '"' :: (escaped false 0 0 text ++ ['"'])

/-- A text in single quotes. -/
def literal (text : List Char) : List Char := '\x27' :: (text ++ ['\x27'])

/-- A line feed in front of a text that has one itself, where it does not count. -/
def opening (text : List Char) : List Char := if text.contains '\n' then ['\n'] else []

/-- A text in triple double quotes. -/
def multilineBasic (text : List Char) : List Char :=
  ['"', '"', '"'] ++ opening text ++ escaped true 2 0 text ++ ['"', '"', '"']

/-- A text in triple single quotes. -/
def multilineLiteral (text : List Char) : List Char :=
  ['\x27', '\x27', '\x27'] ++ opening text ++ text ++ ['\x27', '\x27', '\x27']

/-- A text in the plainest notation that can hold it. -/
def plainest (text : List Char) : List Char :=
  let control := text.any needsEscape
  let backslash := text.contains '\\'
  let lines := text.contains '\n'
  let double := longestRun '"' 0 text
  let single := longestRun '\x27' 0 text
  if !control && !backslash && double == 0 && !lines then basic text
  else if !control && single == 0 && !lines then literal text
  else if !control && !backslash && double ≤ 2 then multilineBasic text
  else if !control && single ≤ 2 then multilineLiteral text
  else if lines then multilineBasic text
  else basic text

end Quoting

/-- The word for a truth value. -/
def boolWord (b : Bool) : String := if b then "true" else "false"

/-- The text of settings. -/
def Settings.saved (s : Settings) : String :=
  "[build]\n" ++
  "default_join_kind = \"" ++ s.build.defaultJoinKind.name ++ "\"\n" ++
  "infer_reverse_foreign_keys = " ++ boolWord s.build.inferReverseForeignKeys ++ "\n" ++
  "\n[render]\n" ++
  "pretty = " ++ boolWord s.render.pretty ++ "\n" ++
  "quote_identifiers = " ++ boolWord s.render.quoteIdentifiers ++ "\n" ++
  "\n[logging]\n" ++
  "filter = " ++ String.ofList (Quoting.plainest s.logging.filter.toList) ++ "\n"

/-- The file tree after settings have been saved to a path. -/
def Settings.save (s : Settings) (t : FileTree) (path : String) : Except WriteError FileTree :=
  t.write path s.saved

end JoinForest
