import ImportSync.Ignore.Glob
import ImportSync.Text.Basic

/-!
Rules of an ignore file. Every line is a rule: a pattern of what is ignored, or, after an exclamation
mark, of what is kept all the same. A pattern with a slash before its end is about the whole path from
the directory of the file, any other one about names wherever they stand; a slash at the end asks for a
directory. The last rule that applies decides.
-/

namespace ImportSync.Ignore

inductive Verdict where
  | ignored
  | kept
  deriving DecidableEq, Repr

structure Rule where
  glob : Glob
  verdict : Verdict
  onlyDirs : Bool
  deriving DecidableEq, Repr

def stripStart (mark t : Text) : Bool × Text :=
  if mark.isPrefixOf t then (true, t.drop mark.length) else (false, t)

/-- A line without the blanks at its end, unless the last one is escaped. -/
def trimLine (line : Text) : Text :=
  if "\\ ".toList.isSuffixOf line then line else Text.trimEnd line

/-- The pattern of a rule, spelled out for whole paths. -/
def anchor (absolute : Bool) (pattern : Text) : Text :=
  let anywhere := "**/".toList
  let pattern :=
    if absolute || pattern.contains '/' || pattern = "**".toList then pattern
    else anywhere ++ pattern
  if "/**".toList.isSuffixOf pattern then pattern ++ "/*".toList else pattern

/-- A pattern without the slash at its end, which may be escaped, and whether there was one. -/
def splitDirMark (pattern : Text) : Bool × Text :=
  match pattern.reverse with
  | '/' :: '\\' :: rest => (true, rest.reverse)
  | '/' :: rest => (true, rest.reverse)
  | _ => (false, pattern)

/-- The rule of a line. Blank lines, comments and ill-formed patterns are no rules. -/
def Rule.ofLine? (line : Text) : Option Rule :=
  if line.head? = some '#' then
    none
  else
    let line := trimLine line
    if line.isEmpty then
      none
    else
      let escaped := "\\!".toList.isPrefixOf line || "\\#".toList.isPrefixOf line
      let (negated, line) := if escaped then (false, line.drop 1) else stripStart ['!'] line
      let (absolute, line) := if escaped then (false, line) else stripStart ['/'] line
      let (onlyDirs, line) := splitDirMark line
      (Glob.ofText? (anchor absolute line)).map fun glob =>
        { glob, verdict := if negated then .kept else .ignored, onlyDirs }

def dropReturn (line : Text) : Text :=
  if line.getLast? = some '\r' then line.dropLast else line

/-- The lines of an ignore file as far as it is well-formed. A byte order mark at its start does not
count. -/
def linesOf (bytes : Utf8.Bytes) : List Text :=
  let units := Utf8.units bytes
  let text := (units.takeWhile Option.isSome).filterMap id
  let lines := List.splitOn '\n' text
  match if units.all Option.isSome then lines else lines.dropLast with
  | [] => []
  | first :: others => (first.dropWhile (· == '\ufeff') :: others).map dropReturn

def rulesOf (bytes : Utf8.Bytes) : List Rule :=
  (linesOf bytes).filterMap Rule.ofLine?

def Rule.applies (r : Rule) (names : List Text) (isDir : Bool) : Bool :=
  (isDir || !r.onlyDirs) && r.glob.covers (Utf8.encode (Text.joinWith ['/'] names))

def verdict? (rules : List Rule) (names : List Text) (isDir : Bool) : Option Verdict :=
  (rules.reverse.find? (·.applies names isDir)).map (·.verdict)

end ImportSync.Ignore
