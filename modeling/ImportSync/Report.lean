import ImportSync.Path
import ImportSync.Sync.Run
import ImportSync.Text.Basic

/-!
The report about a run: whether files were or are out of date, what became of the generated module, and
which of the modules that import from it are touched. A text in a colour of the terminal stands between
an escape sequence with the codes of its style and one that ends it.
-/

namespace ImportSync

/-! ### Colours -/

inductive Style where
  | dimmed
  | green
  | yellow
  | blue
  | cyan
  | brightBlue
  | boldGreen
  | boldYellow
  | boldWhite
  deriving DecidableEq, Repr

def Style.codes : Style → Text
  | .dimmed => "2".toList
  | .green => "32".toList
  | .yellow => "33".toList
  | .blue => "34".toList
  | .cyan => "36".toList
  | .brightBlue => "94".toList
  | .boldGreen => "1;32".toList
  | .boldYellow => "1;33".toList
  | .boldWhite => "1;97".toList

/-- A text in a style, or the text alone if colours are off. -/
def Style.paint (color : Bool) (s : Style) (t : Text) : Text :=
  if color then "\x1b[".toList ++ s.codes ++ 'm' :: t ++ "\x1b[0m".toList else t

end ImportSync

namespace ImportSync.Report

/-! ### The report -/

/-- The path of a file as a reader in the working directory would type it. -/
def shownPath (workingPath : Text) (m : SourcePath) : Text :=
  (Path.relative? m.text workingPath).getD m.text

def changeLine (color : Bool) (workingPath branch : Text) (c : Update) : Text :=
  let path := shownPath workingPath c.path
  let (word, path) :=
    match c.outcome with
    | .written => (Style.green.paint color "written".toList, Style.blue.paint color path)
    | .stale => (Style.yellow.paint color "stale".toList, Style.blue.paint color path)
    | .unchanged => (Style.dimmed.paint color "unchanged".toList, path)
  Style.dimmed.paint color branch ++ "  ".toList ++ word ++ ' ' :: path ++ ['\n']

def lastBranch : Text := "└──".toList

def branch : Text := "├──".toList

def changeLines (color : Bool) (workingPath : Text) : List Update → Text
  | [] => []
  | [c] => changeLine color workingPath lastBranch c
  | c :: others => changeLine color workingPath branch c ++ changeLines color workingPath others

def count (color : Bool) (n : Nat) : Text :=
  Style.cyan.paint color (Text.ofNat n)

def header (color : Bool) (r : RunReport) : Text :=
  if r.isOutOfDate then
    Style.boldYellow.paint color "⚠".toList ++ " Generated files are out of date\n".toList
  else if !r.writtenFiles.isEmpty then
    Style.boldGreen.paint color "✓".toList ++ " Generated files updated\n".toList
  else
    Style.boldGreen.paint color "✓".toList ++ " Generated files are up to date\n".toList

def aggregatorPart (color : Bool) (workingPath : Text) (r : RunReport) : Text :=
  Style.boldWhite.paint color "Aggregator".toList ++ " (".toList ++ count color r.exportedNames
    ++ " names from ".toList ++ count color r.filesScanned ++ " files)\n".toList
    ++ changeLine color workingPath lastBranch r.aggregator

def consumerPart (color : Bool) (workingPath : Text) (r : RunReport) : Text :=
  let touched := r.consumers.filter (·.outcome != .unchanged)
  Style.boldWhite.paint color "Consumers".toList ++ " (".toList ++ count color touched.length
    ++ " of ".toList ++ count color r.consumers.length ++ " changed)\n".toList
    ++ changeLines color workingPath touched

def failurePart (color : Bool) (r : RunReport) : Text :=
  if r.parseFailures = 0 then []
  else
    '\n' :: Style.boldYellow.paint color "⚠".toList
      ++ ' ' :: Style.yellow.paint color (Text.ofNat r.parseFailures)
      ++ " files could not be parsed and export nothing\n".toList

def summary (color : Bool) (workingPath : Text) (r : RunReport) : Text :=
  header color r ++ '\n' :: aggregatorPart color workingPath r
    ++ '\n' :: consumerPart color workingPath r ++ failurePart color r

/-- The line after the report: how long the run took, how many files it looked at, and on how many
threads. -/
def finished (color : Bool) (elapsed threads : Nat) (r : RunReport) : Text :=
  '\n' :: Style.brightBlue.paint color "●".toList ++ " Finished in ".toList ++ count color elapsed
    ++ "ms on ".toList ++ count color (r.filesScanned + r.consumers.length)
    ++ " files (using ".toList ++ count color threads ++ " threads).\n".toList

end ImportSync.Report
