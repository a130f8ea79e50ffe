import ImportSync.Exports
import ImportSync.Generated
import ImportSync.Path
import ImportSync.Text.Basic

/-!
The generated module. It lies at one path, and its imports are known under its present name and the ones
it had before. Its text is one import for every scanned file, an empty line, and one export of all
names.
-/

namespace ImportSync

/-! ### Place and names -/

def aggregatorExtension : Text := ".js".toList

/-- The name of an aggregator in its one spelling, with its extension. -/
def aggregatorFileName (name : Text) : Text :=
  let normal := Path.normalize name
  if aggregatorExtension.isSuffixOf normal then normal else normal ++ aggregatorExtension

/-- The aggregator: its path, its name relative to the root, and the names it had before. -/
structure Aggregator where
  path : Text
  name : Text
  previousNames : List Text
  deriving DecidableEq, Repr

namespace Aggregator

/-- The name of an aggregator relative to the root, without detours. -/
def canonicalName (name : Text) : Text :=
  Path.normalize (Path.clean (aggregatorFileName name))

def ofNames (root name : Text) (previous : List Text) : Aggregator where
  path := Path.clean (Path.join root (aggregatorFileName name))
  name := canonicalName name
  previousNames := previous.map canonicalName

def sourcePath (t : Aggregator) : SourcePath :=
  .ofText t.path

def dir (t : Aggregator) : Text :=
  (Path.parent? t.path).getD []

def references (t : Aggregator) : References :=
  .ofNames t.name t.previousNames

end Aggregator

/-! ### Contents -/

inductive ImportLine where
  /-- Names brought in from a file, possibly none. -/
  | named (source : Text) (names : List Text)
  /-- A file loaded for what loading it does. -/
  | sideEffect (source : Text)
  | raw (line : Text)
  deriving DecidableEq, Repr

def nameList (names : List Text) : Text :=
  Text.joinWith ", ".toList names

/-- The text of an import. A line given as it stands loses the blanks at its end. -/
def ImportLine.render : ImportLine → Text
  | .named source names =>
    "import \x7b".toList ++ nameList names ++ "\x7d from '".toList ++ source ++ "';".toList
  | .sideEffect source => "import '".toList ++ source ++ "';".toList
  | .raw line => Text.trimEnd line

structure Document where
  imports : List ImportLine
  exports : ExportSet

def Document.render (d : Document) : Text :=
  d.imports.flatMap (fun i => i.render ++ ['\n']) ++ '\n' ::
    ("export \x7b".toList ++ nameList d.exports.names ++ "\x7d;\n".toList)

end ImportSync
