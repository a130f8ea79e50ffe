import ImportSync.Aggregator.Basic
import ImportSync.Exports
import ImportSync.Settings.Rules

/-!
The settings of a run, with everything resolved. Filter and custom handler are functions of a file's
path, so that any of them can stand here.
-/

namespace ImportSync

inductive FileKind where
  /-- Its exported names are collected. -/
  | script
  /-- It is imported for what loading it does. -/
  | asset
  | custom
  deriving DecidableEq, Repr

/-- Whether files that are out of date are written or only reported. -/
inductive Mode where
  | write
  | check
  deriving DecidableEq, Repr

structure Settings where
  root : Text
  importRoots : List Text
  modifyRoots : List Text
  aggregator : Aggregator
  collect : CollectOptions := {}
  scriptExtensions : List Text
  assetExtensions : List Text
  /-- Decides which files are imported; all of them if there is none. -/
  filter : Option (SourcePath → Bool) := none
  /-- Whether the filter also decides which files are modified. -/
  filterModify : Bool := false
  custom : Option (SourcePath → CustomEntry) := none
  respectIgnoreFiles : Bool := false
  mode : Mode := .write

namespace Settings

def usualImportRoots : List Text := ["./src/resources/".toList]

def usualModifyRoots : List Text := ["./src/resources/".toList, "./src/pages/".toList]

def usualScriptExtensions : List Text := ["js".toList, "jsx".toList]

def usualAssetExtensions : List Text :=
  ["css".toList, "less".toList, "sass".toList, "scss".toList]

def usualOutputName : Text := "imports.js".toList

def ofRoot (root : Text) : Settings where
  root := root
  importRoots := usualImportRoots
  modifyRoots := usualModifyRoots
  aggregator := .ofNames root usualOutputName []
  scriptExtensions := usualScriptExtensions
  assetExtensions := usualAssetExtensions

def resolve (s : Settings) (configured : Text) : Text :=
  Path.clean (Path.join s.root (Path.normalize configured))

/-- How a file takes part, by its extension; not at all if none of the settings applies. -/
def kindOf? (s : Settings) (m : SourcePath) : Option FileKind :=
  if m.hasAnyExtension s.scriptExtensions then some .script
  else if m.hasAnyExtension s.assetExtensions then some .asset
  else if s.custom.isSome then some .custom
  else none

def passes (s : Settings) (m : SourcePath) : Bool :=
  s.filter.all (· m)

end Settings

end ImportSync
