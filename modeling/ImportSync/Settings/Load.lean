import ImportSync.Json
import ImportSync.Settings.Arguments
import ImportSync.Settings.Basic
import ImportSync.Settings.Rules
import ImportSync.Settings.OptionsFile
import ImportSync.Tree

/-!
From arguments and an options file to settings. An argument counts more than the file, and the file
more than the defaults. A filter or rules that are rejected are left out with a warning.
-/

namespace ImportSync

/-- The first list that is given: by arguments if there are any, else by the file, else by
default. -/
def firstGiven (arguments : List Text) (file : Option (List Text)) (usual : List Text) :
    List Text :=
  if arguments.isEmpty then file.getD usual else arguments

/-- The directory that a root argument means: where it leads, or itself if it leads nowhere. -/
def rootPath (tree : FileTree) : Option Text → Text
  | some root => (tree.canonical? root).getD root
  | none => tree.workingPath

def OptionsFile.read (tree : FileTree) (p : Text) : Except Failure OptionsFile :=
  match tree.readText? p with
  | none => .error (.unreadable p)
  | some content =>
    match (Json.parse? content).bind OptionsFile.ofJson? with
    | some options => .ok options
    | none => .error (.badOptions p)

namespace Arguments

/-- The patterns of the filter: wanted and unwanted ones, each from the arguments or from the file. -/
def filterPatterns (a : Arguments) (f : OptionsFile) : List Text × List Text :=
  let fromFile := f.filter.getD {}
  (if a.wanted.isEmpty then fromFile.wanted else a.wanted,
   if a.unwanted.isEmpty then fromFile.unwanted else a.unwanted)

def filter? (a : Arguments) (f : OptionsFile) : Except RuleError (Option PartFilter) :=
  let (wanted, unwanted) := a.filterPatterns f
  if wanted.isEmpty && unwanted.isEmpty then
    .ok none
  else
    (PartFilter.ofPatterns wanted unwanted).map some

def custom? (f : OptionsFile) (dir : Text) : Except RuleError (Option CustomRules) :=
  if f.customRules.isEmpty then .ok none else (CustomRules.ofRules f.customRules dir).map some

def baseSettings (a : Arguments) (f : OptionsFile) (root : Text) : Settings where
  root := root
  importRoots := firstGiven a.importRoots f.importRoots Settings.usualImportRoots
  modifyRoots := firstGiven a.modifyRoots f.modifyRoots Settings.usualModifyRoots
  aggregator := .ofNames root ((a.outputName <|> f.outputName).getD Settings.usualOutputName)
    (if a.previousOutputNames.isEmpty then f.previousOutputNames else a.previousOutputNames)
  collect :=
    { dialect := f.dialect
      includeDeclarations := a.includeDeclarations || f.includeDeclarations }
  scriptExtensions :=
    firstGiven a.scriptExtensions f.scriptExtensions Settings.usualScriptExtensions
  assetExtensions := firstGiven a.assetExtensions f.assetExtensions Settings.usualAssetExtensions
  filterModify := a.filterModify || (f.filter.getD {}).applyToModify
  respectIgnoreFiles := a.respectIgnore || f.respectIgnoreFiles
  mode := if a.check then .check else .write

/-- The settings for a root, and warnings about what is left out. -/
def settings (a : Arguments) (f : OptionsFile) (root : Text) : Settings × List Warning :=
  let base := a.baseSettings f root
  let (filter, filterWarnings) : Option PartFilter × List Warning :=
    match a.filter? f with
    | .ok filter => (filter, [])
    | .error e => (none, [.ignoredFilter e])
  let (custom, customWarnings) : Option CustomRules × List Warning :=
    match custom? f base.aggregator.dir with
    | .ok custom => (custom, [])
    | .error e => (none, [.ignoredRules e])
  ({ base with
      filter := filter.map PartFilter.passes
      custom := custom.map CustomRules.entryFor },
    filterWarnings ++ customWarnings)

def load (a : Arguments) (tree : FileTree) : Except Failure (Settings × List Warning) := do
  let f ← match a.config with
    | some p => OptionsFile.read tree p
    | none => .ok {}
  return a.settings f (rootPath tree a.root)

end Arguments

end ImportSync
