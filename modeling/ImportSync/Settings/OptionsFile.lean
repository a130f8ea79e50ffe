import ImportSync.Exports
import ImportSync.Json
import ImportSync.Settings.Rules

/-!
Options as an options file says them.
-/

namespace ImportSync

structure FilterSection where
  wanted : List Text := []
  unwanted : List Text := []
  applyToModify : Bool := false
  deriving DecidableEq, Repr

/-- What an options file says. Where something is not said, the defaults of the program apply. -/
structure OptionsFile where
  importRoots : Option (List Text) := none
  modifyRoots : Option (List Text) := none
  outputName : Option Text := none
  previousOutputNames : List Text := []
  dialect : DialectOptions := {}
  scriptExtensions : Option (List Text) := none
  assetExtensions : Option (List Text) := none
  filter : Option FilterSection := none
  customRules : List CustomRule := []
  respectIgnoreFiles : Bool := false
  includeDeclarations : Bool := false
  deriving DecidableEq, Repr

open ImportSync.Json

/-! ### Records

The fields of each record have their keys in the order of the fields, in which an array gives them. -/

def texts? : Json → Option (List Text) :=
  listOf? text?

def DialectOptions.keys : List (List Text) :=
  [["jsx".toList], ["typescript".toList], ["module".toList]]

def DialectOptions.ofJson? (j : Json) : Option DialectOptions := do
  match ← j.fields? keys with
  | [markup, typed, isModule] =>
    return {
      markup := ← orDefault bool? true markup
      typed := ← orDefault (optional? bool?) none typed
      isModule := ← orDefault bool? true isModule }
  | _ => none

def FilterSection.keys : List (List Text) :=
  [["include".toList], ["exclude".toList], ["applyToModify".toList]]

def FilterSection.ofJson? (j : Json) : Option FilterSection := do
  match ← j.fields? keys with
  | [wanted, unwanted, applyToModify] =>
    return {
      wanted := ← orDefault texts? [] wanted
      unwanted := ← orDefault texts? [] unwanted
      applyToModify := ← orDefault bool? false applyToModify }
  | _ => none

def CustomRule.keys : List (List Text) :=
  [["extension".toList], ["importLine".toList], ["exports".toList]]

/-- The rule of a JSON value, which has to name an extension. -/
def CustomRule.ofJson? (j : Json) : Option CustomRule := do
  match ← j.fields? keys with
  | [extension, importLine, exports] =>
    return {
      extension := ← extension.bind text?
      importLine := ← orDefault (optional? text?) none importLine
      exports := ← orDefault texts? [] exports }
  | _ => none

/-- The dialect options are also known under the key of an earlier parser. -/
def OptionsFile.keys : List (List Text) :=
  [["import".toList], ["modify".toList], ["outputName".toList], ["previousOutputNames".toList],
   ["parser".toList, "babel".toList], ["fileExtensionsJs".toList], ["fileExtensionsOther".toList],
   ["filter".toList], ["fileExtensionsCustom".toList], ["respectIgnoreFiles".toList],
   ["includeDeclarations".toList]]

/-- The options of a JSON value, or none if it has a repeated key or a value of a wrong type. -/
def OptionsFile.ofJson? (j : Json) : Option OptionsFile := do
  match ← j.fields? keys with
  | [importRoots, modifyRoots, outputName, previousOutputNames, dialect, scriptExtensions,
      assetExtensions, filter, customRules, respectIgnoreFiles, includeDeclarations] =>
    return {
      importRoots := ← orDefault (optional? texts?) none importRoots
      modifyRoots := ← orDefault (optional? texts?) none modifyRoots
      outputName := ← orDefault (optional? text?) none outputName
      previousOutputNames := ← orDefault texts? [] previousOutputNames
      dialect := ← orDefault DialectOptions.ofJson? {} dialect
      scriptExtensions := ← orDefault (optional? texts?) none scriptExtensions
      assetExtensions := ← orDefault (optional? texts?) none assetExtensions
      filter := ← orDefault (optional? FilterSection.ofJson?) none filter
      customRules := ← orDefault (listOf? CustomRule.ofJson?) [] customRules
      respectIgnoreFiles := ← orDefault bool? false respectIgnoreFiles
      includeDeclarations := ← orDefault bool? false includeDeclarations }
  | _ => none

end ImportSync
