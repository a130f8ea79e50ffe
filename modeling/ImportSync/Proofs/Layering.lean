import ImportSync.Proofs.Foresight

/-!
Arguments over an options file. Two runs with the same arguments are compared. Where their options files
agree on all that the arguments leave to the file, the runs have the same settings, so an option that an
argument overrides leaves no trace. A filter or rules that are rejected cost a warning and nothing else:
the settings are those of a run that was given no patterns, or no rules.
-/

namespace ImportSync

/-! ### Options that the arguments leave to the file -/

theorem firstGiven_eq_iff {arguments usual : List Text} {file file' : Option (List Text)} :
    firstGiven arguments file usual = firstGiven arguments file' usual ↔
      (arguments = [] → file.getD usual = file'.getD usual) := by
  cases arguments <;> simp [firstGiven]

theorem overridden_congr {arguments file file' : List Text} (h : arguments = [] → file = file') :
    (if arguments.isEmpty then file else arguments) = if arguments.isEmpty then file' else arguments := by
  cases arguments with
  | nil => exact h rfl
  | cons first rest => rfl

theorem or_flag_eq_iff {flag file file' : Bool} :
    (flag || file) = (flag || file') ↔ (flag = false → file = file') := by
  cases flag <;> simp

namespace OptionsFile

/-- The filter that an options file asks for; without patterns if it asks for none. -/
def filterSection (f : OptionsFile) : FilterSection :=
  f.filter.getD {}

/-- Two options files agree on the options that settings show as they are, those aside that the arguments
override. An option that a file does not give has its usual value. -/
structure AgreesPlainlyUnder (a : Arguments) (f f' : OptionsFile) : Prop where
  importRoots : a.importRoots = [] →
    f.importRoots.getD Settings.usualImportRoots = f'.importRoots.getD Settings.usualImportRoots
  modifyRoots : a.modifyRoots = [] →
    f.modifyRoots.getD Settings.usualModifyRoots = f'.modifyRoots.getD Settings.usualModifyRoots
  scriptExtensions : a.scriptExtensions = [] →
    f.scriptExtensions.getD Settings.usualScriptExtensions =
      f'.scriptExtensions.getD Settings.usualScriptExtensions
  assetExtensions : a.assetExtensions = [] →
    f.assetExtensions.getD Settings.usualAssetExtensions =
      f'.assetExtensions.getD Settings.usualAssetExtensions
  applyToModify : a.filterModify = false →
    f.filterSection.applyToModify = f'.filterSection.applyToModify
  respectIgnoreFiles : a.respectIgnore = false → f.respectIgnoreFiles = f'.respectIgnoreFiles
  includeDeclarations : a.includeDeclarations = false → f.includeDeclarations = f'.includeDeclarations
  -- no argument overrides the dialect
  dialect : f.dialect = f'.dialect

/-- Two options files agree on every option that the arguments do not override. Wanted and unwanted
patterns are overridden each on their own. -/
structure AgreesUnder (a : Arguments) (f f' : OptionsFile) : Prop extends f.AgreesPlainlyUnder a f' where
  outputName : a.outputName = none →
    f.outputName.getD Settings.usualOutputName = f'.outputName.getD Settings.usualOutputName
  previousOutputNames : a.previousOutputNames = [] → f.previousOutputNames = f'.previousOutputNames
  wanted : a.wanted = [] → f.filterSection.wanted = f'.filterSection.wanted
  unwanted : a.unwanted = [] → f.filterSection.unwanted = f'.filterSection.unwanted
  -- no argument overrides the rules
  customRules : f.customRules = f'.customRules

/-- The options without the patterns of the filter. Whether it applies to modified files stays. -/
def withoutPatterns (f : OptionsFile) : OptionsFile :=
  { f with filter := f.filter.map fun s => { s with wanted := [], unwanted := [] } }

/-- The options without the rules for other files. -/
def withoutRules (f : OptionsFile) : OptionsFile :=
  { f with customRules := [] }

end OptionsFile

namespace Arguments

/-- The arguments without the patterns of the filter. -/
def withoutPatterns (a : Arguments) : Arguments :=
  { a with wanted := [], unwanted := [] }

variable {a : Arguments} {f f' : OptionsFile} {root : Text}

/-! ### Settings of two runs -/

theorem baseSettings_eq_of_agrees (h : f.AgreesUnder a f') :
    a.baseSettings f root = a.baseSettings f' root := by
  have hname : (a.outputName <|> f.outputName).getD Settings.usualOutputName =
      (a.outputName <|> f'.outputName).getD Settings.usualOutputName := by
    cases hgiven : a.outputName with
    | none => simpa using h.outputName hgiven
    | some name => simp
  have hprevious := overridden_congr h.previousOutputNames
  have hmodify := or_flag_eq_iff.2 h.applyToModify
  rw [OptionsFile.filterSection, OptionsFile.filterSection] at hmodify
  rw [baseSettings, baseSettings, firstGiven_eq_iff.2 h.importRoots, firstGiven_eq_iff.2 h.modifyRoots,
    firstGiven_eq_iff.2 h.scriptExtensions, firstGiven_eq_iff.2 h.assetExtensions, hname, hprevious,
    hmodify, or_flag_eq_iff.2 h.respectIgnoreFiles, or_flag_eq_iff.2 h.includeDeclarations, h.dialect]

theorem agreesPlainly_of_baseSettings {root' : Text}
    (h : a.baseSettings f root = a.baseSettings f' root') : f.AgreesPlainlyUnder a f' where
  importRoots := firstGiven_eq_iff.1 (congrArg Settings.importRoots h)
  modifyRoots := firstGiven_eq_iff.1 (congrArg Settings.modifyRoots h)
  scriptExtensions := firstGiven_eq_iff.1 (congrArg Settings.scriptExtensions h)
  assetExtensions := firstGiven_eq_iff.1 (congrArg Settings.assetExtensions h)
  applyToModify := or_flag_eq_iff.1 (congrArg Settings.filterModify h)
  respectIgnoreFiles := or_flag_eq_iff.1 (congrArg Settings.respectIgnoreFiles h)
  includeDeclarations := or_flag_eq_iff.1 (congrArg (·.collect.includeDeclarations) h)
  dialect := congrArg (·.collect.dialect) h

theorem filter?_eq_of_agrees (h : f.AgreesUnder a f') : a.filter? f = a.filter? f' := by
  have hpatterns : a.filterPatterns f = a.filterPatterns f' :=
    Prod.ext (overridden_congr h.wanted) (overridden_congr h.unwanted)
  rw [filter?, filter?, hpatterns]

theorem settings_eq_of_agrees (h : f.AgreesUnder a f') (root : Text) :
    a.settings f root = a.settings f' root := by
  have hcustom (dir : Text) : custom? f dir = custom? f' dir := by
    rw [custom?, custom?, h.customRules]
  rw [settings, settings, baseSettings_eq_of_agrees h, filter?_eq_of_agrees h, hcustom]

theorem agreesPlainly_of_settings {root' : Text}
    (h : (a.settings f root).1 = (a.settings f' root').1) : f.AgreesPlainlyUnder a f' := by
  -- filter and rules hide nothing else
  have hbase (f : OptionsFile) (root : Text) :
      { (a.settings f root).1 with filter := none, custom := none } = a.baseSettings f root := rfl
  have hsame : a.baseSettings f root = a.baseSettings f' root' := by
    rw [← hbase, ← hbase, h]
  exact agreesPlainly_of_baseSettings hsame

/-! ### Filters and rules that are rejected -/

theorem baseSettings_withoutPatterns (a : Arguments) (f : OptionsFile) (root : Text) :
    a.withoutPatterns.baseSettings f.withoutPatterns root = a.baseSettings f root := by
  have hmodify : f.withoutPatterns.filterSection.applyToModify = f.filterSection.applyToModify := by
    cases hfilter : f.filter <;>
      simp [OptionsFile.filterSection, OptionsFile.withoutPatterns, hfilter]
  change { a.baseSettings f root with
    filterModify := a.filterModify || f.withoutPatterns.filterSection.applyToModify } = _
  rw [hmodify]
  rfl

theorem filter?_withoutPatterns (a : Arguments) (f : OptionsFile) :
    a.withoutPatterns.filter? f.withoutPatterns = .ok none := by
  cases hfilter : f.filter <;>
    simp [filter?, filterPatterns, withoutPatterns, OptionsFile.withoutPatterns, hfilter]

/-- A filter that is rejected costs a warning. -/
theorem settings_of_filter_error {e : RuleError} (h : a.filter? f = .error e) (root : Text) :
    a.settings f root =
      ((a.withoutPatterns.settings f.withoutPatterns root).1,
        .ignoredFilter e :: (a.withoutPatterns.settings f.withoutPatterns root).2) := by
  have hcustom (dir : Text) : custom? f.withoutPatterns dir = custom? f dir := rfl
  simp only [settings, baseSettings_withoutPatterns, filter?_withoutPatterns, h, hcustom]
  rfl

/-- Rules that are rejected cost a warning. -/
theorem settings_of_custom_error {e : RuleError}
    (h : custom? f (a.baseSettings f root).aggregator.dir = .error e) :
    a.settings f root =
      ((a.settings f.withoutRules root).1, (a.settings f.withoutRules root).2 ++ [.ignoredRules e]) := by
  have hbase : a.baseSettings f.withoutRules root = a.baseSettings f root := rfl
  have hfilter : a.filter? f.withoutRules = a.filter? f := rfl
  have hcustom (dir : Text) : custom? f.withoutRules dir = .ok none := rfl
  simp only [settings, hbase, hfilter, hcustom, h]
  simp

theorem load_of_options {t : FileTree} (h : a.options t = .ok f) :
    a.load t = .ok (a.settings f (rootPath t a.root)) := by
  rw [load_eq, h]
  rfl

end Arguments

/-! ### Main statement -/

/-- Two runs with the same arguments and the same root load their settings, which are the same if the
options files agree on all that the arguments do not override, and which show the options that they take
from the files. If the patterns or the rules of the first run are rejected, and the second one is a run
without them, it has the settings of the first one and a warning less. -/
theorem overridden_options_leave_no_trace (a : Arguments) {t t' : FileTree} {f f' : OptionsFile}
    (hf : a.options t = .ok f) (hf' : a.options t' = .ok f')
    (hroot : rootPath t a.root = rootPath t' a.root) :
    ∃ s warnings s' warnings',
      a.load t = .ok (s, warnings) ∧ a.load t' = .ok (s', warnings') ∧
      (f.AgreesUnder a f' → s = s' ∧ warnings = warnings') ∧
      (s = s' → f.AgreesPlainlyUnder a f') ∧
      (∀ e, a.filter? f = .error e → f' = f.withoutPatterns →
        ∃ fewer, warnings = .ignoredFilter e :: fewer ∧ a.withoutPatterns.load t' = .ok (s, fewer)) ∧
      ∀ e, Arguments.custom? f s.aggregator.dir = .error e → f' = f.withoutRules →
        s = s' ∧ warnings = warnings' ++ [.ignoredRules e] := by
  have hload := Arguments.load_of_options hf
  have hload' := Arguments.load_of_options hf'
  rw [← hroot] at hload'
  refine ⟨(a.settings f _).1, (a.settings f _).2, (a.settings f' _).1, (a.settings f' _).2, hload, hload',
    fun hagrees => ?_, Arguments.agreesPlainly_of_settings, fun e hrejected hempty => ?_,
    fun e hrejected hempty => ?_⟩
  · rw [Arguments.settings_eq_of_agrees hagrees]
    exact ⟨rfl, rfl⟩
  · have hoptions : a.withoutPatterns.options t' = .ok f.withoutPatterns := by
      rw [← hempty, ← hf']
      rfl
    have hplain : a.withoutPatterns.load t' =
        .ok (a.withoutPatterns.settings f.withoutPatterns (rootPath t a.root)) := by
      rw [hroot]
      exact Arguments.load_of_options hoptions
    rw [Arguments.settings_of_filter_error hrejected]
    exact ⟨_, rfl, hplain⟩
  · rw [hempty, Arguments.settings_of_custom_error hrejected]
    exact ⟨rfl, rfl⟩

/-- A site with an options file that has the given members. -/
def optionsSite (members : List String) : FileTree where
  workingDir := ["site".toList]
  entries := [
    (["site".toList], .dir),
    (["site".toList, "sync.json".toList],
      .file (Utf8.encode ('{' :: Text.joinWith [','] (members.map String.toList) ++ ['}'])))]

/-- Options of which the arguments override all but the unwanted pattern, which is empty, and the rule,
which says nothing. -/
def overriddenSite : FileTree :=
  optionsSite [
    "\"import\":[\"./old\"]", "\"outputName\":\"old.js\"",
    "\"filter\":\x7b\"include\":[\"a\"],\"exclude\":[\"\"]\x7d",
    "\"fileExtensionsCustom\":[\x7b\"extension\":\"svg\"\x7d]"]

/-- What is not overridden, and another directory to import from. -/
def otherSite : FileTree :=
  optionsSite [
    "\"import\":[]", "\"filter\":\x7b\"exclude\":[\"\"]\x7d",
    "\"fileExtensionsCustom\":[\x7b\"extension\":\"svg\"\x7d]"]

def patternlessSite : FileTree :=
  optionsSite [
    "\"import\":[\"./old\"]", "\"outputName\":\"old.js\"", "\"filter\":\x7b\x7d",
    "\"fileExtensionsCustom\":[\x7b\"extension\":\"svg\"\x7d]"]

def rulelessSite : FileTree :=
  optionsSite [
    "\"import\":[\"./old\"]", "\"outputName\":\"old.js\"",
    "\"filter\":\x7b\"include\":[\"a\"],\"exclude\":[\"\"]\x7d"]

def overriddenOptions : OptionsFile where
  importRoots := some ["./old".toList]
  outputName := some "old.js".toList
  filter := some { wanted := ["a".toList], unwanted := [[]] }
  customRules := [{ extension := "svg".toList }]

def overridingArguments : Arguments where
  root := some ".".toList
  config := some "sync.json".toList
  importRoots := ["./lib".toList]
  outputName := some "all".toList
  wanted := ["x".toList]

theorem overridden_options_leave_no_trace_overriddenSite :
    ∃ s warnings warnings',
      overridingArguments.load overriddenSite = .ok (s, .ignoredFilter .emptyPattern :: warnings) ∧
      overridingArguments.load otherSite = .ok (s, .ignoredFilter .emptyPattern :: warnings) ∧
      overridingArguments.withoutPatterns.load patternlessSite = .ok (s, warnings) ∧
      overridingArguments.load rulelessSite = .ok (s, warnings') ∧
      .ignoredFilter .emptyPattern :: warnings =
        warnings' ++ [.ignoredRules (.idleRule "svg".toList)] := by
  have hfull : overridingArguments.options overriddenSite = .ok overriddenOptions := by decide +kernel
  have hother : overridingArguments.options otherSite =
      .ok { importRoots := some [], filter := some { unwanted := [[]] },
            customRules := [{ extension := "svg".toList }] } := by decide +kernel
  have hpatternless : overridingArguments.options patternlessSite =
      .ok overriddenOptions.withoutPatterns := by decide +kernel
  have hruleless : overridingArguments.options rulelessSite = .ok overriddenOptions.withoutRules := by
    decide +kernel
  obtain ⟨s, warnings, s₁, warnings₁, hload, hload₁, hagrees, -⟩ :=
    overridden_options_leave_no_trace overridingArguments hfull hother (by decide +kernel)
  obtain ⟨_, _, _, _, hload₂, -, -, -, hfilter, -⟩ :=
    overridden_options_leave_no_trace overridingArguments hfull hpatternless (by decide +kernel)
  obtain ⟨_, _, s₃, warnings₃, hload₃, hload₃', -, -, -, hrules⟩ :=
    overridden_options_leave_no_trace overridingArguments hfull hruleless (by decide +kernel)
  cases hload.symm.trans hload₂
  cases hload.symm.trans hload₃
  obtain ⟨fewer, rfl, hplain⟩ := hfilter .emptyPattern (by decide) rfl
  obtain ⟨rfl, hfewer⟩ := hrules (.idleRule "svg".toList) rfl rfl
  obtain ⟨rfl, rfl⟩ := hagrees
    { importRoots := nofun, modifyRoots := fun _ => rfl, scriptExtensions := fun _ => rfl,
      assetExtensions := fun _ => rfl, applyToModify := fun _ => rfl, respectIgnoreFiles := fun _ => rfl,
      includeDeclarations := fun _ => rfl, dialect := rfl, outputName := nofun,
      previousOutputNames := fun _ => rfl, wanted := nofun, unwanted := fun _ => rfl, customRules := rfl }
  exact ⟨s, fewer, warnings₃, hload, hload₁, hplain, hload₃', hfewer⟩

end ImportSync
