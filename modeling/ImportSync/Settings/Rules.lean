import ImportSync.Failure
import ImportSync.Path

/-!
A filter by parts of paths, and rules for files that are neither modules nor plain assets. A rule says,
for one extension, which line imports such a file and which names it exports, as templates in which the
file's reference and stem may be filled in.
-/

namespace ImportSync

/-! ### The filter -/

structure PartFilter where
  wanted : List Text
  unwanted : List Text
  deriving DecidableEq, Repr

namespace PartFilter

/-- The filter with the given patterns, none of which may be empty. -/
def ofPatterns (wanted unwanted : List Text) : Except RuleError PartFilter :=
  if (wanted ++ unwanted).any List.isEmpty then
    .error .emptyPattern
  else
    .ok { wanted, unwanted }

/-- Whether a file passes: its path contains a wanted pattern, or there is none, and contains no
unwanted one. -/
def passes (f : PartFilter) (m : SourcePath) : Bool :=
  (f.wanted.isEmpty || f.wanted.any fun p => Text.hasPart p m.text)
    && !f.unwanted.any fun p => Text.hasPart p m.text

end PartFilter

/-! ### Custom rules -/

structure CustomEntry where
  importLine : Option Text := none
  exportedNames : Option (List Text) := none
  deriving DecidableEq, Repr

structure CustomRule where
  extension : Text
  importLine : Option Text := none
  exports : List Text := []
  deriving DecidableEq, Repr

/-- Rules, and the directory that references start from. -/
structure CustomRules where
  rules : List CustomRule
  dir : Text
  deriving DecidableEq, Repr

def CustomRule.fault? (r : CustomRule) : Option RuleError :=
  if (r.extension.dropWhile (· == '.')).isEmpty then some .missingExtension
  else if r.importLine.isNone && r.exports.isEmpty then some (.idleRule r.extension)
  else none

namespace CustomRules

/-- The handler for some rules: one rule at least, and none at fault. -/
def ofRules (rules : List CustomRule) (dir : Text) : Except RuleError CustomRules :=
  if rules.isEmpty then
    .error .noRules
  else
    match rules.findSome? CustomRule.fault? with
    | some e => .error e
    | none => .ok { rules, dir }

def pathMark : Text := "\x7bpath\x7d".toList

def stemMark : Text := "\x7bstem\x7d".toList

/-- A template with the file's reference filled in, and then its stem. -/
def fill (h : CustomRules) (m : SourcePath) (template : Text) : Text :=
  Text.replaceAll stemMark ((Path.stem? m.text).getD [])
    (Text.replaceAll pathMark (Path.reference h.dir m.text) template)

/-- What the first rule contributes whose extension the file has. -/
def entryFor (h : CustomRules) (m : SourcePath) : CustomEntry :=
  match h.rules.find? fun r => m.hasExtension r.extension with
  | none => {}
  | some r =>
    { importLine := r.importLine.map (h.fill m)
      exportedNames := if r.exports.isEmpty then none else some (r.exports.map (h.fill m)) }

end CustomRules

end ImportSync
