import ImportSync.Text.Basic

/-!
What can go wrong, by cause: rules that are rejected, failures that end a run, and warnings that do
not. The wording of every message is here and nowhere else.
-/

namespace ImportSync

/-- Why a filter or a set of rules is rejected. -/
inductive RuleError where
  | emptyPattern
  | noRules
  | missingExtension
  /-- A rule for an extension says neither what to import nor what to export. -/
  | idleRule (extension : Text)
  deriving DecidableEq, Repr

def RuleError.message (e : RuleError) : Text :=
  "invalid config: ".toList ++
    match e with
    | .emptyPattern => "filter patterns must not be empty".toList
    | .noRules => "custom extension handler has no rules".toList
    | .missingExtension => "custom extension rule is missing its extension".toList
    | .idleRule extension =>
      "custom extension rule for '".toList ++ extension
        ++ "' has neither importLine nor exports".toList

inductive Failure where
  | pathNotFound (path : Text)
  | unreadable (path : Text)
  | unwritable (path : Text)
  | uncreatable (dir : Text)
  /-- An options file is no well-formed text of options. -/
  | badOptions (path : Text)
  deriving DecidableEq, Repr

def Failure.message : Failure → Text
  | .pathNotFound path => "path not found: ".toList ++ path
  | .unreadable path => "Failed to read ".toList ++ path
  | .unwritable path => "Failed to write ".toList ++ path
  | .uncreatable dir => "Failed to create ".toList ++ dir
  | .badOptions path => "Failed to parse ".toList ++ path

/-- What a run says without failing. -/
inductive Warning where
  /-- A file is read although some of its bytes are malformed. -/
  | lossyText (path : Text)
  /-- A file is not modified because some of its bytes are malformed. -/
  | leftUntouched (path : Text)
  | ignoredFilter (cause : RuleError)
  | ignoredRules (cause : RuleError)
  deriving DecidableEq, Repr

def Warning.message : Warning → Text
  | .lossyText path => path ++ " is not valid UTF-8; decoding it lossily".toList
  | .leftUntouched path =>
    "Leaving ".toList ++ path ++ " untouched: it is not valid UTF-8".toList
  | .ignoredFilter cause => "Ignoring file filter: ".toList ++ cause.message
  | .ignoredRules cause => "Ignoring custom extension handler: ".toList ++ cause.message

end ImportSync
