import ImportSync.Aggregator.Basic
import ImportSync.Sync.Basic

/-!
Building the generated module from the files below the import roots. Every file that the settings let
in contributes an import, names, or both; a file that is found again contributes nothing.
-/

namespace ImportSync

structure Share where
  statement : Option ImportLine
  names : List Text := []
  parseFailed : Bool := false
  deriving DecidableEq, Repr

/-- The generated module, how many files contribute to it, and how many of them did not parse. -/
structure Harvest where
  document : Document := { imports := [], exports := .empty }
  filesScanned : Nat := 0
  parseFailures : Nat := 0

def Harvest.add (h : Harvest) (c : Share) : Harvest where
  document :=
    { imports := h.document.imports ++ c.statement.toList
      exports := h.document.exports.extend c.names }
  filesScanned := h.filesScanned + 1
  parseFailures := if c.parseFailed then h.parseFailures + 1 else h.parseFailures

namespace Settings

/-- Whether a file takes part in the generated module: it is not that module itself, passes the filter,
and is of some kind. -/
def isImported (s : Settings) (m : SourcePath) : Bool :=
  m != s.aggregator.sourcePath && s.passes m && (s.kindOf? m).isSome

def referenceTo (s : Settings) (m : SourcePath) : Text :=
  Path.reference s.aggregator.dir m.text

/-- What the custom handler contributes for a file; nothing if it says nothing. -/
def customShare? (s : Settings) (m : SourcePath) : Option Share :=
  s.custom.bind fun handle =>
    let custom := handle m
    if custom.importLine.isNone && custom.exportedNames.isNone then
      none
    else
      some { statement := custom.importLine.map .raw, names := custom.exportedNames.getD [] }

end Settings

def scriptShare (tools : Tools) (s : Settings) (m : SourcePath) : SyncM Share := do
  let source ← sourceAt m
  let found ← findingsOf tools s m (purge s.aggregator.references source.text)
  return {
    statement := some (.named (s.referenceTo m) found.names)
    names := found.names
    parseFailed := found.parseFailed }

def share? (tools : Tools) (s : Settings) (m : SourcePath) : SyncM (Option Share) :=
  match s.kindOf? m with
  | some .script => some <$> scriptShare tools s m
  | some .asset => return some { statement := some (.sideEffect (s.referenceTo m)) }
  | some .custom => return s.customShare? m
  | none => return none

/-- The files that one more import root adds to those seen, and what they contribute. -/
def importRoot (tools : Tools) (s : Settings) (seen : List SourcePath) (configured : Text) :
    SyncM (List SourcePath × List Share) := do
  let files ← filesUnder tools s configured
  let fresh := unseen seen (files.filter s.isImported)
  let shares ← fresh.mapM (share? tools s)
  return (fresh, shares.filterMap id)

def harvestFrom (tools : Tools) (s : Settings) (seen : List SourcePath) (h : Harvest) :
    List Text → SyncM Harvest
  | [] => return h
  | configured :: others => do
    let (fresh, shares) ← importRoot tools s seen configured
    harvestFrom tools s (seen ++ fresh) (shares.foldl Harvest.add h) others

def harvest (tools : Tools) (s : Settings) : SyncM Harvest :=
  harvestFrom tools s [] {} s.importRoots

end ImportSync
