import ImportSync.Exports
import ImportSync.Generated
import ImportSync.Path
import ImportSync.Settings.Basic
import ImportSync.Tree

/-!
Steps of a run. A step looks at the file tree and may change it, remembers names, and collects
warnings; it may fail, and then the tree stays as it is at that point. How files are found and how names
are extracted is left open. A file is written only when it is out of date, which is judged by its whole
text without the blanks around it, or by its first line.
-/

namespace ImportSync

structure Tools where
  walk : FileTree → Text → Bool → Except Failure (List SourcePath) := FileTree.walk
  extract : Extractor := namesExported?

/-- The state of a run. Texts are their own fingerprints. -/
structure SyncState where
  tree : FileTree
  cache : NameCache Text := {}
  warnings : List Warning := []

abbrev SyncM := ExceptT Failure (StateM SyncState)

namespace SyncM

def warn (w : Warning) : SyncM Unit :=
  modify fun st => { st with warnings := st.warnings ++ [w] }

end SyncM

structure Source where
  text : Text
  lossy : Bool
  deriving DecidableEq, Repr

/-- The text of a byte sequence, malformed sequences being replaced. -/
def Source.ofBytes (bytes : Utf8.Bytes) : Source :=
  match Utf8.decode? bytes with
  | some text => { text, lossy := false }
  | none => { text := Utf8.decodeLossy bytes, lossy := true }

def sourceAt (m : SourcePath) : SyncM Source := do
  match (← get).tree.read? m.text with
  | none => throw (.unreadable m.text)
  | some bytes =>
    let source := Source.ofBytes bytes
    if source.lossy then
      SyncM.warn (.lossyText m.text)
    return source

def findingsOf (tools : Tools) (s : Settings) (m : SourcePath) (purged : Text) :
    SyncM Findings := do
  let st ← get
  let (findings, cache) := st.cache.findings id tools.extract s.collect m purged
  set { st with cache }
  return findings

def filesUnder (tools : Tools) (s : Settings) (configured : Text) : SyncM (List SourcePath) := do
  match tools.walk (← get).tree (s.resolve configured) s.respectIgnoreFiles with
  | .ok files => return SourcePath.sort files
  | .error e => throw e

/-- The files that come first here and have not been seen before. -/
def unseen (seen files : List SourcePath) : List SourcePath :=
  (files.filter (!seen.contains ·)).eraseDups

/-! ### Bringing files up to date -/

inductive Outcome where
  | written
  | unchanged
  /-- It is out of date, and was not written because only a report was asked for. -/
  | stale
  deriving DecidableEq, Repr

structure Update where
  path : SourcePath
  outcome : Outcome
  deriving DecidableEq, Repr

inductive Comparison where
  | whole
  | headLine
  deriving DecidableEq, Repr

def Comparison.differs (c : Comparison) (old new : Text) : Bool :=
  match c with
  | .whole => Text.trim old != Text.trim new
  | .headLine => ImportSync.headLine old != ImportSync.headLine new

def createParent (p : Text) : SyncM Unit := do
  match Path.parent? p with
  | none => return
  | some dir =>
    if dir.isEmpty then
      return
    let st ← get
    match st.tree.createDirs? dir with
    | some tree => set { st with tree }
    | none => throw (.uncreatable dir)

def writeText (p text : Text) : SyncM Unit := do
  createParent p
  let st ← get
  match st.tree.write? p (Utf8.encode text) with
  | some tree => set { st with tree }
  | none => throw (.unwritable p)

/-- Brings a file up to date, or reports that it is not, as the mode says. -/
def bringUpToDate (p new old : Text) (c : Comparison) (mode : Mode) : SyncM Outcome := do
  if !c.differs old new then
    return .unchanged
  match mode with
  | .check => return .stale
  | .write =>
    writeText p new
    return .written

end ImportSync
