import ImportSync.Aggregator.Basic
import ImportSync.Aggregator.Harvest
import ImportSync.Sync.Basic

/-!
A whole run: the generated module is built and brought up to date, and then the modules that import
from it. Each of these gets, as its first line, an import of all aggregated names that it does not export
itself. All modules of a root are read before the first one is written.
-/

namespace ImportSync

/-! ### Modules that import -/

structure Draft where
  path : SourcePath
  before : Text
  after : Text
  deriving DecidableEq, Repr

/-- Whether a file is modified: it is a module other than the generated one, and passes the filter if
that is asked for. -/
def Settings.isModified (s : Settings) (m : SourcePath) : Bool :=
  m != s.aggregator.sourcePath && s.kindOf? m == some .script && (!s.filterModify || s.passes m)

def Settings.consumerImport (s : Settings) (m : SourcePath) (exports : ExportSet)
    (localNames : List Text) : ImportLine :=
  .named (Path.reference ((Path.parent? m.text).getD m.text) s.aggregator.path)
    (exports.without localNames)

/-- What a module is to contain. A module with malformed bytes is left alone. -/
def draftFor (tools : Tools) (s : Settings) (exports : ExportSet) (m : SourcePath) :
    SyncM (Option Draft) := do
  let source ← sourceAt m
  if source.lossy then
    SyncM.warn (.leftUntouched m.text)
    return none
  let purged := purge s.aggregator.references source.text
  let found ← findingsOf tools s m purged
  return some {
    path := m
    before := source.text
    after := (s.consumerImport m exports found.names).render ++ '\n' :: purged }

def applyDraft (s : Settings) (d : Draft) : SyncM Update := do
  let outcome ← bringUpToDate d.path.text d.after d.before .headLine s.mode
  return { path := d.path, outcome }

/-- The files that one more modify root adds to those seen, and what became of its modules. -/
def modifyRoot (tools : Tools) (s : Settings) (exports : ExportSet) (seen : List SourcePath)
    (configured : Text) : SyncM (List SourcePath × List Update) := do
  let files ← filesUnder tools s configured
  let fresh := unseen seen (files.filter s.isModified)
  let drafts ← fresh.mapM (draftFor tools s exports)
  let updates ← (drafts.filterMap id).mapM (applyDraft s)
  return (fresh, updates)

def updateFrom (tools : Tools) (s : Settings) (exports : ExportSet) (seen : List SourcePath) :
    List Text → SyncM (List Update)
  | [] => return []
  | configured :: others => do
    let (fresh, updates) ← modifyRoot tools s exports seen configured
    let later ← updateFrom tools s exports (seen ++ fresh) others
    return updates ++ later

def updateConsumers (tools : Tools) (s : Settings) (exports : ExportSet) :
    SyncM (List Update) :=
  updateFrom tools s exports [] s.modifyRoots

/-! ### The run -/

structure RunReport where
  aggregator : Update
  consumers : List Update
  filesScanned : Nat
  exportedNames : Nat
  parseFailures : Nat
  deriving DecidableEq, Repr

namespace RunReport

def updates (r : RunReport) : List Update :=
  r.aggregator :: r.consumers

def writtenFiles (r : RunReport) : List Update :=
  r.updates.filter (·.outcome == .written)

def staleFiles (r : RunReport) : List Update :=
  r.updates.filter (·.outcome == .stale)

def isOutOfDate (r : RunReport) : Bool :=
  !r.staleFiles.isEmpty

end RunReport

/-- Brings the generated module up to date. A file that cannot be read counts as empty. -/
def syncAggregator (s : Settings) (d : Document) : SyncM Outcome := do
  let previous := ((← get).tree.readText? s.aggregator.path).getD []
  bringUpToDate s.aggregator.path d.render previous .whole s.mode

def syncSteps (tools : Tools) (s : Settings) : SyncM RunReport := do
  let output ← harvest tools s
  let outcome ← syncAggregator s output.document
  let consumers ← updateConsumers tools s output.document.exports
  return {
    aggregator := { path := s.aggregator.sourcePath, outcome }
    consumers
    filesScanned := output.filesScanned
    exportedNames := output.document.exports.names.length
    parseFailures := output.parseFailures }

/-- How a run ends: the tree and the warnings, whether it fails or not. -/
structure SyncOutput where
  tree : FileTree
  warnings : List Warning
  result : Except Failure RunReport

def sync (tools : Tools) (s : Settings) (tree : FileTree) : SyncOutput :=
  let (result, st) := (syncSteps tools s).run { tree }
  { tree := st.tree, warnings := st.warnings, result }

inductive Stage where
  | preInit
  | preExtractQueries
  deriving DecidableEq, Repr

/-- Runs a synchronisation at some stage of a build. All stages do the same. -/
def runStage (_ : Stage) (tools : Tools) (s : Settings) (tree : FileTree) : SyncOutput :=
  sync tools s tree

end ImportSync
