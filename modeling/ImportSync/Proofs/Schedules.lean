import ImportSync.Proofs.Leniency
import ImportSync.Proofs.Order

/-!
Orders that are left open. The files below a root may be found in any order, and what is done for each
of them may be done at the same time, step by step in turns, with one memory of names for all. Neither
makes a difference: the files are sorted, and what is done for a file before anything is written comes
to the same end whatever the others remember in between, as long as all of it is true.
-/

namespace ImportSync

/-! ### Tasks -/

/-- What is done for one file, as steps between which other files may have their turn. Looking a name
list up and putting it in are two steps, the extraction lies between them. -/
inductive Task (α : Type) where
  | done (a : α)
  | read (m : SourcePath) (rest : Source → Task α)
  | warn (w : Warning) (rest : Task α)
  | consult (m : SourcePath) (text : Text) (rest : Option (List Text) → Task α)
  | remember (m : SourcePath) (text : Text) (names : List Text) (rest : Task α)

namespace Task

variable {α : Type}

/-- One step, and what is left to do. -/
def step : Task α → SyncM (Task α)
  | done a => return done a
  | read m rest => do return rest (← sourceAt m)
  | warn w rest => do
    SyncM.warn w
    return rest
  | consult m text rest => do return rest ((← get).cache.remembered? m text)
  | remember m text names rest => do
    modify fun st => { st with cache := st.cache.insert m text names }
    return rest

/-- All steps, without a turn of another task in between. -/
def run : Task α → SyncM α
  | done a => return a
  | read m rest => do (rest (← sourceAt m)).run
  | warn w rest => do
    SyncM.warn w
    rest.run
  | consult m text rest => do (rest ((← get).cache.remembered? m text)).run
  | remember m text names rest => do
    modify fun st => { st with cache := st.cache.insert m text names }
    rest.run

/-- Goes on with what a text yields. -/
def findings (tools : Tools) (s : Settings) (m : SourcePath) (purged : Text)
    (rest : Findings → Task α) : Task α :=
  .consult m purged fun
    | some names => rest { names }
    | none =>
      match tools.extract m purged s.collect with
      | some names => .remember m purged names (rest { names })
      | none => rest { parseFailed := true }

end Task

/-- The steps that find out what a file contributes. -/
def shareTask (tools : Tools) (s : Settings) (m : SourcePath) : Task (Option Share) :=
  match s.kindOf? m with
  | some .script =>
    .read m fun source =>
      .findings tools s m (purge s.aggregator.references source.text) fun found =>
        .done (some {
          statement := some (.named (s.referenceTo m) found.names)
          names := found.names
          parseFailed := found.parseFailed })
  | some .asset => .done (some { statement := some (.sideEffect (s.referenceTo m)) })
  | some .custom => .done (s.customShare? m)
  | none => .done none

/-- The steps that find out what a module is to contain. -/
def draftTask (tools : Tools) (s : Settings) (exports : ExportSet) (m : SourcePath) :
    Task (Option Draft) :=
  .read m fun source =>
    if source.lossy then
      .warn (.leftUntouched m.text) (.done none)
    else
      let purged := purge s.aggregator.references source.text
      .findings tools s m purged fun found =>
        .done (some {
          path := m
          before := source.text
          after := (s.consumerImport m exports found.names).render ++ '\n' :: purged })

theorem Task.run_findings {α : Type} (tools : Tools) (s : Settings) (m : SourcePath) (purged : Text)
    (rest : Findings → Task α) :
    (Task.findings tools s m purged rest).run =
      findingsOf tools s m purged >>= fun found => (rest found).run := by
  funext st
  have hfound : (findingsOf tools s m purged).run st =
      (.ok (st.cache.findings id tools.extract s.collect m purged).1,
        { st with cache := (st.cache.findings id tools.extract s.collect m purged).2 }) := rfl
  have hget : (get : SyncM SyncState).run st = (.ok st, st) := rfl
  refine Eq.trans (SyncM.run_bind_ok hget _) (Eq.trans ?_ (SyncM.run_bind_ok hfound _).symm)
  rw [NameCache.findings, id_eq]
  cases st.cache.remembered? m purged with
  | some names => rfl
  | none => cases tools.extract m purged s.collect <;> rfl

theorem run_shareTask (tools : Tools) (s : Settings) (m : SourcePath) :
    (shareTask tools s m).run = share? tools s m := by
  rw [shareTask, share?]
  cases s.kindOf? m with
  | none => rfl
  | some kind =>
      cases kind with
      | script =>
          simp only [Task.run, Task.run_findings, scriptShare, map_bind, map_pure]
      | asset => rfl
      | custom => rfl

theorem run_draftTask (tools : Tools) (s : Settings) (exports : ExportSet) (m : SourcePath) :
    (draftTask tools s exports m).run = draftFor tools s exports m := by
  rw [draftTask, draftFor, Task.run]
  congr
  funext source
  split
  · rfl
  · rw [Task.run_findings]
    rfl

/-- The steps of some tasks in turns: a number gives a turn to the task at that place, if there is one.
When all turns are taken, what is left of the tasks is done in order. A failure ends it all. -/
def inTurns {α : Type} : List Nat → List (Task α) → SyncM (List α)
  | [], tasks => tasks.mapM Task.run
  | i :: turns, tasks =>
    match tasks[i]? with
    | none => inTurns turns tasks
    | some task => do
      let task ← task.step
      inTurns turns (tasks.set i task)

/-! ### Runs in some order -/

/-- What is left open at one root: in which order its files are found, and whose turn it is, step by
step. -/
structure Course where
  found : List SourcePath → List SourcePath
  found_perm : ∀ files, (found files).Perm files
  turns : List Nat

/-- What is left open in a run, for each root by the number of roots that come after it. -/
structure Schedule where
  imports : Nat → Course
  updates : Nat → Course

/-- Files are found in the order of the course. -/
def Tools.foundAs (tools : Tools) (c : Course) : Tools :=
  { tools with walk := fun t p respect => c.found <$> tools.walk t p respect }

def importRootAs (c : Course) (tools : Tools) (s : Settings) (seen : List SourcePath)
    (configured : Text) : SyncM (List SourcePath × List Share) := do
  let files ← filesUnder (tools.foundAs c) s configured
  let fresh := unseen seen (files.filter s.isImported)
  let shares ← inTurns c.turns (fresh.map (shareTask tools s))
  return (fresh, shares.filterMap id)

def harvestFromAs (courses : Nat → Course) (tools : Tools) (s : Settings) (seen : List SourcePath)
    (h : Harvest) : List Text → SyncM Harvest
  | [] => return h
  | configured :: others => do
    let (fresh, shares) ← importRootAs (courses others.length) tools s seen configured
    harvestFromAs courses tools s (seen ++ fresh) (shares.foldl Harvest.add h) others

def modifyRootAs (c : Course) (tools : Tools) (s : Settings) (exports : ExportSet)
    (seen : List SourcePath) (configured : Text) : SyncM (List SourcePath × List Update) := do
  let files ← filesUnder (tools.foundAs c) s configured
  let fresh := unseen seen (files.filter s.isModified)
  let drafts ← inTurns c.turns (fresh.map (draftTask tools s exports))
  let updates ← (drafts.filterMap id).mapM (applyDraft s)
  return (fresh, updates)

def updateFromAs (courses : Nat → Course) (tools : Tools) (s : Settings) (exports : ExportSet)
    (seen : List SourcePath) : List Text → SyncM (List Update)
  | [] => return []
  | configured :: others => do
    let (fresh, updates) ← modifyRootAs (courses others.length) tools s exports seen configured
    let later ← updateFromAs courses tools s exports (seen ++ fresh) others
    return updates ++ later

/-- The steps of a run by a schedule. -/
def syncStepsAs (σ : Schedule) (tools : Tools) (s : Settings) : SyncM RunReport := do
  let output ← harvestFromAs σ.imports tools s [] {} s.importRoots
  let outcome ← syncAggregator s output.document
  let consumers ← updateFromAs σ.updates tools s output.document.exports [] s.modifyRoots
  return {
    aggregator := { path := s.aggregator.sourcePath, outcome }
    consumers
    filesScanned := output.filesScanned
    exportedNames := output.document.exports.names.length
    parseFailures := output.parseFailures }

/-- Runs a synchronisation by a schedule. -/
def syncAs (σ : Schedule) (tools : Tools) (s : Settings) (tree : FileTree) : SyncOutput :=
  let (result, st) := (syncStepsAs σ tools s).run { tree }
  { tree := st.tree, warnings := st.warnings, result }

/-- Files come as they are found, and each is done with before the next one has its turn. -/
def Course.plain : Course where
  found := id
  found_perm := fun _ => .refl _
  turns := []

def Schedule.plain : Schedule where
  imports := fun _ => .plain
  updates := fun _ => .plain

section Plain

variable (tools : Tools) (s : Settings)

theorem foundAs_plain : tools.foundAs .plain = tools := by
  simp [Tools.foundAs, Course.plain]

theorem importRootAs_plain (seen : List SourcePath) (configured : Text) :
    importRootAs .plain tools s seen configured = importRoot tools s seen configured := by
  rw [importRootAs, importRoot, foundAs_plain]
  simp only [Course.plain, inTurns, List.mapM_map, Function.comp_def, run_shareTask]

theorem harvestFromAs_plain (seen : List SourcePath) (h : Harvest) (roots : List Text) :
    harvestFromAs (fun _ => .plain) tools s seen h roots = harvestFrom tools s seen h roots := by
  induction roots generalizing seen h with
  | nil => rfl
  | cons configured others ih => simp only [harvestFromAs, harvestFrom, importRootAs_plain, ih]

theorem modifyRootAs_plain (exports : ExportSet) (seen : List SourcePath) (configured : Text) :
    modifyRootAs .plain tools s exports seen configured =
      modifyRoot tools s exports seen configured := by
  rw [modifyRootAs, modifyRoot, foundAs_plain]
  simp only [Course.plain, inTurns, List.mapM_map, Function.comp_def, run_draftTask]

theorem updateFromAs_plain (exports : ExportSet) (seen : List SourcePath) (roots : List Text) :
    updateFromAs (fun _ => .plain) tools s exports seen roots =
      updateFrom tools s exports seen roots := by
  induction roots generalizing seen with
  | nil => rfl
  | cons configured others ih => simp only [updateFromAs, updateFrom, modifyRootAs_plain, ih]

theorem syncAs_plain (tree : FileTree) : syncAs .plain tools s tree = sync tools s tree := by
  have hsteps : syncStepsAs .plain tools s = syncSteps tools s := by
    simp only [syncStepsAs, syncSteps, Schedule.plain, harvestFromAs_plain, updateFromAs_plain,
      harvest, updateConsumers]
  simp only [syncAs, hsteps]
  rfl

end Plain

/-! ### What a task comes to -/

section Settling

variable {α β : Type} {tools : Tools} {s : Settings} {t : FileTree}

/-- In a tree, the task comes to an end with the value, or fails if there is none, whatever true names
are remembered when it looks some up. -/
inductive Task.Settles (tools : Tools) (s : Settings) (t : FileTree) : Task α → Option α → Prop
  | done (a : α) : Settles tools s t (.done a) (some a)
  | unreadable {m : SourcePath} {e : Failure} {rest : Source → Task α}
      (h : sourceIn t m = .error e) : Settles tools s t (.read m rest) none
  | read {m : SourcePath} {source : Source} {rest : Source → Task α} {o : Option α}
      (h : sourceIn t m = .ok source) (hrest : Settles tools s t (rest source) o) :
      Settles tools s t (.read m rest) o
  | warn {w : Warning} {rest : Task α} {o : Option α} (hrest : Settles tools s t rest o) :
      Settles tools s t (.warn w rest) o
  | consult {m : SourcePath} {text : Text} {rest : Option (List Text) → Task α} {o : Option α}
      (hnone : Settles tools s t (rest none) o)
      (hsome : ∀ names, tools.extract m text s.collect = some names →
        Settles tools s t (rest (some names)) o) :
      Settles tools s t (.consult m text rest) o
  | remember {m : SourcePath} {text : Text} {names : List Text} {rest : Task α} {o : Option α}
      (h : tools.extract m text s.collect = some names) (hrest : Settles tools s t rest o) :
      Settles tools s t (.remember m text names rest) o

theorem Task.settles_findings {m : SourcePath} {purged : Text} {rest : Findings → Task α}
    {o : Option α}
    (h : (rest (Findings.of tools.extract s.collect m purged)).Settles tools s t o) :
    (Task.findings tools s m purged rest).Settles tools s t o := by
  rw [Findings.of] at h
  refine .consult ?_ fun names hnames => ?_
  · cases hextract : tools.extract m purged s.collect with
    | none => simpa [hextract] using h
    | some names =>
        rw [hextract] at h
        exact .remember hextract h
  · rwa [hnames] at h

theorem settles_shareTask (m : SourcePath) :
    (shareTask tools s m).Settles tools s t (shareIn tools s t m).toOption := by
  rw [shareTask, shareIn]
  cases s.kindOf? m with
  | none => exact .done none
  | some kind =>
      cases kind with
      | script =>
          cases hsource : sourceIn t m with
          | error e => exact .unreadable hsource
          | ok source => exact .read hsource (Task.settles_findings (.done _))
      | asset => exact .done _
      | custom => exact .done _

theorem settles_draftTask (exports : ExportSet) (m : SourcePath) :
    (draftTask tools s exports m).Settles tools s t
      (draftOf tools s exports m <$> sourceIn t m).toOption := by
  rw [draftTask]
  cases hsource : sourceIn t m with
  | error e => exact .unreadable hsource
  | ok source =>
      refine .read hsource ?_
      change Task.Settles tools s t _ (some (draftOf tools s exports m source))
      rw [draftOf]
      by_cases hlossy : source.lossy = true
      · rw [if_pos hlossy, if_pos hlossy]
        exact .warn (.done none)
      · rw [if_neg hlossy, if_neg hlossy]
        exact Task.settles_findings (.done _)

/-- The step only looks: whatever is remembered truthfully, it yields the value, or fails if there is
none. -/
def ResultsIn (tools : Tools) (s : Settings) (t : FileTree) (x : SyncM α) (o : Option α) : Prop :=
  ∀ st : SyncState, st.tree = t → st.cache.IsTruthful tools.extract s.collect →
    (x.run st).1.toOption = o ∧ (x.run st).2.tree = t ∧
      (x.run st).2.cache.IsTruthful tools.extract s.collect

theorem Observes.resultsIn {x : SyncM α} {r : Except Failure α} (h : Observes tools s t x r) :
    ResultsIn tools s t x r.toOption := by
  intro st ht hc
  obtain ⟨st', hrun, ht', hc'⟩ := h st ht hc
  rw [hrun]
  exact ⟨rfl, ht', hc'⟩

theorem ResultsIn.bind {x : SyncM α} {o : Option α} {f : α → SyncM β} {g : α → Option β}
    (hx : ResultsIn tools s t x o) (hf : ∀ a, o = some a → ResultsIn tools s t (f a) (g a)) :
    ResultsIn tools s t (x >>= f) (o >>= g) := by
  intro st ht hc
  obtain ⟨hresult, ht', hc'⟩ := hx st ht hc
  cases hrun : x.run st with
  | mk r mid =>
      rw [hrun] at hresult ht' hc'
      subst hresult
      cases r with
      | error e =>
          rw [SyncM.run_bind_error hrun]
          exact ⟨rfl, ht', hc'⟩
      | ok a =>
          rw [SyncM.run_bind_ok hrun]
          exact hf a rfl mid ht' hc'

theorem NameCache.IsTruthful.remembered {c : NameCache Text} {extract : Extractor}
    {o : CollectOptions} (hc : c.IsTruthful extract o) {m : SourcePath} {text : Text}
    {names : List Text} (h : c.remembered? m text = some names) : extract m text o = some names :=
  hc m text names (NameCache.remembered?_eq_some_iff.1 h)

/-- Whatever is remembered, a task goes on to what it comes to. -/
theorem Task.Settles.consulted {m : SourcePath} {text : Text} {rest : Option (List Text) → Task α}
    {o : Option α} (hnone : (rest none).Settles tools s t o)
    (hsome : ∀ names, tools.extract m text s.collect = some names →
      (rest (some names)).Settles tools s t o)
    {c : NameCache Text} (hc : c.IsTruthful tools.extract s.collect) :
    (rest (c.remembered? m text)).Settles tools s t o := by
  cases h : c.remembered? m text with
  | none => exact hnone
  | some names => exact hsome names (hc.remembered h)

/-- One step leaves the tree and the truth of what is remembered, and the rest of the task comes to
the same end. -/
theorem Task.Settles.step {task : Task α} {o : Option α} (h : task.Settles tools s t o)
    {st : SyncState} (ht : st.tree = t) (hc : st.cache.IsTruthful tools.extract s.collect) :
    ∃ r st', task.step.run st = (r, st') ∧ st'.tree = t ∧
      st'.cache.IsTruthful tools.extract s.collect ∧
      (∀ e, r = .error e → o = none) ∧ ∀ task', r = .ok task' → task'.Settles tools s t o := by
  cases h with
  | done a =>
      refine ⟨_, st, rfl, ht, hc, by simp, ?_⟩
      rintro task' ⟨⟩
      exact .done a
  | @unreadable m e rest h =>
      obtain ⟨st', hrun, ht', hc'⟩ := observes_sourceAt m st ht hc
      rw [h] at hrun
      exact ⟨_, st', SyncM.run_bind_error hrun _, ht', hc', by simp, by simp⟩
  | @read m source rest _ h hrest =>
      obtain ⟨st', hrun, ht', hc'⟩ := observes_sourceAt m st ht hc
      rw [h] at hrun
      refine ⟨_, st', SyncM.run_bind_ok hrun _, ht', hc', by simp, ?_⟩
      rintro task' ⟨⟩
      exact hrest
  | @warn w rest _ hrest =>
      refine ⟨.ok rest, { st with warnings := st.warnings ++ [w] }, rfl, ht, hc, by simp, ?_⟩
      rintro task' ⟨⟩
      exact hrest
  | @consult m text rest _ hnone hsome =>
      refine ⟨.ok (rest (st.cache.remembered? m text)), st, rfl, ht, hc, by simp, ?_⟩
      rintro task' ⟨⟩
      exact .consulted hnone hsome hc
  | @remember m text names rest _ h hrest =>
      refine ⟨.ok rest, { st with cache := st.cache.insert m text names }, rfl, ht, hc.insert h,
        by simp, ?_⟩
      rintro task' ⟨⟩
      exact hrest

theorem Task.Settles.run {task : Task α} {o : Option α} (h : task.Settles tools s t o) :
    ResultsIn tools s t task.run o := by
  induction h with
  | done a => exact (Observes.pure a).resultsIn
  | @unreadable m e rest h =>
      have hread : ResultsIn tools s t (sourceAt m) (sourceIn t m).toOption :=
        (observes_sourceAt m).resultsIn
      rw [h] at hread
      exact hread.bind (g := fun _ => none) (by simp [Except.toOption])
  | @read m source rest o h hrest ih =>
      have hread : ResultsIn tools s t (sourceAt m) (sourceIn t m).toOption :=
        (observes_sourceAt m).resultsIn
      rw [h] at hread
      refine hread.bind (g := fun _ => o) ?_
      rintro a ⟨⟩
      exact ih
  | @warn w rest o hrest ih => exact (observes_warn w).resultsIn.bind (g := fun _ => o) fun _ _ => ih
  | @consult m text rest o hnone hsome ihnone ihsome =>
      intro st ht hc
      have hget : (get : SyncM SyncState).run st = (.ok st, st) := rfl
      rw [Task.run, SyncM.run_bind_ok hget]
      cases hremembered : st.cache.remembered? m text with
      | none => exact ihnone st ht hc
      | some names => exact ihsome names (hc.remembered hremembered) st ht hc
  | @remember m text names rest o h hrest ih =>
      intro st ht hc
      exact ih { st with cache := st.cache.insert m text names } ht (hc.insert h)

/-- Tasks that are done in order come to their ends, or fail if one of them does. -/
theorem resultsIn_mapM_run {tasks : List (Task α)} {os : List (Option α)}
    (h : List.Forall₂ (Task.Settles tools s t) tasks os) :
    ResultsIn tools s t (tasks.mapM Task.run) (os.mapM id) := by
  induction h with
  | nil => exact (Observes.pure []).resultsIn
  | @cons task o tasks os hfirst hothers ih =>
      rw [List.mapM_cons, List.mapM_cons]
      refine hfirst.run.bind fun a _ => ih.bind fun as _ => ?_
      exact (Observes.pure (a :: as)).resultsIn

theorem forall₂_set {γ δ : Type} {R : γ → δ → Prop} {xs : List γ} {ys : List δ}
    (h : List.Forall₂ R xs ys) {i : Nat} {x : γ} {y : δ} (hy : ys[i]? = some y) (hxy : R x y) :
    List.Forall₂ R (xs.set i x) ys := by
  induction h generalizing i with
  | nil => exact .nil
  | cons hfirst hothers ih =>
      cases i with
      | zero =>
          obtain rfl := Option.some.inj hy
          exact .cons hxy hothers
      | succ i => exact .cons hfirst (ih hy)

theorem exists_of_forall₂_getElem? {γ δ : Type} {R : γ → δ → Prop} {xs : List γ} {ys : List δ}
    (h : List.Forall₂ R xs ys) {i : Nat} {x : γ} (hx : xs[i]? = some x) :
    ∃ y, ys[i]? = some y ∧ R x y := by
  induction h generalizing i with
  | nil => simp at hx
  | @cons a b xs ys hfirst hothers ih =>
      cases i with
      | zero =>
          obtain rfl := Option.some.inj hx
          exact ⟨b, rfl, hfirst⟩
      | succ i => exact ih hx

theorem mapM_id_eq_none {os : List (Option α)} (h : none ∈ os) : os.mapM id = none := by
  induction os with
  | nil => simp at h
  | cons o os ih =>
      rw [List.mapM_cons]
      cases o with
      | none => rfl
      | some a =>
          have hlater : none ∈ os := by simpa using h
          rw [ih hlater]
          rfl

/-- Tasks that are done in turns come to the same ends as tasks that are done in order. -/
theorem resultsIn_inTurns {os : List (Option α)} (turns : List Nat) {tasks : List (Task α)}
    (h : List.Forall₂ (Task.Settles tools s t) tasks os) :
    ResultsIn tools s t (inTurns turns tasks) (os.mapM id) := by
  induction turns generalizing tasks with
  | nil => exact resultsIn_mapM_run h
  | cons i turns ih =>
      rw [inTurns]
      cases htask : tasks[i]? with
      | none => exact ih h
      | some task =>
          obtain ⟨o, ho, hsettles⟩ := exists_of_forall₂_getElem? h htask
          intro st ht hc
          obtain ⟨r, st', hrun, ht', hc', herror, hok⟩ := hsettles.step ht hc
          cases r with
          | error e =>
              obtain rfl := herror e rfl
              simp only [SyncM.run_bind_error hrun, mapM_id_eq_none (List.mem_of_getElem? ho)]
              exact ⟨rfl, ht', hc'⟩
          | ok task' =>
              simp only [SyncM.run_bind_ok hrun]
              exact ih (forall₂_set h ho (hok task' rfl)) st' ht' hc'

end Settling

/-! ### Steps that agree -/

/-- From the same tree, both steps end well with the same value or both fail, and they leave the same
tree. Which failure it is may differ. -/
def Agrees {α : Type} (tools : Tools) (s : Settings) (x y : SyncM α) : Prop :=
  ∀ st st', SameTree tools tools s st st' →
    (x.run st).1.toOption = (y.run st').1.toOption ∧
      SameTree tools tools s (x.run st).2 (y.run st').2

namespace Agrees

variable {α β γ : Type} {tools : Tools} {s : Settings}

theorem of_matches {x y : SyncM α} (h : Matches tools tools s id x y) : Agrees tools s x y := by
  intro st st' hsame
  obtain ⟨hresult, hsame'⟩ := h st st' hsame
  refine ⟨?_, hsame'⟩
  rw [hresult]
  cases (x.run st).1 <;> rfl

theorem of_resultsIn {x y : SyncM α} {o : FileTree → Option α} (hx : ∀ t, ResultsIn tools s t x (o t))
    (hy : ∀ t, ResultsIn tools s t y (o t)) : Agrees tools s x y := by
  intro st st' hsame
  obtain ⟨hresult, htree, hc⟩ := hx st.tree st rfl hsame.truthful
  obtain ⟨hresult', htree', hc'⟩ := hy st.tree st' hsame.tree.symm hsame.truthful'
  exact ⟨hresult.trans hresult'.symm, htree.trans htree'.symm, hc, hc'⟩

theorem bind {x y : SyncM α} {f g : α → SyncM β} (hx : Agrees tools s x y)
    (hf : ∀ a, Agrees tools s (f a) (g a)) : Agrees tools s (x >>= f) (y >>= g) := by
  intro st st' hsame
  obtain ⟨hresult, hmid⟩ := hx st st' hsame
  cases hrun : x.run st with
  | mk r mid =>
      cases hrun' : y.run st' with
      | mk r' mid' =>
          rw [hrun, hrun'] at hresult hmid
          cases r with
          | error e =>
              cases r' with
              | ok a => cases hresult
              | error e' =>
                  rw [SyncM.run_bind_error hrun, SyncM.run_bind_error hrun']
                  exact ⟨rfl, hmid⟩
          | ok a =>
              cases r' with
              | error e' => cases hresult
              | ok a' =>
                  obtain rfl : a = a' := Option.some.inj hresult
                  rw [SyncM.run_bind_ok hrun, SyncM.run_bind_ok hrun']
                  exact hf a mid mid' hmid

/-- What tasks come to in turns is what the steps come to in order that do the same as each task. -/
theorem inTurns {f : γ → Task α} {o : FileTree → γ → Option α}
    (h : ∀ t c, (f c).Settles tools s t (o t c)) (turns : List Nat) (cs : List γ) :
    Agrees tools s (ImportSync.inTurns turns (cs.map f)) (cs.mapM fun c => (f c).run) := by
  have hall (t : FileTree) : List.Forall₂ (Task.Settles tools s t) (cs.map f) (cs.map (o t)) := by
    rw [List.forall₂_map_left_iff, List.forall₂_map_right_iff, List.forall₂_same]
    exact fun c _ => h t c
  have horder : (cs.mapM fun c => (f c).run) = (cs.map f).mapM Task.run := by
    rw [List.mapM_map]
    rfl
  rw [horder]
  exact of_resultsIn (fun t => resultsIn_inTurns turns (hall t)) fun t => resultsIn_mapM_run (hall t)

end Agrees

/-! ### The order does not matter -/

section Orders

variable {tools : Tools} {s : Settings}

theorem agrees_filesUnder (c : Course) (configured : Text) :
    Agrees tools s (filesUnder (tools.foundAs c) s configured) (filesUnder tools s configured) := by
  have hsame (t : FileTree) : SourcePath.sort <$>
        (tools.foundAs c).walk t (s.resolve configured) s.respectIgnoreFiles =
      SourcePath.sort <$> tools.walk t (s.resolve configured) s.respectIgnoreFiles := by
    change SourcePath.sort <$> c.found <$>
      tools.walk t (s.resolve configured) s.respectIgnoreFiles = _
    cases tools.walk t (s.resolve configured) s.respectIgnoreFiles with
    | error e => rfl
    | ok files => exact congrArg Except.ok (SourcePath.sortBy_eq_of_perm _ (c.found_perm files))
  have hfound (t : FileTree) : Observes (tools.foundAs c) s t
      (filesUnder (tools.foundAs c) s configured) _ := observes_filesUnder configured
  refine .of_resultsIn (fun t => ?_) fun t => (observes_filesUnder configured).resultsIn
  rw [← hsame t]
  exact (hfound t).resultsIn

theorem agrees_importRootAs (c : Course) (seen : List SourcePath) (configured : Text) :
    Agrees tools s (importRootAs c tools s seen configured)
      (importRoot tools s seen configured) := by
  refine (agrees_filesUnder c configured).bind fun files => ?_
  have hshares : Agrees tools s _ _ := Agrees.inTurns (fun _ m => settles_shareTask m) c.turns
    (unseen seen (files.filter s.isImported))
  simp only [run_shareTask] at hshares
  exact hshares.bind fun shares => .of_matches (.pure id _)

theorem agrees_harvestFromAs (courses : Nat → Course) (seen : List SourcePath) (h : Harvest)
    (roots : List Text) :
    Agrees tools s (harvestFromAs courses tools s seen h roots)
      (harvestFrom tools s seen h roots) := by
  induction roots generalizing seen h with
  | nil => exact .of_matches (.pure id h)
  | cons configured others ih =>
      exact (agrees_importRootAs (courses others.length) seen configured).bind fun added =>
        ih (seen ++ added.1) (added.2.foldl Harvest.add h)

theorem agrees_modifyRootAs (c : Course) (exports : ExportSet) (seen : List SourcePath)
    (configured : Text) :
    Agrees tools s (modifyRootAs c tools s exports seen configured)
      (modifyRoot tools s exports seen configured) := by
  refine (agrees_filesUnder c configured).bind fun files => ?_
  have hdrafts : Agrees tools s _ _ := Agrees.inTurns (fun _ m => settles_draftTask exports m)
    c.turns (unseen seen (files.filter s.isModified))
  simp only [run_draftTask] at hdrafts
  refine hdrafts.bind fun drafts => ?_
  -- the modules are written one after the other, in the order of the sorted files
  exact (Agrees.of_matches (.mapM matches_applyDraft (drafts.filterMap id))).bind fun updates =>
    .of_matches (.pure id _)

theorem agrees_updateFromAs (courses : Nat → Course) (exports : ExportSet) (seen : List SourcePath)
    (roots : List Text) :
    Agrees tools s (updateFromAs courses tools s exports seen roots)
      (updateFrom tools s exports seen roots) := by
  induction roots generalizing seen with
  | nil => exact .of_matches (.pure id [])
  | cons configured others ih =>
      refine (agrees_modifyRootAs (courses others.length) exports seen configured).bind fun added => ?_
      exact (ih (seen ++ added.1)).bind fun later => .of_matches (.pure id _)

theorem agrees_syncStepsAs (σ : Schedule) :
    Agrees tools s (syncStepsAs σ tools s) (syncSteps tools s) := by
  refine (agrees_harvestFromAs σ.imports [] {} s.importRoots).bind fun output => ?_
  refine (Agrees.of_matches (matches_syncAggregator output.document)).bind fun outcome => ?_
  refine (agrees_updateFromAs σ.updates output.document.exports [] s.modifyRoots).bind
    fun consumers => ?_
  exact .of_matches (.pure id _)

/-- A run by a schedule leaves the tree of the plain run, and ends well with the same report or fails
as well. -/
theorem syncAs_agrees (σ : Schedule) (tools : Tools) (s : Settings) (t : FileTree) :
    (syncAs σ tools s t).tree = (sync tools s t).tree ∧
      (syncAs σ tools s t).result.toOption = (sync tools s t).result.toOption := by
  have hstart : SameTree tools tools s { tree := t } { tree := t } :=
    ⟨rfl, NameCache.isTruthful_empty _ _, NameCache.isTruthful_empty _ _⟩
  obtain ⟨hresult, hsame⟩ := agrees_syncStepsAs σ _ _ hstart
  exact ⟨hsame.tree, hresult⟩

end Orders

theorem toOption_eq_some_iff {α : Type} {r : Except Failure α} {a : α} :
    r.toOption = some a ↔ r = .ok a := by
  cases r <;> simp [Except.toOption]

/-- In whatever order files are found below each root, and however the steps for its files take turns:
if a run ends well, every run does, with the same report, and all runs leave the same tree. The plain
run is one of them. -/
theorem sync_in_any_order (tools : Tools) (s : Settings) (t : FileTree) :
    syncAs .plain tools s t = sync tools s t ∧
      ∀ σ τ : Schedule,
        (syncAs σ tools s t).tree = (syncAs τ tools s t).tree ∧
          ∀ r, (syncAs σ tools s t).result = .ok r ↔ (syncAs τ tools s t).result = .ok r := by
  refine ⟨syncAs_plain tools s t, fun σ τ => ?_⟩
  obtain ⟨htree, hresult⟩ := syncAs_agrees σ tools s t
  obtain ⟨htree', hresult'⟩ := syncAs_agrees τ tools s t
  refine ⟨htree.trans htree'.symm, fun r => ?_⟩
  rw [← toOption_eq_some_iff, ← toOption_eq_some_iff, hresult, hresult']

end ImportSync
