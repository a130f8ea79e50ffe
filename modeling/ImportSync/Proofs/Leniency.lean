import ImportSync.Proofs.Rerun

/-!
Modules that are ill-formed. Such a module counts as one that exports nothing: a run that meets it goes
on as it would if ill-formed texts were texts without exports, and only the count of ill-formed modules
tells the two runs apart. They remember different names, but what is remembered truthfully makes no
difference to how a step ends.
-/

namespace ImportSync

/-! ### Steps side by side -/

variable {tools tools' : Tools} {s : Settings}

/-- The states of two runs that have come to the same tree. -/
structure SameTree (tools tools' : Tools) (s : Settings) (st st' : SyncState) : Prop where
  tree : st.tree = st'.tree
  truthful : st.cache.IsTruthful tools.extract s.collect
  truthful' : st'.cache.IsTruthful tools'.extract s.collect

/-- From the same tree, the second step ends as the first one does, but for what is told of its value,
and both leave the same tree. -/
def Matches {α β : Type} (tools tools' : Tools) (s : Settings) (told : α → β) (x : SyncM α)
    (y : SyncM β) : Prop :=
  ∀ st st', SameTree tools tools' s st st' →
    (y.run st').1 = (x.run st).1.map told ∧ SameTree tools tools' s (x.run st).2 (y.run st').2

namespace Matches

variable {α β α' β' γ : Type}

theorem pure (told : α → β) (a : α) :
    Matches tools tools' s told (Pure.pure a) (Pure.pure (told a)) :=
  fun _ _ h => ⟨rfl, h⟩

theorem bind {told : α → β} {told' : α' → β'} {x : SyncM α} {y : SyncM β} {f : α → SyncM α'}
    {g : β → SyncM β'} (hx : Matches tools tools' s told x y)
    (hf : ∀ a, Matches tools tools' s told' (f a) (g (told a))) :
    Matches tools tools' s told' (x >>= f) (y >>= g) := by
  intro st st' h
  obtain ⟨hresult, hsame⟩ := hx st st' h
  cases hrun : x.run st with
  | mk r mid =>
      cases hrun' : y.run st' with
      | mk r' mid' =>
          rw [hrun, hrun'] at hresult hsame
          cases r with
          | error e =>
              obtain rfl : r' = .error e := hresult
              rw [SyncM.run_bind_error hrun, SyncM.run_bind_error hrun']
              exact ⟨rfl, hsame⟩
          | ok a =>
              obtain rfl : r' = .ok (told a) := hresult
              rw [SyncM.run_bind_ok hrun, SyncM.run_bind_ok hrun']
              exact hf a mid mid' hsame

theorem mapM {f g : γ → SyncM α} (h : ∀ c, Matches tools tools' s id (f c) (g c)) (cs : List γ) :
    Matches tools tools' s id (cs.mapM f) (cs.mapM g) := by
  induction cs with
  | nil => exact pure id []
  | cons c cs ih =>
      rw [List.mapM_cons, List.mapM_cons]
      exact (h c).bind fun a => ih.bind fun as => pure id (a :: as)

/-- Steps that only look match if what they see does. -/
theorem of_observes {told : α → β} {x : SyncM α} {y : SyncM β} {r : FileTree → Except Failure α}
    (hx : ∀ t, Observes tools s t x (r t))
    (hy : ∀ t, Observes tools' s t y ((r t).map told)) : Matches tools tools' s told x y := by
  intro st st' h
  obtain ⟨mid, hrun, htree, hc⟩ := hx st.tree st rfl h.truthful
  obtain ⟨mid', hrun', htree', hc'⟩ := hy st.tree st' h.tree.symm h.truthful'
  rw [hrun, hrun']
  exact ⟨rfl, htree.trans htree'.symm, hc, hc'⟩

/-- A step that matches another one remembers nothing untrue. -/
theorem truthful {told : α → β} {x : SyncM α} {y : SyncM β} (h : Matches tools tools' s told x y)
    {st st' : SyncState} {a : α} (hc : st.cache.IsTruthful tools.extract s.collect)
    (hx : x.Yields st a st') : st'.cache.IsTruthful tools.extract s.collect := by
  obtain ⟨-, hsame⟩ := h st { tree := st.tree } ⟨rfl, hc, NameCache.isTruthful_empty _ _⟩
  rw [hx] at hsame
  exact hsame.truthful

end Matches

theorem matches_writeText (p text : Text) :
    Matches tools tools' s id (writeText p text) (writeText p text) := by
  intro st st' h
  rw [run_writeText, run_writeText, h.tree]
  refine ⟨?_, rfl, h.truthful, h.truthful'⟩
  cases (st'.tree.writing p text).1 <;> rfl

theorem matches_bringUpToDate (p new old : Text) (c : Comparison) (mode : Mode) :
    Matches tools tools' s id (bringUpToDate p new old c mode) (bringUpToDate p new old c mode) := by
  unfold bringUpToDate
  split
  · exact .pure id _
  · cases mode with
    | check => exact .pure id _
    | write => exact (matches_writeText p new).bind fun _ => .pure id _

theorem matches_applyDraft (d : Draft) :
    Matches tools tools' s id (applyDraft s d) (applyDraft s d) :=
  (matches_bringUpToDate _ _ _ _ _).bind fun _ => .pure id _

theorem matches_syncAggregator (d : Document) :
    Matches tools tools' s id (syncAggregator s d) (syncAggregator s d) := by
  intro st st' h
  have hrun (st : SyncState) : (syncAggregator s d).run st =
      (bringUpToDate s.aggregator.path d.render ((st.tree.readText? s.aggregator.path).getD [])
        .whole s.mode).run st := rfl
  rw [hrun, hrun, h.tree]
  exact matches_bringUpToDate _ _ _ _ _ st st' h

/-! ### Ill-formed texts -/

/-- Takes ill-formed texts for texts that export nothing. -/
def Extractor.lenient (extract : Extractor) : Extractor :=
  fun m text o => some ((extract m text o).getD [])

/-- Tools that take ill-formed texts for texts that export nothing. -/
def Tools.lenient (tools : Tools) : Tools :=
  { tools with extract := tools.extract.lenient }

/-- What a file contributes, as if it were well-formed. -/
def Share.forgiven (c : Share) : Share :=
  { c with parseFailed := false }

/-- The generated module, as if all files were well-formed. -/
def Harvest.forgiven (h : Harvest) : Harvest :=
  { h with parseFailures := 0 }

/-- What a run reports, as if all files were well-formed. -/
def RunReport.forgiven (r : RunReport) : RunReport :=
  { r with parseFailures := 0 }

theorem findings_lenient (extract : Extractor) (o : CollectOptions) (m : SourcePath) (text : Text) :
    Findings.of extract.lenient o m text =
      { Findings.of extract o m text with parseFailed := false } := by
  rw [Findings.of, Findings.of, Extractor.lenient]
  cases extract m text o <;> rfl

theorem scriptShareOf_lenient (m : SourcePath) (source : Source) :
    scriptShareOf tools.lenient s m source = (scriptShareOf tools s m source).forgiven := by
  rw [scriptShareOf, scriptShareOf, Tools.lenient, findings_lenient]
  rfl

theorem draftOf_lenient (exports : ExportSet) (m : SourcePath) (source : Source) :
    draftOf tools.lenient s exports m source = draftOf tools s exports m source := by
  rw [draftOf, draftOf, Tools.lenient, findings_lenient]

theorem forgiven_customShare? (s : Settings) (m : SourcePath) :
    (s.customShare? m).map Share.forgiven = s.customShare? m := by
  rw [Settings.customShare?]
  cases s.custom with
  | none => rfl
  | some handle =>
      simp only [Option.bind_some]
      split
      · rfl
      · rfl

theorem shareIn_lenient (t : FileTree) (m : SourcePath) :
    shareIn tools.lenient s t m = (shareIn tools s t m).map (Option.map Share.forgiven) := by
  rw [shareIn, shareIn]
  cases s.kindOf? m with
  | none => rfl
  | some kind =>
      cases kind with
      | script =>
          cases sourceIn t m with
          | error e => rfl
          | ok source => exact congrArg (Except.ok ∘ some) (scriptShareOf_lenient m source)
      | asset => rfl
      | custom => exact congrArg Except.ok (forgiven_customShare? s m).symm

theorem mapM_map {α β γ : Type} {f : α → Except Failure β} {f' : α → Except Failure γ}
    {told : β → γ} (h : ∀ a, f' a = (f a).map told) (as : List α) :
    as.mapM f' = (as.mapM f).map (List.map told) := by
  induction as with
  | nil => rfl
  | cons a as ih =>
      rw [List.mapM_cons, List.mapM_cons, h a, ih]
      cases f a with
      | error e => rfl
      | ok b => cases as.mapM f <;> rfl

theorem importRootIn_lenient (t : FileTree) (seen : List SourcePath) (configured : Text) :
    importRootIn tools.lenient s t seen configured =
      (importRootIn tools s t seen configured).map (Prod.map id (List.map Share.forgiven)) := by
  rw [importRootIn, importRootIn]
  have hwalk : tools.lenient.walk = tools.walk := rfl
  rw [hwalk]
  cases tools.walk t (s.resolve configured) s.respectIgnoreFiles with
  | error e => rfl
  | ok files =>
      change (do
        let shares ← (unseen seen ((SourcePath.sort files).filter s.isImported)).mapM
          (shareIn tools.lenient s t)
        return (unseen seen ((SourcePath.sort files).filter s.isImported),
          shares.filterMap id)) = Except.map _ (do
        let shares ← (unseen seen ((SourcePath.sort files).filter s.isImported)).mapM
          (shareIn tools s t)
        return (unseen seen ((SourcePath.sort files).filter s.isImported), shares.filterMap id))
      rw [mapM_map (shareIn_lenient t)]
      cases (unseen seen ((SourcePath.sort files).filter s.isImported)).mapM (shareIn tools s t) with
      | error e => rfl
      | ok shares =>
          have hshares : (shares.map (Option.map Share.forgiven)).filterMap id =
              (shares.filterMap id).map Share.forgiven := by
            rw [List.filterMap_map, List.map_filterMap]
            rfl
          exact congrArg (fun given => Except.ok (_, given)) hshares

theorem Harvest.foldl_add_forgiven (h : Harvest) (shares : List Share) :
    (shares.map Share.forgiven).foldl Harvest.add h.forgiven =
      (shares.foldl Harvest.add h).forgiven := by
  induction shares generalizing h with
  | nil => rfl
  | cons c shares ih => exact ih (h.add c)

/-- The generated module does not tell ill-formed modules from modules without exports. -/
theorem harvestFromIn_lenient (t : FileTree) (seen : List SourcePath) (h : Harvest)
    (roots : List Text) :
    harvestFromIn tools.lenient s t seen h.forgiven roots =
      (harvestFromIn tools s t seen h roots).map Harvest.forgiven := by
  induction roots generalizing seen h with
  | nil => rfl
  | cons configured others ih =>
      rw [harvestFromIn, harvestFromIn, importRootIn_lenient]
      cases importRootIn tools s t seen configured with
      | error e => rfl
      | ok added =>
          change harvestFromIn tools.lenient s t (seen ++ added.1)
            ((added.2.map Share.forgiven).foldl Harvest.add h.forgiven) others = _
          rw [Harvest.foldl_add_forgiven, ih]
          rfl

theorem matches_harvest : Matches tools tools.lenient s Harvest.forgiven (harvest tools s)
    (harvest tools.lenient s) := by
  refine .of_observes (fun t => observes_harvestFrom [] {} s.importRoots) fun t => ?_
  rw [← harvestFromIn_lenient]
  exact observes_harvestFrom [] {} s.importRoots

theorem matches_draftFor (exports : ExportSet) (m : SourcePath) :
    Matches tools tools.lenient s id (draftFor tools s exports m)
      (draftFor tools.lenient s exports m) := by
  refine .of_observes (fun t => observes_draftFor exports m) fun t => ?_
  have hdraft : draftOf tools.lenient s exports m = draftOf tools s exports m :=
    funext (draftOf_lenient exports m)
  have hsame : (draftOf tools s exports m <$> sourceIn t m).map id =
      draftOf tools.lenient s exports m <$> sourceIn t m := by
    rw [hdraft]
    cases sourceIn t m <;> rfl
  rw [hsame]
  exact observes_draftFor exports m

theorem matches_filesUnder (configured : Text) :
    Matches tools tools.lenient s id (filesUnder tools s configured)
      (filesUnder tools.lenient s configured) := by
  refine .of_observes (fun t => observes_filesUnder configured) fun t => ?_
  have hsame : (SourcePath.sort <$> tools.walk t (s.resolve configured) s.respectIgnoreFiles).map
      id = SourcePath.sort <$> tools.lenient.walk t (s.resolve configured) s.respectIgnoreFiles := by
    show _ = SourcePath.sort <$> tools.walk t (s.resolve configured) s.respectIgnoreFiles
    cases tools.walk t (s.resolve configured) s.respectIgnoreFiles <;> rfl
  rw [hsame]
  exact observes_filesUnder configured

theorem matches_modifyRoot (exports : ExportSet) (seen : List SourcePath) (configured : Text) :
    Matches tools tools.lenient s id (modifyRoot tools s exports seen configured)
      (modifyRoot tools.lenient s exports seen configured) := by
  refine (matches_filesUnder configured).bind fun files => ?_
  refine (Matches.mapM (matches_draftFor exports) _).bind fun drafts => ?_
  exact (Matches.mapM matches_applyDraft _).bind fun updates => .pure id _

theorem matches_updateFrom (exports : ExportSet) (seen : List SourcePath) (roots : List Text) :
    Matches tools tools.lenient s id (updateFrom tools s exports seen roots)
      (updateFrom tools.lenient s exports seen roots) := by
  induction roots generalizing seen with
  | nil => exact .pure id []
  | cons configured others ih =>
      refine (matches_modifyRoot exports seen configured).bind fun added => ?_
      exact (ih (seen ++ added.1)).bind fun later => .pure id _

theorem matches_syncSteps : Matches tools tools.lenient s RunReport.forgiven (syncSteps tools s)
    (syncSteps tools.lenient s) := by
  refine matches_harvest.bind fun output => ?_
  refine (matches_syncAggregator output.document).bind fun outcome => ?_
  exact (matches_updateFrom output.document.exports [] s.modifyRoots).bind fun consumers =>
    .pure RunReport.forgiven _

/-- A run ends as if ill-formed modules exported nothing, but that it counts them. -/
theorem sync_lenient (tools : Tools) (s : Settings) (t : FileTree) :
    (sync tools.lenient s t).tree = (sync tools s t).tree ∧
      (sync tools.lenient s t).result = (sync tools s t).result.map RunReport.forgiven := by
  have hstart : SameTree tools tools.lenient s { tree := t } { tree := t } :=
    ⟨rfl, NameCache.isTruthful_empty _ _, NameCache.isTruthful_empty _ _⟩
  obtain ⟨hresult, hsame⟩ := matches_syncSteps _ _ hstart
  exact ⟨hsame.tree.symm, hresult⟩

end ImportSync
