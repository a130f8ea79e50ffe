import ImportSync.CommandLine
import ImportSync.Proofs.Outcomes

/-!
A run that only checks foretells what a run that writes would do. The run that writes has changed the
aggregator and the modules of earlier roots when it comes to a root, while the one that checks sees the
tree as it was. But what a root adds are files that no earlier root has touched, so both find the same
modules, in the same order, and draft them from the same texts.
-/

namespace ImportSync

variable {tools : Tools} {s : Settings} {exports : ExportSet}

/-! ### Steps that leave the tree alone -/

/-- The step ends in one way, whatever is remembered truthfully, and leaves the tree as it is. -/
def Looks {α : Type} (tools : Tools) (s : Settings) (t : FileTree) (x : SyncM α) : Prop :=
  ∃ r, Observes tools s t x r

namespace Looks

variable {α β : Type} {t : FileTree}

theorem pure (a : α) : Looks tools s t (Pure.pure a) :=
  ⟨.ok a, .pure a⟩

theorem bind {x : SyncM α} {f : α → SyncM β} (hx : Looks tools s t x)
    (hf : ∀ a, Looks tools s t (f a)) : Looks tools s t (x >>= f) := by
  obtain ⟨r, hr⟩ := hx
  choose g hg using hf
  exact ⟨r >>= g, hr.bind fun a _ => hg a⟩

theorem mapM {f : α → SyncM β} (hf : ∀ a, Looks tools s t (f a)) (xs : List α) :
    Looks tools s t (xs.mapM f) := by
  choose g hg using hf
  exact ⟨xs.mapM g, .mapM fun a _ => hg a⟩

theorem tree_eq {x : SyncM α} (hx : Looks tools s t x) {st st' : SyncState} {a : α}
    (ht : st.tree = t) (hc : st.cache.IsTruthful tools.extract s.collect) (h : x.Yields st a st') :
    st'.tree = t := by
  obtain ⟨r, hr⟩ := hx
  exact (hr.of_yields ht hc h).2.1

end Looks

theorem looks_bringUpToDate (t : FileTree) (p new old : Text) (c : Comparison) :
    Looks tools s t (bringUpToDate p new old c .check) := by
  unfold bringUpToDate
  split
  · exact .pure _
  · exact .pure _

theorem looks_applyDraft (hmode : s.mode = .check) (t : FileTree) (d : Draft) :
    Looks tools s t (applyDraft s d) := by
  rw [applyDraft, hmode]
  exact (looks_bringUpToDate t _ _ _ _).bind fun o => .pure _

theorem looks_modifyRoot (hmode : s.mode = .check) (t : FileTree) (seen : List SourcePath)
    (configured : Text) : Looks tools s t (modifyRoot tools s exports seen configured) := by
  have hfiles : Looks tools s t (filesUnder tools s configured) := ⟨_, observes_filesUnder configured⟩
  refine hfiles.bind fun files => ?_
  refine (Looks.mapM (fun m => ⟨_, observes_draftFor exports m⟩) _).bind fun drafts => ?_
  exact (Looks.mapM (looks_applyDraft hmode t) _).bind fun updates => .pure _

theorem looks_updateFrom (hmode : s.mode = .check) (t : FileTree) (seen : List SourcePath)
    (roots : List Text) : Looks tools s t (updateFrom tools s exports seen roots) := by
  induction roots generalizing seen with
  | nil => exact .pure []
  | cons configured others ih =>
      refine (looks_modifyRoot hmode t seen configured).bind fun added => ?_
      exact (ih (seen ++ added.1)).bind fun later => .pure _

theorem looks_syncAggregator (hmode : s.mode = .check) (t : FileTree) (d : Document) :
    Looks tools s t (syncAggregator s d) := by
  have hlooks : Looks tools s t (bringUpToDate s.aggregator.path d.render
      ((t.readText? s.aggregator.path).getD []) .whole .check) := looks_bringUpToDate t _ _ _ _
  obtain ⟨r, hr⟩ := hlooks
  refine ⟨r, fun st ht hc => ?_⟩
  have hrun : (syncAggregator s d).run st = (bringUpToDate s.aggregator.path d.render
      ((st.tree.readText? s.aggregator.path).getD []) .whole s.mode).run st := rfl
  rw [hrun, hmode, ht]
  exact hr st ht hc

theorem looks_syncSteps (hmode : s.mode = .check) (t : FileTree) :
    Looks tools s t (syncSteps tools s) := by
  have hharvest : Looks tools s t (harvest tools s) := ⟨_, observes_harvestFrom [] {} s.importRoots⟩
  refine hharvest.bind fun output => ?_
  refine (looks_syncAggregator hmode t output.document).bind fun outcome => ?_
  exact (looks_updateFrom hmode t [] s.modifyRoots).bind fun consumers => .pure _

/-- A run that only checks leaves the tree as it is, whether it succeeds or not. -/
theorem sync_check_tree (hmode : s.mode = .check) (t : FileTree) : (sync tools s t).tree = t := by
  have hlooks : Looks tools s t (syncSteps tools s) := looks_syncSteps hmode t
  obtain ⟨r, hr⟩ := hlooks
  obtain ⟨st, hrun, htree, -⟩ := hr { tree := t } rfl (NameCache.isTruthful_empty _ _)
  rw [sync, hrun]
  exact htree

/-! ### Reports that are foretold -/

/-- What is reported of a file in place of writing it. -/
def Outcome.foretold : Outcome → Outcome
  | .written => .stale
  | .unchanged => .unchanged
  | .stale => .stale

/-- What a check reports of a file that would become what is told. -/
def Update.foretold (u : Update) : Update :=
  { u with outcome := u.outcome.foretold }

/-- What a check reports where a run that writes would report what is told. -/
def RunReport.foretold (r : RunReport) : RunReport :=
  { r with aggregator := r.aggregator.foretold, consumers := r.consumers.map Update.foretold }

theorem Draft.update_check (d : Draft) : d.update .check = (d.update .write).foretold := by
  by_cases h : headLine d.before = headLine d.after
  · simp [Draft.update, Draft.outcome, Update.foretold, Outcome.foretold, h]
  · simp [Draft.update, Draft.outcome, Update.foretold, Outcome.foretold, h]

/-! ### Trees that differ in what was seen -/

/-- The trees hold the same files apart from the aggregator, and those that were not seen hold the
same. -/
structure SameUnseen (home : Location) (seen : List SourcePath) (t t' : FileTree) : Prop where
  isSourceTree : t'.IsSourceTree home
  files : ∀ {m l}, (∃ bytes, t'.Holds home m l bytes) ↔ ∃ bytes, t.Holds home m l bytes
  kept : ∀ {m l bytes}, m ∉ seen → (t'.Holds home m l bytes ↔ t.Holds home m l bytes)

namespace SameUnseen

variable {t t' t'' : FileTree} {seen fresh fresh' : List SourcePath} {configured : Text}

/-- A root adds the same modules to those seen, in the same order. -/
theorem fresh_eq (h : SameUnseen s.home seen t t') (hs : ScansPlainly tools s)
    (ht : t.IsSourceTree s.home) (hadds : AddsModules tools s t seen configured fresh)
    (hadds' : AddsModules tools s t' seen configured fresh') : fresh' = fresh := by
  obtain ⟨files, hwalk, rfl⟩ := hadds
  obtain ⟨files', hwalk', rfl⟩ := hadds'
  rw [hs.walk, hs.ignore, hs.resolve_eq] at hwalk hwalk'
  refine unseen_sort_congr (fun m hmodified => ?_) seen
  have hne := ne_sourcePath_of_isModified hmodified
  rw [hs.sourcePath_eq] at hne
  have hl := hs.isName_resolve configured
  rw [FileTree.mem_walk_iff h.isSourceTree hl hwalk' hne, FileTree.mem_walk_iff ht hl hwalk hne]
  constructor
  · rintro ⟨k, bytes', hk, hholds'⟩
    obtain ⟨bytes, hholds⟩ := h.files.1 ⟨bytes', hholds'⟩
    exact ⟨k, bytes, hk, hholds⟩
  · rintro ⟨k, bytes, hk, hholds⟩
    obtain ⟨bytes', hholds'⟩ := h.files.2 ⟨bytes, hholds⟩
    exact ⟨k, bytes', hk, hholds'⟩

/-- And it drafts them from the same texts. -/
theorem draftsOf_eq (h : SameUnseen s.home seen t t') (hs : ScansPlainly tools s)
    (ht : t.IsSourceTree s.home) (hadds : AddsModules tools s t seen configured fresh) :
    draftsOf tools s exports t' fresh = draftsOf tools s exports t fresh := by
  refine List.filterMap_congr fun m hm => ?_
  obtain ⟨l, bytes, hholds⟩ := hadds.holds hs.toScansFromRoot ht m hm
  have hholds' := (h.kept (hadds.not_mem_seen hm)).2 hholds
  rw [hholds.sourceOf ht.toIsPlain, hholds'.sourceOf h.isSourceTree.toIsPlain]

/-- Drafts that are carried out make modules differ that count as seen from then on. -/
theorem carriesOut (h : SameUnseen s.home seen t t') {ds : List Draft}
    (hcarries : CarriesOut s ds t' t'')
    (hholds : ∀ d ∈ ds, ∃ l bytes, t'.Holds s.home d.path l bytes)
    (hfresh : ∀ d ∈ ds, d.path ∈ fresh) : SameUnseen s.home (seen ++ fresh) t t'' where
  isSourceTree := hcarries.isSourceTree h.isSourceTree hholds
  files := by
    intro m l
    rw [← h.files]
    -- a file that was written was there before
    by_cases hwritten : ∃ d ∈ ds, d.outcome s.mode = .written ∧ d.path.text = FileTree.pathOf l
    · obtain ⟨d, hd, houtcome, htext⟩ := hwritten
      obtain ⟨k, old, hk⟩ := hholds d hd
      constructor
      · rintro ⟨bytes, hlies⟩
        obtain rfl : k = l := FileTree.pathOf_injective (h.isSourceTree.isName hk.get?)
          (hcarries.isPlain.isName hlies.get?) (hk.path.symm.trans htext)
        exact ⟨old, hlies.of_get? hk.get?⟩
      · rintro ⟨bytes, hlies⟩
        have hpath : d.path = m := SourcePath.eq_of_text (htext.trans hlies.path.symm)
        exact ⟨_, hlies.of_get? (hcarries.written hd houtcome (hpath ▸ hlies))⟩
    · push Not at hwritten
      have hframe := hcarries.frame hwritten
      constructor
      · rintro ⟨bytes, hlies⟩
        exact ⟨bytes, hlies.of_get? ((hframe bytes).1 hlies.get?)⟩
      · rintro ⟨bytes, hlies⟩
        exact ⟨bytes, hlies.of_get? ((hframe bytes).2 hlies.get?)⟩
  kept := by
    intro m l bytes hm
    rw [List.mem_append, not_or] at hm
    rw [← h.kept hm.1]
    refine hcarries.holds_iff fun hmap => hm.2 ?_
    obtain ⟨d, hd, rfl⟩ := List.mem_map.1 hmap
    exact hfresh d hd

end SameUnseen

/-! ### Both runs, root by root -/

/-- The state of a run that checks and that of a run that writes, when both have come to the same root. -/
structure InStep (tools : Tools) (s : Settings) (t : FileTree) (seen : List SourcePath)
    (c w : SyncState) : Prop where
  tree : c.tree = t
  same : SameUnseen s.home seen t w.tree
  truthful : c.cache.IsTruthful tools.extract s.collect
  truthful' : w.cache.IsTruthful tools.extract s.collect

/-- What one root does in both runs. -/
theorem inStep_modifyRoot (hs : ScansPlainly tools s) {t : FileTree} (ht : t.IsSourceTree s.home)
    {seen fresh fresh' : List SourcePath} {configured : Text} {checked written : List Update}
    {c c' w w' : SyncState} (h : InStep tools s t seen c w)
    (hcheck : (modifyRoot tools { s with mode := .check } exports seen configured).Yields c
      (fresh, checked) c')
    (hwrite : (modifyRoot tools { s with mode := .write } exports seen configured).Yields w
      (fresh', written) w') :
    fresh' = fresh ∧ checked = written.map Update.foretold ∧
      InStep tools s t (seen ++ fresh) c' w' := by
  have hlooks : Looks tools { s with mode := .check } t
      (modifyRoot tools { s with mode := .check } exports seen configured) :=
    looks_modifyRoot rfl t seen configured
  have hctree : c'.tree = t := hlooks.tree_eq h.tree h.truthful hcheck
  obtain ⟨hadds, -, cmid, hcmid, hctruthful, hchecked⟩ := exists_yields_of_modifyRoot
    (s := { s with mode := .check }) h.truthful hcheck
  obtain ⟨hadds', -, wmid, hwmid, hwtruthful, hwritten⟩ := exists_yields_of_modifyRoot
    (s := { s with mode := .write }) h.truthful' hwrite
  rw [h.tree] at hadds hchecked hcmid
  have hfresh : fresh' = fresh := h.same.fresh_eq hs ht hadds hadds'
  subst hfresh
  -- both apply the drafts that are due on the tree that the check sees
  have hdrafts : draftsOf tools s exports w.tree fresh' = draftsOf tools s exports t fresh' :=
    h.same.draftsOf_eq hs ht hadds
  have hholds : ∀ d ∈ draftsOf tools s exports w.tree fresh',
      ∃ l bytes, w.tree.Holds s.home d.path l bytes := fun d hd =>
    ((mem_draftsOf_iff (hs.withMode .write).toScansFromRoot h.same.isSourceTree hadds').1 hd).2.holds
  have hholds' : ∀ d ∈ draftsOf tools s exports t fresh',
      ∃ l bytes, t.Holds s.home d.path l bytes := fun d hd =>
    ((mem_draftsOf_iff (hs.withMode .check).toScansFromRoot ht hadds).1 hd).2.holds
  obtain ⟨-, rfl, hccache⟩ := carriesOut_of_mapM (pairwise_draftsOf hadds.nodup)
    (hcmid ▸ ht.toIsPlain) (hcmid ▸ hholds') hchecked
  obtain ⟨hcarries, rfl, hwcache⟩ := carriesOut_of_mapM (pairwise_draftsOf hadds.nodup)
    (hwmid ▸ h.same.isSourceTree.toIsPlain) (hwmid ▸ hholds) hwritten
  rw [hwmid] at hcarries
  refine ⟨rfl, ?_, hctree, ?_, hccache ▸ hctruthful, hwcache ▸ hwtruthful⟩
  · show (draftsOf tools s exports t fresh').map (Draft.update .check) =
      ((draftsOf tools s exports w.tree fresh').map (Draft.update .write)).map Update.foretold
    rw [hdrafts, List.map_map]
    exact List.map_congr_left fun d _ => d.update_check
  · refine SameUnseen.carriesOut (s := { s with mode := .write }) h.same hcarries hholds
      fun d hd => ?_
    exact ((mem_draftsOf_iff (hs.withMode .write).toScansFromRoot h.same.isSourceTree hadds').1 hd).1

/-- What both runs report of all modules. -/
theorem updateFrom_foretold (hs : ScansPlainly tools s) {t : FileTree} (ht : t.IsSourceTree s.home)
    {roots : List Text} {seen : List SourcePath} {checked written : List Update}
    {c c' w w' : SyncState} (h : InStep tools s t seen c w)
    (hcheck : (updateFrom tools { s with mode := .check } exports seen roots).Yields c checked c')
    (hwrite : (updateFrom tools { s with mode := .write } exports seen roots).Yields w written w') :
    checked = written.map Update.foretold := by
  induction roots generalizing seen checked written c w with
  | nil =>
      obtain ⟨rfl, -⟩ := SyncM.yields_pure.1 hcheck
      obtain ⟨rfl, -⟩ := SyncM.yields_pure.1 hwrite
      rfl
  | cons configured others ih =>
      obtain ⟨⟨fresh, first⟩, c₁, hroot, hcheck⟩ := SyncM.yields_bind.1 hcheck
      obtain ⟨later, c₂, hothers, hcheck⟩ := SyncM.yields_bind.1 hcheck
      obtain ⟨rfl, rfl⟩ := SyncM.yields_pure.1 hcheck
      obtain ⟨⟨fresh', first'⟩, w₁, hroot', hwrite⟩ := SyncM.yields_bind.1 hwrite
      obtain ⟨later', w₂, hothers', hwrite⟩ := SyncM.yields_bind.1 hwrite
      obtain ⟨rfl, rfl⟩ := SyncM.yields_pure.1 hwrite
      obtain ⟨rfl, rfl, hnext⟩ := inStep_modifyRoot hs ht h hroot hroot'
      rw [ih hnext hothers hothers', List.map_append]

theorem syncAggregator_foretold {d : Document} {o o' : Outcome} {c c' w w' : SyncState}
    (htree : w.tree = c.tree) (hcheck : (syncAggregator { s with mode := .check } d).Yields c o c')
    (hwrite : (syncAggregator { s with mode := .write } d).Yields w o' w') : o = o'.foretold := by
  rw [yields_syncAggregator_iff, yields_bringUpToDate_check] at hcheck
  rw [yields_syncAggregator_iff, yields_bringUpToDate, htree] at hwrite
  obtain ⟨rfl, -⟩ := hcheck
  rcases hwrite with ⟨hdiffers, rfl, -⟩ | ⟨hdiffers, rfl, -⟩
  · rw [if_neg (by simpa using hdiffers)]
    rfl
  · rw [if_pos hdiffers]
    rfl

/-- Before the first root, only the aggregator differs. -/
theorem sameUnseen_syncAggregator (hs : ScansFromRoot tools s) {d : Document} {o : Outcome}
    {st st' : SyncState} (ht : st.tree.IsSourceTree s.home)
    (h : (syncAggregator s d).Yields st o st') :
    SameUnseen s.home [] st.tree st'.tree ∧ st'.cache = st.cache := by
  obtain ⟨hplain, hcache, hfile⟩ := get?_file_of_syncAggregator hs ht.toIsPlain h
  have hholds {m : SourcePath} {l : Location} {bytes : Utf8.Bytes} :
      st'.tree.Holds s.home m l bytes ↔ st.tree.Holds s.home m l bytes :=
    ⟨fun h => h.of_get? ((hfile h.ne_home _).1 h.get?),
      fun h => h.of_get? ((hfile h.ne_home _).2 h.get?)⟩
  refine ⟨⟨⟨hplain, fun hne hget => ht.no_backslash hne ((hfile hne _).1 hget)⟩, ?_, ?_⟩, hcache⟩
  · exact exists_congr fun bytes => hholds
  · exact fun _ => hholds

/-- Where both runs succeed, the one that checks reports what is foretold. -/
theorem sync_check_foretold (hs : ScansPlainly tools s) {t : FileTree} (ht : t.IsSourceTree s.home)
    {checked written : RunReport}
    (hcheck : (sync tools { s with mode := .check } t).result = .ok checked)
    (hwrite : (sync tools { s with mode := .write } t).result = .ok written) :
    checked = written.foretold := by
  obtain ⟨c₃, hcheck, -⟩ := yields_of_sync hcheck
  obtain ⟨output, o, updates, c₁, c₂, -, houtput, htree, hc, haggregator, hconsumers, rfl⟩ :=
    parts_of_syncSteps hcheck
  obtain ⟨w₃, hwrite, -⟩ := yields_of_sync hwrite
  obtain ⟨output', o', updates', w₁, w₂, -, houtput', htree', hc', haggregator', hconsumers', rfl⟩ :=
    parts_of_syncSteps hwrite
  -- both runs build the same module from the same tree
  rw [harvestFromIn_with_mode] at houtput houtput'
  obtain rfl : output = output' := Except.ok.inj (houtput.symm.trans houtput')
  have houtcome := syncAggregator_foretold (htree'.trans htree.symm) haggregator haggregator'
  have hlooks : Looks tools { s with mode := .check } t (syncAggregator _ output.document) :=
    looks_syncAggregator rfl t output.document
  have hctree : c₂.tree = t := hlooks.tree_eq htree hc haggregator
  obtain ⟨-, hccache⟩ := sameUnseen_syncAggregator (hs.withMode .check).toScansFromRoot
    (htree.symm ▸ ht) haggregator
  obtain ⟨hsame, hwcache⟩ := sameUnseen_syncAggregator (hs.withMode .write).toScansFromRoot
    (htree'.symm ▸ ht) haggregator'
  rw [htree'] at hsame
  have hstep : InStep tools s t [] c₂ w₂ := ⟨hctree, hsame, hccache ▸ hc, hwcache ▸ hc'⟩
  rw [updateFrom_foretold hs ht hstep hconsumers hconsumers', houtcome]
  rfl

/-! ### What is never reported -/

/-- What becomes of no file in a mode. -/
def Mode.barred : Mode → Outcome
  | .write => .stale
  | .check => .written

theorem Draft.outcome_ne_barred (mode : Mode) (d : Draft) : d.outcome mode ≠ mode.barred := by
  by_cases h : headLine d.before = headLine d.after
  · cases mode <;> simp [Draft.outcome, Mode.barred, h]
  · cases mode <;> simp [Draft.outcome, Mode.barred, h]

theorem ne_barred_of_bringUpToDate {p new old : Text} {c : Comparison} {mode : Mode} {o : Outcome}
    {st st' : SyncState} (h : (bringUpToDate p new old c mode).Yields st o st') :
    o ≠ mode.barred := by
  cases mode with
  | write =>
      rcases yields_bringUpToDate.1 h with ⟨-, rfl, -⟩ | ⟨-, rfl, -⟩
      · simp [Mode.barred]
      · simp [Mode.barred]
  | check =>
      obtain ⟨rfl, -⟩ := yields_bringUpToDate_check.1 h
      split
      · simp [Mode.barred]
      · simp [Mode.barred]

theorem sync_ne_barred (hs : ScansFromRoot tools s) {t : FileTree} (ht : t.IsSourceTree s.home)
    {r : RunReport} (h : (sync tools s t).result = .ok r) :
    ∀ u ∈ r.updates, u.outcome ≠ s.mode.barred := by
  obtain ⟨_, ds, hruns⟩ := runs_of_sync hs ht h
  obtain ⟨st, hyields, -⟩ := yields_of_sync h
  obtain ⟨output, o, updates, st₁, st₂, -, -, -, -, haggregator, -, rfl⟩ := parts_of_syncSteps hyields
  intro u hu
  rcases List.mem_cons.1 hu with rfl | hu
  · exact ne_barred_of_bringUpToDate (yields_syncAggregator_iff.1 haggregator)
  · rw [hruns.consumers] at hu
    obtain ⟨d, -, rfl⟩ := List.mem_map.1 hu
    exact d.outcome_ne_barred s.mode

/-- The files that are out of date by what is foretold are those that would be written, if none is
reported out of date by a run that writes. -/
theorem RunReport.isOutOfDate_foretold {r : RunReport} (h : ∀ u ∈ r.updates, u.outcome ≠ .stale) :
    r.foretold.isOutOfDate = true ↔ r.writtenFiles ≠ [] := by
  have hupdates : r.foretold.updates = r.updates.map Update.foretold := rfl
  have hfiles : r.foretold.staleFiles = r.writtenFiles.map Update.foretold := by
    rw [staleFiles, hupdates, List.filter_map, writtenFiles]
    refine congrArg _ (List.filter_congr fun u hu => ?_)
    have hne := h u hu
    cases houtcome : u.outcome with
    | stale => exact absurd houtcome hne
    | written => simp [Update.foretold, Outcome.foretold, houtcome]
    | unchanged => simp [Update.foretold, Outcome.foretold, houtcome]
  rw [isOutOfDate, hfiles]
  cases r.writtenFiles <;> simp

/-! ### Commands that check -/

/-- The mode that a command asks for with the flag, or without it. -/
def Mode.ofCheck (check : Bool) : Mode :=
  if check then .check else .write

/-- The options of the file that the arguments name, if they name one. -/
def Arguments.options (a : Arguments) (t : FileTree) : Except Failure OptionsFile :=
  (a.config.map (OptionsFile.read t)).getD (.ok {})

theorem Arguments.load_eq (a : Arguments) (t : FileTree) :
    a.load t = (a.options t).map fun f => a.settings f (rootPath t a.root) := by
  unfold load options
  cases a.config with
  | none => rfl
  | some p => cases hread : OptionsFile.read t p <;> simp [hread] <;> rfl

/-- The flag makes no other difference to what is loaded. -/
theorem Arguments.load_check {a : Arguments} {t : FileTree} {warnings : List Warning}
    (h : a.load t = .ok (s, warnings)) (check : Bool) :
    { a with check }.load t = .ok ({ s with mode := .ofCheck check }, warnings) := by
  have hoptions : { a with check }.options t = a.options t := rfl
  rw [load_eq] at h ⊢
  obtain ⟨f, hf, hsettings⟩ := map_eq_ok_iff.1 h
  refine map_eq_ok_iff.2 ⟨f, hoptions.trans hf, ?_⟩
  cases hsettings
  rfl

namespace CommandLine

/-- The command with the flag set or not, and all else the same. -/
def Command.withCheck (check : Bool) : Command → Command
  | .sync a => .sync { a with check }
  | .hook stage a => .hook stage { a with check }

theorem Command.run_withCheck {c : Command} {t : FileTree} {warnings : List Warning}
    (h : c.arguments.load t = .ok (s, warnings)) (check : Bool) :
    ((c.withCheck check).run tools t).result =
      (ImportSync.sync tools { s with mode := .ofCheck check } t).result := by
  cases c with
  | sync a => rw [withCheck, run, Arguments.runWith, Arguments.load_check (a := a) h]
  | hook stage a =>
      rw [withCheck, run, Arguments.runWith, Arguments.load_check (a := a) h]
      rfl

theorem exitCode_eq_one_iff {elapsed threads : Nat} {t : FileTree} {tokens : List Text}
    {c : Command} {r : RunReport} (hc : Command.ofTokens tokens = .ok c)
    (hr : (c.run tools t).result = .ok r) :
    (run tools elapsed threads t tokens).exitCode = 1 ↔ r.isOutOfDate = true := by
  rw [run, hc]
  simp [Output.ofSync, hr]

end CommandLine

/-! ### Main statement -/

/-- A run that only checks leaves the tree as it is and foretells the run that writes: if both succeed,
they report the same files in the same order and the same counts, and what the one reports as out of
date is what the other writes. So a command that checks exits with a failure exactly if the same command
without the flag would write a file. -/
theorem check_foretells_write {extract : Extractor} {s : Settings} {name : Text}
    {previous : List Text} (hroot : Path.isAbsolute s.root = true)
    (haggregator : s.aggregator = .ofNames s.root name previous)
    (hignore : s.respectIgnoreFiles = false) {t : FileTree} (ht : t.IsPlain)
    (hbackslash : ∀ l bytes, t.get? l = some (.file bytes) → ∀ n ∈ l, '\\' ∉ n) :
    (sync { extract } { s with mode := .check } t).tree = t ∧
      (∀ checked, (sync { extract } { s with mode := .check } t).result = .ok checked →
        ∀ u ∈ checked.updates, u.outcome ≠ .written) ∧
      (∀ written, (sync { extract } { s with mode := .write } t).result = .ok written →
        ∀ u ∈ written.updates, u.outcome ≠ .stale) ∧
      ∀ checked written,
        (sync { extract } { s with mode := .check } t).result = .ok checked →
        (sync { extract } { s with mode := .write } t).result = .ok written →
        checked = written.foretold ∧
        ∀ (c : CommandLine.Command) (warnings : List Warning),
          c.arguments.load t = .ok (s, warnings) →
          ((c.withCheck false).run { extract } t).result = .ok written ∧
          ∀ tokens, CommandLine.Command.ofTokens tokens = .ok (c.withCheck true) →
            ∀ elapsed threads,
              (CommandLine.run { extract } elapsed threads t tokens).exitCode = 1 ↔
                written.writtenFiles ≠ [] := by
  have hs : ScansPlainly { extract } s :=
    ⟨⟨rfl, hroot, name, previous, haggregator⟩, hignore⟩
  have hsource : t.IsSourceTree s.home := ⟨ht, fun _ hget => hbackslash _ _ hget⟩
  have hstale : ∀ written, (sync { extract } { s with mode := .write } t).result = .ok written →
      ∀ u ∈ written.updates, u.outcome ≠ .stale :=
    fun written h => sync_ne_barred (hs.withMode .write).toScansFromRoot hsource h
  refine ⟨sync_check_tree rfl t, ?_, hstale, ?_⟩
  · intro checked h
    exact sync_ne_barred (hs.withMode .check).toScansFromRoot hsource h
  · intro checked written hcheck hwrite
    have hforetold := sync_check_foretold hs hsource hcheck hwrite
    refine ⟨hforetold, fun c warnings hload => ?_⟩
    have hrun (check : Bool) : ((c.withCheck check).run { extract } t).result =
        (sync { extract } { s with mode := .ofCheck check } t).result :=
      CommandLine.Command.run_withCheck hload check
    refine ⟨(hrun false).trans hwrite, fun tokens htokens elapsed threads => ?_⟩
    rw [CommandLine.exitCode_eq_one_iff htokens ((hrun true).trans hcheck), hforetold]
    exact RunReport.isOutOfDate_foretold (hstale written hwrite)

theorem check_foretells_write_oldSite :
    ∃ checked written, (sync {} { oldSettings with mode := .check } oldSite).result = .ok checked ∧
      (sync {} oldSettings oldSite).result = .ok written ∧
      checked.consumers =
        [⟨⟨"/site/src/resources/a.js".toList⟩, .stale⟩, ⟨homePage, .unchanged⟩] ∧
      checked = written.foretold ∧
      (sync {} { oldSettings with mode := .check } oldSite).tree = oldSite ∧
      (CommandLine.run {} 0 1 oldSite ["sync".toList, "--root".toList, "/site".toList,
        "--modify=./src/resources/".toList, "--modify=./src/pages/".toList,
        "--modify=./src/raw/".toList, "--check".toList]).exitCode = 1 := by
  obtain ⟨written, hwrite, hconsumers⟩ := sync_oldSite
  have hstale : (sync {} { oldSettings with mode := .check } oldSite).result.map (·.consumers) =
      .ok [⟨⟨"/site/src/resources/a.js".toList⟩, .stale⟩, ⟨homePage, .unchanged⟩] := by
    decide +kernel
  obtain ⟨checked, hcheck, hstale⟩ := map_eq_ok_iff.1 hstale
  have hroot : Path.isAbsolute oldSettings.root = true := by decide
  obtain ⟨htree, -, -, hboth⟩ :=
    check_foretells_write hroot rfl rfl isPlain_oldSite no_backslash_oldSite
  obtain ⟨hforetold, hcommand⟩ := hboth checked written hcheck hwrite
  let c : CommandLine.Command := .sync {
    root := some "/site".toList
    modifyRoots :=
      ["./src/resources/".toList, "./src/pages/".toList, "./src/raw/".toList] }
  have hload : c.arguments.load oldSite = .ok (oldSettings, []) := by
    rfl
  obtain ⟨-, hexit⟩ := hcommand c [] hload
  refine ⟨checked, written, hcheck, hwrite, hstale, hforetold, htree,
    (hexit _ (by decide +kernel) 0 1).2 ?_⟩
  simp [RunReport.writtenFiles, RunReport.updates, hconsumers]

end ImportSync
