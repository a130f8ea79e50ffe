import ImportSync.Proofs.Scans

/-!
Running again changes nothing. The first run writes the aggregator and modules that it may scan again,
but every module purges to what it purged to before, so that the second run finds the same files, builds
the same aggregator and drafts the same modules. Every module was left with the first line that it is to
have, and nobody else wrote it.
-/

namespace ImportSync

variable {tools : Tools} {s : Settings} {exports : ExportSet}

/-! ### Modules below the root -/

theorem prefix_dropLast {α : Type} {k l : List α} (h : k <+: l) (hne : k ≠ l) : k <+: l.dropLast := by
  obtain ⟨rest, rfl⟩ := h
  have hrest : rest ≠ [] := by
    rintro rfl
    simp at hne
  rw [List.dropLast_append_of_ne_nil hrest]
  exact List.prefix_append k _

/-- The directory of a module is where its location says. -/
theorem FileTree.Holds.cleanPieces_dir {t : FileTree} (ht : t.WellFormed) {home l : Location}
    {m : SourcePath} {bytes : Utf8.Bytes} (h : t.Holds home m l bytes) :
    Path.isAbsolute m.dir = true ∧ Path.cleanPieces m.dir = l.dropLast := by
  have hl := ht.isName h.get?
  have habs : Path.isAbsolute m.text = true := by
    rw [h.path]
    exact FileTree.isAbsolute_pathOf l
  refine ⟨SourcePath.isAbsolute_dir habs, ?_⟩
  rw [SourcePath.dir]
  cases hparent : Path.parent? m.text with
  | none =>
      have hnil := Path.pieces_eq_nil_of_parent? habs hparent
      rw [h.path, FileTree.pieces_pathOf hl] at hnil
      have hget := h.get?
      simp [hnil] at hget
  | some dir =>
      obtain ⟨hdir, x, -, hpieces⟩ := Path.parent?_absolute habs hparent
      rw [h.path, FileTree.pieces_pathOf hl] at hpieces
      have hdrop : Path.pieces dir = l.dropLast := by simp [hpieces]
      have hnames : ∀ n ∈ l.dropLast, Path.IsName n := fun n hn =>
        hl n ((List.dropLast_prefix l).subset hn)
      have hclean : Path.cleanPieces (FileTree.pathOf l.dropLast) = l.dropLast :=
        Path.cleanPieces_ofPieces hnames
      rw [Path.cleanPieces, FileTree.isAbsolute_pathOf, FileTree.pieces_pathOf hnames] at hclean
      rw [Option.getD_some, Path.cleanPieces, hdir, hdrop, hclean]

/-- Once the aggregator is there, every module below the root has an import that is known again. -/
theorem isKnownFrom_of_holds (hs : ScansFromRoot tools s) (hname : '\n' ∉ s.aggregator.name)
    {t : FileTree} (ht : t.WellFormed) {agg : Utf8.Bytes}
    (hhome : t.get? s.home = some (.file agg)) {m : SourcePath} {l : Location} {bytes : Utf8.Bytes}
    (h : t.Holds s.home m l bytes) (hbelow : Path.cleanPieces s.root <+: l) :
    s.aggregator.IsKnownFrom m.dir := by
  obtain ⟨hdir, hclean⟩ := h.cleanPieces_dir ht
  have hnotdir {k : Location} {b : Utf8.Bytes} (hk : t.get? k = some (.file b)) :
      t.isDirAt k ≠ true := by
    simp [FileTree.isDirAt, hk]
  obtain ⟨name, previous, haggregator⟩ := hs.aggregator
  obtain ⟨base, own, hbase, hown, hpath, hsuffix⟩ :=
    Aggregator.path_ends_in_name hs.root name previous
  have hhomeEq : s.home = base ++ own := by rw [Settings.home, haggregator, hpath]
  -- what lies above the aggregator is a directory, so the module is not there
  have hbaseDir : base <+: l.dropLast := by
    refine prefix_dropLast (hbase.trans hbelow) ?_
    rintro rfl
    refine hnotdir h.get? (ht.isDirAt_of_prefix hhome (hhomeEq ▸ List.prefix_append _ _) ?_)
    rw [hhomeEq]
    simpa using hown.symm
  -- and nothing lies below the aggregator
  have hnot : ¬ s.home <+: l.dropLast := by
    intro hinside
    refine hnotdir hhome (ht.isDirAt_of_prefix h.get? (hinside.trans (List.dropLast_prefix l)) ?_)
    exact h.ne_home.symm
  rw [Settings.home] at hnot
  rw [haggregator] at hname hnot ⊢
  refine Aggregator.isKnownFrom_of_isNamedFrom hs.root hname ?_
  rw [← hclean] at hbaseDir hnot
  exact Aggregator.isNamedFrom_of_base hpath hsuffix hdir hbaseDir hnot

/-! ### Applying drafts -/

/-- The text that a tree holds for a file, which is empty if there is none. -/
def sourceOf (t : FileTree) (m : SourcePath) : Source :=
  .ofBytes ((t.read? m.text).getD [])

theorem FileTree.Holds.sourceOf {t : FileTree} (ht : t.IsPlain) {home l : Location}
    {m : SourcePath} {bytes : Utf8.Bytes} (h : t.Holds home m l bytes) :
    sourceOf t m = .ofBytes bytes := by
  have hread := (FileTree.read?_pathOf_iff ht (ht.isName h.get?)).2 h.get?
  rw [← h.path] at hread
  rw [ImportSync.sourceOf, hread, Option.getD_some]

/-- The draft was made of what the tree holds, and its import is known again. -/
structure Draft.IsCurrent (tools : Tools) (s : Settings) (exports : ExportSet) (t : FileTree)
    (d : Draft) : Prop where
  holds : ∃ l bytes, t.Holds s.home d.path l bytes ∧
    draftOf tools s exports d.path (.ofBytes bytes) = some d
  isKnown : s.aggregator.IsKnownFrom d.path.dir

/-- What applying some drafts does to a tree: files purge to what they purged to before, each module
has the first line that it is to have, and no other file is written. -/
structure Applied (s : Settings) (ds : List Draft) (t t' : FileTree) : Prop where
  refreshed : t.Refreshed s.aggregator.references s.home t'
  headLine : ∀ d ∈ ds, headLine (sourceOf t' d.path).text = headLine d.after
  frame : ∀ {l bytes}, (∀ d ∈ ds, d.path.text ≠ FileTree.pathOf l) →
    t.get? l = some (.file bytes) → t'.get? l = some (.file bytes)

theorem applied_of_applyDraft (hmode : s.mode = .write)
    (hexports : ∀ n ∈ exports.names, '\n' ∉ n) {d : Draft} {u : Update} {st st' : SyncState}
    (ht : st.tree.IsPlain) (hd : d.IsCurrent tools s exports st.tree)
    (h : (applyDraft s d).Yields st u st') :
    Applied s [d] st.tree st'.tree ∧ u.path = d.path ∧ st'.cache = st.cache := by
  obtain ⟨⟨l, bytes, hholds, hdraft⟩, hknown⟩ := hd
  obtain ⟨hlossy, hdeq⟩ := draftOf_eq_some_iff.1 hdraft
  have hbefore : d.before = (Source.ofBytes bytes).text := by rw [hdeq]
  obtain ⟨o, hbring, rfl⟩ := yields_applyDraft.1 h
  rw [hmode, yields_bringUpToDate] at hbring
  rcases hbring with ⟨hdiffers, -, rfl⟩ | ⟨-, -, hwrite⟩
  · refine ⟨⟨.refl ht, ?_, fun _ hl => hl⟩, rfl, rfl⟩
    intro d' hd'
    obtain rfl := List.mem_singleton.1 hd'
    rw [hholds.sourceOf ht, ← hbefore]
    simpa [Comparison.differs] using hdiffers
  · rw [hholds.path] at hwrite
    obtain ⟨hwrites, hcache⟩ := writes_of_yields_writeText ht (ht.isName hholds.get?) hwrite
    have hafter := Source.ofBytes_encode d.after
    have halike : (Source.ofBytes bytes).Alike s.aggregator.references
        (Source.ofBytes (Utf8.encode d.after)) := by
      rw [hafter]
      exact alike_of_draftOf hknown hexports hdraft
    refine ⟨⟨hwrites.refreshed hholds.get? halike, ?_, ?_⟩, rfl, hcache⟩
    · intro d' hd'
      obtain rfl := List.mem_singleton.1 hd'
      rw [(hholds.of_get? hwrites.written).sourceOf hwrites.isPlain, hafter]
    · intro k bytes' hk hget
      refine hwrites.kept ?_ hget
      rintro rfl
      exact hk d (by simp) hholds.path

theorem applied_nil {t : FileTree} (ht : t.IsPlain) : Applied s [] t t where
  refreshed := .refl ht
  headLine := by simp
  frame := fun _ hl => hl

/-- Applying some drafts leaves the draft of another module as it is. -/
theorem Draft.IsCurrent.applied {ds : List Draft} {d : Draft} {t t' : FileTree}
    (h : d.IsCurrent tools s exports t) (happlied : Applied s ds t t')
    (hne : ∀ e ∈ ds, e.path ≠ d.path) : d.IsCurrent tools s exports t' := by
  obtain ⟨⟨l, bytes, hholds, hdraft⟩, hknown⟩ := h
  refine ⟨⟨l, bytes, hholds.of_get? (happlied.frame (fun e he htext => ?_) hholds.get?), hdraft⟩,
    hknown⟩
  exact hne e he (SourcePath.eq_of_text (htext.trans hholds.path.symm))

theorem Applied.cons {d : Draft} {ds : List Draft} {t mid t' : FileTree}
    (hd : d.IsCurrent tools s exports t) (hne : ∀ e ∈ ds, d.path ≠ e.path)
    (hfirst : Applied s [d] t mid) (hrest : Applied s ds mid t') : Applied s (d :: ds) t t' where
  refreshed := hfirst.refreshed.trans hrest.refreshed
  headLine := by
    intro e he
    rcases List.mem_cons.1 he with rfl | he
    · -- the first module is not written again
      obtain ⟨l, bytes, hholds, -⟩ := hd.holds
      obtain ⟨bytes', hholds', -⟩ := hholds.refreshed hfirst.refreshed
      have hkept : t'.get? l = some (.file bytes') := by
        refine hrest.frame (fun e' he' htext => ?_) hholds'.get?
        exact hne e' he' (SourcePath.eq_of_text (hholds.path.trans htext.symm))
      rw [(hholds'.of_get? hkept).sourceOf hrest.refreshed.isPlain,
        ← hholds'.sourceOf hfirst.refreshed.isPlain]
      exact hfirst.headLine e (by simp)
    · exact hrest.headLine e he
  frame := by
    intro l bytes hl hget
    refine hrest.frame (fun e he => hl e (by simp [he])) ?_
    exact hfirst.frame (fun e he => hl e (by simp [List.mem_singleton.1 he])) hget

theorem applied_of_mapM (hmode : s.mode = .write) (hexports : ∀ n ∈ exports.names, '\n' ∉ n)
    {ds : List Draft} (hpaths : ds.Pairwise fun d d' => d.path ≠ d'.path) {us : List Update}
    {st st' : SyncState} (ht : st.tree.IsPlain)
    (hds : ∀ d ∈ ds, d.IsCurrent tools s exports st.tree)
    (h : (ds.mapM (applyDraft s)).Yields st us st') :
    Applied s ds st.tree st'.tree ∧ us.map (·.path) = ds.map (·.path) ∧ st'.cache = st.cache := by
  induction ds generalizing st us with
  | nil =>
      rw [List.mapM_nil] at h
      obtain ⟨rfl, rfl⟩ := SyncM.yields_pure.1 h
      exact ⟨applied_nil ht, rfl, rfl⟩
  | cons d ds ih =>
      obtain ⟨hne, hpaths⟩ := List.pairwise_cons.1 hpaths
      rw [List.mapM_cons, SyncM.yields_bind] at h
      obtain ⟨u, mid, hfirst, hrest⟩ := h
      obtain ⟨us, last, hlater, hpure⟩ := SyncM.yields_bind.1 hrest
      obtain ⟨rfl, rfl⟩ := SyncM.yields_pure.1 hpure
      have hd := hds d (by simp)
      obtain ⟨happlied, hpath, hcache⟩ := applied_of_applyDraft hmode hexports ht hd hfirst
      have hcurrent : ∀ d' ∈ ds, d'.IsCurrent tools s exports mid.tree := by
        intro d' hd'
        refine (hds d' (by simp [hd'])).applied happlied fun e he => ?_
        rw [List.mem_singleton.1 he]
        exact hne d' hd'
      obtain ⟨happlied', hpaths', hcache'⟩ :=
        ih hpaths happlied.refreshed.isPlain hcurrent hlater
      refine ⟨.cons hd hne happlied happlied', ?_, hcache'.trans hcache⟩
      rw [List.map_cons, List.map_cons, hpath, hpaths']

/-! ### One root -/

/-- The drafts of some modules, those that are left alone apart. -/
def draftsOf (tools : Tools) (s : Settings) (exports : ExportSet) (t : FileTree)
    (fresh : List SourcePath) : List Draft :=
  fresh.filterMap fun m => draftOf tools s exports m (sourceOf t m)

theorem path_of_draftOf {m : SourcePath} {x : Source} {d : Draft}
    (h : draftOf tools s exports m x = some d) : d.path = m := by
  obtain ⟨-, rfl⟩ := draftOf_eq_some_iff.1 h
  rfl

theorem observes_mapM_draftFor {t : FileTree} (ht : t.IsPlain) {fresh : List SourcePath}
    (h : ∀ m ∈ fresh, ∃ l bytes, t.Holds s.home m l bytes) :
    Observes tools s t (fresh.mapM (draftFor tools s exports))
      (.ok (fresh.map fun m => draftOf tools s exports m (sourceOf t m))) := by
  refine .mapM_ok fun m hm => ?_
  obtain ⟨l, bytes, hholds⟩ := h m hm
  have hdraft : draftOf tools s exports m <$> sourceIn t m =
      .ok (draftOf tools s exports m (sourceOf t m)) := by
    rw [hholds.sourceIn ht, hholds.sourceOf ht]
    rfl
  rw [← hdraft]
  exact observes_draftFor exports m

theorem ne_sourcePath_of_isModified {m : SourcePath} (h : s.isModified m = true) :
    m ≠ s.aggregator.sourcePath := by
  simp only [Settings.isModified, Bool.and_eq_true, bne_iff_ne] at h
  exact h.1.1

/-- The modules that one more root adds to those seen. -/
def AddsModules (tools : Tools) (s : Settings) (t : FileTree) (seen : List SourcePath)
    (configured : Text) (fresh : List SourcePath) : Prop :=
  ∃ files, tools.walk t (s.resolve configured) s.respectIgnoreFiles = .ok files ∧
    fresh = unseen seen ((SourcePath.sort files).filter s.isModified)

namespace AddsModules

variable {t t' : FileTree} {seen fresh : List SourcePath} {configured : Text}

theorem nodup (h : AddsModules tools s t seen configured fresh) : fresh.Nodup := by
  obtain ⟨files, -, rfl⟩ := h
  exact nodup_unseen _ _

theorem not_mem_seen (h : AddsModules tools s t seen configured fresh) {m : SourcePath}
    (hm : m ∈ fresh) : m ∉ seen := by
  obtain ⟨files, -, rfl⟩ := h
  exact (mem_unseen.1 hm).2

theorem holds_below (h : AddsModules tools s t seen configured fresh) (hs : ScansFromRoot tools s)
    (ht : t.IsSourceTree s.home) {m : SourcePath} (hm : m ∈ fresh) :
    ∃ l bytes, Path.cleanPieces (s.resolve configured) <+: l ∧ t.Holds s.home m l bytes := by
  obtain ⟨files, hfiles, rfl⟩ := h
  exact hs.holds_of_mem_unseen ht hfiles (fun _ => ne_sourcePath_of_isModified) hm

theorem holds (h : AddsModules tools s t seen configured fresh) (hs : ScansFromRoot tools s)
    (ht : t.IsSourceTree s.home) : ∀ m ∈ fresh, ∃ l bytes, t.Holds s.home m l bytes := by
  intro m hm
  obtain ⟨l, bytes, -, hholds⟩ := h.holds_below hs ht hm
  exact ⟨l, bytes, hholds⟩

theorem refreshed (h : AddsModules tools s t seen configured fresh) (hs : ScansPlainly tools s)
    (ht : t.IsSourceTree s.home) (hrefreshed : t.Refreshed s.aggregator.references s.home t') :
    AddsModules tools s t' seen configured fresh := by
  obtain ⟨files, hfiles, rfl⟩ := h
  obtain ⟨files', hfiles', hfresh⟩ :=
    hs.unseen_refreshed ht hrefreshed hfiles (fun _ => ne_sourcePath_of_isModified) seen
  exact ⟨files', hfiles', hfresh.symm⟩

end AddsModules

/-- What one root does in a run that writes. -/
structure ModifiesRoot (tools : Tools) (s : Settings) (exports : ExportSet)
    (seen : List SourcePath) (configured : Text) (t t' : FileTree) (fresh : List SourcePath)
    (updates : List Update) : Prop where
  adds : AddsModules tools s t seen configured fresh
  applied : Applied s (draftsOf tools s exports t fresh) t t'
  paths : updates.map (·.path) = (draftsOf tools s exports t fresh).map (·.path)

theorem pairwise_draftsOf {t : FileTree} {fresh : List SourcePath} (h : fresh.Nodup) :
    (draftsOf tools s exports t fresh).Pairwise fun d d' => d.path ≠ d'.path := by
  rw [draftsOf, List.pairwise_filterMap]
  refine h.imp fun {m m'} hne d hd d' hd' => ?_
  rw [path_of_draftOf hd, path_of_draftOf hd']
  exact hne

/-- The drafts of the modules below a root are current once the aggregator is there. -/
theorem AddsModules.isCurrent {t : FileTree} {seen fresh : List SourcePath} {configured : Text}
    (h : AddsModules tools s t seen configured fresh) (hs : ScansFromRoot tools s)
    (hname : '\n' ∉ s.aggregator.name)
    (hbelow : Path.cleanPieces s.root <+: Path.cleanPieces (s.resolve configured))
    (ht : t.IsSourceTree s.home) {agg : Utf8.Bytes} (hhome : t.get? s.home = some (.file agg)) :
    ∀ d ∈ draftsOf tools s exports t fresh, d.IsCurrent tools s exports t := by
  intro d hd
  obtain ⟨m, hm, hdraft⟩ := List.mem_filterMap.1 hd
  obtain ⟨l, bytes, hl, hholds⟩ := h.holds_below hs ht hm
  rw [hholds.sourceOf ht.toIsPlain] at hdraft
  obtain rfl := path_of_draftOf hdraft
  refine ⟨⟨l, bytes, hholds, hdraft⟩, ?_⟩
  exact isKnownFrom_of_holds hs hname ht.toWellFormed hhome hholds (hbelow.trans hl)

theorem sourceOf_eq {t : FileTree} {m : SourcePath} {x : Source} (h : sourceIn t m = .ok x) :
    sourceOf t m = x := by
  rw [sourceIn] at h
  rw [sourceOf]
  cases hread : t.read? m.text with
  | none =>
      rw [hread] at h
      cases h
  | some bytes =>
      rw [hread] at h
      exact Except.ok.inj h

/-- Modules are drafted from what they hold, one after the other. -/
theorem observes_drafts {t : FileTree} (exports : ExportSet) (fresh : List SourcePath) :
    Observes tools s t (fresh.mapM (draftFor tools s exports))
      (fresh.mapM fun m => draftOf tools s exports m <$> sourceIn t m) :=
  .mapM fun m _ => observes_draftFor exports m

/-- If all modules can be read, each is drafted from its text in the tree. -/
theorem drafts_of_mapM {t : FileTree} {fresh : List SourcePath} {drafts : List (Option Draft)}
    (h : fresh.mapM (fun m => draftOf tools s exports m <$> sourceIn t m) = .ok drafts) :
    drafts = fresh.map fun m => draftOf tools s exports m (sourceOf t m) := by
  have hsame : ∀ m ∈ fresh, draftOf tools s exports m <$> sourceIn t m =
      pure (draftOf tools s exports m (sourceOf t m)) := by
    intro m hm
    obtain ⟨d, hd⟩ := exists_ok_of_mapM h hm
    obtain ⟨x, hx, -⟩ := map_eq_ok_iff.1 hd
    rw [hx, sourceOf_eq hx]
    rfl
  rw [mapM_congr hsame, List.mapM_pure] at h
  exact (Except.ok.inj h).symm

/-- A root first looks at the tree as it is: it finds the modules that it adds and drafts them all. Only
then are the drafts applied, one after the other. -/
theorem exists_yields_of_modifyRoot {configured : Text} {seen fresh : List SourcePath}
    {updates : List Update} {st st' : SyncState}
    (hc : st.cache.IsTruthful tools.extract s.collect)
    (h : (modifyRoot tools s exports seen configured).Yields st (fresh, updates) st') :
    AddsModules tools s st.tree seen configured fresh ∧
      (∀ m ∈ fresh, ∃ x, sourceIn st.tree m = .ok x) ∧
      ∃ mid, mid.tree = st.tree ∧ mid.cache.IsTruthful tools.extract s.collect ∧
        ((draftsOf tools s exports st.tree fresh).mapM (applyDraft s)).Yields mid updates st' := by
  obtain ⟨files, drafts, mid, hfiles, hfresh, hdrafts, hupdates⟩ := steps_of_yields_modifyRoot h
  obtain ⟨hresult, htree, hcmid⟩ := (observes_drafts exports _).of_yields rfl hc hdrafts
  have hreadable : ∀ m ∈ fresh, ∃ x, sourceIn st.tree m = .ok x := by
    intro m hm
    obtain ⟨d, hd⟩ := exists_ok_of_mapM hresult hm
    obtain ⟨x, hx, -⟩ := map_eq_ok_iff.1 hd
    exact ⟨x, hx⟩
  obtain rfl := drafts_of_mapM hresult
  rw [List.filterMap_map] at hupdates
  exact ⟨⟨files, hfiles, hfresh⟩, hreadable, mid, htree, hcmid, hupdates⟩

theorem modifiesRoot_of_yields (hs : ScansPlainly tools s) (hmode : s.mode = .write)
    (hname : '\n' ∉ s.aggregator.name) (hexports : ∀ n ∈ exports.names, '\n' ∉ n)
    {configured : Text}
    (hbelow : Path.cleanPieces s.root <+: Path.cleanPieces (s.resolve configured))
    {seen fresh : List SourcePath} {updates : List Update} {st st' : SyncState}
    (ht : st.tree.IsSourceTree s.home) {agg : Utf8.Bytes}
    (hhome : st.tree.get? s.home = some (.file agg))
    (hc : st.cache.IsTruthful tools.extract s.collect)
    (h : (modifyRoot tools s exports seen configured).Yields st (fresh, updates) st') :
    ModifiesRoot tools s exports seen configured st.tree st'.tree fresh updates ∧
      st'.cache.IsTruthful tools.extract s.collect := by
  obtain ⟨hadds, -, mid, htree, hcmid, hupdates⟩ := exists_yields_of_modifyRoot hc h
  have hcurrent : ∀ d ∈ draftsOf tools s exports st.tree fresh,
      d.IsCurrent tools s exports mid.tree := by
    rw [htree]
    exact hadds.isCurrent hs.toScansFromRoot hname hbelow ht hhome
  obtain ⟨happlied, hpaths, hcache⟩ := applied_of_mapM hmode hexports
    (pairwise_draftsOf hadds.nodup) (htree ▸ ht.toIsPlain) hcurrent hupdates
  rw [htree] at happlied
  exact ⟨⟨hadds, happlied, hpaths⟩, hcache ▸ hcmid⟩

/-- What becomes of a file that is up to date. -/
def Update.settled (u : Update) : Update :=
  { u with outcome := .unchanged }

theorem map_settled_of_paths {us : List Update} {ds : List Draft}
    (h : us.map (·.path) = ds.map (·.path)) :
    us.map Update.settled = ds.map fun d => ⟨d.path, .unchanged⟩ := by
  have hpaths := congrArg (List.map fun p => Update.mk p .unchanged) h
  rw [List.map_map, List.map_map] at hpaths
  exact hpaths

/-- The drafts after a refresh start from other texts at most. -/
theorem draftsOf_refreshed {t t' : FileTree} (ht : t.IsPlain)
    (h : t.Refreshed s.aggregator.references s.home t') {fresh : List SourcePath}
    (hfresh : ∀ m ∈ fresh, ∃ l bytes, t.Holds s.home m l bytes) :
    draftsOf tools s exports t' fresh =
      (draftsOf tools s exports t fresh).map fun d =>
        { d with before := (sourceOf t' d.path).text } := by
  rw [draftsOf, draftsOf, List.map_filterMap]
  refine List.filterMap_congr fun m hm => ?_
  obtain ⟨l, bytes, hholds⟩ := hfresh m hm
  obtain ⟨bytes', hholds', halike⟩ := hholds.refreshed h
  rw [hholds.sourceOf ht, hholds'.sourceOf h.isPlain, draftOf_alike halike]
  cases hdraft : draftOf tools s exports m (.ofBytes bytes) with
  | none => rfl
  | some d =>
      rw [Option.map_some, Option.map_some, path_of_draftOf hdraft, hholds'.sourceOf h.isPlain]

theorem observes_mapM_applyDraft {t t' : FileTree} (ht : t.IsPlain)
    (h : t.Refreshed s.aggregator.references s.home t') {fresh : List SourcePath}
    (hfresh : ∀ m ∈ fresh, ∃ l bytes, t.Holds s.home m l bytes)
    (hhead : ∀ d ∈ draftsOf tools s exports t fresh,
      headLine (sourceOf t' d.path).text = headLine d.after) :
    Observes tools s t' ((draftsOf tools s exports t' fresh).mapM (applyDraft s))
      (.ok ((draftsOf tools s exports t fresh).map fun d => ⟨d.path, .unchanged⟩)) := by
  have hresult : (draftsOf tools s exports t fresh).map (fun d => Update.mk d.path .unchanged) =
      (draftsOf tools s exports t' fresh).map fun d => ⟨d.path, .unchanged⟩ := by
    rw [draftsOf_refreshed ht h hfresh, List.map_map]
    rfl
  rw [hresult, draftsOf_refreshed ht h hfresh]
  refine .mapM_ok fun d' hd' => observes_applyDraft ?_
  obtain ⟨d, hd, rfl⟩ := List.mem_map.1 hd'
  exact hhead d hd

/-- A root whose modules have the first lines that they are to have is left alone, in any mode. -/
theorem observes_modifyRoot (hs : ScansPlainly tools s) {t t' : FileTree}
    (ht : t.IsSourceTree s.home) (h : t.Refreshed s.aggregator.references s.home t')
    {seen : List SourcePath} {configured : Text} {fresh : List SourcePath}
    (hadds : AddsModules tools s t seen configured fresh)
    (hhead : ∀ d ∈ draftsOf tools s exports t fresh,
      headLine (sourceOf t' d.path).text = headLine d.after) :
    Observes tools s t' (modifyRoot tools s exports seen configured)
      (.ok (fresh, (draftsOf tools s exports t fresh).map fun d => ⟨d.path, .unchanged⟩)) := by
  have hadds' := hadds.refreshed hs ht h
  have hholds' := hadds'.holds hs.toScansFromRoot (ht.refreshed h)
  have hupdates := observes_mapM_applyDraft ht.toIsPlain h (hadds.holds hs.toScansFromRoot ht) hhead
  obtain ⟨files', hfiles', hfresh'⟩ := hadds'
  have hsorted : Observes tools s t' (filesUnder tools s configured)
      (.ok (SourcePath.sort files')) := by
    have hobserved : Observes tools s t' (filesUnder tools s configured) _ :=
      observes_filesUnder configured
    rwa [hfiles'] at hobserved
  refine hsorted.andThen ?_
  rw [← hfresh']
  refine (observes_mapM_draftFor h.isPlain hholds').andThen ?_
  rw [List.filterMap_map]
  exact hupdates.andThen (.pure _)

/-- A root leaves the aggregator alone, and the modules that were seen before. -/
theorem ModifiesRoot.frame (hs : ScansPlainly tools s) {seen fresh : List SourcePath}
    {configured : Text} {updates : List Update} {t t' : FileTree} (ht : t.IsSourceTree s.home)
    (h : ModifiesRoot tools s exports seen configured t t' fresh updates) {l : Location}
    {bytes : Utf8.Bytes} (hl : ∀ n ∈ l, Path.IsName n)
    (hseen : l = s.home ∨ SourcePath.mk (FileTree.pathOf l) ∈ seen)
    (hget : t.get? l = some (.file bytes)) : t'.get? l = some (.file bytes) := by
  refine h.applied.frame (fun d hd htext => ?_) hget
  obtain ⟨m, hm, hdraft⟩ := List.mem_filterMap.1 hd
  obtain rfl := path_of_draftOf hdraft
  rcases hseen with rfl | hseen
  · obtain ⟨k, bytes', hholds⟩ := h.adds.holds hs.toScansFromRoot ht d.path hm
    refine hholds.ne_home (FileTree.pathOf_injective (ht.isName hholds.get?) hl ?_)
    exact hholds.path.symm.trans htext
  · rw [← htext] at hseen
    exact h.adds.not_mem_seen hm hseen

/-! ### All roots -/

/-- What a run that writes leaves behind when it has brought the modules of some roots up to date: files
purge to what they purged to before; the aggregator and the modules seen before are as they were; and
the same steps taken again, in any mode, leave everything alone. -/
structure Settles (tools : Tools) (s : Settings) (exports : ExportSet) (seen : List SourcePath)
    (roots : List Text) (updates : List Update) (t t' : FileTree) : Prop where
  refreshed : t.Refreshed s.aggregator.references s.home t'
  frame : ∀ {l bytes}, (∀ n ∈ l, Path.IsName n) → l = s.home ∨ SourcePath.mk (FileTree.pathOf l) ∈ seen →
    t.get? l = some (.file bytes) → t'.get? l = some (.file bytes)
  again : ∀ mode, Observes tools s t' (updateFrom tools { s with mode } exports seen roots)
    (.ok (updates.map Update.settled))

/-- The modules of a root keep the first lines that they got while later roots are settled. -/
theorem ModifiesRoot.headLine_of_settles (hs : ScansPlainly tools s) {seen fresh : List SourcePath}
    {configured : Text} {first : List Update} {t mid t' : FileTree} (ht : t.IsSourceTree s.home)
    (h : ModifiesRoot tools s exports seen configured t mid fresh first) {roots : List Text}
    {later : List Update}
    (hsettles : Settles tools s exports (seen ++ fresh) roots later mid t') :
    ∀ d ∈ draftsOf tools s exports t fresh,
      headLine (sourceOf t' d.path).text = headLine d.after := by
  intro d hd
  have hrefreshed := h.applied.refreshed
  rw [← h.applied.headLine d hd]
  obtain ⟨m, hm, hdraft⟩ := List.mem_filterMap.1 hd
  obtain rfl := path_of_draftOf hdraft
  obtain ⟨l, bytes, hholds⟩ := h.adds.holds hs.toScansFromRoot ht d.path hm
  obtain ⟨bytes', hmid, -⟩ := hholds.refreshed hrefreshed
  have hseen : SourcePath.mk (FileTree.pathOf l) ∈ seen ++ fresh := by
    rw [← hholds.path]
    exact List.mem_append_right seen hm
  have hkept := hsettles.frame (ht.isName hholds.get?) (.inr hseen) hmid.get?
  rw [hmid.sourceOf hrefreshed.isPlain, (hmid.of_get? hkept).sourceOf hsettles.refreshed.isPlain]

theorem settles_of_yields (hs : ScansPlainly tools s) (hmode : s.mode = .write)
    (hname : '\n' ∉ s.aggregator.name) (hexports : ∀ n ∈ exports.names, '\n' ∉ n)
    {roots : List Text}
    (hbelow : ∀ c ∈ roots, Path.cleanPieces s.root <+: Path.cleanPieces (s.resolve c))
    {seen : List SourcePath} {updates : List Update} {st st' : SyncState}
    (ht : st.tree.IsSourceTree s.home) {agg : Utf8.Bytes}
    (hhome : st.tree.get? s.home = some (.file agg))
    (hc : st.cache.IsTruthful tools.extract s.collect)
    (h : (updateFrom tools s exports seen roots).Yields st updates st') :
    Settles tools s exports seen roots updates st.tree st'.tree := by
  -- every root is settled by what it does and by what the later ones leave alone
  induction roots generalizing seen updates st with
  | nil =>
      obtain ⟨rfl, rfl⟩ := SyncM.yields_pure.1 h
      exact ⟨.refl ht.toIsPlain, fun _ _ hl => hl, fun _ => .pure []⟩
  | cons configured others ih =>
      obtain ⟨⟨fresh, first⟩, mid, hroot, hrest⟩ := SyncM.yields_bind.1 h
      obtain ⟨later, last, hothers, hpure⟩ := SyncM.yields_bind.1 hrest
      obtain ⟨rfl, rfl⟩ := SyncM.yields_pure.1 hpure
      obtain ⟨hmodifies, hcmid⟩ := modifiesRoot_of_yields hs hmode hname hexports
        (hbelow configured (by simp)) ht hhome hc hroot
      have hrefreshed := hmodifies.applied.refreshed
      have hhome' := hmodifies.frame hs ht hs.isName_home (.inl rfl) hhome
      have hsettles := ih (fun c hc => hbelow c (by simp [hc])) (ht.refreshed hrefreshed) hhome' hcmid
        hothers
      refine ⟨hrefreshed.trans hsettles.refreshed, ?_, fun mode => ?_⟩
      · intro l bytes hl hseen hget
        refine hsettles.frame hl (hseen.imp_right (List.mem_append_left fresh)) ?_
        exact hmodifies.frame hs ht hl hseen hget
      · have hhead := hmodifies.headLine_of_settles hs ht hsettles
        have hfirst := observes_modifyRoot (hs.withMode mode) ht
          (hrefreshed.trans hsettles.refreshed) hmodifies.adds hhead
        rw [List.map_append, map_settled_of_paths hmodifies.paths]
        exact hfirst.andThen ((hsettles.again mode).andThen (.pure _))

/-! ### The aggregator -/

theorem trim_render_ne_nil (d : Document) : Text.trim d.render ≠ [] := by
  refine Text.trim_ne_nil (c := 'e') ?_ (by decide)
  have hword : 'e' ∈ "export \x7b".toList := by decide
  rw [Document.render]
  simp only [List.mem_append, List.mem_cons]
  exact .inr (.inr (.inl (.inl hword)))

/-- The tree holds an aggregator that counts as the given text. -/
def HoldsAggregator (s : Settings) (text : Text) (t : FileTree) : Prop :=
  ∃ bytes old, t.get? s.home = some (.file bytes) ∧ Utf8.decode? bytes = some old ∧
    Comparison.whole.differs old text = false

theorem yields_syncAggregator_iff {d : Document} {o : Outcome} {st st' : SyncState} :
    (syncAggregator s d).Yields st o st' ↔
      (bringUpToDate s.aggregator.path d.render ((st.tree.readText? s.aggregator.path).getD [])
        .whole s.mode).Yields st o st' :=
  Iff.rfl

/-- A file that is not there counts as empty, and no generated module does. -/
theorem exists_readText?_of_not_differs {d : Document} {t : FileTree} {p : Text}
    (h : Comparison.whole.differs ((t.readText? p).getD []) d.render = false) :
    ∃ bytes old, t.read? p = some bytes ∧ Utf8.decode? bytes = some old ∧
      Comparison.whole.differs old d.render = false := by
  cases htext : t.readText? p with
  | none =>
      rw [htext] at h
      have htrim : Text.trim [] = Text.trim d.render := by
        simpa [Comparison.differs] using h
      exact absurd htrim.symm (trim_render_ne_nil d)
  | some old =>
      rw [htext, Option.getD_some] at h
      obtain ⟨bytes, hread, hdecode⟩ := Option.bind_eq_some_iff.1 htext
      exact ⟨bytes, old, hread, hdecode, h⟩

/-- A run that writes leaves the aggregator as it is to be, and changes nothing else. -/
theorem holdsAggregator_of_yields (hs : ScansFromRoot tools s) (hmode : s.mode = .write)
    {d : Document} {o : Outcome} {st st' : SyncState} (ht : st.tree.IsPlain)
    (h : (syncAggregator s d).Yields st o st') :
    HoldsAggregator s d.render st'.tree ∧
      st.tree.Refreshed s.aggregator.references s.home st'.tree ∧ st'.cache = st.cache := by
  rw [yields_syncAggregator_iff, hmode, yields_bringUpToDate] at h
  rcases h with ⟨hdiffers, -, rfl⟩ | ⟨-, -, hwrite⟩
  · obtain ⟨bytes, old, hread, hdecode, hsame⟩ := exists_readText?_of_not_differs hdiffers
    rw [hs.path_eq, FileTree.read?_pathOf_iff ht hs.isName_home] at hread
    exact ⟨⟨bytes, old, hread, hdecode, hsame⟩, .refl ht, rfl⟩
  · rw [hs.path_eq] at hwrite
    obtain ⟨hwrites, hcache⟩ := writes_of_yields_writeText ht hs.isName_home hwrite
    refine ⟨⟨Utf8.encode d.render, d.render, hwrites.written, Utf8.decode?_encode _, ?_⟩,
      hwrites.refreshed_home, hcache⟩
    simp [Comparison.differs]

theorem observes_syncAggregator (hs : ScansPlainly tools s) {d : Document} {t : FileTree}
    (ht : t.IsPlain) (h : HoldsAggregator s d.render t) :
    Observes tools s t (syncAggregator s d) (.ok .unchanged) := by
  obtain ⟨bytes, old, hget, hdecode, hdiffers⟩ := h
  have hread := (FileTree.read?_pathOf_iff ht hs.isName_home).2 hget
  rw [← hs.path_eq] at hread
  have htext : t.readText? s.aggregator.path = some old := by
    rw [FileTree.readText?, hread]
    exact hdecode
  intro st htree hc
  have hrun : (syncAggregator s d).run st =
      (bringUpToDate s.aggregator.path d.render ((st.tree.readText? s.aggregator.path).getD [])
        .whole s.mode).run st := rfl
  rw [hrun, htree, htext]
  exact observes_bringUpToDate hdiffers _ _ st htree hc

/-! ### Whole runs -/

theorem yields_of_sync {t : FileTree} {r : RunReport} (h : (sync tools s t).result = .ok r) :
    ∃ st, (syncSteps tools s).Yields { tree := t } r st ∧ (sync tools s t).tree = st.tree := by
  refine ⟨((syncSteps tools s).run { tree := t }).2, ?_, rfl⟩
  rw [SyncM.Yields, ← h]
  rfl

/-- What a run that succeeds has done: it has built the generated module from the tree as it is, brought it
up to date, and then the modules of all modify roots. -/
theorem parts_of_syncSteps {t : FileTree} {r : RunReport} {st : SyncState}
    (h : (syncSteps tools s).Yields { tree := t } r st) :
    ∃ output o updates st₁ st₂, (harvest tools s).Yields { tree := t } output st₁ ∧
      harvestFromIn tools s t [] {} s.importRoots = .ok output ∧ st₁.tree = t ∧
      st₁.cache.IsTruthful tools.extract s.collect ∧
      (syncAggregator s output.document).Yields st₁ o st₂ ∧
      (updateFrom tools s output.document.exports [] s.modifyRoots).Yields st₂ updates st ∧
      r = {
        aggregator := { path := s.aggregator.sourcePath, outcome := o }
        consumers := updates
        filesScanned := output.filesScanned
        exportedNames := output.document.exports.names.length
        parseFailures := output.parseFailures } := by
  obtain ⟨output, st₁, hharvest, h⟩ := SyncM.yields_bind.1 h
  obtain ⟨o, st₂, haggregator, h⟩ := SyncM.yields_bind.1 h
  obtain ⟨updates, st₃, hconsumers, h⟩ := SyncM.yields_bind.1 h
  obtain ⟨rfl, rfl⟩ := SyncM.yields_pure.1 h
  obtain ⟨houtput, htree, hc⟩ := (observes_harvestFrom [] {} s.importRoots).of_yields rfl
    (NameCache.isTruthful_empty _ _) hharvest
  exact ⟨output, o, updates, st₁, st₂, hharvest, houtput, htree, hc, haggregator, hconsumers, rfl⟩

theorem sync_of_observes {t : FileTree} {r : RunReport}
    (h : Observes tools s t (syncSteps tools s) (.ok r)) :
    (sync tools s t).result = .ok r ∧ (sync tools s t).tree = t := by
  obtain ⟨st, hrun, htree, -⟩ := h { tree := t } rfl (NameCache.isTruthful_empty _ _)
  rw [sync, hrun]
  exact ⟨rfl, htree⟩

/-- What a run reports when all files are up to date. -/
def RunReport.settled (r : RunReport) : RunReport :=
  { r with aggregator := r.aggregator.settled, consumers := r.consumers.map Update.settled }

theorem RunReport.updates_settled (r : RunReport) :
    r.settled.updates = r.updates.map Update.settled :=
  rfl

theorem RunReport.isOutOfDate_settled (r : RunReport) : r.settled.isOutOfDate = false := by
  have hnone : r.settled.staleFiles = [] := by
    rw [staleFiles, updates_settled, List.filter_map, List.map_eq_nil_iff, List.filter_eq_nil_iff]
    intro u _
    simp [Update.settled]
  rw [isOutOfDate, hnone]
  rfl

/-- The steps of a run that wrote, taken again on what it left, leave everything alone. -/
theorem observes_syncSteps (hs : ScansPlainly tools s) (hmode : s.mode = .write)
    (hname : '\n' ∉ s.aggregator.name)
    (hbelow : ∀ c ∈ s.modifyRoots, Path.cleanPieces s.root <+: Path.cleanPieces (s.resolve c))
    {t : FileTree} (ht : t.IsSourceTree s.home)
    (hexports : ∀ output, ((harvest tools s).run { tree := t }).1 = .ok output →
      ∀ n ∈ output.document.exports.names, '\n' ∉ n)
    {r : RunReport} {st : SyncState} (h : (syncSteps tools s).Yields { tree := t } r st)
    (mode : Mode) :
    Observes tools { s with mode } st.tree (syncSteps tools { s with mode }) (.ok r.settled) := by
  -- the first run, step by step
  obtain ⟨output, o, updates, st₁, st₂, hharvest, houtput, rfl, hc₁, haggregator, hconsumers, rfl⟩ :=
    parts_of_syncSteps h
  have hnames := hexports output (congrArg Prod.fst hharvest)
  obtain ⟨hholds, hrefreshed₂, hcache₂⟩ :=
    holdsAggregator_of_yields hs.toScansFromRoot hmode ht.toIsPlain haggregator
  obtain ⟨agg, old, hhome, hdecode, hdiffers⟩ := hholds
  have hsettles := settles_of_yields hs hmode hname hnames hbelow (ht.refreshed hrefreshed₂) hhome
    (hcache₂ ▸ hc₁) hconsumers
  have hrefreshed := hrefreshed₂.trans hsettles.refreshed
  -- and the second one
  have hharvest' : Observes tools { s with mode } st.tree (harvest tools { s with mode })
      (.ok output) := by
    rw [← harvestFromIn_refreshed hs ht hrefreshed houtput, ← harvestFromIn_with_mode mode]
    exact observes_harvestFrom [] {} s.importRoots
  have hholds' : HoldsAggregator { s with mode } output.document.render st.tree :=
    ⟨agg, old, hsettles.frame hs.isName_home (.inl rfl) hhome, hdecode, hdiffers⟩
  refine hharvest'.andThen ?_
  refine (observes_syncAggregator (hs.withMode mode) hrefreshed.isPlain hholds').andThen ?_
  exact (hsettles.again mode).andThen (.pure _)

/-- A run that wrote, started again on the tree that it left, succeeds and leaves every file as it is,
and it reports the same files as up to date. So does a run that only checks. -/
theorem sync_again {extract : Extractor} {s : Settings} {name : Text} {previous : List Text}
    (hroot : Path.isAbsolute s.root = true)
    (haggregator : s.aggregator = .ofNames s.root name previous) (hname : '\n' ∉ s.aggregator.name)
    (hmode : s.mode = .write) (hignore : s.respectIgnoreFiles = false)
    (hbelow : ∀ c ∈ s.modifyRoots, Path.cleanPieces s.root <+: Path.cleanPieces (s.resolve c))
    {t : FileTree} (ht : t.IsPlain)
    (hbackslash : ∀ l bytes, t.get? l = some (.file bytes) → ∀ n ∈ l, '\\' ∉ n)
    (hexports : ∀ output, ((harvest { extract } s).run { tree := t }).1 = .ok output →
      ∀ n ∈ output.document.exports.names, '\n' ∉ n)
    {r : RunReport} (h : (sync { extract } s t).result = .ok r) (mode : Mode) :
    ∃ r', (sync { extract } { s with mode } (sync { extract } s t).tree).result = .ok r' ∧
      r'.updates.map (·.path) = r.updates.map (·.path) ∧
      (∀ u ∈ r'.updates, u.outcome = .unchanged) ∧ r'.isOutOfDate = false ∧
      (sync { extract } { s with mode } (sync { extract } s t).tree).tree =
        (sync { extract } s t).tree := by
  have hs : ScansPlainly { extract } s :=
    ⟨⟨rfl, hroot, name, previous, haggregator⟩, hignore⟩
  have ht' : t.IsSourceTree s.home := ⟨ht, fun _ hget => hbackslash _ _ hget⟩
  obtain ⟨st, hyields, htree⟩ := yields_of_sync h
  have hagain := observes_syncSteps hs hmode hname hbelow ht' hexports hyields mode
  obtain ⟨hresult, hkept⟩ := sync_of_observes hagain
  rw [htree]
  refine ⟨r.settled, hresult, ?_, ?_, r.isOutOfDate_settled, hkept⟩
  · rw [r.updates_settled, List.map_map]
    rfl
  · intro u hu
    obtain ⟨v, -, rfl⟩ := List.mem_map.1 (r.updates_settled ▸ hu)
    rfl

theorem sync_again_site :
    ∃ r, (sync {} siteSettings siteTree).result = .ok r ∧
      r.writtenFiles.map (·.path.text) =
        ["/site/imports.js".toList, "/site/src/resources/a.js".toList,
          "/site/src/pages/home.js".toList] ∧
      ∀ mode, ∃ r',
        (sync {} { siteSettings with mode } (sync {} siteSettings siteTree).tree).result = .ok r' ∧
        r'.updates.map (·.path) = r.updates.map (·.path) ∧
        (∀ u ∈ r'.updates, u.outcome = .unchanged) ∧ r'.isOutOfDate = false ∧
        (sync {} { siteSettings with mode } (sync {} siteSettings siteTree).tree).tree =
          (sync {} siteSettings siteTree).tree := by
  have hwritten : (sync {} siteSettings siteTree).result.map
      (fun r => r.writtenFiles.map (·.path.text)) =
        .ok ["/site/imports.js".toList, "/site/src/resources/a.js".toList,
          "/site/src/pages/home.js".toList] := by
    decide +kernel
  have htree : siteTree.IsPlain :=
    FileTree.isPlain_of_entries (by decide +kernel) (by decide +kernel)
  have hentries : ∀ entry ∈ siteTree.entries, ∀ n ∈ entry.1, '\\' ∉ n := by decide +kernel
  have hbackslash : ∀ l bytes, siteTree.get? l = some (.file bytes) → ∀ n ∈ l, '\\' ∉ n := by
    intro l bytes hget n hn
    exact hentries _ (FileTree.mem_entries_of_get? (List.ne_nil_of_mem hn) hget) n hn
  have hexports : ((harvest {} siteSettings).run { tree := siteTree }).1.toOption.all
      (fun output => decide (∀ n ∈ output.document.exports.names, '\n' ∉ n)) = true := by
    decide +kernel
  cases hresult : (sync {} siteSettings siteTree).result with
  | error e =>
      rw [hresult] at hwritten
      cases hwritten
  | ok r =>
      rw [hresult] at hwritten
      refine ⟨r, rfl, Except.ok.inj hwritten, fun mode => ?_⟩
      refine sync_again (by decide) rfl (by decide +kernel) rfl rfl (by decide +kernel) htree
        hbackslash ?_ hresult mode
      intro output houtput
      rw [houtput] at hexports
      exact of_decide_eq_true hexports

end ImportSync
