import ImportSync.Proofs.Rerun

/-!
What a run does to the files of a tree, in any mode. Every module that is due is drafted from the text
that it had before the run, and it is written or left alone as its own draft says. No draft touches the
file of another, so that the order of the roots and what they share make no difference.
-/

namespace ImportSync

variable {tools : Tools} {s : Settings} {exports : ExportSet}

/-! ### One draft -/

/-- What becomes of the module of a draft. -/
def Draft.outcome (mode : Mode) (d : Draft) : Outcome :=
  if headLine d.before = headLine d.after then .unchanged
  else match mode with
    | .check => .stale
    | .write => .written

/-- What is reported of the module of a draft. -/
def Draft.update (mode : Mode) (d : Draft) : Update :=
  { path := d.path, outcome := d.outcome mode }

@[simp] theorem Draft.update_path (mode : Mode) (d : Draft) : (d.update mode).path = d.path :=
  rfl

@[simp] theorem Draft.update_outcome (mode : Mode) (d : Draft) :
    (d.update mode).outcome = d.outcome mode :=
  rfl

theorem update_of_applyDraft {d : Draft} {u : Update} {st st' : SyncState}
    (h : (applyDraft s d).Yields st u st') :
    u = d.update s.mode ∧
      (d.outcome s.mode ≠ .written ∧ st' = st ∨
        d.outcome s.mode = .written ∧ (writeText d.path.text d.after).Yields st () st') := by
  obtain ⟨o, hbring, rfl⟩ := yields_applyDraft.1 h
  cases hmode : s.mode with
  | check =>
      rw [hmode, yields_bringUpToDate_check] at hbring
      obtain ⟨rfl, rfl⟩ := hbring
      by_cases hhead : headLine d.before = headLine d.after
      · simp [Draft.update, Draft.outcome, Comparison.differs, hhead]
      · simp [Draft.update, Draft.outcome, Comparison.differs, hhead]
  | write =>
      rw [hmode, yields_bringUpToDate] at hbring
      rcases hbring with ⟨hdiffers, rfl, rfl⟩ | ⟨hdiffers, rfl, hwrite⟩
      · have hhead : headLine d.before = headLine d.after := by
          simpa [Comparison.differs] using hdiffers
        simp [Draft.update, Draft.outcome, hhead]
      · have hhead : headLine d.before ≠ headLine d.after := by
          simpa [Comparison.differs] using hdiffers
        simp [Draft.update, Draft.outcome, hhead, hwrite]

/-! ### Many drafts -/

theorem FileTree.Writes.get?_file_iff {t t' : FileTree} {l k : Location} {new : Utf8.Bytes}
    (h : t.Writes t' l new) (hne : k ≠ l) (bytes : Utf8.Bytes) :
    t'.get? k = some (.file bytes) ↔ t.get? k = some (.file bytes) := by
  constructor
  · intro hget
    rcases h.added hne hget with hget | hdir
    · exact hget
    · cases hdir
  · exact h.kept hne

/-- What applying drafts does to a tree: the modules that are to be written hold what was drafted, and
all other files are as they were. -/
structure CarriesOut (s : Settings) (ds : List Draft) (t t' : FileTree) : Prop where
  isPlain : t'.IsPlain
  written : ∀ {d l bytes}, d ∈ ds → d.outcome s.mode = .written → t.Holds s.home d.path l bytes →
    t'.get? l = some (.file (Utf8.encode d.after))
  frame : ∀ {l}, (∀ d ∈ ds, d.outcome s.mode = .written → d.path.text ≠ FileTree.pathOf l) →
    ∀ bytes, t'.get? l = some (.file bytes) ↔ t.get? l = some (.file bytes)

namespace CarriesOut

variable {ds first later : List Draft} {t mid t' : FileTree}

theorem nil (ht : t.IsPlain) : CarriesOut s [] t t where
  isPlain := ht
  written := fun hd => absurd hd List.not_mem_nil
  frame := fun _ _ => Iff.rfl

/-- A module that none of the drafts is for lies where it lay. -/
theorem holds_iff (h : CarriesOut s ds t t') {m : SourcePath} (hm : m ∉ ds.map (·.path))
    {l : Location} {bytes : Utf8.Bytes} :
    t'.Holds s.home m l bytes ↔ t.Holds s.home m l bytes := by
  have hframe (hpath : m.text = FileTree.pathOf l) :
      t'.get? l = some (.file bytes) ↔ t.get? l = some (.file bytes) := by
    refine h.frame (fun d hd _ htext => hm ?_) bytes
    rw [← SourcePath.eq_of_text (htext.trans hpath.symm)]
    exact List.mem_map_of_mem hd
  constructor
  · intro hholds
    exact hholds.of_get? ((hframe hholds.path).1 hholds.get?)
  · intro hholds
    exact hholds.of_get? ((hframe hholds.path).2 hholds.get?)

theorem append (h : CarriesOut s first t mid) (h' : CarriesOut s later mid t')
    (hpaths : ∀ d ∈ later, d.path ∉ first.map (·.path)) :
    CarriesOut s (first ++ later) t t' where
  isPlain := h'.isPlain
  written := by
    intro d l bytes hd hwritten hholds
    rcases List.mem_append.1 hd with hd | hd
    · have hmid := h.written hd hwritten hholds
      refine (h'.frame (fun e he _ htext => hpaths e he ?_) _).2 hmid
      rw [SourcePath.eq_of_text (htext.trans hholds.path.symm)]
      exact List.mem_map_of_mem hd
    · exact h'.written hd hwritten ((h.holds_iff (hpaths d hd)).2 hholds)
  frame := by
    intro l hl bytes
    rw [h'.frame fun d hd => hl d (List.mem_append_right first hd),
      h.frame fun d hd => hl d (List.mem_append_left later hd)]

/-- Applying drafts of files that are there adds no file. -/
theorem isSourceTree (h : CarriesOut s ds t t') (ht : t.IsSourceTree s.home)
    (hholds : ∀ d ∈ ds, ∃ l bytes, t.Holds s.home d.path l bytes) : t'.IsSourceTree s.home where
  toIsPlain := h.isPlain
  no_backslash := by
    intro l bytes hne hget
    by_cases hl : ∀ d ∈ ds, d.outcome s.mode = .written → d.path.text ≠ FileTree.pathOf l
    · exact ht.no_backslash hne ((h.frame hl bytes).1 hget)
    · push Not at hl
      obtain ⟨d, hd, -, htext⟩ := hl
      obtain ⟨k, old, hk⟩ := hholds d hd
      have hkl : k = l := FileTree.pathOf_injective (ht.isName hk.get?) (h.isPlain.isName hget)
        (hk.path.symm.trans htext)
      exact ht.no_backslash hne (hkl ▸ hk.get?)

end CarriesOut

theorem carriesOut_of_applyDraft {d : Draft} {u : Update} {st st' : SyncState}
    (ht : st.tree.IsPlain) (hd : ∃ l bytes, st.tree.Holds s.home d.path l bytes)
    (h : (applyDraft s d).Yields st u st') :
    CarriesOut s [d] st.tree st'.tree ∧ u = d.update s.mode ∧ st'.cache = st.cache := by
  obtain ⟨rfl, ⟨hleft, rfl⟩ | ⟨hwritten, hwrite⟩⟩ := update_of_applyDraft h
  · refine ⟨⟨ht, ?_, fun _ _ => Iff.rfl⟩, rfl, rfl⟩
    intro e l bytes he hwritten
    obtain rfl := List.mem_singleton.1 he
    exact absurd hwritten hleft
  · obtain ⟨k, old, hk⟩ := hd
    rw [hk.path] at hwrite
    obtain ⟨hwrites, hcache⟩ := writes_of_yields_writeText ht (ht.isName hk.get?) hwrite
    refine ⟨⟨hwrites.isPlain, ?_, ?_⟩, rfl, hcache⟩
    · intro e l bytes he _ hholds
      obtain rfl := List.mem_singleton.1 he
      have hlk : l = k := FileTree.pathOf_injective (ht.isName hholds.get?) (ht.isName hk.get?)
        (hholds.path.symm.trans hk.path)
      rw [hlk]
      exact hwrites.written
    · intro l hl
      refine hwrites.get?_file_iff ?_
      rintro rfl
      exact hl d (by simp) hwritten hk.path

theorem carriesOut_of_mapM {ds : List Draft} (hpaths : ds.Pairwise fun d d' => d.path ≠ d'.path)
    {us : List Update} {st st' : SyncState} (ht : st.tree.IsPlain)
    (hds : ∀ d ∈ ds, ∃ l bytes, st.tree.Holds s.home d.path l bytes)
    (h : (ds.mapM (applyDraft s)).Yields st us st') :
    CarriesOut s ds st.tree st'.tree ∧ us = ds.map (Draft.update s.mode) ∧
      st'.cache = st.cache := by
  induction ds generalizing st us with
  | nil =>
      rw [List.mapM_nil] at h
      obtain ⟨rfl, rfl⟩ := SyncM.yields_pure.1 h
      exact ⟨.nil ht, rfl, rfl⟩
  | cons d ds ih =>
      obtain ⟨hne, hpaths⟩ := List.pairwise_cons.1 hpaths
      rw [List.mapM_cons, SyncM.yields_bind] at h
      obtain ⟨u, mid, hfirst, hrest⟩ := h
      obtain ⟨us, last, hlater, hpure⟩ := SyncM.yields_bind.1 hrest
      obtain ⟨rfl, rfl⟩ := SyncM.yields_pure.1 hpure
      obtain ⟨hone, rfl, hcache⟩ := carriesOut_of_applyDraft ht (hds d (by simp)) hfirst
      have hother : ∀ e ∈ ds, e.path ∉ [d].map (·.path) := by
        intro e he
        simpa using (hne e he).symm
      have hholds : ∀ e ∈ ds, ∃ l bytes, mid.tree.Holds s.home e.path l bytes := by
        intro e he
        obtain ⟨l, bytes, hholds⟩ := hds e (by simp [he])
        exact ⟨l, bytes, (hone.holds_iff (hother e he)).2 hholds⟩
      obtain ⟨hmany, rfl, hcache'⟩ := ih hpaths hone.isPlain hholds hlater
      exact ⟨hone.append hmany hother, rfl, hcache'.trans hcache⟩

/-! ### The modules that are due -/

/-- The draft of a module that the roots cover, made of the text that the tree holds. -/
structure Draft.IsDue (tools : Tools) (s : Settings) (exports : ExportSet) (roots : List Text)
    (t : FileTree) (d : Draft) : Prop where
  isModified : s.isModified d.path = true
  lies : ∃ c ∈ roots, ∃ l bytes, Path.cleanPieces (s.resolve c) <+: l ∧
    t.Holds s.home d.path l bytes ∧ draftOf tools s exports d.path (.ofBytes bytes) = some d

theorem Draft.IsDue.holds {roots : List Text} {t : FileTree} {d : Draft}
    (h : d.IsDue tools s exports roots t) : ∃ l bytes, t.Holds s.home d.path l bytes := by
  obtain ⟨c, -, l, bytes, -, hholds, -⟩ := h.lies
  exact ⟨l, bytes, hholds⟩

/-- Whether a module is due depends on its own file only. -/
theorem Draft.IsDue.of_holds {roots roots' : List Text} {t t' : FileTree} {d : Draft}
    (h : d.IsDue tools s exports roots t) (hroots : ∀ c ∈ roots, c ∈ roots')
    (hholds : ∀ {l bytes}, t.Holds s.home d.path l bytes → t'.Holds s.home d.path l bytes) :
    d.IsDue tools s exports roots' t' := by
  obtain ⟨hmodified, c, hc, l, bytes, hl, hlies, hdraft⟩ := h
  exact ⟨hmodified, c, hroots c hc, l, bytes, hl, hholds hlies, hdraft⟩

theorem AddsModules.isModified {t : FileTree} {seen fresh : List SourcePath} {configured : Text}
    (h : AddsModules tools s t seen configured fresh) {m : SourcePath} (hm : m ∈ fresh) :
    s.isModified m = true := by
  obtain ⟨files, -, rfl⟩ := h
  exact (List.mem_filter.1 (mem_unseen.1 hm).1).2

/-- Where ignore files are not asked, a root misses no module below it. -/
theorem AddsModules.mem_of_holds (hs : ScansPlainly tools s) {t : FileTree}
    (ht : t.IsSourceTree s.home) {seen fresh : List SourcePath} {configured : Text}
    (h : AddsModules tools s t seen configured fresh) {m : SourcePath}
    (hmodified : s.isModified m = true) (hseen : m ∉ seen) {l : Location} {bytes : Utf8.Bytes}
    (hl : Path.cleanPieces (s.resolve configured) <+: l) (hholds : t.Holds s.home m l bytes) :
    m ∈ fresh := by
  obtain ⟨files, hwalk, rfl⟩ := h
  rw [hs.walk, hs.ignore, hs.resolve_eq] at hwalk
  have hne := ne_sourcePath_of_isModified hmodified
  rw [hs.sourcePath_eq] at hne
  have hmem := (FileTree.mem_walk_iff ht (hs.isName_resolve configured) hwalk hne).2
    ⟨l, bytes, hl, hholds⟩
  exact mem_unseen.2 ⟨List.mem_filter.2 ⟨SourcePath.mem_sort.2 hmem, hmodified⟩, hseen⟩

theorem mem_draftsOf_iff (hs : ScansFromRoot tools s) {t : FileTree} (ht : t.IsSourceTree s.home)
    {seen fresh : List SourcePath} {configured : Text}
    (h : AddsModules tools s t seen configured fresh) {d : Draft} :
    d ∈ draftsOf tools s exports t fresh ↔
      d.path ∈ fresh ∧ d.IsDue tools s exports [configured] t := by
  rw [draftsOf, List.mem_filterMap]
  constructor
  · rintro ⟨m, hm, hdraft⟩
    obtain rfl := path_of_draftOf hdraft
    obtain ⟨l, bytes, hl, hholds⟩ := h.holds_below hs ht hm
    rw [hholds.sourceOf ht.toIsPlain] at hdraft
    exact ⟨hm, h.isModified hm, configured, by simp, l, bytes, hl, hholds, hdraft⟩
  · rintro ⟨hm, hdue⟩
    obtain ⟨-, -, l, bytes, -, hholds, hdraft⟩ := hdue.lies
    refine ⟨d.path, hm, ?_⟩
    rw [hholds.sourceOf ht.toIsPlain]
    exact hdraft

/-! ### All roots -/

/-- What bringing the modules of some roots up to date comes to: drafts of modules that are due, made
of what the tree held at the start, are carried out, one for each module. -/
structure UpdatesRoots (tools : Tools) (s : Settings) (exports : ExportSet)
    (seen : List SourcePath) (roots : List Text) (t t' : FileTree) (updates : List Update)
    (ds : List Draft) : Prop where
  carriesOut : CarriesOut s ds t t'
  updates : updates = ds.map (Draft.update s.mode)
  nodup : (ds.map (·.path)).Nodup
  due : ∀ d ∈ ds, d.path ∉ seen ∧ d.IsDue tools s exports roots t
  complete : s.respectIgnoreFiles = false →
    ∀ {d : Draft}, d.path ∉ seen → d.IsDue tools s exports roots t → d ∈ ds

theorem updatesRoots_nil {seen : List SourcePath} {t : FileTree} (ht : t.IsPlain) :
    UpdatesRoots tools s exports seen [] t t [] [] where
  carriesOut := .nil ht
  updates := rfl
  nodup := List.nodup_nil
  due := by simp
  complete := by
    intro _ d _ hdue
    obtain ⟨c, hc, -⟩ := hdue.lies
    simp at hc

theorem updatesRoots_cons (hs : ScansFromRoot tools s) {seen fresh : List SourcePath}
    {configured : Text} {others : List Text} {t mid t' : FileTree} (ht : t.IsSourceTree s.home)
    (hadds : AddsModules tools s t seen configured fresh)
    (hfirst : CarriesOut s (draftsOf tools s exports t fresh) t mid) {later : List Update}
    {ds : List Draft}
    (hlater : UpdatesRoots tools s exports (seen ++ fresh) others mid t' later ds) :
    UpdatesRoots tools s exports seen (configured :: others) t t'
      ((draftsOf tools s exports t fresh).map (Draft.update s.mode) ++ later)
      (draftsOf tools s exports t fresh ++ ds) := by
  have hmem {d : Draft} : d ∈ draftsOf tools s exports t fresh ↔
      d.path ∈ fresh ∧ d.IsDue tools s exports [configured] t := mem_draftsOf_iff hs ht hadds
  -- a module that the first root does not add is as it was when the later ones come to it
  have hholds {m : SourcePath} (hm : m ∉ fresh) {l : Location} {bytes : Utf8.Bytes} :
      mid.Holds s.home m l bytes ↔ t.Holds s.home m l bytes := by
    refine hfirst.holds_iff fun hmap => hm ?_
    obtain ⟨d, hd, rfl⟩ := List.mem_map.1 hmap
    exact (hmem.1 hd).1
  have hnew {d : Draft} (hd : d ∈ ds) : d.path ∉ seen ∧ d.path ∉ fresh := by
    simpa using (hlater.due d hd).1
  have hdisjoint : ∀ d ∈ ds, d.path ∉ (draftsOf tools s exports t fresh).map (·.path) := by
    intro d hd hmap
    obtain ⟨e, he, hpath⟩ := List.mem_map.1 hmap
    refine (hnew hd).2 ?_
    rw [← hpath]
    exact (hmem.1 he).1
  refine ⟨hfirst.append hlater.carriesOut hdisjoint, ?_, ?_, ?_, ?_⟩
  · rw [hlater.updates, List.map_append]
  · rw [List.map_append, List.nodup_append]
    refine ⟨?_, hlater.nodup, ?_⟩
    · exact List.pairwise_map.2 (pairwise_draftsOf hadds.nodup)
    · rintro p hp _ hp' rfl
      obtain ⟨d, hd, rfl⟩ := List.mem_map.1 hp'
      exact hdisjoint d hd hp
  · intro d hd
    rcases List.mem_append.1 hd with hd | hd
    · obtain ⟨hfresh, hdue⟩ := hmem.1 hd
      exact ⟨hadds.not_mem_seen hfresh, hdue.of_holds (by simp) id⟩
    · refine ⟨(hnew hd).1, (hlater.due d hd).2.of_holds (fun c hc => by simp [hc]) ?_⟩
      exact (hholds (hnew hd).2).1
  · intro hignore d hseen hdue
    have hplain : ScansPlainly tools s := ⟨hs, hignore⟩
    by_cases hfresh : d.path ∈ fresh
    · refine List.mem_append_left ds (hmem.2 ⟨hfresh, hdue.isModified, ?_⟩)
      obtain ⟨-, -, l, bytes, -, hlies, hdraft⟩ := hdue.lies
      obtain ⟨k, old, hk, hlies'⟩ := hadds.holds_below hs ht hfresh
      have hlk : l = k := FileTree.pathOf_injective (ht.isName hlies.get?)
        (ht.isName hlies'.get?) (hlies.path.symm.trans hlies'.path)
      exact ⟨configured, by simp, l, bytes, hlk ▸ hk, hlies, hdraft⟩
    · refine List.mem_append_right _ (hlater.complete hignore (by simp [hseen, hfresh]) ?_)
      obtain ⟨c, hc, l, bytes, hl, hlies, hdraft⟩ := hdue.lies
      rcases List.mem_cons.1 hc with rfl | hc
      · exact absurd (hadds.mem_of_holds hplain ht hdue.isModified hseen hl hlies) hfresh
      · exact ⟨hdue.isModified, c, hc, l, bytes, hl, (hholds hfresh).2 hlies, hdraft⟩

theorem updatesRoots_of_yields (hs : ScansFromRoot tools s) {roots : List Text}
    {seen : List SourcePath} {updates : List Update} {st st' : SyncState}
    (ht : st.tree.IsSourceTree s.home) (hc : st.cache.IsTruthful tools.extract s.collect)
    (h : (updateFrom tools s exports seen roots).Yields st updates st') :
    ∃ ds, UpdatesRoots tools s exports seen roots st.tree st'.tree updates ds := by
  induction roots generalizing seen updates st with
  | nil =>
      obtain ⟨rfl, rfl⟩ := SyncM.yields_pure.1 h
      exact ⟨[], updatesRoots_nil ht.toIsPlain⟩
  | cons configured others ih =>
      obtain ⟨⟨fresh, first⟩, mid, hroot, hrest⟩ := SyncM.yields_bind.1 h
      obtain ⟨later, last, hothers, hpure⟩ := SyncM.yields_bind.1 hrest
      obtain ⟨rfl, rfl⟩ := SyncM.yields_pure.1 hpure
      obtain ⟨hadds, -, read, htree, hcread, hupdates⟩ := exists_yields_of_modifyRoot hc hroot
      have hholds : ∀ d ∈ draftsOf tools s exports st.tree fresh,
          ∃ l bytes, st.tree.Holds s.home d.path l bytes :=
        fun d hd => ((mem_draftsOf_iff hs ht hadds).1 hd).2.holds
      obtain ⟨hfirst, rfl, hcache⟩ := carriesOut_of_mapM (pairwise_draftsOf hadds.nodup)
        (htree ▸ ht.toIsPlain) (htree ▸ hholds) hupdates
      rw [htree] at hfirst
      obtain ⟨ds, hlater⟩ := ih (hfirst.isSourceTree ht hholds) (hcache ▸ hcread) hothers
      exact ⟨_, updatesRoots_cons hs ht hadds hfirst hlater⟩

/-! ### Whole runs -/

/-- Bringing the aggregator up to date writes its file, if anything. -/
theorem get?_file_of_syncAggregator (hs : ScansFromRoot tools s) {d : Document} {o : Outcome}
    {st st' : SyncState} (ht : st.tree.IsPlain) (h : (syncAggregator s d).Yields st o st') :
    st'.tree.IsPlain ∧ st'.cache = st.cache ∧ ∀ {l}, l ≠ s.home → ∀ bytes,
      st'.tree.get? l = some (.file bytes) ↔ st.tree.get? l = some (.file bytes) := by
  rw [yields_syncAggregator_iff] at h
  cases hmode : s.mode with
  | check =>
      rw [hmode, yields_bringUpToDate_check] at h
      obtain ⟨-, rfl⟩ := h
      exact ⟨ht, rfl, fun _ _ => Iff.rfl⟩
  | write =>
      rw [hmode, yields_bringUpToDate] at h
      rcases h with ⟨-, -, rfl⟩ | ⟨-, -, hwrite⟩
      · exact ⟨ht, rfl, fun _ _ => Iff.rfl⟩
      · rw [hs.path_eq] at hwrite
        obtain ⟨hwrites, hcache⟩ := writes_of_yields_writeText ht hs.isName_home hwrite
        exact ⟨hwrites.isPlain, hcache, hwrites.get?_file_iff⟩

/-- What a run that succeeds does, the aggregator's own file apart: it brings the modules of all modify
roots up to date with what was exported, from the tree that it found. -/
structure Runs (tools : Tools) (s : Settings) (t t' : FileTree) (output : Harvest)
    (consumers : List Update) (ds : List Draft) : Prop where
  isPlain : t'.IsPlain
  home : s.mode = .write → ∃ agg, t'.get? s.home = some (.file agg)
  harvest : ((harvest tools s).run { tree := t }).1 = .ok output
  consumers : consumers = ds.map (Draft.update s.mode)
  nodup : (ds.map (·.path)).Nodup
  due : ∀ d ∈ ds, d.IsDue tools s output.document.exports s.modifyRoots t
  complete : s.respectIgnoreFiles = false →
    ∀ {d : Draft}, d.IsDue tools s output.document.exports s.modifyRoots t → d ∈ ds
  written : ∀ {d l bytes}, d ∈ ds → d.outcome s.mode = .written → t.Holds s.home d.path l bytes →
    t'.get? l = some (.file (Utf8.encode d.after))
  frame : ∀ {l}, l ≠ s.home →
    (∀ d ∈ ds, d.outcome s.mode = .written → d.path.text ≠ FileTree.pathOf l) →
    ∀ bytes, t'.get? l = some (.file bytes) ↔ t.get? l = some (.file bytes)

theorem runs_of_sync (hs : ScansFromRoot tools s) {t : FileTree} (ht : t.IsSourceTree s.home)
    {r : RunReport} (h : (sync tools s t).result = .ok r) :
    ∃ output ds, Runs tools s t (sync tools s t).tree output r.consumers ds := by
  obtain ⟨st, hyields, htree⟩ := yields_of_sync h
  rw [htree]
  obtain ⟨output, o, updates, st₁, st₂, hharvest, -, rfl, hc₁, haggregator, hconsumers, rfl⟩ :=
    parts_of_syncSteps hyields
  obtain ⟨hplain, hcache, hfile⟩ := get?_file_of_syncAggregator hs ht.toIsPlain haggregator
  have ht₂ : st₂.tree.IsSourceTree s.home :=
    ⟨hplain, fun hne hget => ht.no_backslash hne ((hfile hne _).1 hget)⟩
  obtain ⟨ds, hds⟩ := updatesRoots_of_yields hs ht₂ (hcache ▸ hc₁) hconsumers
  -- the modules are as they were before the aggregator was brought up to date
  have hholds {m : SourcePath} {l : Location} {bytes : Utf8.Bytes} :
      st₂.tree.Holds s.home m l bytes ↔ st₁.tree.Holds s.home m l bytes :=
    ⟨fun h => h.of_get? ((hfile h.ne_home _).1 h.get?),
      fun h => h.of_get? ((hfile h.ne_home _).2 h.get?)⟩
  refine ⟨output, ds, hds.carriesOut.isPlain, fun hmode => ?_, congrArg Prod.fst hharvest,
    hds.updates, hds.nodup, ?_, ?_, ?_, ?_⟩
  · obtain ⟨⟨agg, -, hhome, -⟩, -⟩ := holdsAggregator_of_yields hs hmode ht.toIsPlain haggregator
    refine ⟨agg, (hds.carriesOut.frame (fun d hd _ htext => ?_) agg).2 hhome⟩
    obtain ⟨l, bytes, hlies⟩ := (hds.due d hd).2.holds
    exact hlies.ne_home (FileTree.pathOf_injective (hplain.isName hlies.get?) hs.isName_home
      (hlies.path.symm.trans htext))
  · intro d hd
    exact (hds.due d hd).2.of_holds (fun _ hc => hc) hholds.1
  · intro hignore d hdue
    exact hds.complete hignore List.not_mem_nil (hdue.of_holds (fun _ hc => hc) hholds.2)
  · intro d l bytes hd hwritten hlies
    exact hds.carriesOut.written hd hwritten (hholds.2 hlies)
  · intro l hne hl bytes
    rw [hds.carriesOut.frame hl, hfile hne]

end ImportSync
