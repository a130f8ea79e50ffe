import ImportSync.Proofs.Contributions
import ImportSync.Proofs.Leniency

/-!
Runs that fail. All import roots are read before anything is written, and all modules of a modify root
before the first one of them is. So a run that cannot read what it has to read stops between two roots:
the tree is as it was, or as the run leaves it that has only the modify roots before that one.
-/

namespace ImportSync

/-! ### Steps that fail -/

namespace SyncM

variable {α β : Type} {st st' : SyncState} {e : Failure}

/-- The step fails in some state. -/
def Fails (x : SyncM α) (st : SyncState) (e : Failure) (st' : SyncState) : Prop :=
  x.run st = (.error e, st')

theorem not_fails_pure {a : α} : ¬(pure a : SyncM α).Fails st e st' := by
  intro h
  cases h

/-- Two steps after one another fail if the first one does, or the second one after it. -/
theorem fails_bind {x : SyncM α} {f : α → SyncM β} :
    (x >>= f).Fails st e st' ↔
      x.Fails st e st' ∨ ∃ a mid, x.Yields st a mid ∧ (f a).Fails mid e st' := by
  constructor
  · intro h
    cases hx : x.run st with
    | mk r mid =>
        cases r with
        | error e' =>
            rw [Fails, run_bind_error hx] at h
            cases h
            exact .inl hx
        | ok a =>
            rw [Fails, run_bind_ok hx] at h
            exact .inr ⟨a, mid, hx, h⟩
  · rintro (hx | ⟨a, mid, hx, hf⟩)
    · exact run_bind_error hx f
    · rw [Fails, run_bind_ok hx]
      exact hf

theorem fails_mapM {f : α → SyncM β} {xs : List α} (h : (xs.mapM f).Fails st e st') :
    ∃ x ∈ xs, ∃ mid, (f x).Fails mid e st' := by
  induction xs generalizing st with
  | nil => exact absurd h not_fails_pure
  | cons x xs ih =>
      rw [List.mapM_cons] at h
      rcases fails_bind.1 h with hx | ⟨y, mid, -, h⟩
      · exact ⟨x, by simp, st, hx⟩
      · rcases fails_bind.1 h with hxs | ⟨ys, mid', -, h⟩
        · obtain ⟨x', hx', hfails⟩ := ih hxs
          exact ⟨x', by simp [hx'], hfails⟩
        · exact absurd h not_fails_pure

end SyncM

variable {tools : Tools} {s : Settings} {t : FileTree} {exports : ExportSet}

theorem Observes.of_fails {α : Type} {x : SyncM α} {r : Except Failure α}
    (h : Observes tools s t x r) {st st' : SyncState} {e : Failure} (ht : st.tree = t)
    (hc : st.cache.IsTruthful tools.extract s.collect) (hx : x.Fails st e st') :
    r = .error e ∧ st'.tree = t := by
  obtain ⟨st'', hrun, ht', -⟩ := h st ht hc
  rw [SyncM.Fails, hrun] at hx
  injection hx with hr hst
  exact ⟨hr, hst ▸ ht'⟩

/-! ### Writing that fails -/

/-- The failures of writing a file. -/
def Failure.IsOfWriting (e : Failure) : Prop :=
  (∃ p, e = .unwritable p) ∨ ∃ dir, e = .uncreatable dir

theorem isOfWriting_of_writeText {p text : Text} {st st' : SyncState} {e : Failure}
    (h : (writeText p text).Fails st e st') : e.IsOfWriting := by
  rw [SyncM.Fails, run_writeText, FileTree.writing] at h
  cases hmade : st.tree.withDirs? p with
  | none =>
      rw [hmade] at h
      cases h
      exact .inr ⟨_, rfl⟩
  | some made =>
      simp only [hmade] at h
      cases hwrite : made.write? p (Utf8.encode text) with
      | none =>
          rw [hwrite] at h
          cases h
          exact .inl ⟨_, rfl⟩
      | some tree =>
          rw [hwrite] at h
          cases h

theorem isOfWriting_of_bringUpToDate {p new old : Text} {c : Comparison} {mode : Mode}
    {st st' : SyncState} {e : Failure} (h : (bringUpToDate p new old c mode).Fails st e st') :
    e.IsOfWriting := by
  unfold bringUpToDate at h
  split at h
  · exact absurd h SyncM.not_fails_pure
  · cases mode with
    | check => exact absurd h SyncM.not_fails_pure
    | write =>
        rcases SyncM.fails_bind.1 h with hwrite | ⟨_, mid, -, h⟩
        · exact isOfWriting_of_writeText hwrite
        · exact absurd h SyncM.not_fails_pure

theorem isOfWriting_of_applyDraft {d : Draft} {st st' : SyncState} {e : Failure}
    (h : (applyDraft s d).Fails st e st') : e.IsOfWriting := by
  rcases SyncM.fails_bind.1 h with hbring | ⟨o, mid, -, h⟩
  · exact isOfWriting_of_bringUpToDate hbring
  · exact absurd h SyncM.not_fails_pure

/-! ### Roots that cannot be read -/

/-- Why what is to be read below a root cannot be read: there is neither a directory nor a file at the
root, or one of the files that are wanted is found and cannot be read. -/
inductive Settings.Obstructed (s : Settings) (t : FileTree) (wanted : SourcePath → Prop)
    (configured : Text) : Failure → Prop
  | missing : t.find? (s.resolve configured) ≠ some .dir → t.read? (s.resolve configured) = none →
      s.Obstructed t wanted configured (.pathNotFound (s.resolve configured))
  | unreadable {files : List SourcePath} {m : SourcePath} :
      t.walk (s.resolve configured) s.respectIgnoreFiles = .ok files → m ∈ files → wanted m →
      t.read? m.text = none → s.Obstructed t wanted configured (.unreadable m.text)

theorem FileTree.walk_eq_error_iff {root : Text} {respectIgnore : Bool} {e : Failure} :
    t.walk root respectIgnore = .error e ↔
      e = .pathNotFound root ∧ t.find? root ≠ some .dir ∧ t.read? root = none := by
  rw [FileTree.walk, FileTree.read?, FileTree.find?]
  cases hlocate : t.locate? root with
  | none => simp [eq_comm]
  | some l =>
      simp only [Option.bind_some]
      cases hget : t.get? l with
      | none => simp [eq_comm]
      | some entry =>
          cases entry with
          | file bytes => simp
          | dir => simp
          | link target => simp [eq_comm]

theorem sourceIn_eq_error_iff {m : SourcePath} {e : Failure} :
    sourceIn t m = .error e ↔ t.read? m.text = none ∧ e = .unreadable m.text := by
  rw [sourceIn]
  cases t.read? m.text with
  | none => simp [eq_comm]
  | some bytes => simp

namespace Settings.Obstructed

variable {wanted wanted' : SourcePath → Prop} {configured : Text} {e : Failure}

theorem mono (h : s.Obstructed t wanted configured e) (hwanted : ∀ m, wanted m → wanted' m) :
    s.Obstructed t wanted' configured e := by
  cases h with
  | missing hdir hfile => exact .missing hdir hfile
  | unreadable hfiles hm hm' hread => exact .unreadable hfiles hm (hwanted _ hm') hread

theorem of_walk (h : t.walk (s.resolve configured) s.respectIgnoreFiles = .error e) :
    s.Obstructed t wanted configured e := by
  obtain ⟨rfl, hdir, hfile⟩ := FileTree.walk_eq_error_iff.1 h
  exact .missing hdir hfile

/-- Where not all that is new below a root can be read, one of the files is at fault. -/
theorem of_mapM {β : Type} {g : SourcePath → Except Failure β} {p : SourcePath → Bool}
    {seen files : List SourcePath}
    (hfiles : t.walk (s.resolve configured) s.respectIgnoreFiles = .ok files)
    (h : (unseen seen ((SourcePath.sort files).filter p)).mapM g = .error e)
    (hg : ∀ m e, p m = true → m ∉ seen → g m = .error e →
      wanted m ∧ t.read? m.text = none ∧ e = .unreadable m.text) :
    s.Obstructed t wanted configured e := by
  obtain ⟨m, hm, hgm⟩ := mem_of_mapM_error h
  obtain ⟨hmem, hseen⟩ := mem_unseen.1 hm
  obtain ⟨hfile, hp⟩ := List.mem_filter.1 hmem
  obtain ⟨hwanted, hread, rfl⟩ := hg m e hp hseen hgm
  exact .unreadable hfiles (SourcePath.mem_sort.1 hfile) hwanted hread

theorem exists_unreadable (h : s.Obstructed t wanted configured e) {files : List SourcePath}
    (hfiles : t.walk (s.resolve configured) s.respectIgnoreFiles = .ok files) :
    ∃ m ∈ files, wanted m ∧ t.read? m.text = none := by
  cases h with
  | missing hdir hfile =>
      have herror : t.walk (s.resolve configured) s.respectIgnoreFiles = .error _ :=
        FileTree.walk_eq_error_iff.2 ⟨rfl, hdir, hfile⟩
      rw [hfiles] at herror
      cases herror
  | unreadable hfiles' hm hwanted hread =>
      obtain rfl := Except.ok.inj (hfiles.symm.trans hfiles')
      exact ⟨_, hm, hwanted, hread⟩

end Settings.Obstructed

/-! ### Import roots -/

/-- Why the import roots cannot be read, modules being the files that have to be. -/
def Settings.ImportObstructed (s : Settings) (t : FileTree) (e : Failure) : Prop :=
  ∃ c ∈ s.importRoots,
    s.Obstructed t (fun m => s.isImported m = true ∧ s.kindOf? m = some .script) c e

theorem shareIn_eq_error {m : SourcePath} {e : Failure} (h : shareIn tools s t m = .error e) :
    s.kindOf? m = some .script ∧ t.read? m.text = none ∧ e = .unreadable m.text := by
  rw [shareIn] at h
  cases hkind : s.kindOf? m with
  | none =>
      rw [hkind] at h
      cases h
  | some kind =>
      rw [hkind] at h
      cases kind with
      | script => exact ⟨rfl, sourceIn_eq_error_iff.1 (map_eq_error_iff.1 (map_eq_error_iff.1 h))⟩
      | asset => cases h
      | custom => cases h

theorem obstructed_of_harvestFromIn (hwalk : tools.walk = FileTree.walk) {seen : List SourcePath}
    {h : Harvest} {roots : List Text} {e : Failure}
    (hresult : harvestFromIn tools s t seen h roots = .error e) :
    ∃ c ∈ roots, s.Obstructed t (fun m => s.isImported m = true ∧ s.kindOf? m = some .script) c e := by
  induction roots generalizing seen h with
  | nil => cases hresult
  | cons configured others ih =>
      rcases bind_eq_error_iff.1 hresult with hroot | ⟨added, -, hresult⟩
      · refine ⟨configured, by simp, ?_⟩
        rcases importRootIn_eq_error hroot with hfiles | ⟨files, hfiles, hshares⟩
        · rw [hwalk] at hfiles
          exact .of_walk hfiles
        · rw [hwalk] at hfiles
          refine .of_mapM hfiles hshares fun m e hm _ hshare => ?_
          obtain ⟨hkind, hread⟩ := shareIn_eq_error hshare
          exact ⟨⟨hm, hkind⟩, hread⟩
      · obtain ⟨c, hc, hobstructed⟩ := ih hresult
        exact ⟨c, by simp [hc], hobstructed⟩

/-- What can be built is built from roots that can all be read. -/
theorem not_importObstructed_of_ok (hwalk : tools.walk = FileTree.walk) {result : Harvest}
    (h : harvestFromIn tools s t [] {} s.importRoots = .ok result) (e : Failure) :
    ¬s.ImportObstructed t e := by
  rintro ⟨c, hc, hobstructed⟩
  obtain ⟨found, hfound, -, hreadable⟩ := harvestFromIn_eq_ok h
  rw [← participants_eq_unseen] at hreadable
  obtain ⟨i, hi, rfl⟩ := List.getElem_of_mem hc
  have hi' : i < found.length := hfound.length_eq ▸ hi
  obtain ⟨files, hfiles, hperm, -⟩ := hfound.get hi hi'
  rw [hwalk] at hfiles
  obtain ⟨m, hm, ⟨himported, hkind⟩, hread⟩ := hobstructed.exists_unreadable hfiles
  have hmem : m ∈ s.participants found := by
    rw [Settings.participants, List.mem_eraseDups, List.mem_filter, List.mem_flatten]
    exact ⟨⟨_, List.get_mem found ⟨i, hi'⟩, hperm.mem_iff.2 hm⟩, himported⟩
  obtain ⟨bytes, hbytes⟩ := hreadable m hmem hkind
  rw [hread] at hbytes
  cases hbytes

/-! ### Modify roots -/

theorem draftOf_eq_error_iff {m : SourcePath} {e : Failure} :
    draftOf tools s exports m <$> sourceIn t m = .error e ↔
      t.read? m.text = none ∧ e = .unreadable m.text := by
  rw [← sourceIn_eq_error_iff]
  exact map_eq_error_iff

/-- A modify root that fails has either not been read, and then nothing of it was written, or it could
not be written. -/
theorem obstructed_of_modifyRoot (hwalk : tools.walk = FileTree.walk) {seen : List SourcePath}
    {configured : Text} {st st' : SyncState} {e : Failure}
    (hc : st.cache.IsTruthful tools.extract s.collect)
    (h : (modifyRoot tools s exports seen configured).Fails st e st') :
    s.Obstructed st.tree (fun m => s.isModified m = true ∧ m ∉ seen) configured e ∧
        st'.tree = st.tree ∨
      e.IsOfWriting := by
  rcases SyncM.fails_bind.1 h with hfails | ⟨sorted, mid, hyields, h⟩
  · obtain ⟨hwalked, htree⟩ := (observes_filesUnder configured).of_fails rfl hc hfails
    rw [hwalk] at hwalked
    exact .inl ⟨.of_walk (map_eq_error_iff.1 hwalked), htree⟩
  · obtain ⟨rfl, files, hfiles, rfl⟩ := walk_of_yields_filesUnder hyields
    rw [hwalk] at hfiles
    rcases SyncM.fails_bind.1 h with hfails | ⟨drafts, mid', -, h⟩
    · obtain ⟨hdrafts, htree⟩ := (observes_drafts exports _).of_fails rfl hc hfails
      refine .inl ⟨.of_mapM hfiles hdrafts fun m e hm hseen hdraft => ?_, htree⟩
      exact ⟨⟨hm, hseen⟩, draftOf_eq_error_iff.1 hdraft⟩
    · rcases SyncM.fails_bind.1 h with hfails | ⟨updates, last, -, h⟩
      · obtain ⟨d, -, mid'', hd⟩ := SyncM.fails_mapM hfails
        exact .inr (isOfWriting_of_applyDraft hd)
      · exact absurd h SyncM.not_fails_pure

/-- A modify root that cannot be read fails before anything of it is written. -/
theorem modifyRoot_of_obstructed (hwalk : tools.walk = FileTree.walk) (exports : ExportSet)
    {seen : List SourcePath} {configured : Text} {st : SyncState} {e : Failure}
    (hc : st.cache.IsTruthful tools.extract s.collect)
    (h : s.Obstructed st.tree (fun m => s.isModified m = true ∧ m ∉ seen) configured e) :
    ∃ e' st', (modifyRoot tools s exports seen configured).Fails st e' st' ∧
      s.Obstructed st.tree (fun m => s.isModified m = true ∧ m ∉ seen) configured e' ∧
      st'.tree = st.tree := by
  obtain ⟨mid, hrun, htree, hcmid⟩ := observes_filesUnder configured st rfl hc
  rw [hwalk] at hrun
  cases hfiles : st.tree.walk (s.resolve configured) s.respectIgnoreFiles with
  | error e' =>
      rw [hfiles] at hrun
      exact ⟨e', mid, SyncM.fails_bind.2 (.inl hrun), .of_walk hfiles, htree⟩
  | ok files =>
      rw [hfiles] at hrun
      obtain ⟨m, hm, ⟨hmodified, hseen⟩, hread⟩ := h.exists_unreadable hfiles
      have hfresh : m ∈ unseen seen ((SourcePath.sort files).filter s.isModified) :=
        mem_unseen.2 ⟨List.mem_filter.2 ⟨SourcePath.mem_sort.2 hm, hmodified⟩, hseen⟩
      obtain ⟨mid', hrun', htree', -⟩ := observes_drafts exports
        (unseen seen ((SourcePath.sort files).filter s.isModified)) mid htree hcmid
      cases hdrafts : (unseen seen ((SourcePath.sort files).filter s.isModified)).mapM
          (fun m => draftOf tools s exports m <$> sourceIn st.tree m) with
      | ok drafts =>
          obtain ⟨d, hd⟩ := exists_ok_of_mapM hdrafts hfresh
          rw [draftOf_eq_error_iff.2 ⟨hread, rfl⟩] at hd
          cases hd
      | error e' =>
          rw [hdrafts] at hrun'
          refine ⟨e', mid', ?_, ?_, htree'⟩
          · exact SyncM.fails_bind.2 (.inr ⟨_, mid, hrun, SyncM.fails_bind.2 (.inl hrun')⟩)
          · refine .of_mapM hfiles hdrafts fun m e hm hseen hdraft => ?_
            exact ⟨⟨hm, hseen⟩, draftOf_eq_error_iff.1 hdraft⟩

/-! ### The way of a run -/

/-- The run comes to a modify root: with what is exported, the modules that the roots before it have
added, and the state that they leave. -/
inductive ComesTo (tools : Tools) (s : Settings) (t : FileTree) :
    Nat → ExportSet → List SourcePath → SyncState → Prop
  | start {output : Harvest} {o : Outcome} {st st' : SyncState} :
      (harvest tools s).Yields { tree := t } output st →
      (syncAggregator s output.document).Yields st o st' →
      ComesTo tools s t 0 output.document.exports [] st'
  | root {k : Nat} {exports : ExportSet} {seen fresh : List SourcePath} {configured : Text}
      {updates : List Update} {st st' : SyncState} :
      ComesTo tools s t k exports seen st → s.modifyRoots[k]? = some configured →
      (modifyRoot tools s exports seen configured).Yields st (fresh, updates) st' →
      ComesTo tools s t (k + 1) exports (seen ++ fresh) st'

theorem getElem?_of_cons_prefix_drop {α : Type} {x : α} {xs ys : List α} {k : Nat}
    (h : x :: xs <+: ys.drop k) : ys[k]? = some x ∧ xs <+: ys.drop (k + 1) := by
  obtain ⟨rest, hrest⟩ := h
  constructor
  · have hhead := congrArg List.head? hrest
    simpa using hhead.symm
  · refine ⟨rest, ?_⟩
    have htail := congrArg List.tail hrest
    simpa using htail

/-- The settings with the first modify roots only. -/
def Settings.upTo (s : Settings) (k : Nat) : Settings :=
  { s with modifyRoots := s.modifyRoots.take k }

theorem syncSteps_upTo (k : Nat) :
    syncSteps tools (s.upTo k) = (do
      let output ← harvest tools s
      let outcome ← syncAggregator s output.document
      let consumers ← updateFrom tools s output.document.exports [] (s.modifyRoots.take k)
      return {
        aggregator := { path := s.aggregator.sourcePath, outcome }
        consumers
        filesScanned := output.filesScanned
        exportedNames := output.document.exports.names.length
        parseFailures := output.parseFailures }) := by
  have hharvest : harvest tools (s.upTo k) = harvest tools s :=
    harvestFrom_with_roots_mode s.importRoots (s.modifyRoots.take k) s.mode [] {} s.importRoots
  have hconsumers (exports : ExportSet) : updateConsumers tools (s.upTo k) exports =
      updateFrom tools s exports [] (s.modifyRoots.take k) :=
    updateFrom_with_roots s.importRoots (s.modifyRoots.take k) exports [] _
  rw [syncSteps, hharvest]
  simp only [hconsumers]
  rfl

namespace ComesTo

variable {k : Nat} {seen : List SourcePath} {st : SyncState}

theorem truthful (h : ComesTo tools s t k exports seen st) :
    st.cache.IsTruthful tools.extract s.collect := by
  induction h with
  | @start output o st st' hharvest haggregator =>
      obtain ⟨-, -, hc⟩ := (observes_harvestFrom [] {} s.importRoots).of_yields rfl
        (NameCache.isTruthful_empty _ _) hharvest
      have hmatches : Matches tools tools s id (syncAggregator s output.document)
          (syncAggregator s output.document) := matches_syncAggregator output.document
      exact hmatches.truthful hc haggregator
  | root _ _ hroot ih => exact (matches_modifyRoot _ _ _).truthful ih hroot

/-- What the remaining roots come to from there is what all roots come to from the start. -/
theorem exists_start (h : ComesTo tools s t k exports seen st) :
    ∃ output o st₁ st₂ updates, (harvest tools s).Yields { tree := t } output st₁ ∧
      (syncAggregator s output.document).Yields st₁ o st₂ ∧ output.document.exports = exports ∧
      ∀ rest,
        (∀ later st', (updateFrom tools s exports seen rest).Yields st later st' →
          (updateFrom tools s exports [] (s.modifyRoots.take k ++ rest)).Yields st₂
            (updates ++ later) st') ∧
        ∀ e st', (updateFrom tools s exports seen rest).Fails st e st' →
          (updateFrom tools s exports [] (s.modifyRoots.take k ++ rest)).Fails st₂ e st' := by
  induction h with
  | start hharvest haggregator =>
      exact ⟨_, _, _, _, [], hharvest, haggregator, rfl, fun rest => ⟨fun _ _ h => h, fun _ _ h => h⟩⟩
  | @root k exports seen fresh configured us st mid _ hconfigured hroot ih =>
      obtain ⟨output, o, st₁, st₂, updates, hharvest, haggregator, hexports, hrest⟩ := ih
      refine ⟨output, o, st₁, st₂, updates ++ us, hharvest, haggregator, hexports, fun rest => ?_⟩
      -- the root that is done now is the first one of those that remained before
      have htake : s.modifyRoots.take (k + 1) ++ rest =
          s.modifyRoots.take k ++ configured :: rest := by
        rw [List.take_add_one, hconfigured, List.append_assoc]
        rfl
      rw [htake]
      obtain ⟨hyields, hfails⟩ := hrest (configured :: rest)
      constructor
      · intro later st' h
        rw [List.append_assoc]
        refine hyields _ st' (SyncM.yields_bind.2 ⟨_, mid, hroot, SyncM.yields_bind.2 ⟨_, st', h, ?_⟩⟩)
        exact SyncM.yields_pure.2 ⟨rfl, rfl⟩
      · intro e st' h
        exact hfails e st' (SyncM.fails_bind.2 (.inr ⟨_, mid, hroot, SyncM.fails_bind.2 (.inl h)⟩))

/-- A run with the roots before only ends where the run comes to the root. -/
theorem sync_upTo (h : ComesTo tools s t k exports seen st) :
    (∃ r, (sync tools (s.upTo k) t).result = .ok r) ∧
      (sync tools (s.upTo k) t).tree = st.tree := by
  obtain ⟨output, o, st₁, st₂, updates, hharvest, haggregator, rfl, hrest⟩ := h.exists_start
  obtain ⟨hyields, -⟩ := hrest []
  have hconsumers := hyields [] st (SyncM.yields_pure.2 ⟨rfl, rfl⟩)
  rw [List.append_nil, List.append_nil] at hconsumers
  have hrun : ∃ r, (syncSteps tools (s.upTo k)).Yields { tree := t } r st := by
    simp only [SyncM.Yields]
    rw [syncSteps_upTo, SyncM.run_bind_ok hharvest, SyncM.run_bind_ok haggregator,
      SyncM.run_bind_ok hconsumers]
    exact ⟨_, rfl⟩
  obtain ⟨r, hr⟩ := hrun
  rw [sync, hr]
  exact ⟨⟨r, rfl⟩, rfl⟩

/-- The run fails as the root does that it has come to. -/
theorem sync_fails (h : ComesTo tools s t k exports seen st) {configured : Text}
    (hconfigured : s.modifyRoots[k]? = some configured) {e : Failure} {st' : SyncState}
    (hfails : (modifyRoot tools s exports seen configured).Fails st e st') :
    (sync tools s t).result = .error e ∧ (sync tools s t).tree = st'.tree := by
  obtain ⟨output, o, st₁, st₂, updates, hharvest, haggregator, rfl, hrest⟩ := h.exists_start
  obtain ⟨-, hrest⟩ := hrest (configured :: s.modifyRoots.drop (k + 1))
  have hroots : s.modifyRoots.take k ++ configured :: s.modifyRoots.drop (k + 1) =
      s.modifyRoots := by
    obtain ⟨hk, rfl⟩ := List.getElem?_eq_some_iff.1 hconfigured
    rw [← List.drop_eq_getElem_cons hk, List.take_append_drop]
  rw [hroots] at hrest
  have hconsumers := hrest e st' (SyncM.fails_bind.2 (.inl hfails))
  have hrun : (syncSteps tools s).Fails { tree := t } e st' := by
    refine SyncM.fails_bind.2 (.inr ⟨_, _, hharvest, ?_⟩)
    refine SyncM.fails_bind.2 (.inr ⟨_, _, haggregator, ?_⟩)
    exact SyncM.fails_bind.2 (.inl hconsumers)
  rw [sync, hrun]
  exact ⟨rfl, rfl⟩

/-- Where some more roots are done, the run comes to the next one. -/
theorem of_yields (h : ComesTo tools s t k exports seen st) {todo : List Text}
    (htodo : todo <+: s.modifyRoots.drop k) {updates : List Update} {st' : SyncState}
    (hyields : (updateFrom tools s exports seen todo).Yields st updates st') :
    ∃ seen', ComesTo tools s t (k + todo.length) exports seen' st' := by
  induction todo generalizing k seen st updates with
  | nil =>
      obtain ⟨-, rfl⟩ := SyncM.yields_pure.1 hyields
      exact ⟨seen, h⟩
  | cons configured todo ih =>
      obtain ⟨hconfigured, htodo⟩ := getElem?_of_cons_prefix_drop htodo
      obtain ⟨⟨fresh, first⟩, mid, hroot, hyields⟩ := SyncM.yields_bind.1 hyields
      obtain ⟨later, last, hothers, hyields⟩ := SyncM.yields_bind.1 hyields
      obtain ⟨-, rfl⟩ := SyncM.yields_pure.1 hyields
      obtain ⟨seen', hcomes⟩ := ih (h.root hconfigured hroot) htodo hothers
      refine ⟨seen', ?_⟩
      rwa [List.length_cons, Nat.add_comm todo.length, ← Nat.add_assoc]

/-- Where the roots fail, one of them does, and the run comes to it. -/
theorem of_fails (h : ComesTo tools s t k exports seen st) {todo : List Text}
    (htodo : todo <+: s.modifyRoots.drop k) {e : Failure} {st' : SyncState}
    (hfails : (updateFrom tools s exports seen todo).Fails st e st') :
    ∃ j configured seen' mid, s.modifyRoots[j]? = some configured ∧
      ComesTo tools s t j exports seen' mid ∧
      (modifyRoot tools s exports seen' configured).Fails mid e st' := by
  induction todo generalizing k seen st with
  | nil => exact absurd hfails SyncM.not_fails_pure
  | cons configured todo ih =>
      obtain ⟨hconfigured, htodo⟩ := getElem?_of_cons_prefix_drop htodo
      rcases SyncM.fails_bind.1 hfails with hroot | ⟨⟨fresh, first⟩, mid, hroot, hfails⟩
      · exact ⟨k, configured, seen, st, hconfigured, h, hroot⟩
      · rcases SyncM.fails_bind.1 hfails with hothers | ⟨later, last, -, hfails⟩
        · exact ih (h.root hconfigured hroot) htodo hothers
        · exact absurd hfails SyncM.not_fails_pure

end ComesTo

/-- A run that ends well with the first roots only comes to the next one. -/
theorem comesTo_of_sync_upTo {k : Nat} (hk : k ≤ s.modifyRoots.length) {r : RunReport}
    (h : (sync tools (s.upTo k) t).result = .ok r) :
    ∃ exports seen st, ComesTo tools s t k exports seen st := by
  obtain ⟨st, hyields, -⟩ := yields_of_sync h
  rw [syncSteps_upTo] at hyields
  obtain ⟨output, st₁, hharvest, hyields⟩ := SyncM.yields_bind.1 hyields
  obtain ⟨o, st₂, haggregator, hyields⟩ := SyncM.yields_bind.1 hyields
  obtain ⟨updates, st₃, hconsumers, -⟩ := SyncM.yields_bind.1 hyields
  have hprefix : s.modifyRoots.take k <+: s.modifyRoots.drop 0 := List.take_prefix k s.modifyRoots
  have hcomes := (ComesTo.start hharvest haggregator).of_yields hprefix hconsumers
  rw [List.length_take, Nat.min_eq_left hk, Nat.zero_add] at hcomes
  obtain ⟨seen, hcomes⟩ := hcomes
  exact ⟨_, seen, st₃, hcomes⟩

/-! ### Where a run stops -/

/-- The file is found below a modify root when the run comes there. -/
def Settings.FindsAt (tools : Tools) (s : Settings) (t : FileTree) (k : Nat) (m : SourcePath) :
    Prop :=
  ∃ c files, s.modifyRoots[k]? = some c ∧
    tools.walk (sync tools (s.upTo k) t).tree (s.resolve c) s.respectIgnoreFiles = .ok files ∧
    m ∈ files

/-- The run stops at a modify root: it ends well with the roots before, and then the root cannot be
read. Modules that were found below an earlier root are not read again. -/
structure Settings.StopsAt (tools : Tools) (s : Settings) (t : FileTree) (k : Nat) (e : Failure) :
    Prop where
  before : ∃ r, (sync tools (s.upTo k) t).result = .ok r
  obstructed : ∃ c, s.modifyRoots[k]? = some c ∧
    s.Obstructed (sync tools (s.upTo k) t).tree
      (fun m => s.isModified m = true ∧ ∀ j < k, ¬s.FindsAt tools t j m) c e

namespace ComesTo

variable {k : Nat} {seen : List SourcePath} {st : SyncState}

/-- What was seen are the modules that were found below the roots before. -/
theorem mem_seen_iff (h : ComesTo tools s t k exports seen st) {m : SourcePath} :
    m ∈ seen ↔ s.isModified m = true ∧ ∃ j < k, s.FindsAt tools t j m := by
  induction h with
  | start => simp
  | @root k exports seen fresh configured us st mid hcomes hconfigured hroot ih =>
      obtain ⟨files, drafts, after, hfiles, rfl, -⟩ := steps_of_yields_modifyRoot hroot
      have hfinds : s.FindsAt tools t k m ↔ m ∈ files := by
        rw [Settings.FindsAt, hcomes.sync_upTo.2]
        constructor
        · rintro ⟨c, files', hc, hfiles', hm⟩
          obtain rfl := Option.some.inj (hconfigured.symm.trans hc)
          obtain rfl := Except.ok.inj (hfiles.symm.trans hfiles')
          exact hm
        · intro hm
          exact ⟨configured, files, hconfigured, hfiles, hm⟩
      rw [List.mem_append, mem_unseen, List.mem_filter, SourcePath.mem_sort, ih, ← hfinds]
      constructor
      · rintro (⟨hm, j, hj, hfound⟩ | ⟨⟨hfound, hm⟩, -⟩)
        · exact ⟨hm, j, by omega, hfound⟩
        · exact ⟨hm, k, by omega, hfound⟩
      · rintro ⟨hm, j, hj, hfound⟩
        by_cases hbefore : ∃ j < k, s.FindsAt tools t j m
        · exact .inl ⟨hm, hbefore⟩
        · obtain rfl : j = k := by
            by_contra hne
            exact hbefore ⟨j, by omega, hfound⟩
          exact .inr ⟨⟨hfound, hm⟩, fun hseen => hbefore hseen.2⟩

theorem stopsAt_iff (h : ComesTo tools s t k exports seen st) {configured : Text}
    (hconfigured : s.modifyRoots[k]? = some configured) {e : Failure} :
    s.StopsAt tools t k e ↔
      s.Obstructed st.tree (fun m => s.isModified m = true ∧ m ∉ seen) configured e := by
  obtain ⟨hbefore, htree⟩ := h.sync_upTo
  have hwanted (m : SourcePath) : (s.isModified m = true ∧ m ∉ seen) ↔
      s.isModified m = true ∧ ∀ j < k, ¬s.FindsAt tools t j m := by
    rw [h.mem_seen_iff]
    grind
  constructor
  · rintro ⟨-, c, hc, hobstructed⟩
    obtain rfl := Option.some.inj (hconfigured.symm.trans hc)
    rw [htree] at hobstructed
    exact hobstructed.mono fun m => (hwanted m).2
  · intro hobstructed
    refine ⟨hbefore, configured, hconfigured, ?_⟩
    rw [htree]
    exact hobstructed.mono fun m => (hwanted m).1

end ComesTo

theorem fails_of_sync {e : Failure} (h : (sync tools s t).result = .error e) :
    ∃ st, (syncSteps tools s).Fails { tree := t } e st ∧ (sync tools s t).tree = st.tree := by
  refine ⟨((syncSteps tools s).run { tree := t }).2, ?_, rfl⟩
  rw [SyncM.Fails, ← h]
  rfl

/-- Import roots that cannot be read make a run fail before it writes anything. -/
theorem sync_of_importObstructed (hwalk : tools.walk = FileTree.walk)
    (h : ∃ e, s.ImportObstructed t e) :
    ∃ e, s.ImportObstructed t e ∧ (sync tools s t).result = .error e ∧ (sync tools s t).tree = t := by
  obtain ⟨e, hobstructed⟩ := h
  obtain ⟨st, hrun, htree, -⟩ := observes_harvestFrom [] {} s.importRoots { tree := t } rfl
    (NameCache.isTruthful_empty _ _)
  cases hharvest : harvestFromIn tools s t [] {} s.importRoots with
  | ok output => exact absurd hobstructed (not_importObstructed_of_ok hwalk hharvest e)
  | error e' =>
      rw [hharvest] at hrun
      have hfails : (syncSteps tools s).Fails { tree := t } e' st :=
        SyncM.fails_bind.2 (.inl hrun)
      refine ⟨e', obstructed_of_harvestFromIn hwalk hharvest, ?_⟩
      rw [sync, hfails]
      exact ⟨rfl, htree⟩

/-- A run that stops at a modify root fails, and leaves what it leaves with the roots before. -/
theorem sync_of_stopsAt (hwalk : tools.walk = FileTree.walk) {k : Nat}
    (h : ∃ e, s.StopsAt tools t k e) :
    ∃ e, s.StopsAt tools t k e ∧ (sync tools s t).result = .error e ∧
      (sync tools s t).tree = (sync tools (s.upTo k) t).tree := by
  obtain ⟨e, hstops⟩ := h
  obtain ⟨configured, hconfigured, -⟩ := hstops.obstructed
  obtain ⟨r, hr⟩ := hstops.before
  obtain ⟨hk, -⟩ := List.getElem?_eq_some_iff.1 hconfigured
  obtain ⟨exports, seen, st, hcomes⟩ := comesTo_of_sync_upTo hk.le hr
  obtain ⟨e', st', hfails, hobstructed, htree⟩ := modifyRoot_of_obstructed hwalk exports
    hcomes.truthful ((hcomes.stopsAt_iff hconfigured).1 hstops)
  obtain ⟨hresult, htree'⟩ := hcomes.sync_fails hconfigured hfails
  refine ⟨e', (hcomes.stopsAt_iff hconfigured).2 hobstructed, hresult, ?_⟩
  rw [htree', htree, hcomes.sync_upTo.2]

/-- Nothing else makes a run fail but a file that cannot be written. -/
theorem causes_of_sync (hwalk : tools.walk = FileTree.walk) {e : Failure}
    (h : (sync tools s t).result = .error e) :
    s.ImportObstructed t e ∧ (sync tools s t).tree = t ∨
      (∃ k, s.StopsAt tools t k e ∧ (sync tools s t).tree = (sync tools (s.upTo k) t).tree) ∨
      e.IsOfWriting := by
  obtain ⟨st, hfails, htree⟩ := fails_of_sync h
  rw [htree]
  rcases SyncM.fails_bind.1 hfails with hharvest | ⟨output, st₁, hharvest, hfails⟩
  · obtain ⟨hresult, htree'⟩ := (observes_harvestFrom [] {} s.importRoots).of_fails rfl
      (NameCache.isTruthful_empty _ _) hharvest
    exact .inl ⟨obstructed_of_harvestFromIn hwalk hresult, htree'⟩
  · rcases SyncM.fails_bind.1 hfails with haggregator | ⟨o, st₂, haggregator, hfails⟩
    · exact .inr (.inr (isOfWriting_of_bringUpToDate haggregator))
    · rcases SyncM.fails_bind.1 hfails with hconsumers | ⟨updates, st₃, -, hfails⟩
      · have hprefix : s.modifyRoots <+: s.modifyRoots.drop 0 := List.prefix_rfl
        obtain ⟨k, configured, seen, mid, hconfigured, hcomes, hroot⟩ :=
          (ComesTo.start hharvest haggregator).of_fails hprefix hconsumers
        rcases obstructed_of_modifyRoot hwalk hcomes.truthful hroot with
          ⟨hobstructed, htree'⟩ | hwriting
        · refine .inr (.inl ⟨k, (hcomes.stopsAt_iff hconfigured).2 hobstructed, ?_⟩)
          rw [htree', hcomes.sync_upTo.2]
        · exact .inr (.inr hwriting)
      · exact absurd hfails SyncM.not_fails_pure

/-! ### Main statement -/

/-- A run that cannot read what it has to read leaves no root half done. If an import root is missing or
a module below it cannot be read, the run fails and the tree is as it was. If that happens at a modify
root, the run fails and the tree is as the run leaves it that has the roots before only. Apart from files
that cannot be written, nothing else makes a run fail. In particular a module that is ill-formed does not:
the run ends as if the module exported nothing. -/
theorem failed_sync_ends_between_roots (extract : Extractor) (s : Settings) (t : FileTree) :
    ((∃ e, s.ImportObstructed t e) →
      ∃ e, s.ImportObstructed t e ∧ (sync { extract } s t).result = .error e ∧
        (sync { extract } s t).tree = t) ∧
    (∀ k, (∃ e, s.StopsAt { extract } t k e) →
      ∃ e, s.StopsAt { extract } t k e ∧ (sync { extract } s t).result = .error e ∧
        (sync { extract } s t).tree = (sync { extract } (s.upTo k) t).tree) ∧
    (∀ e, (sync { extract } s t).result = .error e →
      s.ImportObstructed t e ∧ (sync { extract } s t).tree = t ∨
        (∃ k, s.StopsAt { extract } t k e ∧
          (sync { extract } s t).tree = (sync { extract } (s.upTo k) t).tree) ∨
        e.IsOfWriting) ∧
    (sync { extract := extract.lenient } s t).tree = (sync { extract } s t).tree ∧
    (sync { extract := extract.lenient } s t).result =
      (sync { extract } s t).result.map RunReport.forgiven :=
  ⟨sync_of_importObstructed rfl, fun _ => sync_of_stopsAt rfl, fun _ => causes_of_sync rfl,
    sync_lenient { extract } s t⟩

/-- A site with a resource, and a page whose name is spelled with a backslash. -/
def backslashSite : FileTree where
  workingDir := []
  entries := [
    (["site".toList], .dir),
    (["site".toList, "src".toList], .dir),
    (["site".toList, "src".toList, "pages".toList], .dir),
    (["site".toList, "src".toList, "pages".toList, "a\\b.js".toList],
      .file (Utf8.encode "show(a);\n".toList)),
    (["site".toList, "src".toList, "resources".toList], .dir),
    (["site".toList, "src".toList, "resources".toList, "a.js".toList],
      .file (Utf8.encode "export const a = 1;\n".toList))]

theorem stopsAt_backslashSite :
    siteSettings.StopsAt {} backslashSite 1 (.unreadable "/site/src/pages/a/b.js".toList) := by
  have hbefore : (sync {} (siteSettings.upTo 1) backslashSite).result.map (·.exportedNames) =
      .ok 1 := by
    decide +kernel
  have hresources : (sync {} (siteSettings.upTo 0) backslashSite).tree.walk
      (siteSettings.resolve "./src/resources/".toList) false =
        .ok [⟨"/site/src/resources/a.js".toList⟩] := by
    decide +kernel
  have hpages : (sync {} (siteSettings.upTo 1) backslashSite).tree.walk
      (siteSettings.resolve "./src/pages/".toList) false =
        .ok [⟨"/site/src/pages/a/b.js".toList⟩] := by
    decide +kernel
  obtain ⟨r, hr, -⟩ := map_eq_ok_iff.1 hbefore
  refine ⟨⟨r, hr⟩, "./src/pages/".toList, rfl, ?_⟩
  refine .unreadable (m := ⟨"/site/src/pages/a/b.js".toList⟩) hpages (by simp)
    ⟨by decide +kernel, ?_⟩ (by decide +kernel)
  rintro j hj ⟨c, files, hc, hfiles, hm⟩
  obtain rfl : j = 0 := by omega
  obtain rfl := Option.some.inj hc
  obtain rfl := Except.ok.inj (hresources.symm.trans hfiles)
  exact absurd hm (by decide)

theorem failed_sync_ends_between_roots_backslashSite :
    ∃ e, siteSettings.StopsAt {} backslashSite 1 e ∧
      (sync {} siteSettings backslashSite).result = .error e ∧
      (sync {} siteSettings backslashSite).tree =
        (sync {} (siteSettings.upTo 1) backslashSite).tree ∧
      (sync {} siteSettings backslashSite).tree.readText? "/site/src/resources/a.js".toList =
        some "import \x7b\x7d from './../../imports.js';\nexport const a = 1;\n".toList := by
  obtain ⟨-, hstops, -⟩ := failed_sync_ends_between_roots namesExported? siteSettings backslashSite
  obtain ⟨e, hstop, hresult, htree⟩ := hstops 1 ⟨_, stopsAt_backslashSite⟩
  exact ⟨e, hstop, hresult, htree, by decide +kernel⟩

end ImportSync
