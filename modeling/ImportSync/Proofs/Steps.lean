import ImportSync.Proofs.Cache
import ImportSync.Proofs.PlainTrees
import ImportSync.Proofs.Utf8
import ImportSync.Sync.Run

/-!
Runs of steps. A step that only looks at the tree is told by a function of the tree, whatever is
remembered, as long as what is remembered is true; a step that writes a file changes nothing else in the
tree but for the directories that it makes.
-/

namespace ImportSync

/-! ### Steps after one another -/

namespace SyncM

variable {α β : Type}

theorem run_bind_ok {x : SyncM α} {st mid : SyncState} {a : α} (h : x.run st = (.ok a, mid))
    (f : α → SyncM β) : (x >>= f).run st = (f a).run mid := by
  change ExceptT.bindCont f (x.run st).1 (x.run st).2 = _
  rw [h]
  rfl

theorem run_bind_error {x : SyncM α} {st mid : SyncState} {e : Failure}
    (h : x.run st = (.error e, mid)) (f : α → SyncM β) : (x >>= f).run st = (.error e, mid) := by
  change ExceptT.bindCont f (x.run st).1 (x.run st).2 = _
  rw [h]
  rfl

/-- The step ends well: it leads from one state to another and yields a value. -/
def Yields (x : SyncM α) (st : SyncState) (a : α) (st' : SyncState) : Prop :=
  x.run st = (.ok a, st')

theorem yields_pure {a b : α} {st st' : SyncState} :
    (pure a : SyncM α).Yields st b st' ↔ a = b ∧ st = st' := by
  constructor
  · intro h
    injection h with ha hst
    injection ha with ha
    exact ⟨ha, hst⟩
  · rintro ⟨rfl, rfl⟩
    rfl

theorem Yields.unique {x : SyncM α} {st st₁ st₂ : SyncState} {a b : α} (h : x.Yields st a st₁)
    (h' : x.Yields st b st₂) : a = b ∧ st₁ = st₂ := by
  rw [Yields, h] at h'
  injection h' with ha hst
  injection ha with ha
  exact ⟨ha, hst⟩

/-- Two steps after one another end well if both do. -/
theorem yields_bind {x : SyncM α} {f : α → SyncM β} {st st' : SyncState} {b : β} :
    (x >>= f).Yields st b st' ↔ ∃ a mid, x.Yields st a mid ∧ (f a).Yields mid b st' := by
  constructor
  · intro h
    cases hx : x.run st with
    | mk r mid =>
        cases r with
        | error e =>
            rw [Yields, run_bind_error hx] at h
            cases h
        | ok a =>
            rw [Yields, run_bind_ok hx] at h
            exact ⟨a, mid, hx, h⟩
  · rintro ⟨a, mid, hx, hf⟩
    rw [Yields, run_bind_ok hx]
    exact hf

end SyncM

/-! ### Results that may be failures -/

section Results

variable {α β : Type} {e : Failure}

theorem bind_eq_ok_iff {ε : Type} {r : Except ε α} {f : α → Except ε β} {b : β} :
    (r >>= f) = .ok b ↔ ∃ a, r = .ok a ∧ f a = .ok b := by
  cases r with
  | error e =>
      constructor
      · intro h
        cases h
      · rintro ⟨a, h, -⟩
        cases h
  | ok a =>
      constructor
      · intro h
        exact ⟨a, rfl, h⟩
      · rintro ⟨a', h, hb⟩
        cases h
        exact hb

theorem bind_eq_error_iff {r : Except Failure α} {f : α → Except Failure β} :
    (r >>= f) = .error e ↔ r = .error e ∨ ∃ a, r = .ok a ∧ f a = .error e := by
  cases r with
  | error e' =>
      constructor
      · intro h
        cases h
        exact .inl rfl
      · rintro (h | ⟨a, h, -⟩)
        · cases h
          rfl
        · cases h
  | ok a =>
      constructor
      · intro h
        exact .inr ⟨a, rfl, h⟩
      · rintro (h | ⟨a', h, he⟩)
        · cases h
        · cases h
          exact he

theorem map_eq_ok_iff {r : Except Failure α} {f : α → β} {b : β} :
    r.map f = .ok b ↔ ∃ a, r = .ok a ∧ f a = b := by
  cases r with
  | error e => simp [Except.map]
  | ok a => simp [Except.map]

theorem map_eq_error_iff {r : Except Failure α} {f : α → β} : r.map f = .error e ↔ r = .error e := by
  cases r with
  | error e' => simp [Except.map]
  | ok a => simp [Except.map]

theorem mapM_congr {m : Type → Type} [Monad m] [LawfulMonad m] {f g : α → m β} {xs : List α}
    (h : ∀ x ∈ xs, f x = g x) : xs.mapM f = xs.mapM g := by
  induction xs with
  | nil => rfl
  | cons x xs ih =>
      rw [List.mapM_cons, List.mapM_cons, h x (by simp), ih fun y hy => h y (by simp [hy])]

/-- Steps that can fail all end well if each of them does. -/
theorem mapM_eq_ok_iff {f : α → Except Failure β} {xs : List α} {ys : List β} :
    xs.mapM f = .ok ys ↔ xs.map f = ys.map .ok := by
  induction xs generalizing ys with
  | nil =>
      show Except.ok [] = Except.ok ys ↔ [] = ys.map Except.ok
      simp [eq_comm]
  | cons x xs ih =>
      rw [List.mapM_cons, bind_eq_ok_iff, List.map_cons]
      constructor
      · rintro ⟨y, hy, h⟩
        obtain ⟨rest, hrest, h⟩ := bind_eq_ok_iff.1 h
        obtain rfl : y :: rest = ys := Except.ok.inj h
        rw [List.map_cons, hy, ih.1 hrest]
      · intro h
        cases ys with
        | nil => simp at h
        | cons y rest =>
            obtain ⟨hy, hrest⟩ := List.cons.inj h
            exact ⟨y, hy, bind_eq_ok_iff.2 ⟨rest, ih.2 hrest, rfl⟩⟩

theorem exists_ok_of_mapM {f : α → Except Failure β} {xs : List α} {ys : List β}
    (h : xs.mapM f = .ok ys) {x : α} (hx : x ∈ xs) : ∃ y, f x = .ok y := by
  have hmem := List.mem_map_of_mem (f := f) hx
  rw [mapM_eq_ok_iff.1 h] at hmem
  obtain ⟨y, -, hy⟩ := List.mem_map.1 hmem
  exact ⟨y, hy.symm⟩

theorem mem_of_mapM_ok {f : α → Except Failure β} {xs : List α} {ys : List β}
    (h : xs.mapM f = .ok ys) {y : β} (hy : y ∈ ys) : ∃ x ∈ xs, f x = .ok y := by
  have hmem : Except.ok y ∈ ys.map (Except.ok : β → Except Failure β) := List.mem_map_of_mem hy
  rw [← mapM_eq_ok_iff.1 h] at hmem
  exact List.mem_map.1 hmem

theorem mem_of_mapM_error {f : α → Except Failure β} {xs : List α} (h : xs.mapM f = .error e) :
    ∃ x ∈ xs, f x = .error e := by
  induction xs with
  | nil => cases h
  | cons x xs ih =>
      rw [List.mapM_cons] at h
      rcases bind_eq_error_iff.1 h with hx | ⟨y, -, h⟩
      · exact ⟨x, by simp, hx⟩
      · rcases bind_eq_error_iff.1 h with hxs | ⟨ys, -, h⟩
        · obtain ⟨x', hx', hfx'⟩ := ih hxs
          exact ⟨x', by simp [hx'], hfx'⟩
        · cases h

end Results

/-! ### What is remembered -/

/-- What is remembered of a file is what its text yields. -/
def NameCache.IsTruthful (c : NameCache Text) (extract : Extractor) (o : CollectOptions) : Prop :=
  ∀ m text names, c.get? m = some (text, names) → extract m text o = some names

theorem NameCache.isTruthful_empty (extract : Extractor) (o : CollectOptions) :
    NameCache.IsTruthful {} extract o :=
  NameCache.isRightAbout_empty

theorem NameCache.IsTruthful.insert {c : NameCache Text} {extract : Extractor} {o : CollectOptions}
    (hc : c.IsTruthful extract o) {m : SourcePath} {text : Text} {names : List Text}
    (h : extract m text o = some names) : (c.insert m text names).IsTruthful extract o := by
  intro m' text' names' hget
  rw [NameCache.get?_insert] at hget
  split at hget
  next hm =>
    subst hm
    simp only [Option.some.injEq, Prod.mk.injEq] at hget
    obtain ⟨rfl, rfl⟩ := hget
    exact h
  next => exact hc m' text' names' hget

/-- By way of what is remembered, a text yields what it yields. -/
theorem NameCache.IsTruthful.findings {c : NameCache Text} {extract : Extractor}
    {o : CollectOptions} (hc : c.IsTruthful extract o) (m : SourcePath) (purged : Text) :
    (c.findings id extract o m purged).1 = Findings.of extract o m purged ∧
      (c.findings id extract o m purged).2.IsTruthful extract o := by
  have hright : ∀ m text, c.IsRightAbout id extract o m text := hc
  -- a text is its own fingerprint, so every two texts are told apart
  exact ⟨(hright m purged).findings_eq, fun m' text =>
    (hright m purged).findings (hright m' text) fun _ htext => htext⟩

/-! ### Looking without changing -/

variable {α β : Type} {tools : Tools} {s : Settings} {t : FileTree}

/-- Whatever is remembered truthfully, the step ends as told, leaves the tree as it is, and remembers
nothing untrue. -/
def Observes (tools : Tools) (s : Settings) (t : FileTree) (x : SyncM α) (r : Except Failure α) :
    Prop :=
  ∀ st : SyncState, st.tree = t → st.cache.IsTruthful tools.extract s.collect →
    ∃ st', x.run st = (r, st') ∧ st'.tree = t ∧ st'.cache.IsTruthful tools.extract s.collect

theorem Observes.pure (a : α) : Observes tools s t (Pure.pure a) (.ok a) :=
  fun st ht hc => ⟨st, rfl, ht, hc⟩

theorem Observes.bind {x : SyncM α} {r : Except Failure α} {f : α → SyncM β}
    {g : α → Except Failure β} (hx : Observes tools s t x r)
    (hf : ∀ a, r = .ok a → Observes tools s t (f a) (g a)) :
    Observes tools s t (x >>= f) (r >>= g) := by
  intro st ht hc
  obtain ⟨mid, hrun, hmid, hcmid⟩ := hx st ht hc
  cases r with
  | error e => exact ⟨mid, SyncM.run_bind_error hrun f, hmid, hcmid⟩
  | ok a =>
      rw [SyncM.run_bind_ok hrun f]
      exact hf a rfl mid hmid hcmid

theorem Observes.andThen {x : SyncM α} {a : α} {f : α → SyncM β} {r : Except Failure β}
    (hx : Observes tools s t x (.ok a)) (hf : Observes tools s t (f a) r) :
    Observes tools s t (x >>= f) r := by
  intro st ht hc
  obtain ⟨mid, hrun, hmid, hcmid⟩ := hx st ht hc
  rw [SyncM.run_bind_ok hrun f]
  exact hf mid hmid hcmid

theorem Observes.bind_ok {x : SyncM α} {r : Except Failure α} {f : α → SyncM β} {g : α → β}
    (hx : Observes tools s t x r) (hf : ∀ a, Observes tools s t (f a) (.ok (g a))) :
    Observes tools s t (x >>= f) (g <$> r) := by
  have h := hx.bind fun a _ => hf a
  cases r <;> exact h

theorem Observes.mapM {γ : Type} {f : γ → SyncM α} {g : γ → Except Failure α} {xs : List γ}
    (h : ∀ x ∈ xs, Observes tools s t (f x) (g x)) :
    Observes tools s t (xs.mapM f) (xs.mapM g) := by
  induction xs with
  | nil => exact .pure []
  | cons x xs ih =>
      rw [List.mapM_cons, List.mapM_cons]
      refine (h x (by simp)).bind fun a _ => ?_
      refine (ih fun y hy => h y (by simp [hy])).bind fun as _ => ?_
      exact .pure (a :: as)

theorem Observes.mapM_ok {γ : Type} {f : γ → SyncM α} {g : γ → α} {xs : List γ}
    (h : ∀ x ∈ xs, Observes tools s t (f x) (.ok (g x))) :
    Observes tools s t (xs.mapM f) (.ok (xs.map g)) := by
  have hmapM := Observes.mapM h
  change Observes tools s t (xs.mapM f) (xs.mapM fun x => Pure.pure (g x)) at hmapM
  rwa [List.mapM_pure] at hmapM

/-- A step that only looks and ends well has ended as told. -/
theorem Observes.of_yields {x : SyncM α} {r : Except Failure α} (h : Observes tools s t x r)
    {st st' : SyncState} {a : α} (ht : st.tree = t)
    (hc : st.cache.IsTruthful tools.extract s.collect) (hx : x.Yields st a st') :
    r = .ok a ∧ st'.tree = t ∧ st'.cache.IsTruthful tools.extract s.collect := by
  obtain ⟨st'', hrun, ht', hc'⟩ := h st ht hc
  rw [SyncM.Yields, hrun] at hx
  injection hx with hr hst
  exact ⟨hr, hst ▸ ht', hst ▸ hc'⟩

/-! ### Reading -/

/-- The text that a tree holds for a file. -/
def sourceIn (t : FileTree) (m : SourcePath) : Except Failure Source :=
  match t.read? m.text with
  | none => .error (.unreadable m.text)
  | some bytes => .ok (.ofBytes bytes)

theorem sourceIn_of_readText? {m : SourcePath} {text : Text} (h : t.readText? m.text = some text) :
    sourceIn t m = .ok { text, lossy := false } := by
  obtain ⟨bytes, hread, hdecode⟩ := Option.bind_eq_some_iff.1 h
  simp [sourceIn, hread, Source.ofBytes, hdecode]

/-- Reading looks at the tree only, and at most adds a warning. -/
theorem run_sourceAt (m : SourcePath) (st : SyncState) :
    ∃ warnings, (sourceAt m).run st = (sourceIn st.tree m, { st with warnings }) := by
  have hrun : (sourceAt m).run st = ExceptT.run (m := StateM SyncState) (
      match st.tree.read? m.text with
      | none => throw (Failure.unreadable m.text)
      | some bytes => do
        if (Source.ofBytes bytes).lossy then
          SyncM.warn (.lossyText m.text)
        return Source.ofBytes bytes) st := rfl
  rw [hrun, sourceIn]
  cases st.tree.read? m.text with
  | none => exact ⟨st.warnings, rfl⟩
  | some bytes =>
      cases hlossy : (Source.ofBytes bytes).lossy with
      | false => exact ⟨st.warnings, by simp only [hlossy]; rfl⟩
      | true => exact ⟨st.warnings ++ [.lossyText m.text], by simp only [hlossy]; rfl⟩

theorem observes_sourceAt (m : SourcePath) : Observes tools s t (sourceAt m) (sourceIn t m) := by
  intro st ht hc
  subst ht
  obtain ⟨warnings, hrun⟩ := run_sourceAt m st
  exact ⟨_, hrun, rfl, hc⟩

theorem observes_findingsOf (m : SourcePath) (purged : Text) :
    Observes tools s t (findingsOf tools s m purged)
      (.ok (Findings.of tools.extract s.collect m purged)) := by
  intro st ht hc
  obtain ⟨hfound, hcache⟩ := hc.findings m purged
  rw [← hfound]
  exact ⟨_, rfl, ht, hcache⟩

theorem run_filesUnder (configured : Text) (st : SyncState) :
    (filesUnder tools s configured).run st =
      (SourcePath.sort <$> tools.walk st.tree (s.resolve configured) s.respectIgnoreFiles, st) := by
  have hget : (get : SyncM SyncState).run st = (.ok st, st) := rfl
  rw [filesUnder, SyncM.run_bind_ok hget]
  cases tools.walk st.tree (s.resolve configured) s.respectIgnoreFiles <;> rfl

theorem observes_filesUnder (configured : Text) :
    Observes tools s t (filesUnder tools s configured)
      (SourcePath.sort <$> tools.walk t (s.resolve configured) s.respectIgnoreFiles) := by
  intro st ht hc
  subst ht
  exact ⟨st, run_filesUnder configured st, rfl, hc⟩

theorem walk_of_yields_filesUnder {configured : Text} {sorted : List SourcePath}
    {st st' : SyncState} (h : (filesUnder tools s configured).Yields st sorted st') :
    st' = st ∧ ∃ files, tools.walk st.tree (s.resolve configured) s.respectIgnoreFiles = .ok files ∧
      sorted = SourcePath.sort files := by
  rw [SyncM.Yields, run_filesUnder] at h
  injection h with hresult hstate
  obtain ⟨files, hfiles, hsorted⟩ := map_eq_ok_iff.1 hresult
  exact ⟨hstate.symm, files, hfiles, hsorted.symm⟩

theorem observes_warn (w : Warning) : Observes tools s t (SyncM.warn w) (.ok ()) :=
  fun st ht hc => ⟨{ st with warnings := st.warnings ++ [w] }, rfl, ht, hc⟩

/-! ### Building the generated module -/

/-- What a module of the given text contributes. -/
def scriptShareOf (tools : Tools) (s : Settings) (m : SourcePath) (source : Source) : Share :=
  let found := Findings.of tools.extract s.collect m (purge s.aggregator.references source.text)
  { statement := some (.named (s.referenceTo m) found.names)
    names := found.names
    parseFailed := found.parseFailed }

/-- What a file of a tree contributes. -/
def shareIn (tools : Tools) (s : Settings) (t : FileTree) (m : SourcePath) :
    Except Failure (Option Share) :=
  match s.kindOf? m with
  | some .script => some <$> scriptShareOf tools s m <$> sourceIn t m
  | some .asset => .ok (some { statement := some (.sideEffect (s.referenceTo m)) })
  | some .custom => .ok (s.customShare? m)
  | none => .ok none

theorem observes_scriptShare (m : SourcePath) :
    Observes tools s t (scriptShare tools s m) (scriptShareOf tools s m <$> sourceIn t m) := by
  refine (observes_sourceAt m).bind_ok fun source => ?_
  exact (observes_findingsOf m _).bind fun found _ => .pure _

theorem observes_share? (m : SourcePath) :
    Observes tools s t (share? tools s m) (shareIn tools s t m) := by
  rw [share?, shareIn]
  cases s.kindOf? m with
  | none => exact .pure none
  | some kind =>
      cases kind with
      | script =>
          change Observes tools s t (scriptShare tools s m >>= _) _
          exact (observes_scriptShare m).bind_ok fun share => .pure (some share)
      | asset => exact .pure _
      | custom => exact .pure _

/-- The files of a tree that one more import root adds to those seen, and what they contribute. -/
def importRootIn (tools : Tools) (s : Settings) (t : FileTree) (seen : List SourcePath)
    (configured : Text) : Except Failure (List SourcePath × List Share) := do
  let files ← SourcePath.sort <$> tools.walk t (s.resolve configured) s.respectIgnoreFiles
  let fresh := unseen seen (files.filter s.isImported)
  let shares ← fresh.mapM (shareIn tools s t)
  return (fresh, shares.filterMap id)

theorem importRootIn_eq_ok_iff {seen fresh : List SourcePath} {configured : Text}
    {shares : List Share} :
    importRootIn tools s t seen configured = .ok (fresh, shares) ↔
      ∃ files given, tools.walk t (s.resolve configured) s.respectIgnoreFiles = .ok files ∧
        fresh = unseen seen ((SourcePath.sort files).filter s.isImported) ∧
        fresh.mapM (shareIn tools s t) = .ok given ∧ shares = given.filterMap id := by
  rw [importRootIn, bind_eq_ok_iff]
  constructor
  · rintro ⟨sorted, hsorted, h⟩
    obtain ⟨files, hfiles, rfl⟩ := map_eq_ok_iff.1 hsorted
    obtain ⟨given, hgiven, h⟩ := bind_eq_ok_iff.1 h
    obtain ⟨rfl, rfl⟩ := Prod.mk.inj (Except.ok.inj h)
    exact ⟨files, given, hfiles, rfl, hgiven, rfl⟩
  · rintro ⟨files, given, hfiles, rfl, hgiven, rfl⟩
    exact ⟨_, map_eq_ok_iff.2 ⟨files, hfiles, rfl⟩, bind_eq_ok_iff.2 ⟨given, hgiven, rfl⟩⟩

theorem importRootIn_eq_error {seen : List SourcePath} {configured : Text} {e : Failure}
    (h : importRootIn tools s t seen configured = .error e) :
    tools.walk t (s.resolve configured) s.respectIgnoreFiles = .error e ∨
      ∃ files, tools.walk t (s.resolve configured) s.respectIgnoreFiles = .ok files ∧
        (unseen seen ((SourcePath.sort files).filter s.isImported)).mapM (shareIn tools s t) =
          .error e := by
  rcases bind_eq_error_iff.1 h with hsorted | ⟨sorted, hsorted, h⟩
  · exact .inl (map_eq_error_iff.1 hsorted)
  · obtain ⟨files, hfiles, rfl⟩ := map_eq_ok_iff.1 hsorted
    rcases bind_eq_error_iff.1 h with hshares | ⟨given, -, h⟩
    · exact .inr ⟨files, hfiles, hshares⟩
    · cases h

/-- The generated module for a tree, on top of what is there. -/
def harvestFromIn (tools : Tools) (s : Settings) (t : FileTree) (seen : List SourcePath)
    (h : Harvest) : List Text → Except Failure Harvest
  | [] => .ok h
  | configured :: others => do
    let (fresh, shares) ← importRootIn tools s t seen configured
    harvestFromIn tools s t (seen ++ fresh) (shares.foldl Harvest.add h) others

theorem observes_harvestFrom (seen : List SourcePath) (h : Harvest) (roots : List Text) :
    Observes tools s t (harvestFrom tools s seen h roots)
      (harvestFromIn tools s t seen h roots) := by
  induction roots generalizing seen h with
  | nil => exact .pure h
  | cons configured others ih =>
      rw [harvestFrom, harvestFromIn]
      refine .bind ?_ fun a _ => ih _ _
      refine (observes_filesUnder configured).bind fun files _ => ?_
      refine (Observes.mapM fun m _ => observes_share? m).bind fun shares _ => ?_
      exact .pure _

theorem harvestFromIn_eq_run (t : FileTree) (seen : List SourcePath) (h : Harvest)
    (roots : List Text) :
    harvestFromIn tools s t seen h roots =
      ((harvestFrom tools s seen h roots).run { tree := t }).1 := by
  have hsteps : Observes tools s t (harvestFrom tools s seen h roots) _ :=
    observes_harvestFrom seen h roots
  obtain ⟨st, hrun, -⟩ := hsteps { tree := t } rfl (NameCache.isTruthful_empty _ _)
  rw [hrun]

/-! ### Settings that differ in their roots or their mode -/

/-- How the generated module is built from given roots depends neither on the roots of the settings nor
on their mode. -/
theorem harvestFrom_with_roots_mode (imports modifies : List Text) (mode : Mode)
    (seen : List SourcePath) (h : Harvest) (roots : List Text) :
    harvestFrom tools { s with importRoots := imports, modifyRoots := modifies, mode } seen h roots =
      harvestFrom tools s seen h roots := by
  induction roots generalizing seen h with
  | nil => rfl
  | cons configured others ih =>
      rw [harvestFrom, harvestFrom]
      have hroot : importRoot tools { s with importRoots := imports, modifyRoots := modifies, mode }
          seen configured = importRoot tools s seen configured := rfl
      simp only [hroot, ih]

theorem harvestFromIn_with_mode (mode : Mode) (t : FileTree) (seen : List SourcePath) (h : Harvest)
    (roots : List Text) :
    harvestFromIn tools { s with mode } t seen h roots = harvestFromIn tools s t seen h roots := by
  have hsteps : harvestFrom tools { s with mode } seen h roots = harvestFrom tools s seen h roots :=
    harvestFrom_with_roots_mode s.importRoots s.modifyRoots mode seen h roots
  rw [harvestFromIn_eq_run, harvestFromIn_eq_run]
  rw [hsteps]

/-- How the modules of given roots are brought up to date does not depend on the roots of the
settings. -/
theorem updateFrom_with_roots (imports modifies : List Text) (exports : ExportSet)
    (seen : List SourcePath) (roots : List Text) :
    updateFrom tools { s with importRoots := imports, modifyRoots := modifies } exports seen roots =
      updateFrom tools s exports seen roots := by
  induction roots generalizing seen with
  | nil => rfl
  | cons configured others ih =>
      rw [updateFrom, updateFrom]
      have hroot : modifyRoot tools { s with importRoots := imports, modifyRoots := modifies } exports
          seen configured = modifyRoot tools s exports seen configured := rfl
      simp only [hroot, ih]

/-! ### Drafts -/

/-- What a module of the given text is to contain. -/
def draftOf (tools : Tools) (s : Settings) (exports : ExportSet) (m : SourcePath)
    (source : Source) : Option Draft :=
  let purged := purge s.aggregator.references source.text
  let found := Findings.of tools.extract s.collect m purged
  if source.lossy then none
  else some {
    path := m
    before := source.text
    after := (s.consumerImport m exports found.names).render ++ '\n' :: purged }

theorem observes_draftFor (exports : ExportSet) (m : SourcePath) :
    Observes tools s t (draftFor tools s exports m)
      (draftOf tools s exports m <$> sourceIn t m) := by
  refine (observes_sourceAt m).bind_ok fun source => ?_
  rw [draftOf]
  split
  · exact (observes_warn _).bind fun _ _ => .pure none
  · exact (observes_findingsOf m _).bind fun found _ => .pure _

/-! ### Writing -/

/-- The tree with the directories in which a file lies, if they can be made. -/
def FileTree.withDirs? (t : FileTree) (p : Text) : Option FileTree :=
  match Path.parent? p with
  | none => some t
  | some dir => if dir.isEmpty then some t else t.createDirs? dir

theorem run_createParent (p : Text) (st : SyncState) :
    (createParent p).run st = match st.tree.withDirs? p with
      | some tree => (.ok (), { st with tree })
      | none => (.error (.uncreatable ((Path.parent? p).getD [])), st) := by
  rw [FileTree.withDirs?]
  cases hparent : Path.parent? p with
  | none => simp only [createParent, hparent]; rfl
  | some dir =>
      cases hempty : dir.isEmpty with
      | true => simp only [createParent, hparent, hempty]; rfl
      | false =>
          have hrun : (createParent p).run st = ExceptT.run (m := StateM SyncState) (
              match st.tree.createDirs? dir with
              | some tree => set { st with tree }
              | none => throw (Failure.uncreatable dir)) st := by
            simp only [createParent, hparent, hempty]
            rfl
          rw [hrun]
          simp only [hempty]
          cases st.tree.createDirs? dir <;> rfl

/-- How writing a text to a file ends, and the tree that it leaves. -/
def FileTree.writing (t : FileTree) (p text : Text) : Except Failure Unit × FileTree :=
  match t.withDirs? p with
  | none => (.error (.uncreatable ((Path.parent? p).getD [])), t)
  | some made =>
    match made.write? p (Utf8.encode text) with
    | none => (.error (.unwritable p), made)
    | some tree => (.ok (), tree)

/-- Writing looks at the tree only, and changes nothing else. -/
theorem run_writeText (p text : Text) (st : SyncState) :
    (writeText p text).run st =
      ((st.tree.writing p text).1, { st with tree := (st.tree.writing p text).2 }) := by
  have hparent := run_createParent p st
  rw [writeText, FileTree.writing]
  cases hmade : st.tree.withDirs? p with
  | none =>
      rw [hmade] at hparent
      exact SyncM.run_bind_error hparent _
  | some made =>
      rw [hmade] at hparent
      rw [SyncM.run_bind_ok hparent]
      change ExceptT.run (m := StateM SyncState) (
        match made.write? p (Utf8.encode text) with
        | some tree => set { st with tree }
        | none => throw (Failure.unwritable p)) { st with tree := made } = _
      cases hwrite : made.write? p (Utf8.encode text) with
      | none => simp only [hwrite]; rfl
      | some tree => simp only [hwrite]; rfl

theorem yields_writeText {p text : Text} {st st' : SyncState} :
    (writeText p text).Yields st () st' ↔
      ∃ made tree, st.tree.withDirs? p = some made ∧
        made.write? p (Utf8.encode text) = some tree ∧ st' = { st with tree } := by
  rw [SyncM.Yields, run_writeText, FileTree.writing]
  constructor
  · intro h
    cases hmade : st.tree.withDirs? p with
    | none =>
        rw [hmade] at h
        cases h
    | some made =>
        simp only [hmade] at h
        cases hwrite : made.write? p (Utf8.encode text) with
        | none =>
            rw [hwrite] at h
            cases h
        | some tree =>
            rw [hwrite] at h
            cases h
            exact ⟨made, tree, rfl, hwrite, rfl⟩
  · rintro ⟨made, tree, hmade, hwrite, rfl⟩
    simp only [hmade, hwrite]

theorem FileTree.WellFormed.of_withDirs? {t made : FileTree} (ht : t.WellFormed) {p : Text}
    (hp : Path.isAbsolute p = true) (h : t.withDirs? p = some made) : made.WellFormed := by
  rw [withDirs?] at h
  cases hparent : Path.parent? p with
  | none =>
      rw [hparent] at h
      exact Option.some.inj h ▸ ht
  | some dir =>
      simp only [hparent] at h
      split at h
      · exact Option.some.inj h ▸ ht
      · rename_i hempty
        refine ht.of_createDirs? ?_ h
        rw [Path.isAbsolute_of_parent? hparent (by simpa using hempty), hp]

/-- Writing keeps a tree well-formed. -/
theorem wellFormed_of_yields_writeText {p text : Text} {st st' : SyncState}
    (ht : st.tree.WellFormed) (hp : Path.isAbsolute p = true)
    (h : (writeText p text).Yields st () st') : st'.tree.WellFormed := by
  obtain ⟨made, tree, hmade, hwrite, rfl⟩ := yields_writeText.1 h
  exact (ht.of_withDirs? hp hmade).of_write? hp hwrite

theorem FileTree.grows_of_withDirs? {t made : FileTree} (ht : t.IsPlain) {p : Text}
    (hstart : t.isDirAt (t.start p) = true) (h : t.withDirs? p = some made) :
    made.IsPlain ∧ t.Grows made ∧ made.workingDir = t.workingDir := by
  rw [withDirs?] at h
  cases hparent : Path.parent? p with
  | none =>
      rw [hparent] at h
      obtain rfl := Option.some.inj h
      exact ⟨ht, .refl t, rfl⟩
  | some dir =>
      simp only [hparent] at h
      split at h
      · obtain rfl := Option.some.inj h
        exact ⟨ht, .refl t, rfl⟩
      · rename_i hempty
        have hsame : t.start dir = t.start p := by
          rw [start, start, Path.isAbsolute_of_parent? hparent (by simpa using hempty)]
        rw [createDirs?_eq, ← start, hsame] at h
        exact createDirsFrom_spec ht (fun x => Path.isPiece_of_mem_pieces) hstart h

/-- Writing to a path of a plain tree. -/
theorem writes_destination {p text : Text} {st st' : SyncState} (ht : st.tree.IsPlain)
    (hstart : st.tree.isDirAt (st.tree.start p) = true)
    (h : (writeText p text).Yields st () st') :
    st.tree.Writes st'.tree (st.tree.destination p) (Utf8.encode text) ∧
      st.tree.isDirAt (st.tree.destination p) = false ∧
      st'.tree.workingDir = st.tree.workingDir ∧ st'.cache = st.cache := by
  obtain ⟨made, tree, hmade, hwrite, rfl⟩ := yields_writeText.1 h
  obtain ⟨hplain, hgrows, hworking⟩ := FileTree.grows_of_withDirs? ht hstart hmade
  have hsame : made.start p = st.tree.start p := by
    rw [FileTree.start, FileTree.start, hworking]
  have hdestination : made.destination p = st.tree.destination p := by
    rw [FileTree.destination, FileTree.destination, hsame]
  have hstart' : made.isDirAt (made.start p) = true := by
    rw [hsame]
    exact FileTree.isDirAt_iff.2 (hgrows.kept (FileTree.isDirAt_iff.1 hstart))
  obtain ⟨hwrites, hnot, hworking'⟩ := FileTree.writes_of_write? hgrows hplain hstart' hwrite
  rw [hdestination] at hwrites hnot
  exact ⟨hwrites, hnot, hworking'.trans hworking, rfl⟩

/-- Writing to a location of a plain tree. -/
theorem writes_of_yields_writeText {l : Location} {text : Text} {st st' : SyncState}
    (ht : st.tree.IsPlain) (hl : ∀ n ∈ l, Path.IsName n)
    (h : (writeText (FileTree.pathOf l) text).Yields st () st') :
    st.tree.Writes st'.tree l (Utf8.encode text) ∧ st'.cache = st.cache := by
  have hstart : st.tree.isDirAt (st.tree.start (FileTree.pathOf l)) = true := st.tree.isDirAt_nil
  obtain ⟨hwrites, -, -, hcache⟩ := writes_destination ht hstart h
  rw [FileTree.destination_pathOf _ hl] at hwrites
  exact ⟨hwrites, hcache⟩

/-- A file that can be read can be written anew, and nothing else changes. -/
theorem yields_writeText_of_holdsFile {p : Text} {l : Location} {old : Utf8.Bytes} {st : SyncState}
    (ht : st.tree.WellFormed) (hp : Path.isAbsolute p = true) (h : st.tree.HoldsFile p l old)
    (text : Text) :
    (writeText p text).Yields st ()
      { st with tree := st.tree.set l (.file (Utf8.encode text)) } := by
  have hmade : st.tree.withDirs? p = some st.tree := by
    rw [FileTree.withDirs?]
    cases hparent : Path.parent? p with
    | none => rfl
    | some dir =>
        have hread := FileTree.read?_eq_some_iff.2 ⟨l, h⟩
        simp only [FileTree.createDirs?_parent ht hp hparent hread, ite_self]
  exact yields_writeText.2 ⟨st.tree, _, hmade, h.write? _, rfl⟩

/-! ### Bringing a file up to date -/

theorem observes_bringUpToDate {c : Comparison} {old new : Text} (h : c.differs old new = false)
    (p : Text) (mode : Mode) :
    Observes tools s t (bringUpToDate p new old c mode) (.ok .unchanged) := by
  unfold bringUpToDate
  rw [h]
  exact .pure Outcome.unchanged

theorem yields_bringUpToDate {c : Comparison} {old new p : Text} {st st' : SyncState}
    {o : Outcome} :
    (bringUpToDate p new old c .write).Yields st o st' ↔
      (c.differs old new = false ∧ o = .unchanged ∧ st' = st) ∨
        (c.differs old new = true ∧ o = .written ∧ (writeText p new).Yields st () st') := by
  unfold bringUpToDate
  cases hdiffers : c.differs old new with
  | false =>
      change (pure Outcome.unchanged : SyncM Outcome).Yields st o st' ↔ _
      rw [SyncM.yields_pure]
      constructor
      · rintro ⟨rfl, rfl⟩
        exact .inl ⟨rfl, rfl, rfl⟩
      · rintro (⟨-, rfl, rfl⟩ | ⟨h, -⟩)
        · exact ⟨rfl, rfl⟩
        · cases h
  | true =>
      change (writeText p new >>= fun _ => pure Outcome.written).Yields st o st' ↔ _
      rw [SyncM.yields_bind]
      constructor
      · rintro ⟨_, mid, hwrite, hpure⟩
        obtain ⟨rfl, rfl⟩ := SyncM.yields_pure.1 hpure
        exact .inr ⟨rfl, rfl, hwrite⟩
      · rintro (⟨h, -⟩ | ⟨-, rfl, hwrite⟩)
        · cases h
        · exact ⟨(), st', hwrite, SyncM.yields_pure.2 ⟨rfl, rfl⟩⟩

theorem yields_bringUpToDate_check {c : Comparison} {old new p : Text} {st st' : SyncState}
    {o : Outcome} :
    (bringUpToDate p new old c .check).Yields st o st' ↔
      o = (if c.differs old new = true then .stale else .unchanged) ∧ st' = st := by
  unfold bringUpToDate
  cases hdiffers : c.differs old new with
  | false =>
      change (pure Outcome.unchanged : SyncM Outcome).Yields st o st' ↔ _
      rw [SyncM.yields_pure]
      exact and_congr eq_comm eq_comm
  | true =>
      change (pure Outcome.stale : SyncM Outcome).Yields st o st' ↔ _
      rw [SyncM.yields_pure]
      exact and_congr eq_comm eq_comm

theorem observes_applyDraft {d : Draft} (h : headLine d.before = headLine d.after) :
    Observes tools s t (applyDraft s d) (.ok { path := d.path, outcome := .unchanged }) := by
  have hsame : Comparison.headLine.differs d.before d.after = false := by
    simp [Comparison.differs, h]
  exact (observes_bringUpToDate hsame d.path.text s.mode).andThen (.pure _)

theorem yields_applyDraft {d : Draft} {u : Update} {st st' : SyncState} :
    (applyDraft s d).Yields st u st' ↔
      ∃ o, (bringUpToDate d.path.text d.after d.before .headLine s.mode).Yields st o st' ∧
        u = { path := d.path, outcome := o } := by
  rw [applyDraft, SyncM.yields_bind]
  constructor
  · rintro ⟨o, mid, h, hpure⟩
    obtain ⟨rfl, rfl⟩ := SyncM.yields_pure.1 hpure
    exact ⟨o, h, rfl⟩
  · rintro ⟨o, h, rfl⟩
    exact ⟨o, st', h, SyncM.yields_pure.2 ⟨rfl, rfl⟩⟩

/-- A modify root is found, all that it adds is drafted, and only then is it applied. -/
theorem steps_of_yields_modifyRoot {exports : ExportSet} {seen fresh : List SourcePath}
    {configured : Text} {updates : List Update} {st st' : SyncState}
    (h : (modifyRoot tools s exports seen configured).Yields st (fresh, updates) st') :
    ∃ files drafts mid,
      tools.walk st.tree (s.resolve configured) s.respectIgnoreFiles = .ok files ∧
      fresh = unseen seen ((SourcePath.sort files).filter s.isModified) ∧
      (fresh.mapM (draftFor tools s exports)).Yields st drafts mid ∧
      ((drafts.filterMap id).mapM (applyDraft s)).Yields mid updates st' := by
  obtain ⟨sorted, start, hsorted, h⟩ := SyncM.yields_bind.1 h
  obtain ⟨rfl, files, hfiles, rfl⟩ := walk_of_yields_filesUnder hsorted
  obtain ⟨drafts, mid, hdrafts, h⟩ := SyncM.yields_bind.1 h
  obtain ⟨applied, last, hupdates, h⟩ := SyncM.yields_bind.1 h
  obtain ⟨hpair, rfl⟩ := SyncM.yields_pure.1 h
  obtain ⟨rfl, rfl⟩ := Prod.mk.inj hpair
  exact ⟨files, drafts, mid, hfiles, rfl, hdrafts, hupdates⟩

end ImportSync
