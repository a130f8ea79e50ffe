import ImportSync.Proofs.Drafts
import ImportSync.Proofs.Order

/-!
Scanning a tree again after files in it were brought up to date. As long as every file but the
aggregator purges to what it purged to before, the same files are found in the same order, and they
contribute the same.
-/

namespace ImportSync

/-! ### Trees with an aggregator -/

/-- A tree without links whose files, the one at the given location apart, have names that are spelled
without backslashes. -/
structure FileTree.IsSourceTree (t : FileTree) (home : Location) : Prop extends t.IsPlain where
  no_backslash : ∀ {l bytes}, l ≠ home → t.get? l = some (.file bytes) → ∀ n ∈ l, '\\' ∉ n

/-- A tree that came from another one by writing the file at the given location, and files that purge
to what they purged to before. -/
structure FileTree.Refreshed (refs : References) (home : Location) (t t' : FileTree) : Prop where
  isPlain : t'.IsPlain
  kept : ∀ {l e}, t.get? l = some e → ∃ e', t'.get? l = some e'
  alike : ∀ {l bytes}, l ≠ home → t.get? l = some (.file bytes) →
    ∃ bytes', t'.get? l = some (.file bytes') ∧
      (Source.ofBytes bytes).Alike refs (Source.ofBytes bytes')
  no_other : ∀ {l bytes'}, l ≠ home → t'.get? l = some (.file bytes') →
    ∃ bytes, t.get? l = some (.file bytes)

namespace FileTree

variable {refs : References} {home : Location} {t t' t'' : FileTree}

theorem Refreshed.refl (ht : t.IsPlain) : t.Refreshed refs home t where
  isPlain := ht
  kept := fun h => ⟨_, h⟩
  alike := fun _ h => ⟨_, h, .refl refs _⟩
  no_other := fun _ h => ⟨_, h⟩

theorem Refreshed.trans (h : t.Refreshed refs home t') (h' : t'.Refreshed refs home t'') :
    t.Refreshed refs home t'' where
  isPlain := h'.isPlain
  kept := fun hl => by
    obtain ⟨e', he'⟩ := h.kept hl
    exact h'.kept he'
  alike := fun hne hl => by
    obtain ⟨bytes', hbytes', halike⟩ := h.alike hne hl
    obtain ⟨bytes'', hbytes'', halike'⟩ := h'.alike hne hbytes'
    exact ⟨bytes'', hbytes'', halike.trans halike'⟩
  no_other := fun hne hl => by
    obtain ⟨bytes', hbytes'⟩ := h'.no_other hne hl
    exact h.no_other hne hbytes'

theorem IsSourceTree.refreshed (ht : t.IsSourceTree home) (h : t.Refreshed refs home t') :
    t'.IsSourceTree home where
  toIsPlain := h.isPlain
  no_backslash := fun hne hl => by
    obtain ⟨bytes, hbytes⟩ := h.no_other hne hl
    exact ht.no_backslash hne hbytes

/-- Writing the file at the location itself refreshes the tree. -/
theorem Writes.refreshed_home {bytes : Utf8.Bytes} (h : t.Writes t' home bytes) :
    t.Refreshed refs home t' where
  isPlain := h.isPlain
  kept := fun {l e} hl => by
    by_cases hne : l = home
    · exact ⟨.file bytes, hne ▸ h.written⟩
    · exact ⟨e, h.kept hne hl⟩
  alike := fun hne hl => ⟨_, h.kept hne hl, .refl refs _⟩
  no_other := fun hne hl => by
    rcases h.added hne hl with hl | hdir
    · exact ⟨_, hl⟩
    · cases hdir

/-- Writing a file that purges to what it purged to before refreshes the tree. -/
theorem Writes.refreshed {k : Location} {old new : Utf8.Bytes} (h : t.Writes t' k new)
    (hold : t.get? k = some (.file old))
    (halike : (Source.ofBytes old).Alike refs (Source.ofBytes new)) :
    t.Refreshed refs home t' where
  isPlain := h.isPlain
  kept := fun {l e} hl => by
    by_cases hne : l = k
    · exact ⟨.file new, hne ▸ h.written⟩
    · exact ⟨e, h.kept hne hl⟩
  alike := fun {l bytes} _ hl => by
    by_cases hk : l = k
    · subst hk
      rw [hold] at hl
      cases hl
      exact ⟨new, h.written, halike⟩
    · exact ⟨bytes, h.kept hk hl, .refl refs _⟩
  no_other := fun {l bytes} _ hl => by
    by_cases hk : l = k
    · exact ⟨old, hk ▸ hold⟩
    · rcases h.added hk hl with hl | hdir
      · exact ⟨bytes, hl⟩
      · cases hdir

/-! ### Files that are found -/

/-- The file lies at the location, which is not that of the aggregator. -/
structure Holds (t : FileTree) (home : Location) (m : SourcePath) (l : Location)
    (bytes : Utf8.Bytes) : Prop where
  path : m.text = pathOf l
  ne_home : l ≠ home
  get? : t.get? l = some (.file bytes)

theorem Holds.of_get? {m : SourcePath} {l : Location} {bytes bytes' : Utf8.Bytes}
    (h : t.Holds home m l bytes) (hget : t'.get? l = some (.file bytes')) :
    t'.Holds home m l bytes' :=
  ⟨h.path, h.ne_home, hget⟩

/-- After a refresh, a file lies where it lay and purges to what it purged to. -/
theorem Holds.refreshed {m : SourcePath} {l : Location} {bytes : Utf8.Bytes}
    (h : t.Holds home m l bytes) (hrefreshed : t.Refreshed refs home t') :
    ∃ bytes', t'.Holds home m l bytes' ∧
      (Source.ofBytes bytes).Alike refs (Source.ofBytes bytes') := by
  obtain ⟨bytes', hget', halike⟩ := hrefreshed.alike h.ne_home h.get?
  exact ⟨bytes', h.of_get? hget', halike⟩

theorem ofText_pathOf {l : Location} (hl : l ≠ []) (h : ∀ n ∈ l, Path.IsName n)
    (hbackslash : ∀ n ∈ l, '\\' ∉ n) : SourcePath.ofText (pathOf l) = ⟨pathOf l⟩ := by
  have hpath : '\\' ∉ pathOf l := by
    intro hmem
    rcases Path.mem_ofPieces hmem with hslash | ⟨n, hn, hc⟩
    · exact absurd hslash (by decide)
    · exact hbackslash n hn hc
  rw [SourcePath.ofText, Path.normalize_eq_self hpath (getLast?_pathOf hl h)]

/-- What is found below a location, the aggregator apart, are the files there. -/
theorem mem_walk_iff (ht : t.IsSourceTree home) {l : Location} (hl : ∀ n ∈ l, Path.IsName n)
    {files : List SourcePath} (h : t.walk (pathOf l) false = .ok files) {m : SourcePath}
    (hm : m ≠ .ofText (pathOf home)) :
    m ∈ files ↔ ∃ k bytes, l <+: k ∧ t.Holds home m k bytes := by
  obtain ⟨e, he⟩ := exists_get?_of_walk ht.toIsPlain hl h
  obtain ⟨files', hfiles', hmem⟩ := walk_pathOf ht.toIsPlain he
  obtain rfl : files = files' := Except.ok.inj (h.symm.trans hfiles')
  -- files are found in the one spelling of their paths, which changes nothing in these
  have hspelled {k : Location} {bytes : Utf8.Bytes} (hne : k ≠ home)
      (hget : t.get? k = some (.file bytes)) : SourcePath.ofText (pathOf k) = ⟨pathOf k⟩ := by
    refine ofText_pathOf ?_ (ht.isName hget) (ht.no_backslash hne hget)
    rintro rfl
    simp at hget
  rw [hmem]
  constructor
  · rintro ⟨k, bytes, hk, hget, rfl⟩
    have hne : k ≠ home := by
      rintro rfl
      exact hm rfl
    exact ⟨k, bytes, hk, by rw [hspelled hne hget], hne, hget⟩
  · rintro ⟨k, bytes, hk, hpath, hne, hget⟩
    refine ⟨k, bytes, hk, hget, ?_⟩
    rw [hspelled hne hget, ← hpath]

/-- After a refresh, the same files are found. -/
theorem Refreshed.walk (h : t.Refreshed refs home t') (ht : t.IsSourceTree home) {l : Location}
    (hl : ∀ n ∈ l, Path.IsName n) {files : List SourcePath}
    (hwalk : t.walk (pathOf l) false = .ok files) :
    ∃ files', t'.walk (pathOf l) false = .ok files' ∧
      ∀ m, m ≠ .ofText (pathOf home) → (m ∈ files ↔ m ∈ files') := by
  obtain ⟨e, he⟩ := exists_get?_of_walk ht.toIsPlain hl hwalk
  obtain ⟨e', he'⟩ := h.kept he
  obtain ⟨files', hfiles', -⟩ := walk_pathOf h.isPlain he'
  refine ⟨files', hfiles', fun m hm => ?_⟩
  rw [mem_walk_iff ht hl hwalk hm, mem_walk_iff (ht.refreshed h) hl hfiles' hm]
  constructor
  · rintro ⟨k, bytes, hk, hholds⟩
    obtain ⟨bytes', hholds', -⟩ := hholds.refreshed h
    exact ⟨k, bytes', hk, hholds'⟩
  · rintro ⟨k, bytes', hk, hholds'⟩
    obtain ⟨bytes, hget⟩ := h.no_other hholds'.ne_home hholds'.get?
    exact ⟨k, bytes, hk, hholds'.of_get? hget⟩

theorem Holds.sourceIn (ht : t.IsPlain) {m : SourcePath} {l : Location} {bytes : Utf8.Bytes}
    (h : t.Holds home m l bytes) : sourceIn t m = .ok (Source.ofBytes bytes) := by
  have hread := (read?_pathOf_iff ht (ht.isName h.get?)).2 h.get?
  rw [← h.path] at hread
  simp [ImportSync.sourceIn, hread]

end FileTree

/-! ### Settings under which files are found as they lie -/

/-- The run starts from an absolute root, its aggregator is named from there, and files are found in the
tree. -/
structure ScansFromRoot (tools : Tools) (s : Settings) : Prop where
  walk : tools.walk = FileTree.walk
  root : Path.isAbsolute s.root = true
  aggregator : ∃ name previous, s.aggregator = .ofNames s.root name previous

/-- The run also takes files as they lie in the tree, whatever ignore files say. -/
structure ScansPlainly (tools : Tools) (s : Settings) : Prop extends ScansFromRoot tools s where
  ignore : s.respectIgnoreFiles = false

/-- The location of the aggregator. -/
def Settings.home (s : Settings) : Location :=
  Path.cleanPieces s.aggregator.path

theorem clean_eq_pathOf {p : Text} (h : Path.isAbsolute p = true) :
    Path.clean p = FileTree.pathOf (Path.cleanPieces (Path.clean p)) := by
  rw [Path.cleanPieces_clean, Path.clean_absolute h, FileTree.pathOf]

namespace ScansFromRoot

variable {tools : Tools} {s : Settings}

theorem isAbsolute_path (h : ScansFromRoot tools s) : Path.isAbsolute s.aggregator.path = true := by
  obtain ⟨name, previous, haggregator⟩ := h.aggregator
  rw [haggregator]
  exact Aggregator.isAbsolute_path h.root name previous

theorem isName_home (h : ScansFromRoot tools s) : ∀ n ∈ s.home, Path.IsName n :=
  fun _ => Path.isName_of_mem_cleanPieces h.isAbsolute_path

theorem path_eq (h : ScansFromRoot tools s) : s.aggregator.path = FileTree.pathOf s.home := by
  obtain ⟨name, previous, haggregator⟩ := h.aggregator
  rw [Settings.home, haggregator]
  exact clean_eq_pathOf (Path.isAbsolute_join h.root _)

theorem sourcePath_eq (h : ScansFromRoot tools s) :
    s.aggregator.sourcePath = .ofText (FileTree.pathOf s.home) := by
  rw [Aggregator.sourcePath, h.path_eq]

theorem resolve_eq (h : ScansFromRoot tools s) (configured : Text) :
    s.resolve configured = FileTree.pathOf (Path.cleanPieces (s.resolve configured)) :=
  clean_eq_pathOf (Path.isAbsolute_join h.root _)

theorem isName_resolve (h : ScansFromRoot tools s) (configured : Text) :
    ∀ n ∈ Path.cleanPieces (s.resolve configured), Path.IsName n :=
  fun _ => Path.isName_of_mem_cleanPieces (Settings.isAbsolute_resolve h.root configured)

/-- The files that a root adds to those seen and that pass a test lie below the root. -/
theorem holds_of_mem_unseen (h : ScansFromRoot tools s) {t : FileTree} (ht : t.IsSourceTree s.home)
    {configured : Text} {files : List SourcePath}
    (hwalk : tools.walk t (s.resolve configured) s.respectIgnoreFiles = .ok files)
    {p : SourcePath → Bool} (hp : ∀ m, p m = true → m ≠ s.aggregator.sourcePath)
    {seen : List SourcePath} {m : SourcePath}
    (hm : m ∈ unseen seen ((SourcePath.sort files).filter p)) :
    ∃ k bytes, Path.cleanPieces (s.resolve configured) <+: k ∧ t.Holds s.home m k bytes := by
  rw [h.walk, h.resolve_eq] at hwalk
  obtain ⟨all, hall, hsublist⟩ := FileTree.sublist_walk_of_ignore hwalk
  obtain ⟨hmem, hpm⟩ := List.mem_filter.1 (mem_unseen.1 hm).1
  have hne := hp m hpm
  rw [h.sourcePath_eq] at hne
  exact (FileTree.mem_walk_iff ht (h.isName_resolve configured) hall hne).1
    (hsublist.subset (SourcePath.mem_sort.1 hmem))

end ScansFromRoot

namespace ScansPlainly

variable {tools : Tools} {s : Settings}

theorem withMode (h : ScansPlainly tools s) (mode : Mode) : ScansPlainly tools { s with mode } :=
  ⟨⟨h.walk, h.root, h.aggregator⟩, h.ignore⟩

/-- After a refresh, a root adds the same files in the same order. -/
theorem unseen_refreshed (h : ScansPlainly tools s) {t t' : FileTree} (ht : t.IsSourceTree s.home)
    {refs : References} (hrefreshed : t.Refreshed refs s.home t') {configured : Text}
    {files : List SourcePath}
    (hwalk : tools.walk t (s.resolve configured) s.respectIgnoreFiles = .ok files)
    {p : SourcePath → Bool} (hp : ∀ m, p m = true → m ≠ s.aggregator.sourcePath)
    (seen : List SourcePath) :
    ∃ files', tools.walk t' (s.resolve configured) s.respectIgnoreFiles = .ok files' ∧
      unseen seen ((SourcePath.sort files').filter p) =
        unseen seen ((SourcePath.sort files).filter p) := by
  rw [h.walk, h.ignore, h.resolve_eq] at hwalk ⊢
  obtain ⟨files', hwalk', hsame⟩ :=
    hrefreshed.walk ht (h.isName_resolve configured) hwalk
  refine ⟨files', hwalk', unseen_sort_congr (fun m hpm => ?_) seen⟩
  have hne := hp m hpm
  rw [h.sourcePath_eq] at hne
  exact (hsame m hne).symm

end ScansPlainly

/-! ### The generated module -/

section Harvest

variable {tools : Tools} {s : Settings} {t t' : FileTree}

theorem ne_sourcePath_of_isImported {m : SourcePath} (h : s.isImported m = true) :
    m ≠ s.aggregator.sourcePath := by
  simp only [Settings.isImported, Bool.and_eq_true, bne_iff_ne] at h
  exact h.1.1

/-- After a refresh, a file contributes what it contributed. -/
theorem shareIn_refreshed (ht : t.IsPlain)
    (h : t.Refreshed s.aggregator.references s.home t') {m : SourcePath} {l : Location}
    {bytes : Utf8.Bytes} (hholds : t.Holds s.home m l bytes) :
    shareIn tools s t' m = shareIn tools s t m := by
  obtain ⟨bytes', hholds', halike⟩ := hholds.refreshed h
  rw [shareIn, shareIn, hholds.sourceIn ht, hholds'.sourceIn h.isPlain]
  cases s.kindOf? m with
  | none => rfl
  | some kind =>
      cases kind with
      | script => exact congrArg (Except.ok ∘ some) (scriptShareOf_alike halike)
      | asset => rfl
      | custom => rfl

theorem importRootIn_refreshed (hs : ScansPlainly tools s) (ht : t.IsSourceTree s.home)
    (h : t.Refreshed s.aggregator.references s.home t') {seen : List SourcePath}
    {configured : Text} {r : List SourcePath × List Share}
    (hr : importRootIn tools s t seen configured = .ok r) :
    importRootIn tools s t' seen configured = .ok r := by
  obtain ⟨files, given, hwalk, hfresh, hgiven, hshares⟩ := importRootIn_eq_ok_iff.1 hr
  obtain ⟨files', hwalk', hfresh'⟩ :=
    hs.unseen_refreshed ht h hwalk (fun _ => ne_sourcePath_of_isImported) seen
  refine importRootIn_eq_ok_iff.2 ⟨files', given, hwalk', hfresh.trans hfresh'.symm, ?_, hshares⟩
  rw [← hgiven]
  refine mapM_congr fun m hm => ?_
  rw [hfresh] at hm
  obtain ⟨k, bytes, -, hholds⟩ :=
    hs.holds_of_mem_unseen ht hwalk (fun _ => ne_sourcePath_of_isImported) hm
  exact shareIn_refreshed ht.toIsPlain h hholds

/-- After a refresh, the generated module is the same. -/
theorem harvestFromIn_refreshed (hs : ScansPlainly tools s) (ht : t.IsSourceTree s.home)
    (h : t.Refreshed s.aggregator.references s.home t') {seen : List SourcePath}
    {harvest result : Harvest} {roots : List Text}
    (hresult : harvestFromIn tools s t seen harvest roots = .ok result) :
    harvestFromIn tools s t' seen harvest roots = .ok result := by
  induction roots generalizing seen harvest with
  | nil => exact hresult
  | cons configured others ih =>
      obtain ⟨r, hroot, hresult⟩ := bind_eq_ok_iff.1 hresult
      exact bind_eq_ok_iff.2 ⟨r, importRootIn_refreshed hs ht h hroot, ih hresult⟩

end Harvest

end ImportSync
