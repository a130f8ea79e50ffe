import ImportSync.Proofs.Contributions

/-!
The file of the aggregator among the files that are found. A run passes over it by the text of its path,
and that text is put together in two ways: the path of the aggregator is its name below the root, and
the path of a file that is found is the way to it below a scanned root. Both lead to the same place, but
they are spelled alike only if the text of the scanned root leads on to the text of the aggregator's path:
not from a single dot, not if one of them is absolute and the other is not, and not through a directory
above that the other path does not go through.

So a scanned root can miss the aggregator, and then its file is read as one of the modules, or written as
one of them, like any other file. Roots that start from an absolute root miss nothing.
-/

namespace ImportSync

/-! ### The spelling of what is found -/

namespace Path

/-- A path without detours. -/
def IsClean (p : Text) : Prop :=
  clean p = p

theorem isClean_clean (p : Text) : IsClean (clean p) := by
  show ofCleanPieces (isAbsolute (clean p)) (cleanPieces (clean p)) = clean p
  rw [isAbsolute_clean, cleanPieces_clean]
  rfl

theorem IsClean.pieces_eq {p : Text} (h : IsClean p) : pieces p = cleanPieces p := by
  conv_lhs => rw [← h]
  exact pieces_clean p

theorem IsClean.ne_nil {p : Text} (h : IsClean p) : p ≠ [] := by
  rintro rfl
  have hdot : clean [] ≠ [] := by decide
  exact hdot h

/-- Unless it is the single dot, a clean path is put together from its pieces. -/
theorem IsClean.eq_ofPieces {p : Text} (h : IsClean p) (hne : p ≠ here) :
    p = ofPieces (isAbsolute p) (cleanPieces p) ∧ (cleanPieces p ≠ [] ∨ isAbsolute p = true) := by
  have htext : ofCleanPieces (isAbsolute p) (cleanPieces p) = p := h
  rw [ofCleanPieces] at htext
  split at htext
  next => exact absurd htext.symm hne
  next hsome =>
    refine ⟨htext.symm, ?_⟩
    rw [Bool.not_eq_true, Bool.and_eq_false_iff, Bool.not_eq_false'] at hsome
    exact hsome.imp_left List.isEmpty_eq_false_iff.1

/-- How a walk spells the path of a file that some names lead to from the walked path. -/
def below (q : Text) (names : List Text) : Text :=
  if names = [] then q else join q (Text.joinWith ['/'] names)

section Below

variable {q : Text} {names : List Text}

theorem isAbsolute_joinWith (hnames : ∀ n ∈ names, IsName n) :
    isAbsolute (Text.joinWith ['/'] names) = false :=
  isAbsolute_ofPieces_false fun n hn => (hnames n hn).toIsPiece

theorem isAbsolute_below (hq : IsClean q) (hnames : ∀ n ∈ names, IsName n) :
    isAbsolute (below q names) = isAbsolute q := by
  obtain ⟨c, rest, rfl⟩ := List.exists_cons_of_ne_nil hq.ne_nil
  rw [below]
  split
  · rfl
  · rw [join, isAbsolute_joinWith hnames]
    simp only [List.isEmpty_cons, Bool.or_self, Bool.false_eq_true, if_false]
    split <;> rfl

theorem pieces_below (hq : IsClean q) (hnames : ∀ n ∈ names, IsName n) :
    pieces (below q names) = cleanPieces q ++ names := by
  rw [below]
  split
  next hnil => rw [hnil, List.append_nil, hq.pieces_eq]
  next =>
    rw [pieces_join (isAbsolute_joinWith hnames), hq.pieces_eq,
      pieces_joinWith fun n hn => (hnames n hn).toIsPiece]

theorem mem_below {c : Char} (h : c ∈ below q names) : c = '/' ∨ c ∈ q ∨ ∃ n ∈ names, c ∈ n := by
  rw [below] at h
  split at h
  · exact .inr (.inl h)
  · rcases mem_join h with h | h | h
    · exact .inl h
    · exact .inr (.inl h)
    · have hpieces : c ∈ ofPieces false names := h
      exact (mem_ofPieces hpieces).imp_right .inr

/-- Below anything but the single dot, the names stand after the pieces of the path. -/
theorem below_eq_ofPieces (hq : IsClean q) (hne : q ≠ here) (hnames : ∀ n ∈ names, IsName n) :
    below q names = ofPieces (isAbsolute q) (cleanPieces q ++ names) := by
  obtain ⟨htext, hsome⟩ := hq.eq_ofPieces hne
  rw [below]
  split
  next hnil => rw [hnil, List.append_nil, ← htext]
  next hnil =>
    conv_lhs => rw [htext]
    exact join_ofPieces (fun p => isPiece_of_mem_cleanPieces) hsome hnil
      fun n hn => (hnames n hn).toIsPiece

/-- Below the single dot, the dot stays. -/
theorem below_here (hnil : names ≠ []) (hnames : ∀ n ∈ names, IsName n) :
    below here names = here ++ '/' :: ofPieces false names := by
  rw [below, if_neg hnil, join, isAbsolute_joinWith hnames]
  rfl

/-- What is found below the single dot is spelled like no clean path. -/
theorem normalize_below_here_ne {a : Text} (ha : IsClean a) (hne : cleanPieces a ≠ [])
    (hnames : ∀ n ∈ names, IsName n) (hslash : '\\' ∉ below here names) :
    normalize (below here names) ≠ a := by
  intro heq
  by_cases hnil : names = []
  · subst hnil
    have hdot : cleanPieces (normalize (below here [])) = [] := by decide
    rw [heq] at hdot
    exact hne hdot
  · have hpieces : ∀ n ∈ names, IsPiece n := fun n hn => (hnames n hn).toIsPiece
    have hsome : ofPieces false names ≠ [] := by
      intro hempty
      have hnone : pieces (ofPieces false names) = names := pieces_ofPieces hpieces
      rw [hempty, pieces_nil] at hnone
      exact hnil hnone.symm
    rw [below_here hnil hnames] at heq hslash
    have hlast : (here ++ '/' :: ofPieces false names).getLast? ≠ some '/' := by
      rw [List.append_cons, List.getLast?_append_of_ne_nil _ hsome]
      exact getLast?_ofPieces hnil hpieces
    rw [normalize_eq_self hslash hlast] at heq
    subst heq
    have hclean := (ha.eq_ofPieces (by simp [here])).1
    have hsplit : List.splitOn '/' (here ++ '/' :: ofPieces false names) =
        cleanPieces (here ++ '/' :: ofPieces false names) := by
      conv_lhs => rw [hclean]
      exact Text.splitOn_joinWith hne fun p hp => (isPiece_of_mem_cleanPieces hp).no_slash
    have hmem : here ∈ cleanPieces (here ++ '/' :: ofPieces false names) := by
      rw [← hsplit, List.splitOn_append_cons_self]
      exact List.mem_append_left _ (by decide)
    exact (isPiece_of_mem_cleanPieces hmem).ne_here rfl

end Below

/-- The one spelling of a path starts where the path does, unless there is nothing but slashes in it. -/
theorem isAbsolute_normalize_eq {p : Text} (h : '\\' ∉ p)
    (hsome : isAbsolute p = true → pieces p ≠ []) : isAbsolute (normalize p) = isAbsolute p := by
  cases hp : isAbsolute p with
  | true =>
      refine (isAbsolute_normalize hp).resolve_left fun hnil => hsome hp ?_
      rw [← pieces_normalize h, hnil, pieces_nil]
  | false =>
      obtain ⟨k, hk⟩ := normalize_append_slashes h
      rw [Bool.eq_false_iff]
      intro hnormal
      obtain ⟨rest, hrest⟩ := eq_slash_cons_of_isAbsolute hnormal
      rw [← hk, hrest] at hp
      cases hp

/-- By the texts of two paths, the second one is at or below the first one. -/
structure LeadsTo (q a : Text) : Prop where
  ne_here : q ≠ here
  isAbsolute_eq : isAbsolute q = isAbsolute a
  pieces_eq : ∃ rest, cleanPieces a = cleanPieces q ++ rest ∧ above ∉ rest

theorem leadsTo_of_absolute {q a : Text} (hq : isAbsolute q = true) (ha : isAbsolute a = true)
    (h : cleanPieces q <+: cleanPieces a) : LeadsTo q a where
  ne_here := by
    rintro rfl
    cases hq
  isAbsolute_eq := by rw [hq, ha]
  pieces_eq := by
    obtain ⟨rest, hrest⟩ := h
    refine ⟨rest, hrest.symm, fun habove => ?_⟩
    have hmem : above ∈ cleanPieces a := hrest ▸ List.mem_append_right _ habove
    exact (isName_of_mem_cleanPieces ha hmem).ne_above rfl

end Path

/-! ### Where paths lead -/

namespace FileTree

variable {t : FileTree}

theorem destination_below (t : FileTree) {q : Text} {names : List Text} (hq : Path.IsClean q)
    (hnames : ∀ n ∈ names, Path.IsName n) :
    t.destination (Path.below q names) = t.destination q ++ names := by
  rw [destination, start, Path.isAbsolute_below hq hnames, Path.pieces_below hq hnames,
    List.foldl_append, foldl_go_names (Path.above_not_mem hnames), ← hq.pieces_eq]
  rfl

/-- The one spelling of a path leads to the same place, unless that is the root. -/
theorem destination_normalize {p : Text} (h : '\\' ∉ p) (hne : t.destination p ≠ []) :
    t.destination (Path.normalize p) = t.destination p := by
  have hsome : Path.isAbsolute p = true → Path.pieces p ≠ [] := by
    intro hp hnil
    rw [destination, start, hp, if_pos rfl, hnil] at hne
    exact hne rfl
  rw [destination, start, Path.isAbsolute_normalize_eq h hsome, Path.pieces_normalize h]
  rfl

/-- Of the paths that lead to one file, the one that is found below a path is the given one exactly if
the walked path leads on to it by its text. -/
theorem ofText_below_eq_iff {q a : Text} {names : List Text} (hq : Path.IsClean q)
    (ha : Path.IsClean a) (hsome : Path.cleanPieces a ≠ []) (hslash : '\\' ∉ a)
    (hnames : ∀ n ∈ names, Path.IsName n) (hbelow : '\\' ∉ Path.below q names)
    (hsame : t.destination q ++ names = t.destination a) :
    SourcePath.ofText (Path.below q names) = .ofText a ↔ Path.LeadsTo q a := by
  have hne : a ≠ Path.here := by
    rintro rfl
    exact hsome (by decide)
  obtain ⟨htext, -⟩ := ha.eq_ofPieces hne
  have hlast : a.getLast? ≠ some '/' := by
    rw [htext]
    exact Path.getLast?_ofPieces hsome fun p => Path.isPiece_of_mem_cleanPieces
  rw [SourcePath.ofText, SourcePath.ofText, SourcePath.mk.injEq, Path.normalize_eq_self hslash hlast]
  by_cases hhere : q = Path.here
  · subst hhere
    exact iff_of_false (Path.normalize_below_here_ne ha hsome hnames hbelow) fun h => h.ne_here rfl
  constructor
  · intro heq
    have hpieces_eq : Path.cleanPieces a = Path.cleanPieces q ++ names := by
      rw [← ha.pieces_eq, ← heq, Path.pieces_normalize hbelow, Path.pieces_below hq hnames]
    refine ⟨hhere, ?_, names, hpieces_eq, Path.above_not_mem hnames⟩
    have habsolute := Path.isAbsolute_normalize_eq hbelow fun _ hnil =>
      hsome (hpieces_eq.trans ((Path.pieces_below hq hnames).symm.trans hnil))
    rw [← heq, habsolute, Path.isAbsolute_below hq hnames]
  · intro h
    obtain ⟨rest, hrest, habove⟩ := h.pieces_eq
    have hstart : t.start q = t.start a := by rw [start, start, h.isAbsolute_eq]
    have hdestination : t.destination a = t.destination q ++ rest := by
      rw [destination, ha.pieces_eq, hrest, List.foldl_append, foldl_go_names habove, ← hstart,
        ← hq.pieces_eq]
      rfl
    obtain rfl : names = rest := List.append_cancel_left (hsame.trans hdestination)
    have hbelow_eq : Path.below q names = a := by
      rw [Path.below_eq_ofPieces hq hhere hnames, ← hrest, h.isAbsolute_eq, ← htext]
    rw [hbelow_eq, Path.normalize_eq_self hslash hlast]

theorem destination_absolute (t : FileTree) {p : Text} (hp : Path.IsClean p)
    (h : Path.isAbsolute p = true) : t.destination p = Path.cleanPieces p := by
  have hnames : ∀ n ∈ Path.cleanPieces p, Path.IsName n := fun n =>
    Path.isName_of_mem_cleanPieces h
  rw [destination, start, h, if_pos rfl, hp.pieces_eq, foldl_go_names (Path.above_not_mem hnames),
    List.nil_append]

theorem destination_congr {t t' : FileTree} (h : t'.workingDir = t.workingDir) (p : Text) :
    t'.destination p = t.destination p := by
  rw [destination, destination, start, start, h]

/-! ### Trees without backslashes -/

/-- A tree without links, in whose names of files and of the working directory no backslash stands. -/
structure IsTidy (t : FileTree) : Prop extends t.IsPlain where
  isDirAt_workingDir : t.isDirAt t.workingDir = true
  workingDir_no_backslash : ∀ n ∈ t.workingDir, '\\' ∉ n
  no_backslash : ∀ {l bytes}, t.get? l = some (.file bytes) → ∀ n ∈ l, '\\' ∉ n

namespace IsTidy

theorem isDirAt_start (ht : t.IsTidy) (p : Text) : t.isDirAt (t.start p) = true :=
  FileTree.isDirAt_start ht.isDirAt_workingDir p

theorem no_backslash_destination (ht : t.IsTidy) {p : Text} (hp : '\\' ∉ p) :
    ∀ n ∈ t.destination p, '\\' ∉ n := by
  intro n hn
  rcases mem_foldl_go hn with hn | hn
  · rw [start] at hn
    split at hn
    · cases hn
    · exact ht.workingDir_no_backslash n hn
  · exact fun hc => hp (Path.mem_of_mem_pieces hn hc)

theorem writes {t' : FileTree} (ht : t.IsTidy) {l : Location} {bytes : Utf8.Bytes}
    (h : t.Writes t' l bytes) (hl : ∀ n ∈ l, '\\' ∉ n) (hdir : t.isDirAt l = false)
    (hworking : t'.workingDir = t.workingDir) : t'.IsTidy where
  toIsPlain := h.isPlain
  isDirAt_workingDir := by
    have hne : t.workingDir ≠ l := by
      rintro rfl
      rw [ht.isDirAt_workingDir] at hdir
      cases hdir
    rw [hworking]
    exact isDirAt_iff.2 (h.kept hne (isDirAt_iff.1 ht.isDirAt_workingDir))
  workingDir_no_backslash := hworking ▸ ht.workingDir_no_backslash
  no_backslash := by
    intro k bytes' hget
    by_cases hk : k = l
    · exact hk ▸ hl
    · exact ht.no_backslash ((h.added hk hget).resolve_right (by simp))

theorem no_backslash_below (ht : t.IsTidy) {q : Text} (hslash : '\\' ∉ q) {names : List Text}
    {bytes : Utf8.Bytes} (hget : t.get? (t.destination q ++ names) = some (.file bytes)) :
    '\\' ∉ Path.below q names := by
  intro hmem
  rcases Path.mem_below hmem with h | h | ⟨n, hn, h⟩
  · exact absurd h (by decide)
  · exact hslash h
  · exact ht.no_backslash hget n (List.mem_append_right _ hn) h

/-- A file that is found below a path lies where its spelling leads. -/
theorem destination_ofText_below (ht : t.IsTidy) {q : Text} (hq : Path.IsClean q)
    (hslash : '\\' ∉ q) {names : List Text} {bytes : Utf8.Bytes}
    (hget : t.get? (t.destination q ++ names) = some (.file bytes)) :
    t.destination (SourcePath.ofText (Path.below q names)).text = t.destination q ++ names := by
  have hnames : ∀ n ∈ names, Path.IsName n := fun n hn =>
    ht.isName hget n (List.mem_append_right _ hn)
  have hdestination := destination_below t hq hnames
  rw [SourcePath.ofText, destination_normalize (ht.no_backslash_below hslash hget), hdestination]
  intro hroot
  rw [← hdestination, hroot] at hget
  simp at hget

/-- A file that is found below a path is spelled by the names that lead to it. -/
theorem exists_names_of_walk (ht : t.IsTidy) {q : Text} {respectIgnore : Bool}
    {files : List SourcePath} (h : t.walk q respectIgnore = .ok files) {m : SourcePath}
    (hm : m ∈ files) :
    ∃ names bytes, t.get? (t.destination q ++ names) = some (.file bytes) ∧
      m = .ofText (Path.below q names) := by
  obtain ⟨all, hall, hsublist⟩ := sublist_walk_of_ignore h
  obtain ⟨l, hlocate, hfound⟩ := eq_of_walk hall
  obtain ⟨rfl, -⟩ := locate?_spec ht.toIsPlain (ht.isDirAt_start q) hlocate
  rcases hfound with ⟨⟨bytes, hget⟩, rfl⟩ | ⟨-, rfl⟩
  · exact ⟨[], bytes, by rw [List.append_nil, hget], List.mem_singleton.1 (hsublist.subset hm)⟩
  · obtain ⟨names, hnames, rfl⟩ := List.mem_map.1 (hsublist.subset hm)
    obtain ⟨hne, bytes, hget⟩ := (mem_reachedFiles_iff ht.toIsPlain hlocate).1 hnames
    exact ⟨names, bytes, hget, by rw [Path.below, if_neg hne]⟩

/-- If ignore files are not asked, every file below a path is found. -/
theorem mem_of_walk (ht : t.IsTidy) {q : Text} {files : List SourcePath}
    (h : t.walk q false = .ok files) {names : List Text} {bytes : Utf8.Bytes}
    (hget : t.get? (t.destination q ++ names) = some (.file bytes)) :
    SourcePath.ofText (Path.below q names) ∈ files := by
  obtain ⟨l, hlocate, hfound⟩ := eq_of_walk h
  obtain ⟨rfl, -⟩ := locate?_spec ht.toIsPlain (ht.isDirAt_start q) hlocate
  rcases hfound with ⟨⟨bytes', hfile⟩, rfl⟩ | ⟨hdir, rfl⟩
  · -- nothing lies below a file
    have hnil : names = [] := by
      by_contra hne
      have hdir := isDirAt_iff.1
        (ht.isDirAt_of_prefix hget (List.prefix_append _ _) (by simpa using hne))
      simp [hdir] at hfile
    simp [Path.below, hnil]
  · have hne : names ≠ [] := by
      rintro rfl
      simp [hdir] at hget
    refine List.mem_map.2 ⟨names, (mem_reachedFiles_iff ht.toIsPlain hlocate).2 ⟨hne, bytes, hget⟩, ?_⟩
    rw [Path.below, if_neg hne]

theorem get?_of_read? (ht : t.IsTidy) {p : Text} {bytes : Utf8.Bytes} (h : t.read? p = some bytes) :
    t.get? (t.destination p) = some (.file bytes) := by
  obtain ⟨l, hl⟩ := read?_eq_some_iff.1 h
  obtain ⟨rfl, -⟩ := locate?_spec ht.toIsPlain (ht.isDirAt_start p) hl.locate?
  exact hl.get?

end IsTidy

end FileTree

/-! ### Roots that miss the aggregator -/

/-- The aggregator has a name below the root, whose path is spelled without backslashes. -/
structure Settings.NamesAggregator (s : Settings) : Prop where
  aggregator : ∃ name previous, s.aggregator = .ofNames s.root name previous
  root : '\\' ∉ s.root

/-- A configured path leads to the aggregator or to a directory that it lies in, but its text does not
lead on to the text of the aggregator's path. -/
def Settings.Misses (s : Settings) (t : FileTree) (configured : Text) : Prop :=
  t.destination (s.resolve configured) <+: t.destination s.aggregator.path ∧
    ¬ Path.LeadsTo (s.resolve configured) s.aggregator.path

/-- The path of a module leads to the file of the aggregator. -/
def Settings.IsOwnFile (s : Settings) (t : FileTree) (m : SourcePath) : Prop :=
  t.destination m.text = t.destination s.aggregator.path

/-- How the file of the aggregator is spelled when it is found below a configured path. -/
def Settings.ownPath (s : Settings) (t : FileTree) (configured : Text) : SourcePath :=
  .ofText (Path.below (s.resolve configured)
    ((t.destination s.aggregator.path).drop (t.destination (s.resolve configured)).length))

/-- A file is found below a configured path. -/
def Settings.Finds (s : Settings) (t : FileTree) (configured : Text) (m : SourcePath) : Prop :=
  ∃ files, t.walk (s.resolve configured) s.respectIgnoreFiles = .ok files ∧ m ∈ files

section Settings

variable {s : Settings} {t t' : FileTree}

theorem Settings.misses_congr (h : t'.workingDir = t.workingDir) (configured : Text) :
    s.Misses t' configured ↔ s.Misses t configured := by
  rw [Misses, Misses, FileTree.destination_congr h, FileTree.destination_congr h]

theorem Settings.ownPath_congr (h : t'.workingDir = t.workingDir) (configured : Text) :
    s.ownPath t' configured = s.ownPath t configured := by
  rw [ownPath, ownPath, FileTree.destination_congr h, FileTree.destination_congr h]

theorem Settings.isOwnFile_congr (h : t'.workingDir = t.workingDir) (m : SourcePath) :
    s.IsOwnFile t' m ↔ s.IsOwnFile t m := by
  rw [IsOwnFile, IsOwnFile, FileTree.destination_congr h, FileTree.destination_congr h]

/-- Below a path that leads towards the aggregator, its file is spelled by the names that are left. -/
theorem Settings.ownPath_eq {configured : Text} {names : List Text}
    (h : t.destination (s.resolve configured) ++ names = t.destination s.aggregator.path) :
    s.ownPath t configured = .ofText (Path.below (s.resolve configured) names) := by
  rw [ownPath, ← h, List.drop_left]

/-- If ignore files are not asked, the file of the aggregator is found below every root that misses it. -/
theorem Settings.ownPath_mem_of_misses (ht : t.IsTidy) (hignore : s.respectIgnoreFiles = false)
    {configured : Text} (hmisses : s.Misses t configured) {bytes : Utf8.Bytes}
    (hget : t.get? (t.destination s.aggregator.path) = some (.file bytes)) {files : List SourcePath}
    (hwalk : t.walk (s.resolve configured) s.respectIgnoreFiles = .ok files) :
    s.ownPath t configured ∈ files := by
  obtain ⟨names, hnames⟩ := hmisses.1
  rw [← hnames] at hget
  rw [Settings.ownPath_eq hnames]
  exact ht.mem_of_walk (hignore ▸ hwalk) hget

theorem Settings.isClean_resolve (s : Settings) (configured : Text) :
    Path.IsClean (s.resolve configured) :=
  Path.isClean_clean _

theorem no_backslash_clean_join {dir p : Text} (hdir : '\\' ∉ dir) (hp : '\\' ∉ p) :
    '\\' ∉ Path.clean (Path.join dir p) := by
  intro hmem
  rcases Path.mem_clean hmem with h | h | h
  · exact absurd h (by decide)
  · exact absurd h (by decide)
  · rcases Path.mem_join h with h | h | h
    · exact absurd h (by decide)
    · exact hdir h
    · exact hp h

namespace Settings.NamesAggregator

theorem isClean_path (hs : s.NamesAggregator) : Path.IsClean s.aggregator.path := by
  obtain ⟨name, previous, haggregator⟩ := hs.aggregator
  rw [haggregator]
  exact Path.isClean_clean _

theorem no_backslash_path (hs : s.NamesAggregator) : '\\' ∉ s.aggregator.path := by
  obtain ⟨name, previous, haggregator⟩ := hs.aggregator
  rw [haggregator]
  exact no_backslash_clean_join hs.root (backslash_not_mem_aggregatorFileName name)

theorem no_backslash_resolve (hs : s.NamesAggregator) (configured : Text) :
    '\\' ∉ s.resolve configured :=
  no_backslash_clean_join hs.root (Path.no_backslash_of_normalize configured)

theorem cleanPieces_path_ne_nil (hs : s.NamesAggregator) :
    Path.cleanPieces s.aggregator.path ≠ [] := by
  obtain ⟨name, previous, haggregator⟩ := hs.aggregator
  have hpath : Path.cleanPieces s.aggregator.path =
      Path.cleanPieces (Path.join s.root (aggregatorFileName name)) := by
    rw [haggregator]
    exact Path.cleanPieces_clean _
  obtain ⟨cleaned, x, hcleaned⟩ := cleanPieces_join_aggregatorFileName s.root name
  rw [hpath, hcleaned]
  simp

/-- Below a root, the file of the aggregator is found under one path. That is the aggregator's own path,
unless the root misses it. -/
theorem eq_ownPath_of_finds (hs : s.NamesAggregator) (ht : t.IsTidy) {configured : Text}
    {m : SourcePath} (hfinds : s.Finds t configured m) (hown : s.IsOwnFile t m) :
    m = s.ownPath t configured ∧ (m = s.aggregator.sourcePath ↔ ¬ s.Misses t configured) := by
  obtain ⟨files, hwalk, hm⟩ := hfinds
  have hclean := s.isClean_resolve configured
  have hslash := hs.no_backslash_resolve configured
  obtain ⟨names, bytes, hget, rfl⟩ := ht.exists_names_of_walk hwalk hm
  have hnames : ∀ n ∈ names, Path.IsName n := fun n hn =>
    ht.isName hget n (List.mem_append_right _ hn)
  have hsame := (ht.destination_ofText_below hclean hslash hget).symm.trans hown
  have hspelled := FileTree.ofText_below_eq_iff hclean hs.isClean_path hs.cleanPieces_path_ne_nil
    hs.no_backslash_path hnames (ht.no_backslash_below hslash hget) hsame
  have habove : t.destination (s.resolve configured) <+: t.destination s.aggregator.path :=
    ⟨names, hsame⟩
  refine ⟨(Settings.ownPath_eq hsame).symm, ?_⟩
  rw [Aggregator.sourcePath, hspelled, Settings.Misses, not_and_not_right]
  exact ⟨fun h _ => h, fun h => h habove⟩

/-- The path under which the file of the aggregator is found leads to it. -/
theorem isOwnFile_ownPath (hs : s.NamesAggregator) (ht : t.IsTidy) {configured : Text}
    (hmisses : s.Misses t configured) {bytes : Utf8.Bytes}
    (hget : t.get? (t.destination s.aggregator.path) = some (.file bytes)) :
    s.IsOwnFile t (s.ownPath t configured) := by
  obtain ⟨names, hnames⟩ := hmisses.1
  rw [← hnames] at hget
  rw [Settings.IsOwnFile, Settings.ownPath_eq hnames, ← hnames]
  exact ht.destination_ofText_below (s.isClean_resolve configured)
    (hs.no_backslash_resolve configured) hget

/-- From an absolute root, nothing is missed. -/
theorem not_misses_of_absolute (hs : s.NamesAggregator) (h : Path.isAbsolute s.root = true)
    (configured : Text) : ¬ s.Misses t configured := by
  obtain ⟨name, previous, haggregator⟩ := hs.aggregator
  have hpath : Path.isAbsolute s.aggregator.path = true := by
    rw [haggregator]
    exact Aggregator.isAbsolute_path h name previous
  have hresolve := Settings.isAbsolute_resolve h configured
  rintro ⟨habove, hnot⟩
  rw [t.destination_absolute (s.isClean_resolve configured) hresolve,
    t.destination_absolute hs.isClean_path hpath] at habove
  exact hnot (Path.leadsTo_of_absolute hresolve hpath habove)

end Settings.NamesAggregator

end Settings

/-! ### What a run does to the file -/

section Run

variable {extract : Extractor} {s : Settings} {exports : ExportSet}

/-- A file with a well-formed text lies at a location. -/
def FileTree.IsTextAt (t : FileTree) (l : Location) : Prop :=
  ∃ text, t.HoldsText l text

/-- A tidy tree that came from another one by writing texts at some places, and at no other. -/
structure FileTree.ChangedAt (t t' : FileTree) (places : List Location) : Prop where
  isTidy : t'.IsTidy
  workingDir : t'.workingDir = t.workingDir
  isTextAt : ∀ {l}, t.IsTextAt l → t'.IsTextAt l
  spared : ∀ {l}, l ∉ places →
    ∀ bytes, t'.get? l = some (.file bytes) ↔ t.get? l = some (.file bytes)

/-- The places that updates are about. -/
def FileTree.placesOf (t : FileTree) (us : List Update) : List Location :=
  us.map fun u => t.destination u.path.text

namespace FileTree

variable {t t' t'' : FileTree}

theorem ChangedAt.refl (ht : t.IsTidy) (places : List Location) : t.ChangedAt t places where
  isTidy := ht
  workingDir := rfl
  isTextAt := id
  spared := fun _ _ => Iff.rfl

theorem ChangedAt.trans {places places' : List Location} (h : t.ChangedAt t' places)
    (h' : t'.ChangedAt t'' places') : t.ChangedAt t'' (places ++ places') where
  isTidy := h'.isTidy
  workingDir := h'.workingDir.trans h.workingDir
  isTextAt := fun hl => h'.isTextAt (h.isTextAt hl)
  spared := by
    intro l hl bytes
    rw [List.mem_append, not_or] at hl
    rw [h'.spared hl.2, h.spared hl.1]

theorem placesOf_congr (h : t'.workingDir = t.workingDir) (us : List Update) :
    t'.placesOf us = t.placesOf us :=
  List.map_congr_left fun u _ => destination_congr h u.path.text

theorem ChangedAt.append {us us' : List Update} (h : t.ChangedAt t' (t.placesOf us))
    (h' : t'.ChangedAt t'' (t'.placesOf us')) : t.ChangedAt t'' (t.placesOf (us ++ us')) := by
  rw [placesOf_congr h.workingDir] at h'
  rw [placesOf, List.map_append]
  exact h.trans h'

end FileTree

/-- A file that is brought up to date is written, or everything stays as it is. -/
theorem changedAt_of_bringUpToDate {p new old : Text} {c : Comparison} {mode : Mode} {o : Outcome}
    {st st' : SyncState} (ht : st.tree.IsTidy) (hp : '\\' ∉ p)
    (h : (bringUpToDate p new old c mode).Yields st o st') :
    st.tree.ChangedAt st'.tree [st.tree.destination p] ∧ st'.cache = st.cache := by
  have hcases : st' = st ∨ (writeText p new).Yields st () st' := by
    cases mode with
    | check => exact .inl (yields_bringUpToDate_check.1 h).2
    | write =>
        rcases yields_bringUpToDate.1 h with ⟨-, -, hsame⟩ | ⟨-, -, hwrite⟩
        · exact .inl hsame
        · exact .inr hwrite
  rcases hcases with rfl | hwrite
  · exact ⟨.refl ht _, rfl⟩
  · obtain ⟨hwrites, hdir, hworking, hcache⟩ :=
      writes_destination ht.toIsPlain (ht.isDirAt_start p) hwrite
    refine ⟨⟨ht.writes hwrites (ht.no_backslash_destination hp) hdir hworking, hworking, ?_, ?_⟩,
      hcache⟩
    · rintro l ⟨text, bytes, hget, hdecode⟩
      by_cases hl : l = st.tree.destination p
      · exact ⟨new, _, hl ▸ hwrites.written, Utf8.decode?_encode new⟩
      · exact ⟨text, bytes, hwrites.kept hl hget, hdecode⟩
    · intro l hl bytes
      have hne : l ≠ st.tree.destination p := by simpa using hl
      constructor
      · intro hget
        exact (hwrites.added hne hget).resolve_right (by simp)
      · exact hwrites.kept hne

theorem changedAt_of_applyDrafts {ds : List Draft} {us : List Update} {st st' : SyncState}
    (ht : st.tree.IsTidy) (hds : ∀ d ∈ ds, '\\' ∉ d.path.text)
    (h : (ds.mapM (applyDraft s)).Yields st us st') :
    st.tree.ChangedAt st'.tree (st.tree.placesOf us) ∧ us.map (·.path) = ds.map (·.path) ∧
      st'.cache = st.cache := by
  induction ds generalizing st us with
  | nil =>
      rw [List.mapM_nil] at h
      obtain ⟨rfl, rfl⟩ := SyncM.yields_pure.1 h
      exact ⟨.refl ht _, rfl, rfl⟩
  | cons d ds ih =>
      rw [List.mapM_cons, SyncM.yields_bind] at h
      obtain ⟨u, mid, hfirst, hrest⟩ := h
      obtain ⟨us, last, hlater, hpure⟩ := SyncM.yields_bind.1 hrest
      obtain ⟨rfl, rfl⟩ := SyncM.yields_pure.1 hpure
      obtain ⟨o, hbring, rfl⟩ := yields_applyDraft.1 hfirst
      obtain ⟨hchanged, hcache⟩ := changedAt_of_bringUpToDate ht (hds d (by simp)) hbring
      obtain ⟨hchanged', hpaths, hcache'⟩ :=
        ih hchanged.isTidy (fun d' hd' => hds d' (by simp [hd'])) hlater
      have hone : st.tree.ChangedAt mid.tree (st.tree.placesOf [⟨d.path, o⟩]) := hchanged
      refine ⟨hone.append hchanged', ?_, hcache'.trans hcache⟩
      rw [List.map_cons, List.map_cons, hpaths]

/-- A module that is read where a text lies is drafted. -/
theorem exists_draftOf {t : FileTree} (ht : t.IsTidy) {m : SourcePath} {x : Source}
    (hx : sourceIn t m = .ok x) (htext : t.IsTextAt (t.destination m.text)) :
    ∃ d, draftOf { extract } s exports m (sourceOf t m) = some d := by
  obtain ⟨text, bytes, hget, hdecode⟩ := htext
  rw [sourceIn] at hx
  cases hread : t.read? m.text with
  | none =>
      rw [hread] at hx
      cases hx
  | some bytes' =>
      have hget' := ht.get?_of_read? hread
      rw [hget] at hget'
      obtain rfl := Entry.file.inj (Option.some.inj hget')
      have hsource : sourceOf t m = { text, lossy := false } := by
        refine sourceOf_eq (sourceIn_of_readText? ?_)
        rw [FileTree.readText?, hread]
        exact hdecode
      exact ⟨_, draftOf_eq_some_iff.2 ⟨by rw [hsource], rfl⟩⟩

/-- What becomes of a tree when the modules that a root adds are brought up to date: every update is about
one of them, and every one of them that is well-formed has an update. -/
structure UpdatesRoot (extract : Extractor) (s : Settings) (seen : List SourcePath) (configured : Text)
    (fresh : List SourcePath) (us : List Update) (t t' : FileTree) : Prop where
  adds : AddsModules { extract } s t seen configured fresh
  changed : t.ChangedAt t' (t.placesOf us)
  mem_fresh : ∀ u ∈ us, u.path ∈ fresh
  exists_update : ∀ m ∈ fresh, t.IsTextAt (t.destination m.text) → ∃ u ∈ us, u.path = m

theorem updatesRoot_of_modifyRoot {configured : Text} {seen fresh : List SourcePath}
    {us : List Update} {st st' : SyncState} (ht : st.tree.IsTidy)
    (hc : st.cache.IsTruthful extract s.collect)
    (h : (modifyRoot { extract } s exports seen configured).Yields st (fresh, us) st') :
    UpdatesRoot extract s seen configured fresh us st.tree st'.tree ∧
      st'.cache.IsTruthful extract s.collect := by
  obtain ⟨hadds, hreadable, mid, htree, hcmid, hupdates⟩ := exists_yields_of_modifyRoot hc h
  have hfresh : ∀ d ∈ draftsOf { extract } s exports st.tree fresh, d.path ∈ fresh := by
    intro d hd
    obtain ⟨m, hm, hdraft⟩ := List.mem_filterMap.1 hd
    exact path_of_draftOf hdraft ▸ hm
  have hslash : ∀ d ∈ draftsOf { extract } s exports st.tree fresh, '\\' ∉ d.path.text := by
    intro d hd
    obtain ⟨files, hwalk, rfl⟩ := hadds
    have hmem := (List.mem_filter.1 (mem_unseen.1 (hfresh d hd)).1).1
    obtain ⟨names, bytes, -, hpath⟩ := ht.exists_names_of_walk hwalk (SourcePath.mem_sort.1 hmem)
    rw [hpath]
    exact Path.no_backslash_of_normalize _
  obtain ⟨hchanged, hpaths, hcache⟩ := changedAt_of_applyDrafts (htree ▸ ht) hslash hupdates
  rw [htree] at hchanged
  refine ⟨⟨hadds, hchanged, fun u hu => ?_, fun m hm htext => ?_⟩, hcache ▸ hcmid⟩
  · have hmem : u.path ∈ us.map (·.path) := List.mem_map_of_mem hu
    rw [hpaths] at hmem
    obtain ⟨d, hd, hpath⟩ := List.mem_map.1 hmem
    exact hpath ▸ hfresh d hd
  · obtain ⟨x, hx⟩ := hreadable m hm
    obtain ⟨d, hdraft⟩ : ∃ d, draftOf { extract } s exports m (sourceOf st.tree m) = some d :=
      exists_draftOf ht hx htext
    have hmem : m ∈ us.map (·.path) := by
      rw [hpaths]
      exact List.mem_map.2 ⟨d, List.mem_filterMap.2 ⟨m, hm, hdraft⟩, path_of_draftOf hdraft⟩
    exact List.mem_map.1 hmem

/-- An update that is about the aggregator comes from a root that misses it. -/
theorem UpdatesRoot.misses (hs : s.NamesAggregator) {seen fresh : List SourcePath}
    {configured : Text} {us : List Update} {t t' : FileTree} (ht : t.IsTidy)
    (h : UpdatesRoot extract s seen configured fresh us t t') {u : Update} (hu : u ∈ us)
    (hown : s.IsOwnFile t u.path) :
    s.Misses t configured ∧ u.path = s.ownPath t configured := by
  have hmem := h.mem_fresh u hu
  obtain ⟨files, hwalk, rfl⟩ := h.adds
  obtain ⟨hsorted, hmodified⟩ := List.mem_filter.1 (mem_unseen.1 hmem).1
  obtain ⟨hpath, hpassed⟩ :=
    hs.eq_ownPath_of_finds ht ⟨files, hwalk, SourcePath.mem_sort.1 hsorted⟩ hown
  refine ⟨by_contra fun hmisses => ?_, hpath⟩
  exact ne_sourcePath_of_isModified hmodified (hpassed.2 hmisses)

/-- A root that misses the aggregator adds its file to the modules, unless it was seen under that path. -/
theorem UpdatesRoot.mem_fresh_of_misses (hignore : s.respectIgnoreFiles = false)
    {seen fresh : List SourcePath} {configured : Text} {us : List Update} {t t' : FileTree}
    (ht : t.IsTidy) (h : UpdatesRoot extract s seen configured fresh us t t')
    (htext : t.IsTextAt (t.destination s.aggregator.path)) (hmisses : s.Misses t configured)
    (hmodified : s.isModified (s.ownPath t configured) = true)
    (hseen : s.ownPath t configured ∉ seen) : s.ownPath t configured ∈ fresh := by
  obtain ⟨text, bytes, hget, -⟩ := htext
  obtain ⟨files, hwalk, rfl⟩ := h.adds
  have hmem := Settings.ownPath_mem_of_misses ht hignore hmisses hget hwalk
  exact mem_unseen.2 ⟨List.mem_filter.2 ⟨SourcePath.mem_sort.2 hmem, hmodified⟩, hseen⟩

theorem changedAt_of_updateFrom (hs : s.NamesAggregator) {roots : List Text}
    {seen : List SourcePath} {us : List Update} {st st' : SyncState} (ht : st.tree.IsTidy)
    (hc : st.cache.IsTruthful extract s.collect)
    (h : (updateFrom { extract } s exports seen roots).Yields st us st') :
    st.tree.ChangedAt st'.tree (st.tree.placesOf us) ∧
      ∀ u ∈ us, s.IsOwnFile st.tree u.path →
        ∃ c ∈ roots, s.Misses st.tree c ∧ u.path = s.ownPath st.tree c := by
  induction roots generalizing seen us st with
  | nil =>
      obtain ⟨rfl, rfl⟩ := SyncM.yields_pure.1 h
      exact ⟨.refl ht _, by simp⟩
  | cons configured others ih =>
      obtain ⟨⟨fresh, first⟩, mid, hroot, h⟩ := SyncM.yields_bind.1 h
      obtain ⟨later, last, hlater, hpure⟩ := SyncM.yields_bind.1 h
      obtain ⟨rfl, rfl⟩ := SyncM.yields_pure.1 hpure
      obtain ⟨hupdates, hcmid⟩ := updatesRoot_of_modifyRoot ht hc hroot
      have hworking := hupdates.changed.workingDir
      obtain ⟨hchanged, hown'⟩ := ih hupdates.changed.isTidy hcmid hlater
      refine ⟨hupdates.changed.append hchanged, fun u hu hown => ?_⟩
      rcases List.mem_append.1 hu with hu | hu
      · exact ⟨configured, by simp, hupdates.misses hs ht hu hown⟩
      · obtain ⟨c, hc, hmisses, hpath⟩ := hown' u hu ((Settings.isOwnFile_congr hworking _).2 hown)
        exact ⟨c, by simp [hc], (Settings.misses_congr hworking c).1 hmisses,
          hpath.trans (Settings.ownPath_congr hworking c)⟩

/-- If the file of the aggregator has a text and counts as a module below a root that misses it, it is
updated under the path that it has there. -/
theorem exists_update_of_misses (hs : s.NamesAggregator) (hignore : s.respectIgnoreFiles = false)
    {roots : List Text} {seen : List SourcePath} {us : List Update} {st st' : SyncState}
    (ht : st.tree.IsTidy) (hc : st.cache.IsTruthful extract s.collect)
    (h : (updateFrom { extract } s exports seen roots).Yields st us st')
    (htext : st.tree.IsTextAt (st.tree.destination s.aggregator.path)) {c : Text}
    (hroots : c ∈ roots) (hmisses : s.Misses st.tree c)
    (hmodified : s.isModified (s.ownPath st.tree c) = true) (hseen : s.ownPath st.tree c ∉ seen) :
    ∃ u ∈ us, u.path = s.ownPath st.tree c := by
  induction roots generalizing seen us st with
  | nil => cases hroots
  | cons configured others ih =>
      obtain ⟨⟨fresh, first⟩, mid, hroot, h⟩ := SyncM.yields_bind.1 h
      obtain ⟨later, last, hlater, hpure⟩ := SyncM.yields_bind.1 h
      obtain ⟨rfl, rfl⟩ := SyncM.yields_pure.1 hpure
      obtain ⟨hupdates, hcmid⟩ := updatesRoot_of_modifyRoot ht hc hroot
      by_cases hfresh : s.ownPath st.tree c ∈ fresh
      · obtain ⟨text, bytes, hget, hdecode⟩ := htext
        have hown := hs.isOwnFile_ownPath ht hmisses hget
        obtain ⟨u, hu, hpath⟩ := hupdates.exists_update _ hfresh
          ⟨text, bytes, by rw [hown]; exact hget, hdecode⟩
        exact ⟨u, List.mem_append_left _ hu, hpath⟩
      · -- the path is still to be seen, so that the root is one of the others
        have hother : c ∈ others := by
          refine (List.mem_cons.1 hroots).resolve_left ?_
          rintro rfl
          exact hfresh (hupdates.mem_fresh_of_misses hignore ht htext hmisses hmodified hseen)
        have hworking := hupdates.changed.workingDir
        rw [← Settings.misses_congr hworking] at hmisses
        rw [← Settings.ownPath_congr hworking] at hmodified hseen hfresh ⊢
        have htext' : mid.tree.IsTextAt (mid.tree.destination s.aggregator.path) := by
          rw [FileTree.destination_congr hworking]
          exact hupdates.changed.isTextAt htext
        obtain ⟨u, hu, hpath⟩ := ih hupdates.changed.isTidy hcmid hlater htext' hother hmisses
          hmodified (by simp [hseen, hfresh])
        exact ⟨u, List.mem_append_right _ hu, hpath⟩

/-- A run that writes leaves a text at the path of the aggregator. -/
theorem isTextAt_of_syncAggregator (hmode : s.mode = .write) {d : Document} {o : Outcome}
    {st st' : SyncState} (ht : st.tree.IsTidy) (h : (syncAggregator s d).Yields st o st') :
    st'.tree.IsTextAt (st.tree.destination s.aggregator.path) := by
  rw [yields_syncAggregator_iff, hmode, yields_bringUpToDate] at h
  rcases h with ⟨hdiffers, -, rfl⟩ | ⟨-, -, hwrite⟩
  · obtain ⟨bytes, old, hread, hdecode, -⟩ := exists_readText?_of_not_differs hdiffers
    exact ⟨old, bytes, ht.get?_of_read? hread, hdecode⟩
  · obtain ⟨hwrites, -⟩ := writes_destination ht.toIsPlain (ht.isDirAt_start _) hwrite
    exact ⟨d.render, _, hwrites.written, Utf8.decode?_encode d.render⟩

/-! ### What takes part -/

theorem mem_flatten_iff_finds {t : FileTree} {roots : List Text} {found : List (List SourcePath)}
    (h : List.Forall₂ (FindsInOrder { extract } s t) roots found) {m : SourcePath} :
    m ∈ found.flatten ↔ ∃ c ∈ roots, s.Finds t c m := by
  induction h with
  | nil => simp
  | cons hfirst _ ih =>
      obtain ⟨files, hwalk, hperm, -⟩ := hfirst
      rw [List.flatten_cons, List.mem_append, ih, List.exists_mem_cons_iff, hperm.mem_iff]
      refine or_congr_left ⟨fun hm => ⟨files, hwalk, hm⟩, ?_⟩
      rintro ⟨files', hwalk', hm⟩
      obtain rfl := Except.ok.inj (hwalk.symm.trans hwalk')
      exact hm

/-- A path that leads to the aggregator takes part exactly if it is found below a root that misses it. -/
theorem mem_participants_iff_of_isOwnFile {t : FileTree} (hs : s.NamesAggregator) (ht : t.IsTidy)
    {found : List (List SourcePath)}
    (h : List.Forall₂ (FindsInOrder { extract } s t) s.importRoots found) {m : SourcePath}
    (hown : s.IsOwnFile t m) :
    m ∈ s.participants found ↔ s.passes m = true ∧ (s.kindOf? m).isSome = true ∧
      ∃ c ∈ s.importRoots, s.Misses t c ∧ s.Finds t c m := by
  have himported : s.isImported m = true ↔
      m ≠ s.aggregator.sourcePath ∧ s.passes m = true ∧ (s.kindOf? m).isSome = true := by
    simp only [Settings.isImported, Bool.and_eq_true, bne_iff_ne, and_assoc]
  rw [Settings.participants, List.mem_eraseDups, List.mem_filter, mem_flatten_iff_finds h, himported]
  constructor
  · rintro ⟨⟨c, hc, hfinds⟩, hne, hpasses, hkind⟩
    refine ⟨hpasses, hkind, c, hc, by_contra fun hmisses => ?_, hfinds⟩
    exact hne ((hs.eq_ownPath_of_finds ht hfinds hown).2.2 hmisses)
  · rintro ⟨hpasses, hkind, c, hc, hmisses, hfinds⟩
    refine ⟨⟨c, hc, hfinds⟩, fun heq => ?_, hpasses, hkind⟩
    exact (hs.eq_ownPath_of_finds ht hfinds hown).2.1 heq hmisses

/-- The file of the aggregator takes part in a run where a root misses it, and only there. From an absolute
root nothing is missed. The generated module is made of files of which a path that leads to the aggregator
is one exactly if it is found below an import root that misses it. An update that is about the aggregator
comes from a modify root that misses it; without one, the file is left as it was when the generated module
was brought up to date, and with one, a run that writes and asks no ignore files updates it if it counts as
a module there. -/
theorem aggregator_takes_part_where_missed {t : FileTree} {r : RunReport} (hs : s.NamesAggregator)
    (ht : t.IsTidy) (h : (sync { extract } s t).result = .ok r) :
    (Path.isAbsolute s.root = true → ∀ c, ¬ s.Misses t c) ∧
    (∃ output st, (harvest { extract } s).Yields { tree := t } output st ∧
      (∃ found, List.Forall₂ (FindsInOrder { extract } s t) s.importRoots found ∧
        output.IsMadeOf { extract } s t (s.participants found) ∧
        ∀ m, s.IsOwnFile t m → (m ∈ s.participants found ↔
          s.passes m = true ∧ (s.kindOf? m).isSome = true ∧
            ∃ c ∈ s.importRoots, s.Misses t c ∧ s.Finds t c m)) ∧
      ∃ o mid, (syncAggregator s output.document).Yields st o mid ∧
        ((∀ c ∈ s.modifyRoots, ¬ s.Misses t c) →
          ∀ bytes, (sync { extract } s t).tree.get? (t.destination s.aggregator.path) =
              some (.file bytes) ↔
            mid.tree.get? (t.destination s.aggregator.path) = some (.file bytes))) ∧
    (∀ u ∈ r.consumers, s.IsOwnFile t u.path →
      ∃ c ∈ s.modifyRoots, s.Misses t c ∧ u.path = s.ownPath t c) ∧
    (s.mode = .write → s.respectIgnoreFiles = false →
      ∀ c ∈ s.modifyRoots, s.Misses t c → s.isModified (s.ownPath t c) = true →
        ∃ u ∈ r.consumers, u.path = s.ownPath t c) := by
  obtain ⟨last, hyields, htree⟩ := yields_of_sync h
  obtain ⟨output, o, us, st, mid, hharvest, -, hst, hc, haggregator, hconsumers, rfl⟩ :=
    parts_of_syncSteps hyields
  obtain ⟨found, hfound, rfl, hreadable⟩ := harvest_eq_withFiles hharvest
  subst hst
  obtain ⟨hchanged, hcache⟩ := changedAt_of_bringUpToDate ht hs.no_backslash_path
    (yields_syncAggregator_iff.1 haggregator)
  have hworking := hchanged.workingDir
  obtain ⟨hupdated, hmissed⟩ := changedAt_of_updateFrom hs hchanged.isTidy (hcache ▸ hc) hconsumers
  simp only [Settings.isOwnFile_congr hworking, Settings.misses_congr hworking,
    Settings.ownPath_congr hworking] at hmissed
  refine ⟨fun hroot c => hs.not_misses_of_absolute hroot c,
    ⟨_, st, hharvest, ⟨found, hfound, Harvest.isMadeOf_withFiles hreadable,
      fun m => mem_participants_iff_of_isOwnFile hs ht hfound⟩, o, mid, haggregator, ?_⟩, hmissed, ?_⟩
  · intro hnone bytes
    rw [htree]
    refine hupdated.spared ?_ bytes
    rw [FileTree.placesOf_congr hworking, FileTree.placesOf, List.mem_map]
    rintro ⟨u, hu, hplace⟩
    obtain ⟨c, hroot, hmisses, -⟩ := hmissed u hu hplace
    exact hnone c hroot hmisses
  · intro hmode hignore c hroot hmisses hmodified
    have htext : mid.tree.IsTextAt (mid.tree.destination s.aggregator.path) := by
      rw [FileTree.destination_congr hworking]
      exact isTextAt_of_syncAggregator hmode ht haggregator
    rw [← Settings.misses_congr hworking] at hmisses
    rw [← Settings.ownPath_congr hworking] at hmodified ⊢
    exact exists_update_of_misses hs hignore hchanged.isTidy (hcache ▸ hc) hconsumers htext hroot
      hmisses hmodified (by simp)

end Run

/-! ### A root that misses the aggregator -/

/-- A site that is the working directory, with an aggregator of an earlier run. -/
def dotSite : FileTree where
  workingDir := ["site".toList]
  entries := [
    (["site".toList], .dir),
    (["site".toList, "imports.js".toList], .file (Utf8.encode "export const old = 0;\n".toList))]

/-- The working directory is the root, and all of it is scanned. -/
def dotSettings : Settings :=
  { siteSettings with
    root := ".".toList
    importRoots := [".".toList]
    modifyRoots := [".".toList]
    aggregator := .ofNames ".".toList "imports".toList [] }

theorem namesAggregator_dotSettings : dotSettings.NamesAggregator where
  aggregator := ⟨_, _, rfl⟩
  root := by decide

theorem isTidy_dotSite : dotSite.IsTidy where
  toIsPlain := FileTree.isPlain_of_entries (by decide +kernel) (by decide +kernel)
  isDirAt_workingDir := by decide
  workingDir_no_backslash := by decide
  no_backslash := by
    have hentries : ∀ entry ∈ dotSite.entries, ∀ n ∈ entry.1, '\\' ∉ n := by decide +kernel
    intro l bytes hget n hn
    exact hentries _ (FileTree.mem_entries_of_get? (List.ne_nil_of_mem hn) hget) n hn

theorem aggregator_takes_part_where_missed_dotSite :
    dotSettings.NamesAggregator ∧ dotSite.IsTidy ∧
      ∃ r, (sync {} dotSettings dotSite).result = .ok r ∧ r.filesScanned = 1 ∧
        r.consumers = [⟨⟨"./imports.js".toList⟩, .written⟩] ∧
        dotSettings.IsOwnFile dotSite ⟨"./imports.js".toList⟩ ∧
        dotSettings.Misses dotSite ".".toList ∧
        (∃ u ∈ r.consumers, u.path = dotSettings.ownPath dotSite ".".toList) ∧
        ∃ found, List.Forall₂ (FindsInOrder {} dotSettings dotSite) dotSettings.importRoots found ∧
          ⟨"./imports.js".toList⟩ ∈ dotSettings.participants found := by
  have hvalues : (sync {} dotSettings dotSite).result.map (fun r => (r.filesScanned, r.consumers)) =
      .ok (1, [⟨⟨"./imports.js".toList⟩, .written⟩]) := by
    decide +kernel
  obtain ⟨r, hresult, hvalues⟩ := map_eq_ok_iff.1 hvalues
  obtain ⟨hscanned, hconsumers⟩ := Prod.mk.inj hvalues
  have hown : dotSettings.IsOwnFile dotSite ⟨"./imports.js".toList⟩ := by
    show dotSite.destination "./imports.js".toList = dotSite.destination dotSettings.aggregator.path
    decide +kernel
  obtain ⟨-, ⟨output, st, -, ⟨found, hfound, -, hparticipants⟩, -⟩, hmissed, hupdated⟩ :=
    aggregator_takes_part_where_missed namesAggregator_dotSettings isTidy_dotSite hresult
  have hmisses : dotSettings.Misses dotSite ".".toList := by
    obtain ⟨c, hc, hmisses, -⟩ := hmissed _ (by rw [hconsumers]; exact List.mem_singleton.2 rfl) hown
    rwa [List.mem_singleton.1 hc] at hmisses
  have hfinds : dotSettings.Finds dotSite ".".toList ⟨"./imports.js".toList⟩ := by
    refine ⟨[⟨"./imports.js".toList⟩], ?_, List.mem_singleton.2 rfl⟩
    decide +kernel
  have hroot : ".".toList ∈ [".".toList] := List.mem_singleton.2 rfl
  have hupdate := hupdated rfl rfl _ hroot hmisses (by decide +kernel)
  have hpart := (hparticipants _ hown).2
    ⟨by decide +kernel, by decide +kernel, _, hroot, hmisses, hfinds⟩
  exact ⟨namesAggregator_dotSettings, isTidy_dotSite, r, hresult, hscanned, hconsumers, hown, hmisses,
    hupdate, found, hfound, hpart⟩

end ImportSync
