import ImportSync.Proofs.Trees
import ImportSync.Tree
import Mathlib.Data.List.Basic

/-!
File trees without links. There a path leads where its names say, so that what is read, written and
found below a directory is told by what lies at the locations.
-/

namespace ImportSync.FileTree

/-- A well-formed tree without links. -/
structure IsPlain (t : FileTree) : Prop extends WellFormed t where
  no_link : ∀ l target, t.get? l ≠ some (.link target)

theorem isPlain_of_entries {t : FileTree}
    (h : ∀ entry ∈ t.entries,
      (∀ n ∈ entry.1, Path.IsName n) ∧ t.isDirAt entry.1.dropLast = true)
    (hlink : ∀ entry ∈ t.entries, (entry.2 matches .link _) = false) : t.IsPlain where
  toWellFormed := wellFormed_of_entries h
  no_link := by
    intro l target hl
    by_cases hnil : l = []
    · simp [hnil] at hl
    · cases hlink (l, .link target) (mem_entries_of_get? hnil hl)

/-! ### Paths of locations -/

theorem splitOn_pathOf {l : Location} (hl : l ≠ []) (h : ∀ n ∈ l, Path.IsName n) :
    List.splitOn '/' (pathOf l) = [] :: l := by
  rw [pathOf, Path.ofPieces, if_pos rfl, List.singleton_append, List.splitOn_cons_eq_if_modifyHead,
    if_pos (beq_self_eq_true _), Text.splitOn_joinWith hl fun n hn => (h n hn).no_slash]

@[simp] theorem isAbsolute_pathOf (l : Location) : Path.isAbsolute (pathOf l) = true := rfl

theorem pieces_pathOf {l : Location} (h : ∀ n ∈ l, Path.IsName n) : Path.pieces (pathOf l) = l :=
  Path.pieces_ofPieces fun n hn => (h n hn).toIsPiece

theorem pathOf_injective {l k : Location} (hl : ∀ n ∈ l, Path.IsName n)
    (hk : ∀ n ∈ k, Path.IsName n) (h : pathOf l = pathOf k) : l = k := by
  rw [← pieces_pathOf hl, h, pieces_pathOf hk]

theorem getLast?_pathOf {l : Location} (hl : l ≠ []) (h : ∀ n ∈ l, Path.IsName n) :
    (pathOf l).getLast? ≠ some '/' :=
  Path.getLast?_ofPieces hl fun n hn => (h n hn).toIsPiece

theorem locate?_pathOf (t : FileTree) {l : Location} (h : ∀ n ∈ l, Path.IsName n) :
    t.locate? (pathOf l) = t.follow linkLimit [] l := by
  have hne : (pathOf l).isEmpty = false := rfl
  rw [locate?, hne, isAbsolute_pathOf, if_neg (by simp), if_pos rfl]
  by_cases hl : l = []
  · subst hl
    rfl
  · rw [splitOn_pathOf hl h]
    exact t.follow_skip linkLimit [] rfl l

/-- Without links, a name leads into a directory or has to be the last one. -/
theorem follow_name {t : FileTree} (ht : t.IsPlain) {x : Text} (hx : Path.IsName x) (n : Nat)
    (dir : Location) (rest : List Text) :
    t.follow n dir (x :: rest) =
      if t.isDirAt (dir ++ [x]) then t.follow n (dir ++ [x]) rest
      else if rest.isEmpty then some (dir ++ [x]) else none := by
  have hskip := hx.not_skipped
  have habove := beq_false_of_ne hx.ne_above
  cases hget : t.get? (dir ++ [x]) with
  | none => cases n <;> simp [follow, followWith, hskip, habove, isDirAt, hget]
  | some e =>
      cases e with
      | dir => cases n <;> simp [follow, followWith, hskip, habove, isDirAt, hget]
      | file bytes => cases n <;> simp [follow, followWith, hskip, habove, isDirAt, hget]
      | link target => exact absurd hget (ht.no_link _ _)

theorem follow_of_isDirAt {t : FileTree} (ht : t.IsPlain) (n : Nat) {dir : Location}
    {names : List Text} (hnames : ∀ x ∈ names, Path.IsName x)
    (h : ∀ k, k <+: names → k ≠ names → t.isDirAt (dir ++ k) = true) :
    t.follow n dir names = some (dir ++ names) := by
  induction names generalizing dir with
  | nil => simp [follow_nil]
  | cons x names ih =>
      rw [follow_name ht (hnames x (by simp))]
      by_cases hnil : names = []
      · simp [hnil, follow_nil]
      · have hx : t.isDirAt (dir ++ [x]) = true := h [x] (by simp) (by simpa using Ne.symm hnil)
        have hrest : ∀ k, k <+: names → k ≠ names → t.isDirAt (dir ++ [x] ++ k) = true := by
          intro k hk hne
          simpa using h (x :: k) (by simpa using hk) (by simpa using hne)
        rw [if_pos hx, ih (fun y hy => hnames y (by simp [hy])) hrest]
        simp

/-! ### Destinations -/

/-- Where one piece of a path leads from a directory, whether something is there or not. -/
def go (dir : Location) (piece : Text) : Location :=
  if piece = Path.above then dir.dropLast else dir ++ [piece]

@[simp] theorem go_above (dir : Location) : go dir Path.above = dir.dropLast := by
  simp [go]

theorem go_name {x : Text} (hx : x ≠ Path.above) (dir : Location) : go dir x = dir ++ [x] := by
  simp [go, hx]

theorem foldl_go_names {names : List Text} (h : Path.above ∉ names) (dir : Location) :
    names.foldl go dir = dir ++ names := by
  induction names generalizing dir with
  | nil => simp
  | cons x names ih =>
      simp only [List.mem_cons, not_or] at h
      rw [List.foldl_cons, go_name (Ne.symm h.1), ih h.2, List.append_assoc, List.singleton_append]

theorem mem_foldl_go {ps : List Text} {dir : Location} {n : Text} (h : n ∈ ps.foldl go dir) :
    n ∈ dir ∨ n ∈ ps := by
  induction ps generalizing dir with
  | nil => exact .inl h
  | cons x ps ih =>
      rcases ih h with h | h
      · by_cases hx : x = Path.above
        · rw [hx, go_above] at h
          exact .inl ((List.dropLast_sublist dir).subset h)
        · rw [go_name hx, List.mem_append, List.mem_singleton] at h
          exact h.imp_right fun h => by simp [h]
      · exact .inr (List.mem_cons_of_mem _ h)

/-- The directory from which a path leads. -/
def start (t : FileTree) (p : Text) : Location :=
  if Path.isAbsolute p then [] else t.workingDir

theorem isDirAt_start_of_isAbsolute (t : FileTree) {p : Text} (hp : Path.isAbsolute p = true) :
    t.isDirAt (t.start p) = true := by
  rw [start, if_pos hp]
  exact t.isDirAt_nil

theorem isDirAt_start {t : FileTree} (h : t.isDirAt t.workingDir = true) (p : Text) :
    t.isDirAt (t.start p) = true := by
  rw [start]
  split
  · exact t.isDirAt_nil
  · exact h

/-- The location that a path stands for where there are no links. -/
def destination (t : FileTree) (p : Text) : Location :=
  (Path.pieces p).foldl go (t.start p)

theorem destination_pathOf (t : FileTree) {l : Location} (h : ∀ n ∈ l, Path.IsName n) :
    t.destination (pathOf l) = l := by
  rw [destination, start, isAbsolute_pathOf, if_pos rfl, pieces_pathOf h,
    foldl_go_names fun hmem => (h _ hmem).ne_above rfl, List.nil_append]

theorem follow_above (t : FileTree) (n : Nat) (dir : Location) (rest : List Text) :
    t.follow n dir (Path.above :: rest) = t.follow n dir.dropLast rest := by
  have hskip := Path.isPiece_above.not_skipped
  cases n <;> simp [follow, followWith, hskip]

/-- Pieces that lead anywhere lead to their destination: into a directory, or to a place in one. -/
theorem follow_pieces {t : FileTree} (ht : t.IsPlain) {n : Nat} {dir l : Location} {ps : List Text}
    (hps : ∀ x ∈ ps, Path.IsPiece x) (hdir : t.isDirAt dir = true)
    (h : t.follow n dir ps = some l) :
    l = ps.foldl go dir ∧
      (t.isDirAt l = true ∨
        l ≠ [] ∧ t.isDirAt l.dropLast = true ∧ ∀ x ∈ l, Path.IsName x) := by
  induction ps generalizing dir with
  | nil =>
      rw [follow_nil] at h
      obtain rfl := Option.some.inj h
      exact ⟨rfl, .inl hdir⟩
  | cons x ps ih =>
      have hrest : ∀ y ∈ ps, Path.IsPiece y := fun y hy => hps y (by simp [hy])
      by_cases habove : x = Path.above
      · subst habove
        rw [follow_above] at h
        rw [List.foldl_cons, go_above]
        exact ih hrest (ht.isDirAt_dropLast hdir) h
      · have hx : Path.IsName x := { hps x (by simp) with ne_above := habove }
        rw [List.foldl_cons, go_name habove]
        rw [follow_name ht hx] at h
        split at h
        next hnext => exact ih hrest hnext h
        next =>
          split at h
          next hlast =>
            obtain rfl := List.isEmpty_iff.1 hlast
            obtain rfl := Option.some.inj h
            refine ⟨rfl, .inr ⟨by simp, by simpa using hdir, fun y hy => ?_⟩⟩
            rcases List.mem_append.1 hy with hy | hy
            · exact ht.isName (isDirAt_iff.1 hdir) y hy
            · exact List.mem_singleton.1 hy ▸ hx
          next => cases h

theorem locate?_spec {t : FileTree} (ht : t.IsPlain) {p : Text} {l : Location}
    (hstart : t.isDirAt (t.start p) = true) (h : t.locate? p = some l) :
    l = t.destination p ∧
      (t.isDirAt l = true ∨
        l ≠ [] ∧ t.isDirAt l.dropLast = true ∧ ∀ x ∈ l, Path.IsName x) := by
  rw [locate?] at h
  split at h
  · cases h
  · have hpieces := follow_filter ht.toWellFormed (List.nil_append _).symm h
    exact follow_pieces ht (fun x => Path.isPiece_of_mem_pieces) hstart hpieces

theorem eq_of_locate?_pathOf {t : FileTree} (ht : t.IsPlain) {l k : Location}
    (hl : ∀ n ∈ l, Path.IsName n) (h : t.locate? (pathOf l) = some k) : k = l := by
  have hstart : t.isDirAt (t.start (pathOf l)) = true := t.isDirAt_nil
  exact (locate?_spec ht hstart h).1.trans (destination_pathOf t hl)

theorem locate?_pathOf_of_get? {t : FileTree} (ht : t.IsPlain) {l : Location} {e : Entry}
    (h : t.get? l = some e) : t.locate? (pathOf l) = some l := by
  rw [locate?_pathOf t (ht.isName h)]
  refine follow_of_isDirAt ht linkLimit (ht.isName h) fun k hk hne => ?_
  simpa using ht.isDirAt_of_prefix h hk hne

/-- Without links, the path of a location reads what lies there. -/
theorem read?_pathOf_iff {t : FileTree} (ht : t.IsPlain) {l : Location}
    (hl : ∀ n ∈ l, Path.IsName n) {bytes : Utf8.Bytes} :
    t.read? (pathOf l) = some bytes ↔ t.get? l = some (.file bytes) := by
  rw [read?_eq_some_iff]
  constructor
  · rintro ⟨k, hk⟩
    rw [← eq_of_locate?_pathOf ht hl hk.locate?]
    exact hk.get?
  · intro h
    exact ⟨l, locate?_pathOf_of_get? ht h, h⟩

/-! ### Writing -/

/-- A tree that came from another one by making directories where nothing was. -/
structure Grows (t t' : FileTree) : Prop where
  kept : ∀ {l e}, t.get? l = some e → t'.get? l = some e
  added : ∀ {l e}, t'.get? l = some e → t.get? l = some e ∨ e = .dir

theorem Grows.refl (t : FileTree) : t.Grows t where
  kept := id
  added := .inl

theorem Grows.trans {t t' t'' : FileTree} (h : t.Grows t') (h' : t'.Grows t'') : t.Grows t'' where
  kept hl := h'.kept (h.kept hl)
  added hl := by
    rcases h'.added hl with hl | rfl
    · exact h.added hl
    · exact .inr rfl

theorem grows_set {t : FileTree} {l : Location} (hl : l ≠ []) (h : t.get? l = none) :
    t.Grows (t.set l .dir) where
  kept := by
    intro k e hk
    rw [get?_set t hl]
    split
    · subst k
      simp [h] at hk
    · exact hk
  added := by
    intro k e hk
    rw [get?_set t hl] at hk
    split at hk
    · exact .inr (Option.some.inj hk).symm
    · exact .inl hk

theorem IsPlain.set {t : FileTree} (ht : t.IsPlain) {l : Location} (hl : l ≠ [])
    (hname : ∀ n ∈ l, Path.IsName n) (hdir : t.isDirAt l.dropLast = true) {e : Entry}
    (he : e = .dir ∨ ((∃ bytes, e = .file bytes) ∧ t.isDirAt l = false)) : (t.set l e).IsPlain where
  toWellFormed := ht.toWellFormed.set hl hname hdir (he.imp_right And.right)
  no_link := by
    intro k target hk
    rw [get?_set t hl] at hk
    split at hk
    · rcases he with rfl | ⟨⟨bytes, rfl⟩, -⟩ <;> simp at hk
    · exact ht.no_link k target hk

@[simp] theorem workingDir_set (t : FileTree) (l : Location) (e : Entry) :
    (t.set l e).workingDir = t.workingDir :=
  rfl

/-- Making directories keeps the tree plain. -/
theorem createDirsFrom_spec {t t' : FileTree} (ht : t.IsPlain) {dir : Location} {ps : List Text}
    (hps : ∀ x ∈ ps, Path.IsPiece x) (hdir : t.isDirAt dir = true)
    (h : t.createDirsFrom dir ps = some t') :
    t'.IsPlain ∧ t.Grows t' ∧ t'.workingDir = t.workingDir := by
  induction ps generalizing t dir with
  | nil =>
      obtain rfl : t = t' := Option.some.inj h
      exact ⟨ht, .refl t, rfl⟩
  | cons x ps ih =>
      have hrest : ∀ y ∈ ps, Path.IsPiece y := fun y hy => hps y (by simp [hy])
      have hskip := (hps x (by simp)).not_skipped
      rw [createDirsFrom, hskip, if_neg (by simp)] at h
      by_cases habove : x = Path.above
      · rw [if_pos (by simpa using habove)] at h
        exact ih ht hrest (ht.isDirAt_dropLast hdir) h
      · have hx : Path.IsName x := { hps x (by simp) with ne_above := habove }
        have hne : dir ++ [x] ≠ [] := by simp
        rw [if_neg (by simpa using habove)] at h
        split at h
        · -- nothing is there, and a directory is made
          rename_i hget
          have hnew : (t.set (dir ++ [x]) .dir).IsPlain := by
            refine ht.set hne ?_ (by simpa using hdir) (.inl rfl)
            intro n hn
            rcases List.mem_append.1 hn with hn | hn
            · exact ht.isName (isDirAt_iff.1 hdir) n hn
            · exact List.mem_singleton.1 hn ▸ hx
          have hmade : (t.set (dir ++ [x]) .dir).get? (dir ++ [x]) = some .dir := by
            rw [get?_set t hne, if_pos rfl]
          obtain ⟨hplain, hgrows, hworking⟩ := ih hnew hrest (isDirAt_iff.2 hmade) h
          exact ⟨hplain, (grows_set hne hget).trans hgrows, hworking⟩
        · -- the directory is there already
          rename_i hget
          exact ih ht hrest (isDirAt_iff.2 hget) h
        · cases h
        · rename_i target hget
          exact absurd hget (ht.no_link _ _)

/-- A tree that came from another one by writing a file and making directories where nothing was. -/
structure Writes (t t' : FileTree) (l : Location) (bytes : Utf8.Bytes) : Prop where
  isPlain : t'.IsPlain
  written : t'.get? l = some (.file bytes)
  kept : ∀ {k e}, k ≠ l → t.get? k = some e → t'.get? k = some e
  added : ∀ {k e}, k ≠ l → t'.get? k = some e → t.get? k = some e ∨ e = .dir

/-- Writing to a path after some directories were made. -/
theorem writes_of_write? {t made t' : FileTree} (hgrows : t.Grows made) (hmade : made.IsPlain)
    {p : Text} {bytes : Utf8.Bytes} (hstart : made.isDirAt (made.start p) = true)
    (hwrite : made.write? p bytes = some t') :
    t.Writes t' (made.destination p) bytes ∧ t.isDirAt (made.destination p) = false ∧
      t'.workingDir = made.workingDir := by
  obtain ⟨l, hl, hset⟩ := Option.bind_eq_some_iff.1 hwrite
  obtain ⟨rfl, hplace⟩ := locate?_spec hmade hstart hl
  split at hset
  · cases hset
  · rename_i hfile
    obtain ⟨hne, hdir, hname⟩ := hplace.resolve_left hfile
    obtain rfl := Option.some.inj hset
    refine ⟨⟨hmade.set hne hname hdir (.inr ⟨⟨bytes, rfl⟩, by simpa using hfile⟩), ?_, ?_, ?_⟩, ?_,
      rfl⟩
    · rw [get?_set made hne, if_pos rfl]
    · intro k e hk hget
      rw [get?_set made hne, if_neg hk]
      exact hgrows.kept hget
    · intro k e hk hget
      rw [get?_set made hne, if_neg hk] at hget
      exact hgrows.added hget
    · rw [isDirAt_iff] at hfile
      rw [← Bool.not_eq_true, isDirAt_iff]
      exact fun hget => hfile (hgrows.kept hget)

/-! ### The files below a directory -/

theorem exists_get?_of_mem_entries {t : FileTree} {l : Location} {e : Entry}
    (h : (l, e) ∈ t.entries) : ∃ e', t.get? l = some e' := by
  by_cases hl : l = []
  · exact ⟨.dir, by simp [hl]⟩
  · have hsome : (t.entries.lookup l).isSome = true :=
      List.lookup_isSome_iff.2 ⟨(l, e), h, by simp⟩
    obtain ⟨e', he'⟩ := Option.isSome_iff_exists.1 hsome
    exact ⟨e', by simpa [get?, hl] using he'⟩

theorem mem_filesBelow_iff {t : FileTree} {dir : Location} {names : List Text} {e : Entry} :
    (names, e) ∈ t.filesBelow dir ↔ (dir ++ names, e) ∈ t.entries ∧ names ≠ [] ∧ e ≠ .dir := by
  rw [filesBelow, List.mem_filterMap]
  constructor
  · rintro ⟨⟨l, e'⟩, hmem, hsome⟩
    have hne : e' ≠ .dir := by
      rintro rfl
      simp at hsome
    have hbelow : (if dir.isPrefixOf l && l != dir then some (l.drop dir.length, e') else none) =
        some (names, e) := by
      cases e' with
      | dir => exact absurd rfl hne
      | file bytes => exact hsome
      | link target => exact hsome
    split at hbelow
    · rename_i hcond
      simp only [Bool.and_eq_true, List.isPrefixOf_iff_prefix, bne_iff_ne] at hcond
      obtain ⟨⟨rest, rfl⟩, hrest⟩ := hcond
      simp only [List.drop_left, Option.some.injEq, Prod.mk.injEq] at hbelow
      obtain ⟨rfl, rfl⟩ := hbelow
      exact ⟨hmem, by simpa using hrest, hne⟩
    · simp at hbelow
  · rintro ⟨hmem, hnames, hne⟩
    refine ⟨(dir ++ names, e), hmem, ?_⟩
    cases e with
    | dir => exact absurd rfl hne
    | file bytes => simp [hnames]
    | link target => simp [hnames]

theorem isReached_of_get? {t : FileTree} (ht : t.WellFormed) {dir : Location} {names : List Text}
    {e : Entry} (h : t.get? (dir ++ names) = some e) :
    t.isReached (fun _ => false) dir names = true := by
  induction names generalizing dir with
  | nil => rfl
  | cons x names ih =>
      cases names with
      | nil => rfl
      | cons y names =>
          have hx : t.isDirAt (dir ++ [x]) = true := by
            refine ht.isDirAt_of_prefix h ?_ (by simp)
            exact ⟨y :: names, by simp⟩
          rw [List.append_cons] at h
          simp [isReached, hx, ih h]

/-- Below a directory that a path leads to, names lead on from there, with the links that are left. -/
theorem locate?_join {t : FileTree} (ht : t.WellFormed) {root : Text} {dir : Location}
    (h : t.locate? root = some dir) (hdir : t.isDirAt dir = true) :
    ∃ k, k ≤ linkLimit ∧ ∀ names, names ≠ [] → (∀ n ∈ names, Path.IsName n) →
      t.locate? (Path.join root (Text.joinWith ['/'] names)) = t.follow k dir names := by
  have hroot : root ≠ [] := by
    rintro rfl
    cases h
  rw [locate?, if_neg (by simpa using hroot)] at h
  obtain ⟨init, hinit, hjoin⟩ := Path.exists_join_eq hroot
  have hfollow : t.follow linkLimit (t.start root) (List.splitOn '/' init) = some dir := by
    rcases hinit with rfl | rfl
    · exact h
    · rw [List.splitOn_append_cons_self] at h
      exact follow_of_concat_nil ht h
  obtain ⟨k, hle, hk⟩ := follow_append_of_isDirAt ht hfollow hdir
  refine ⟨k, hle, fun names hne hnames => ?_⟩
  have hrel : Path.isAbsolute (Text.joinWith ['/'] names) = false :=
    Path.isAbsolute_ofPieces_false fun n hn => (hnames n hn).toIsPiece
  rw [locate?, Path.isAbsolute_join_eq root hrel, hjoin _ hrel, if_neg (by simp),
    List.splitOn_append_cons_self, Text.splitOn_joinWith hne fun n hn => (hnames n hn).no_slash]
  exact hk names

/-- Without links, what lies below a directory that a path leads to is where its names lead. -/
theorem locate?_join_of_get? {t : FileTree} (ht : t.IsPlain) {root : Text} {dir : Location}
    (h : t.locate? root = some dir) {names : List Text} (hne : names ≠ []) {e : Entry}
    (hget : t.get? (dir ++ names) = some e) :
    t.locate? (Path.join root (Text.joinWith ['/'] names)) = some (dir ++ names) := by
  have hdir : t.isDirAt dir = true :=
    ht.isDirAt_of_prefix hget (List.prefix_append dir names) (by simpa using hne)
  have hnames : ∀ n ∈ names, Path.IsName n := fun n hn => ht.isName hget n (by simp [hn])
  obtain ⟨k, -, hk⟩ := locate?_join ht.toWellFormed h hdir
  rw [hk names hne hnames]
  refine follow_of_isDirAt ht k hnames fun l hl hl' => ?_
  exact ht.isDirAt_of_prefix hget ((List.prefix_append_right_inj dir).2 hl) (by simpa using hl')

theorem join_pathOf {l : Location} (hl : ∀ n ∈ l, Path.IsName n) {names : List Text}
    (hnames : names ≠ []) (h : ∀ n ∈ names, Path.IsName n) :
    Path.join (pathOf l) (Text.joinWith ['/'] names) = pathOf (l ++ names) :=
  Path.join_ofPieces (fun n hn => (hl n hn).toIsPiece) (.inr rfl) hnames
    fun n hn => (h n hn).toIsPiece

theorem mem_reachedFiles_iff {t : FileTree} (ht : t.IsPlain) {root : Text} {dir : Location}
    (h : t.locate? root = some dir) {names : List Text} :
    names ∈ t.reachedFiles (fun _ => false) root dir ↔
      names ≠ [] ∧ ∃ bytes, t.get? (dir ++ names) = some (.file bytes) := by
  rw [reachedFiles, List.mem_filter, Bool.and_eq_true, Option.isSome_iff_exists]
  constructor
  · rintro ⟨hmem, -, bytes, hread⟩
    obtain ⟨⟨names', e⟩, hbelow, rfl⟩ := List.mem_map.1 hmem
    obtain ⟨hentry, hne, -⟩ := mem_filesBelow_iff.1 hbelow
    obtain ⟨e', he'⟩ := exists_get?_of_mem_entries hentry
    obtain ⟨k, hk⟩ := read?_eq_some_iff.1 hread
    obtain rfl := Option.some.inj ((locate?_join_of_get? ht h hne he').symm.trans hk.locate?)
    exact ⟨hne, bytes, hk.get?⟩
  · rintro ⟨hne, bytes, hget⟩
    have hloc : dir ++ names ≠ [] := by simp [hne]
    refine ⟨List.mem_map.2 ⟨(names, .file bytes), ?_, rfl⟩, isReached_of_get? ht.toWellFormed hget,
      bytes, read?_eq_some_iff.2 ⟨dir ++ names, locate?_join_of_get? ht h hne hget, hget⟩⟩
    exact mem_filesBelow_iff.2 ⟨mem_entries_of_get? hloc hget, hne, by simp⟩

/-- The files below a location that holds something are all those whose location starts there. -/
theorem walk_pathOf {t : FileTree} (ht : t.IsPlain) {l : Location} {e : Entry}
    (h : t.get? l = some e) :
    ∃ files, t.walk (pathOf l) false = .ok files ∧
      ∀ m, m ∈ files ↔
        ∃ k bytes, l <+: k ∧ t.get? k = some (.file bytes) ∧ m = .ofText (pathOf k) := by
  have hlocate := locate?_pathOf_of_get? ht h
  cases e with
  | link target => exact absurd h (ht.no_link _ _)
  | file bytes =>
      refine ⟨[.ofText (pathOf l)], by simp [walk, hlocate, h], fun m => ?_⟩
      constructor
      · intro hm
        exact ⟨l, bytes, List.prefix_refl l, h, List.mem_singleton.1 hm⟩
      · rintro ⟨k, bytes', hk, hget, rfl⟩
        -- nothing lies below a file
        by_cases hkl : l = k
        · simp [hkl]
        · have hdir := isDirAt_iff.1 (ht.isDirAt_of_prefix hget hk hkl)
          simp [hdir] at h
  | dir =>
      refine ⟨_, by simp only [walk, hlocate, h]; rfl, fun m => ?_⟩
      have hl := ht.isName h
      have hjoin {names : List Text} {bytes : Utf8.Bytes} (hne : names ≠ [])
          (hget : t.get? (l ++ names) = some (.file bytes)) :
          Path.join (pathOf l) (Text.joinWith ['/'] names) = pathOf (l ++ names) :=
        join_pathOf hl hne fun n hn => ht.isName hget n (by simp [hn])
      constructor
      · intro hm
        obtain ⟨names, hnames, rfl⟩ := List.mem_map.1 hm
        obtain ⟨hne, bytes, hget⟩ := (mem_reachedFiles_iff ht hlocate).1 hnames
        exact ⟨l ++ names, bytes, List.prefix_append l names, hget, by rw [hjoin hne hget]⟩
      · rintro ⟨k, bytes, ⟨names, rfl⟩, hget, rfl⟩
        have hne : names ≠ [] := by
          rintro rfl
          simp [h] at hget
        exact List.mem_map.2 ⟨names, (mem_reachedFiles_iff ht hlocate).2 ⟨hne, bytes, hget⟩, by
          rw [hjoin hne hget]⟩

theorem isReached_of_skips {t : FileTree} {skips : Location → Bool} {dir : Location}
    {names : List Text} (h : t.isReached skips dir names = true) :
    t.isReached (fun _ => false) dir names = true := by
  fun_induction isReached t skips dir names with
  | case1 dir => rfl
  | case2 dir name => rfl
  | case3 dir name rest hrest ih =>
      simp only [Bool.and_eq_true] at h
      rw [isReached.eq_3 _ _ _ _ _ hrest, h.1.1, ih h.2]
      rfl

/-- What is found at a path is the file there, or the files below the directory there. -/
theorem eq_of_walk {t : FileTree} {root : Text} {respectIgnore : Bool} {files : List SourcePath}
    (h : t.walk root respectIgnore = .ok files) :
    ∃ l, t.locate? root = some l ∧
      ((∃ bytes, t.get? l = some (.file bytes)) ∧ files = [.ofText root] ∨
        t.get? l = some .dir ∧
          files = (t.reachedFiles (if respectIgnore then t.isSkipped else fun _ => false) root l).map
            fun names => .ofText (Path.join root (Text.joinWith ['/'] names))) := by
  rw [walk] at h
  split at h
  · cases h
  · rename_i l hl
    refine ⟨l, hl, ?_⟩
    split at h
    · rename_i hget
      exact .inr ⟨hget, (Except.ok.inj h).symm⟩
    · rename_i bytes hget
      exact .inl ⟨⟨bytes, hget⟩, (Except.ok.inj h).symm⟩
    · cases h

/-- Leaving something out only takes away from what is reached. -/
theorem reachedFiles_sublist (t : FileTree) (skips : Location → Bool) (root : Text) (dir : Location) :
    (t.reachedFiles skips root dir).Sublist (t.reachedFiles (fun _ => false) root dir) := by
  refine List.monotone_filter_right _ fun names htest => ?_
  rw [Bool.and_eq_true] at htest ⊢
  exact ⟨isReached_of_skips htest.1, htest.2⟩

/-- Whatever ignore files say, only files are found that are there without them. -/
theorem sublist_walk_of_ignore {t : FileTree} {root : Text} {respectIgnore : Bool}
    {files : List SourcePath} (h : t.walk root respectIgnore = .ok files) :
    ∃ all, t.walk root false = .ok all ∧ files.Sublist all := by
  obtain ⟨l, hlocate, ⟨⟨bytes, hget⟩, rfl⟩ | ⟨hget, rfl⟩⟩ := eq_of_walk h
  · exact ⟨_, by simp [walk, hlocate, hget], .refl _⟩
  · rw [walk, hlocate]
    simp only [hget]
    exact ⟨_, rfl, (t.reachedFiles_sublist _ root l).map _⟩

theorem exists_get?_of_walk {t : FileTree} (ht : t.IsPlain) {l : Location}
    (hl : ∀ n ∈ l, Path.IsName n) {respectIgnore : Bool} {files : List SourcePath}
    (h : t.walk (pathOf l) respectIgnore = .ok files) : ∃ e, t.get? l = some e := by
  obtain ⟨k, hlocate, hfound⟩ := eq_of_walk h
  obtain rfl := eq_of_locate?_pathOf ht hl hlocate
  rcases hfound with ⟨⟨bytes, hget⟩, -⟩ | ⟨hget, -⟩
  · exact ⟨_, hget⟩
  · exact ⟨_, hget⟩

/-! ### Names on the way -/

/-- Every name in the tree is such. -/
def AllNames (t : FileTree) (P : Text → Prop) : Prop :=
  ∀ l e, t.get? l = some e → ∀ n ∈ l, P n

namespace AllNames

variable {t : FileTree} {P : Text → Prop}

/-- Where the way goes on as told after a link, every name on a way to something lies in the tree. -/
theorem of_followWith (ht : t.AllNames P) {jump : Location → List Text → Option Location}
    {l : Location} {e : Entry} (hl : t.get? l = some e)
    (hjump : ∀ dir ps, jump dir ps = some l → ∀ p ∈ ps, Path.IsName p → P p)
    {dir : Location} {ps : List Text} (h : t.followWith jump dir ps = some l) :
    ∀ p ∈ ps, Path.IsName p → P p := by
  induction ps generalizing dir with
  | nil => simp
  | cons piece rest ih =>
      have hpiece {entry : Entry} (hget : t.get? (dir ++ [piece]) = some entry) : P piece :=
        ht _ _ hget piece (by simp)
      rw [followWith] at h
      intro p hp hname
      by_cases hskip : (piece.isEmpty || piece == Path.here) = true
      · rw [if_pos hskip] at h
        rcases List.mem_cons.1 hp with rfl | hp
        · exact absurd hskip (by simpa using hname.toIsPiece.not_skipped)
        · exact ih h p hp hname
      rw [if_neg hskip] at h
      by_cases habove : (piece == Path.above) = true
      · rw [if_pos habove] at h
        rcases List.mem_cons.1 hp with rfl | hp
        · exact absurd (by simpa using habove) hname.ne_above
        · exact ih h p hp hname
      rw [if_neg habove] at h
      cases hget : t.get? (dir ++ [piece]) with
      | none =>
          -- a last piece may lead to nothing, but this way leads to something
          simp only [hget] at h
          split at h
          · obtain rfl := Option.some.inj h
            rw [hl] at hget
            cases hget
          · cases h
      | some entry =>
          rcases List.mem_cons.1 hp with rfl | hp
          · exact hpiece hget
          cases entry with
          | dir =>
              simp only [hget] at h
              exact ih h p hp hname
          | link target =>
              simp only [hget] at h
              exact hjump _ _ h p (List.mem_append_right _ hp) hname
          | file bytes =>
              simp only [hget] at h
              split at h
              next hrest => simp [List.isEmpty_iff.1 hrest] at hp
              next => cases h

theorem of_follow (ht : t.AllNames P) {n : Nat} {l : Location} {e : Entry}
    (hl : t.get? l = some e) {dir : Location} {ps : List Text} (h : t.follow n dir ps = some l) :
    ∀ p ∈ ps, Path.IsName p → P p := by
  induction n generalizing dir ps with
  | zero => exact ht.of_followWith hl (fun _ _ h => by cases h) h
  | succ n ih => exact ht.of_followWith hl (fun _ _ h => ih h) h

/-- What is found at a location or below it has a path of names that lie in the tree. -/
theorem of_walk (ht : t.AllNames P) {l : Location} (hl : ∀ n ∈ l, Path.IsName n)
    {respectIgnore : Bool} {files : List SourcePath}
    (h : t.walk (pathOf l) respectIgnore = .ok files) {m : SourcePath} (hm : m ∈ files) :
    (∀ n ∈ l, P n) ∧
      (m = .ofText (pathOf l) ∧ l ≠ [] ∨
        ∃ names, names ≠ [] ∧ (∀ n ∈ names, P n) ∧
          m = .ofText (Path.join (pathOf l) (Text.joinWith ['/'] names))) := by
  obtain ⟨k, hlocate, hfound⟩ := eq_of_walk h
  rw [locate?_pathOf t hl] at hlocate
  have hroot {e : Entry} (hget : t.get? k = some e) : ∀ n ∈ l, P n :=
    fun n hn => ht.of_follow hget hlocate n hn (hl n hn)
  rcases hfound with ⟨⟨bytes, hget⟩, rfl⟩ | ⟨hget, rfl⟩
  · refine ⟨hroot hget, .inl ⟨List.mem_singleton.1 hm, ?_⟩⟩
    rintro rfl
    rw [follow_nil] at hlocate
    obtain rfl := Option.some.inj hlocate
    simp at hget
  · refine ⟨hroot hget, .inr ?_⟩
    obtain ⟨names, hnames, rfl⟩ := List.mem_map.1 hm
    obtain ⟨⟨names', e⟩, hbelow, rfl⟩ := List.mem_map.1 (List.mem_filter.1 hnames).1
    obtain ⟨hentry, hne, -⟩ := mem_filesBelow_iff.1 hbelow
    obtain ⟨e', he'⟩ := exists_get?_of_mem_entries hentry
    exact ⟨names', hne, fun n hn => ht _ _ he' n (List.mem_append_right _ hn), rfl⟩

end AllNames

end ImportSync.FileTree
