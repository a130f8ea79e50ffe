import ImportSync.Proofs.Identity

/-!
What a walk finds. From where its root leads, a walk goes through real directories; links it does not
enter, so that they may form cycles, lead out of the tree or lead nowhere. Every regular file and every link
that leads to one is found on exactly one way, and rules about what to leave out only take away from that.
-/

namespace ImportSync

theorem Path.join_ne_nil (q : Text) {x : Text} (hx : x ≠ []) : join q x ≠ [] := by
  rw [join]
  split
  · exact hx
  · split <;> simp [hx]

/-- Names below a name are names below the path that leads to it. -/
theorem Path.below_join {q : Text} (hq : q ≠ []) {x : Text} (hx : IsName x) {names : List Text}
    (hnames : ∀ n ∈ names, IsName n) : below (join q x) names = below q (x :: names) := by
  obtain ⟨init, -, hjoin⟩ := exists_join_eq hq
  have hnext : join q x = init ++ '/' :: x := by
    refine hjoin x ?_
    simpa using isAbsolute_joinWith (List.forall_mem_singleton.2 hx)
  by_cases hnil : names = []
  · subst hnil
    simp [below]
  have hlast : (init ++ '/' :: x).getLast? ≠ some '/' := by
    intro hlast
    rw [List.getLast?_append_of_ne_nil _ (by simp), List.getLast?_cons_of_ne_nil hx.nonempty] at hlast
    exact hx.no_slash (List.mem_of_getLast? hlast)
  have hrest : isAbsolute (Text.joinWith ['/'] names) = false := isAbsolute_joinWith hnames
  have hall : isAbsolute (Text.joinWith ['/'] (x :: names)) = false :=
    isAbsolute_joinWith (List.forall_mem_cons.2 ⟨hx, hnames⟩)
  rw [below, below, if_neg hnil, if_neg (by simp), hjoin _ hall, hnext, join, if_neg (by simp [hrest]),
    if_neg (by simpa using hlast), Text.joinWith_cons hnil]
  simp

namespace FileTree

/-- A tree as it lies on a disk: there is one entry at a location, everything lies in a directory, and
paths start in a directory. -/
structure IsProper (t : FileTree) : Prop extends WellFormed t where
  apart : (t.entries.map (·.1)).Nodup
  inside : t.isDirAt t.workingDir = true

/-- Whether what lies at the end of a path counts as a file: a regular file does, and so does a link if
the path leads to a regular file through it. -/
def CountsAsFile (t : FileTree) (p : Text) : Entry → Prop
  | .file _ => True
  | .link _ => ∃ bytes, t.read? p = some bytes
  | .dir => False

/-- From the place `l`, which is spelled `p`, one comes through real directories to the file or link at `k`,
which is then spelled `q`. -/
inductive Reaches (t : FileTree) : Text → Location → Text → Location → Prop
  | here {p : Text} {l : Location} {e : Entry} (entry : t.get? l = some e)
      (counts : t.CountsAsFile p e) : t.Reaches p l p l
  | enter {p q name : Text} {l k : Location} (isDir : t.get? l = some .dir)
      (next : t.Reaches (Path.join p name) (l ++ [name]) q k) : t.Reaches p l q k

/-- The list holds all that is reached from where a root leads, each place once and under a path of its
own. -/
structure ListsReached (t : FileTree) (root : Text) (l : Location) (found : List (Text × Location)) :
    Prop where
  mem_iff : ∀ q k, (q, k) ∈ found ↔ t.Reaches root l q k
  nodup_paths : (found.map (·.1)).Nodup
  nodup_places : (found.map (·.2)).Nodup

variable {t : FileTree}

/-! ### Ways through directories -/

theorem Reaches.exists_get? {p q : Text} {l k : Location} (h : t.Reaches p l q k) :
    ∃ e, t.get? l = some e := by
  cases h with
  | here entry _ => exact ⟨_, entry⟩
  | enter isDir _ => exact ⟨_, isDir⟩

/-- What is reached is told by the names on the way. -/
theorem reaches_iff (ht : t.WellFormed) {p q : Text} (hp : p ≠ []) {l k : Location} :
    t.Reaches p l q k ↔ ∃ names e, q = Path.below p names ∧ k = l ++ names ∧ t.get? k = some e ∧
      t.CountsAsFile q e := by
  constructor
  · intro h
    induction h with
    | here entry counts => exact ⟨[], _, by simp [Path.below], by simp, entry, counts⟩
    | @enter p q name l k isDir next ih =>
        obtain ⟨e, he⟩ := next.exists_get?
        have hname : Path.IsName name := ht.isName he name (by simp)
        obtain ⟨names, e, hq, rfl, hget, hcounts⟩ := ih (Path.join_ne_nil p hname.nonempty)
        have hnames : ∀ n ∈ names, Path.IsName n := fun n hn => ht.isName hget n (by simp [hn])
        rw [Path.below_join hp hname hnames] at hq
        exact ⟨name :: names, e, hq, by simp, hget, hcounts⟩
  · rintro ⟨names, e, rfl, rfl, hget, hcounts⟩
    induction names generalizing p l with
    | nil =>
        rw [List.append_nil] at hget ⊢
        rw [Path.below, if_pos rfl] at hcounts ⊢
        exact .here hget hcounts
    | cons name names ih =>
        have hdir : t.isDirAt l = true :=
          ht.isDirAt_of_prefix hget (List.prefix_append l _) (by simp)
        have hname : Path.IsName name := ht.isName hget name (by simp)
        have hnames : ∀ n ∈ names, Path.IsName n := fun n hn => ht.isName hget n (by simp [hn])
        rw [← Path.below_join hp hname hnames] at hcounts ⊢
        rw [List.append_cons] at hget ⊢
        exact .enter (isDirAt_iff.1 hdir)
          (ih (Path.join_ne_nil p hname.nonempty) hget hcounts)

/-- A regular file is read by the names that lead to it. -/
theorem read?_below_of_file (ht : t.WellFormed) {root : Text} {l : Location}
    (hl : t.locate? root = some l) {names : List Text} {bytes : Utf8.Bytes}
    (h : t.get? (l ++ names) = some (.file bytes)) : t.read? (Path.below root names) = some bytes := by
  refine read?_eq_some_iff.2 ⟨l ++ names, ?_, h⟩
  by_cases hnil : names = []
  · subst hnil
    rw [Path.below, if_pos rfl, List.append_nil, hl]
  · have hdir : t.isDirAt l = true :=
      ht.isDirAt_of_prefix h (List.prefix_append l names) (by simpa using hnil)
    have hnames : ∀ n ∈ names, Path.IsName n := fun n hn => ht.isName h n (by simp [hn])
    obtain ⟨j, -, hjoin⟩ := locate?_join ht hl hdir
    obtain ⟨init, x, rfl⟩ : ∃ init x, names = init ++ [x] :=
      ⟨names.dropLast, names.getLast hnil, (List.dropLast_concat_getLast hnil).symm⟩
    rw [← List.append_assoc] at h ⊢
    have hinit : t.isDirAt (l ++ init) = true := by simpa using ht.inDir h
    rw [Path.below, if_neg hnil, hjoin _ hnil hnames, follow_names_append ht hinit, follow_file ht h]

/-- A walk that leaves nothing out comes to what is reached from where the root leads. -/
theorem discovers_iff_reaches (ht : t.WellFormed) {root : Text} {l : Location}
    (hl : t.locate? root = some l) {q : Text} {k : Location} :
    t.Discovers root false q k ↔ t.Reaches root l q k := by
  have hroot : root ≠ [] := by
    rintro rfl
    cases hl
  rw [reaches_iff ht hroot]
  constructor
  · intro h
    have hnotDir := h.get?_ne_dir ht
    obtain ⟨dir, names, hdir, rfl, rfl, -⟩ := h.way
    obtain rfl := Option.some.inj (hl.symm.trans hdir)
    obtain ⟨e, he⟩ := h.entry
    refine ⟨names, e, rfl, rfl, he, ?_⟩
    cases e with
    | file bytes => trivial
    | link target => exact h.readable
    | dir => exact absurd he hnotDir
  · rintro ⟨names, e, rfl, rfl, he, hcounts⟩
    refine ⟨⟨l, names, hl, rfl, rfl, by simp⟩, ⟨e, he⟩, ?_⟩
    cases e with
    | file bytes => exact ⟨bytes, read?_below_of_file ht hl he⟩
    | link target => exact hcounts
    | dir => exact hcounts.elim

/-! ### What is found -/

/-- What lies below a directory is listed in the order of the entries. -/
theorem map_filesBelow_sublist (entries : List (Location × Entry)) (working dir : Location) :
    (((FileTree.mk working entries).filesBelow dir).map (dir ++ ·.1)).Sublist (entries.map (·.1)) := by
  rw [filesBelow, List.map_filterMap]
  induction entries with
  | nil => simp
  | cons entry entries ih =>
      obtain ⟨l, e⟩ := entry
      rw [List.map_cons, List.filterMap_cons]
      split
      next => exact ih.cons _
      next k hk =>
        obtain ⟨below, hbelow, rfl⟩ := Option.map_eq_some_iff.1 hk
        have hcut : (if dir.isPrefixOf l && l != dir then some (l.drop dir.length, e) else none) =
            some below := by
          cases e with
          | dir => cases hbelow
          | file bytes => exact hbelow
          | link target => exact hbelow
        split at hcut
        next hcond =>
          obtain ⟨rest, rfl⟩ := List.isPrefixOf_iff_prefix.1 (Bool.and_eq_true_iff.1 hcond).1
          obtain rfl := Option.some.inj hcut
          rw [List.drop_left]
          exact ih.cons_cons _
        next => cases hcut

/-- The files below a directory are listed by different names. -/
theorem nodup_filesBelow (h : (t.entries.map (·.1)).Nodup) (dir : Location) :
    ((t.filesBelow dir).map (·.1)).Nodup := by
  have hlocations := h.sublist (map_filesBelow_sublist t.entries t.workingDir dir)
  rw [List.Nodup, List.pairwise_map] at hlocations ⊢
  exact hlocations.imp fun hne hsame => hne (by rw [hsame])

/-- Below a directory, all that is reached is collected once. -/
theorem exists_found_of_dir (ht : t.WellFormed) (hapart : (t.entries.map (·.1)).Nodup) {root : Text}
    {l : Location} (hl : t.locate? root = some l) (hdir : t.get? l = some .dir) :
    ∃ found, t.ListsReached root l found ∧
      t.walk root false = .ok (found.map fun place => .ofText place.1) := by
  have hroot : root ≠ [] := by
    rintro rfl
    cases hl
  have hmem {names : List Text} : names ∈ t.reachedFiles (fun _ => false) root l ↔
      t.Discovers root false (Path.below root names) (l ++ names) :=
    @Discovers.mem_reachedFiles_iff t root false ht l hl hdir names
  have hne {names : List Text} (h : names ∈ t.reachedFiles (fun _ => false) root l) : names ≠ [] := by
    rintro rfl
    refine (hmem.1 h).get?_ne_dir ht ?_
    rwa [List.append_nil]
  have hnames {names : List Text} (h : names ∈ t.reachedFiles (fun _ => false) root l) :
      ∀ n ∈ names, Path.IsName n := by
    obtain ⟨e, he⟩ := (hmem.1 h).entry
    exact fun n hn => ht.isName he n (by simp [hn])
  have hnodup : (t.reachedFiles (fun _ => false) root l).Nodup :=
    (nodup_filesBelow hapart l).filter _
  refine ⟨(t.reachedFiles (fun _ => false) root l).map fun names =>
    (Path.below root names, l ++ names), ⟨fun q k => ?_, ?_, ?_⟩, ?_⟩
  · rw [← discovers_iff_reaches ht hl, List.mem_map]
    constructor
    · rintro ⟨names, h, hplace⟩
      obtain ⟨rfl, rfl⟩ := Prod.mk.inj hplace
      exact hmem.1 h
    · intro h
      obtain ⟨dir, names, hdir, rfl, rfl, -⟩ := h.way
      obtain rfl := Option.some.inj (hl.symm.trans hdir)
      exact ⟨names, hmem.2 h, rfl⟩
  · rw [List.map_map]
    refine hnodup.map_on fun names h names' h' hsame => ?_
    exact Path.names_eq_of_below hroot (hne h) (hne h') (hnames h) (hnames h') hsame
  · rw [List.map_map]
    exact hnodup.map_on fun names _ names' _ hsame => List.append_cancel_left hsame
  · rw [walk, hl]
    simp only [hdir, List.map_map]
    refine congrArg Except.ok (List.map_congr_left fun names h => ?_)
    simp [Path.below, hne h]

/-- At a file, that file is all there is to find. -/
theorem exists_found_of_file {root : Text} {l : Location} {bytes : Utf8.Bytes}
    (hl : t.locate? root = some l) (hfile : t.get? l = some (.file bytes)) :
    ∃ found, t.ListsReached root l found ∧
      t.walk root false = .ok (found.map fun place => .ofText place.1) := by
  refine ⟨[(root, l)], ⟨fun q k => ?_, by simp, by simp⟩, by simp [walk, hl, hfile]⟩
  rw [List.mem_singleton, Prod.mk.injEq]
  constructor
  · rintro ⟨rfl, rfl⟩
    exact .here hfile trivial
  · intro h
    cases h with
    | here _ _ => exact ⟨rfl, rfl⟩
    | enter isDir _ =>
        rw [hfile] at isDir
        cases isDir

/-- A walk finds all that is reached from where its root leads. -/
theorem exists_found (ht : t.IsProper) {root : Text} {l : Location} {e : Entry}
    (hl : t.locate? root = some l) (he : t.get? l = some e) :
    ∃ found, t.ListsReached root l found ∧
      t.walk root false = .ok (found.map fun place => .ofText place.1) := by
  have hwf := ht.toWellFormed
  cases e with
  | dir => exact exists_found_of_dir hwf ht.apart hl he
  | file bytes => exact exists_found_of_file hl he
  | link target =>
      rw [locate?] at hl
      split at hl
      · cases hl
      · exact absurd he (ne_link_of_follow hwf (isDirAt_start ht.inside root) hl target)

/-- Without backslashes, no two files that are reached have one path, however it is spelled. -/
theorem ListsReached.nodup_ofText (ht : t.IsProper) {root : Text} {l : Location}
    {found : List (Text × Location)} (hl : t.locate? root = some l) (h : t.ListsReached root l found)
    (hslash : ∀ place ∈ found, '\\' ∉ place.1) :
    (found.map fun place => SourcePath.ofText place.1).Nodup := by
  have hself : ∀ place ∈ found, (SourcePath.ofText place.1).text = place.1 := by
    rintro ⟨q, k⟩ hmem
    have hq := (discovers_iff_reaches ht.toWellFormed hl).2 ((h.mem_iff q k).1 hmem)
    obtain ⟨bytes, hread⟩ := hq.readable
    exact Path.normalize_eq_self (hslash _ hmem)
      (getLast?_of_read? ht.toWellFormed (isDirAt_start ht.inside q) hread)
  have hpaths := h.nodup_paths
  rw [List.Nodup, List.pairwise_map] at hpaths ⊢
  refine hpaths.imp_of_mem fun {place place'} hmem hmem' hne hsame => hne ?_
  rw [← hself place hmem, hsame, hself place' hmem']

end FileTree

/-! ### Main statement -/

/-- A walk is exact. From a root that leads to something, it finds all regular files and all links to
such that are reached through real directories, each once, and nothing else, and gives the one spelling of
their paths; if ignore files are asked, it gives some of these. A path is given twice only if there is a
backslash in a path that is found. The walk fails exactly if the root, links followed, leads to nothing. -/
theorem walk_finds_each_file_once {t : FileTree} (ht : t.IsProper) (root : Text) :
    (∀ l e, t.locate? root = some l → t.get? l = some e →
      ∃ found files, t.ListsReached root l found ∧
        files = found.map (fun place => SourcePath.ofText place.1) ∧
        ((∀ place ∈ found, '\\' ∉ place.1) → files.Nodup) ∧
        t.walk root false = .ok files ∧
        ∃ kept, t.walk root true = .ok kept ∧ kept.Sublist files) ∧
    ∀ respectIgnore failure, t.walk root respectIgnore = .error failure ↔
      failure = .pathNotFound root ∧ t.find? root = none := by
  have hstart := FileTree.isDirAt_start ht.inside root
  constructor
  · intro l e hl he
    obtain ⟨found, hfound, hwalk⟩ := FileTree.exists_found ht hl he
    have hfind : t.find? root = some e := by rw [FileTree.find?, hl, Option.bind_some, he]
    obtain ⟨kept, hkept⟩ := FileTree.exists_walk_of_find? ht.toWellFormed hstart hfind true
    obtain ⟨all, hall, hsublist⟩ := FileTree.sublist_walk_of_ignore hkept
    obtain rfl := Except.ok.inj (hwalk.symm.trans hall)
    exact ⟨found, _, hfound, rfl, hfound.nodup_ofText ht hl, hwalk, kept, hkept, hsublist⟩
  · intro respectIgnore failure
    exact FileTree.walk_eq_error_iff_find? ht.toWellFormed hstart

/-- A site that is reached through a link and holds links to a file, to itself, to the directory that it
lies in and to nothing, and a directory that an ignore file leaves out. -/
def linkedSite : FileTree where
  workingDir := ["home".toList]
  entries := [
    (["home".toList], .dir),
    (["home".toList, "site".toList], .link "../data".toList),
    (["data".toList], .dir),
    (["data".toList, "a.js".toList], .file []),
    (["data".toList, "b.js".toList], .link "../lib/b.js".toList),
    (["data".toList, "again".toList], .link ".".toList),
    (["data".toList, "itself".toList], .link "itself".toList),
    (["data".toList, "gone".toList], .link "nowhere".toList),
    (["data".toList, "sub".toList], .dir),
    (["data".toList, "sub".toList, "c.css".toList], .file []),
    (["data".toList, ".ignore".toList], .file (Utf8.encode "sub\n".toList)),
    (["lib".toList], .dir),
    (["lib".toList, "b.js".toList], .file [])]

theorem isProper_linkedSite : linkedSite.IsProper where
  toWellFormed := FileTree.wellFormed_of_entries (by decide +kernel)
  apart := by decide +kernel
  inside := by decide +kernel

theorem walk_finds_each_file_once_linkedSite :
    (∃ found files, linkedSite.ListsReached "site".toList ["data".toList] found ∧
      files = found.map (fun place => SourcePath.ofText place.1) ∧ files.Nodup ∧
      files = ["site/a.js".toList, "site/b.js".toList, "site/sub/c.css".toList,
        "site/.ignore".toList].map SourcePath.mk ∧
      ∃ kept, linkedSite.walk "site".toList true = .ok kept ∧ kept.Sublist files ∧
        kept = ["site/a.js".toList, "site/b.js".toList].map SourcePath.mk) ∧
    linkedSite.walk "site/gone".toList false = .error (.pathNotFound "site/gone".toList) := by
  have hroot : linkedSite.locate? "site".toList = some ["data".toList] := by decide +kernel
  have hgone : linkedSite.find? "site/gone".toList = none := by decide +kernel
  have hall : linkedSite.walk "site".toList false = .ok (["site/a.js".toList, "site/b.js".toList,
      "site/sub/c.css".toList, "site/.ignore".toList].map SourcePath.mk) := by decide +kernel
  have hasked : linkedSite.walk "site".toList true =
      .ok (["site/a.js".toList, "site/b.js".toList].map SourcePath.mk) := by decide +kernel
  obtain ⟨hfinds, -⟩ := walk_finds_each_file_once isProper_linkedSite "site".toList
  obtain ⟨-, hfails⟩ := walk_finds_each_file_once isProper_linkedSite "site/gone".toList
  obtain ⟨found, files, hfound, hfiles, hnodup, hwalk, kept, hkept, hsublist⟩ :=
    hfinds ["data".toList] .dir hroot (by decide +kernel)
  have hslash : ∀ place ∈ found, '\\' ∉ place.1 := by
    rintro ⟨q, k⟩ hmem hq
    obtain ⟨names, e, rfl, rfl, hget, -⟩ :=
      (FileTree.reaches_iff isProper_linkedSite.toWellFormed (by decide)).1 ((hfound.mem_iff q k).1 hmem)
    obtain ⟨n, hn, hbackslash⟩ :=
      ((Path.mem_below hq).resolve_left (by decide)).resolve_left (by decide)
    have hentries : ∀ entry ∈ linkedSite.entries, ∀ n ∈ entry.1, '\\' ∉ n := by decide +kernel
    exact hentries _ (FileTree.mem_entries_of_get? (by simp) hget) n (by simp [hn]) hbackslash
  rw [hall] at hwalk
  rw [hasked] at hkept
  exact ⟨⟨found, files, hfound, hfiles, hnodup hslash, (Except.ok.inj hwalk).symm, kept, by rw [hasked, hkept],
    hsublist, (Except.ok.inj hkept).symm⟩, (hfails false _).2 ⟨rfl, hgone⟩⟩

end ImportSync
