import ImportSync.Proofs.Denotation
import ImportSync.Proofs.Failures

/-!
Paths of scanned files as identities. A walk comes to every file by one path, put together from the
root and the names on the way, and this path leads to the file. Kept of it is its one spelling. That is
the path itself unless a name has a backslash in it; then it is another path, which other files may have
too and which leads elsewhere or nowhere.
-/

namespace ImportSync

/-- From one path, different names are spelled differently. -/
theorem Path.names_eq_of_below {q : Text} (hq : q ≠ []) {names names' : List Text}
    (hne : names ≠ []) (hne' : names' ≠ []) (hnames : ∀ n ∈ names, IsName n)
    (hnames' : ∀ n ∈ names', IsName n) (h : below q names = below q names') : names = names' := by
  obtain ⟨init, -, hjoin⟩ := exists_join_eq hq
  rw [below, below, if_neg hne, if_neg hne', hjoin _ (isAbsolute_joinWith hnames),
    hjoin _ (isAbsolute_joinWith hnames')] at h
  have hjoined := (List.cons.inj (List.append_cancel_left h)).2
  rw [← Text.splitOn_joinWith hne fun n hn => (hnames n hn).no_slash, hjoined,
    Text.splitOn_joinWith hne' fun n hn => (hnames' n hn).no_slash]

/-! ### Files that a walk comes to -/

namespace FileTree

/-- A walk of the root comes by a path to the entry at a location: names lead there from where the root
leads, past nothing that is left out, and the path leads to a file. -/
structure Discovers (t : FileTree) (root : Text) (respectIgnore : Bool) (p : Text) (k : Location) :
    Prop where
  way : ∃ dir names, t.locate? root = some dir ∧ k = dir ++ names ∧ p = Path.below root names ∧
    (respectIgnore = true → t.isReached t.isSkipped dir names = true)
  entry : ∃ e, t.get? k = some e
  readable : ∃ bytes, t.read? p = some bytes

variable {t : FileTree}

/-- The path of a location leads where the name of the entry there leads from its directory. -/
theorem locate?_pathOf_concat (ht : t.WellFormed) {dir : Location} {x : Text} {e : Entry}
    (h : t.get? (dir ++ [x]) = some e) :
    t.locate? (pathOf (dir ++ [x])) = t.follow linkLimit dir [x] := by
  have hdir : t.isDirAt ([] ++ dir) = true := by simpa using ht.inDir h
  rw [locate?_pathOf t (ht.isName h)]
  exact follow_names_append ht hdir linkLimit [x]

/-- From its directory, the name of a file leads to it. -/
theorem follow_file (ht : t.WellFormed) {dir : Location} {x : Text} {bytes : Utf8.Bytes}
    (h : t.get? (dir ++ [x]) = some (.file bytes)) (n : Nat) :
    t.follow n dir [x] = some (dir ++ [x]) := by
  have hx : Path.IsName x := ht.isName h x (by simp)
  cases n <;> simp [follow, followWith, hx.not_skipped, hx.ne_above, h]

theorem locate?_pathOf_of_file (ht : t.WellFormed) {k : Location} {bytes : Utf8.Bytes}
    (h : t.get? k = some (.file bytes)) : t.locate? (pathOf k) = some k := by
  have hk : k ≠ [] := by
    rintro rfl
    simp at h
  obtain ⟨dir, x, rfl⟩ : ∃ dir x, k = dir ++ [x] :=
    ⟨k.dropLast, k.getLast hk, (List.dropLast_concat_getLast hk).symm⟩
  rw [locate?_pathOf_concat ht h, follow_file ht h]

theorem locate?_pathOf_of_isDirAt (ht : t.WellFormed) {k : Location} (h : t.isDirAt k = true) :
    t.locate? (pathOf k) = some k := by
  have hdir : t.isDirAt ([] ++ k) = true := h
  have hfollow := follow_names_append ht hdir linkLimit []
  rw [List.append_nil, follow_nil] at hfollow
  rw [locate?_pathOf t (ht.isName (isDirAt_iff.1 h)), hfollow, List.nil_append]

/-- A path that ends in a slash leads to no file. -/
theorem getLast?_of_read? (ht : t.WellFormed) {p : Text} (hstart : t.isDirAt (t.start p) = true)
    {bytes : Utf8.Bytes} (h : t.read? p = some bytes) : p.getLast? ≠ some '/' := by
  intro hlast
  obtain ⟨init, rfl⟩ := List.getLast?_eq_some_iff.1 hlast
  obtain ⟨l, hlocate, hfile⟩ := read?_eq_some_iff.1 h
  rw [locate?, if_neg (by simp), List.splitOn_append_cons_self] at hlocate
  obtain ⟨mid, n, -, -, hmid, hfollow⟩ := follow_append ht hstart
    (List.splitOn_ne_nil '/' []) hlocate
  have hsame : t.follow n mid [[]] = some mid := by rw [follow_skip t n mid rfl, follow_nil]
  obtain rfl := Option.some.inj (hsame.symm.trans hfollow)
  rw [isDirAt_iff.1 hmid] at hfile
  cases hfile

namespace Discovers

variable {root : Text} {respectIgnore : Bool} {p p' : Text} {k k' : Location}

/-- The path leads where the entry leads that the walk came to. -/
theorem locate?_eq (ht : t.WellFormed) (h : t.Discovers root respectIgnore p k) :
    t.locate? p = t.locate? (pathOf k) := by
  obtain ⟨dir, names, hdir, rfl, rfl, -⟩ := h.way
  obtain ⟨e, he⟩ := h.entry
  obtain ⟨bytes, hread⟩ := h.readable
  obtain ⟨l, hlocate, hfile⟩ := read?_eq_some_iff.1 hread
  by_cases hne : names = []
  · subst hne
    rw [Path.below, if_pos rfl, hdir] at hlocate
    obtain rfl := Option.some.inj hlocate
    rw [Path.below, if_pos rfl, List.append_nil, hdir, locate?_pathOf_of_file ht hfile]
  · have hdirAt : t.isDirAt dir = true :=
      ht.isDirAt_of_prefix he (List.prefix_append dir names) (by simpa using hne)
    have hnames : ∀ n ∈ names, Path.IsName n := fun n hn => ht.isName he n (by simp [hn])
    obtain ⟨j, hj, hjoin⟩ := locate?_join ht hdir hdirAt
    rw [Path.below, if_neg hne, hjoin names hne hnames] at hlocate ⊢
    obtain ⟨init, x, rfl⟩ : ∃ init x, names = init ++ [x] :=
      ⟨names.dropLast, names.getLast hne, (List.dropLast_concat_getLast hne).symm⟩
    rw [← List.append_assoc] at he ⊢
    have hinit : t.isDirAt (dir ++ init) = true := by simpa using ht.inDir he
    rw [follow_names_append ht hinit] at hlocate ⊢
    -- fewer links may be left below the root than from the start
    rw [locate?_pathOf_concat ht he, hlocate, follow_mono ht hj hlocate]

theorem get?_ne_dir (ht : t.WellFormed) (h : t.Discovers root respectIgnore p k) :
    t.get? k ≠ some .dir := by
  intro hdir
  obtain ⟨bytes, hread⟩ := h.readable
  obtain ⟨l, hlocate, hfile⟩ := read?_eq_some_iff.1 hread
  rw [h.locate?_eq ht, locate?_pathOf_of_isDirAt ht (isDirAt_iff.2 hdir)] at hlocate
  obtain rfl := Option.some.inj hlocate
  rw [hdir] at hfile
  cases hfile

theorem eq_nil_of_get?_append (ht : t.WellFormed) (h : t.Discovers root respectIgnore p k)
    {names : List Text} {e : Entry} (he : t.get? (k ++ names) = some e) : names = [] := by
  by_contra hne
  have hdir := ht.isDirAt_of_prefix he (List.prefix_append k names) (by simpa using hne)
  exact h.get?_ne_dir ht (isDirAt_iff.1 hdir)

/-- Below a directory, the files that a walk comes to are those that it collects there. -/
theorem mem_reachedFiles_iff (ht : t.WellFormed) {dir : Location} (hdir : t.locate? root = some dir)
    (hget : t.get? dir = some .dir) {names : List Text} :
    names ∈ t.reachedFiles (if respectIgnore then t.isSkipped else fun _ => false) root dir ↔
      t.Discovers root respectIgnore (Path.below root names) (dir ++ names) := by
  rw [reachedFiles, List.mem_filter, Bool.and_eq_true, Option.isSome_iff_exists]
  constructor
  · rintro ⟨hmem, hreached, hread⟩
    obtain ⟨⟨names, e⟩, hbelow, rfl⟩ := List.mem_map.1 hmem
    obtain ⟨hentry, hne, -⟩ := mem_filesBelow_iff.1 hbelow
    refine ⟨⟨dir, names, hdir, rfl, rfl, ?_⟩, exists_get?_of_mem_entries hentry, ?_⟩
    · rintro rfl
      exact hreached
    · rw [Path.below, if_neg hne]
      exact hread
  · intro h
    have hnotDir := h.get?_ne_dir ht
    have hne : names ≠ [] := by
      rintro rfl
      rw [List.append_nil] at hnotDir
      exact hnotDir hget
    obtain ⟨dir', names', hdir', hloc, -, hreached⟩ := h.way
    obtain rfl := Option.some.inj (hdir.symm.trans hdir')
    obtain rfl := List.append_cancel_left hloc
    obtain ⟨e, he⟩ := h.entry
    have hread := h.readable
    rw [Path.below, if_neg hne] at hread
    refine ⟨List.mem_map.2 ⟨(names, e), ?_, rfl⟩, ?_, hread⟩
    · exact mem_filesBelow_iff.2
        ⟨mem_entries_of_get? (by simp [hne]) he, hne, fun hdir => hnotDir (hdir ▸ he)⟩
    · cases respectIgnore with
      | true => exact hreached rfl
      | false => exact isReached_of_get? ht he

/-- What a walk comes to is among the files that it finds, under the one spelling of the path. -/
theorem mem_walk (ht : t.WellFormed) (h : t.Discovers root respectIgnore p k) :
    ∃ files, t.walk root respectIgnore = .ok files ∧ .ofText p ∈ files := by
  obtain ⟨dir, names, hdir, rfl, rfl, -⟩ := h.way
  obtain ⟨e, he⟩ := h.entry
  by_cases hne : names = []
  · subst hne
    obtain ⟨bytes, hread⟩ := h.readable
    obtain ⟨l, hlocate, hfile⟩ := read?_eq_some_iff.1 hread
    rw [Path.below, if_pos rfl, hdir] at hlocate
    obtain rfl := Option.some.inj hlocate
    exact ⟨[.ofText root], by simp [walk, hdir, hfile], by simp [Path.below]⟩
  · have hdirAt := isDirAt_iff.1
      (ht.isDirAt_of_prefix he (List.prefix_append dir names) (by simpa using hne))
    have hmem := (mem_reachedFiles_iff ht hdir hdirAt).2 h
    refine ⟨_, by simp only [walk, hdir, hdirAt]; rfl, List.mem_map.2 ⟨names, hmem, ?_⟩⟩
    rw [Path.below, if_neg hne]

/-- A walk comes to different entries by different paths, and to one entry by one path. -/
theorem path_eq_iff (ht : t.WellFormed) (h : t.Discovers root respectIgnore p k)
    (h' : t.Discovers root respectIgnore p' k') : p = p' ↔ k = k' := by
  obtain ⟨dir, names, hdir, rfl, rfl, -⟩ := h.way
  obtain ⟨dir', names', hdir', rfl, rfl, -⟩ := h'.way
  obtain rfl := Option.some.inj (hdir.symm.trans hdir')
  obtain ⟨e, he⟩ := h.entry
  obtain ⟨e', he'⟩ := h'.entry
  have hroot : root ≠ [] := by
    rintro rfl
    cases hdir
  -- nothing lies below a root that is a file
  have hnil : names = [] ↔ names' = [] := by
    constructor
    · rintro rfl
      rw [List.append_nil] at h
      exact h.eq_nil_of_get?_append ht he'
    · rintro rfl
      rw [List.append_nil] at h'
      exact h'.eq_nil_of_get?_append ht he
  constructor
  · intro hpath
    by_cases hne : names = []
    · rw [hne, hnil.1 hne]
    · rw [Path.names_eq_of_below hroot hne (fun hnil' => hne (hnil.2 hnil'))
        (fun n hn => ht.isName he n (by simp [hn])) (fun n hn => ht.isName he' n (by simp [hn])) hpath]
  · intro hloc
    rw [List.append_cancel_left hloc]

theorem isAbsolute (hroot : Path.isAbsolute root = true) (h : t.Discovers root respectIgnore p k) :
    Path.isAbsolute p = true := by
  obtain ⟨dir, names, -, -, rfl, -⟩ := h.way
  rw [Path.below]
  split
  · exact hroot
  · exact Path.isAbsolute_join hroot _

/-- The path is its own one spelling exactly if there is no backslash in it. -/
theorem text_eq_iff (ht : t.WellFormed) (hroot : Path.isAbsolute root = true)
    (h : t.Discovers root respectIgnore p k) : (SourcePath.ofText p).text = p ↔ '\\' ∉ p := by
  obtain ⟨bytes, hread⟩ := h.readable
  constructor
  · intro htext hslash
    rw [← htext] at hslash
    exact Path.no_backslash_of_normalize p hslash
  · intro hslash
    exact Path.normalize_eq_self hslash
      (getLast?_of_read? ht (t.isDirAt_start_of_isAbsolute (h.isAbsolute hroot)) hread)

/-- Without backslashes, the walk finds the path as it is. -/
theorem mem_walk_of_no_backslash (ht : t.WellFormed) (hroot : Path.isAbsolute root = true)
    (h : t.Discovers root respectIgnore p k) (hslash : '\\' ∉ p) :
    ∃ files, t.walk root respectIgnore = .ok files ∧ ⟨p⟩ ∈ files := by
  have hpath : SourcePath.ofText p = ⟨p⟩ :=
    congrArg SourcePath.mk ((h.text_eq_iff ht hroot).2 hslash)
  rw [← hpath]
  exact h.mem_walk ht

/-- Where there are no links, the one spelling leads to the entry exactly if there is no backslash in the
path. -/
theorem locate?_text_iff (ht : t.IsPlain) (hroot : Path.isAbsolute root = true)
    (hslash : '\\' ∉ root) (h : t.Discovers root respectIgnore p k) :
    t.locate? (SourcePath.ofText p).text = t.locate? (pathOf k) ↔ '\\' ∉ p := by
  obtain ⟨e, he⟩ := h.entry
  constructor
  · intro hlocate hp
    obtain ⟨n, hn, hbackslash⟩ : ∃ n ∈ k, '\\' ∈ n := by
      obtain ⟨dir, names, -, rfl, rfl, -⟩ := h.way
      obtain ⟨n, hn, hbackslash⟩ :=
        ((Path.mem_below hp).resolve_left (by decide)).resolve_left hslash
      exact ⟨n, List.mem_append_right dir hn, hbackslash⟩
    rw [locate?_pathOf_of_get? ht he] at hlocate
    have htext : Path.isAbsolute (SourcePath.ofText p).text = true := by
      refine (Path.isAbsolute_normalize (h.isAbsolute hroot)).resolve_left fun hnil => ?_
      rw [SourcePath.ofText, hnil] at hlocate
      cases hlocate
    -- every name of the place that a path leads to stands in the path
    have hstart : t.start (SourcePath.ofText p).text = [] := by rw [start, if_pos htext]
    obtain ⟨hdestination, -⟩ := locate?_spec ht (by rw [hstart]; exact t.isDirAt_nil) hlocate
    rw [hdestination, destination, hstart] at hn
    have hpiece := (mem_foldl_go hn).resolve_left (by simp)
    exact Path.no_backslash_of_normalize p (Path.mem_of_mem_pieces hpiece hbackslash)
  · intro hp
    rw [(h.text_eq_iff ht.toWellFormed hroot).2 hp, h.locate?_eq ht.toWellFormed]

end Discovers

/-- The files that a walk finds are those that it comes to. -/
theorem mem_walk_iff_discovers (ht : t.WellFormed) {root : Text} {respectIgnore : Bool}
    {files : List SourcePath} (h : t.walk root respectIgnore = .ok files) {m : SourcePath} :
    m ∈ files ↔ ∃ p k, t.Discovers root respectIgnore p k ∧ m = .ofText p := by
  constructor
  · intro hm
    obtain ⟨dir, hdir, ⟨⟨bytes, hfile⟩, rfl⟩ | ⟨hget, rfl⟩⟩ := eq_of_walk h
    · refine ⟨root, dir, ⟨⟨dir, [], hdir, by simp, rfl, fun _ => rfl⟩, ⟨_, hfile⟩, bytes, ?_⟩,
        List.mem_singleton.1 hm⟩
      exact read?_eq_some_iff.2 ⟨dir, hdir, hfile⟩
    · obtain ⟨names, hnames, rfl⟩ := List.mem_map.1 hm
      have hp := (Discovers.mem_reachedFiles_iff ht hdir hget).1 hnames
      have hne : names ≠ [] := by
        rintro rfl
        rw [List.append_nil] at hp
        exact hp.get?_ne_dir ht hget
      exact ⟨_, _, hp, by rw [Path.below, if_neg hne]⟩
  · rintro ⟨p, k, hp, rfl⟩
    obtain ⟨files', hfiles', hm⟩ := hp.mem_walk ht
    obtain rfl := Except.ok.inj (h.symm.trans hfiles')
    exact hm

/-- A walk fails exactly if its root leads to nothing. -/
theorem walk_eq_error_iff_find? (ht : t.WellFormed) {root : Text}
    (hstart : t.isDirAt (t.start root) = true) {respectIgnore : Bool} {failure : Failure} :
    t.walk root respectIgnore = .error failure ↔
      failure = .pathNotFound root ∧ t.find? root = none := by
  rw [walk_eq_error_iff]
  refine and_congr_right fun _ => ?_
  cases he : t.find? root with
  | none => simp [read?, he]
  | some e =>
      obtain ⟨l, hlocate, hget⟩ := Option.bind_eq_some_iff.1 he
      cases e with
      | dir => simp
      | file bytes => simp [read?, he]
      | link target =>
          rw [locate?] at hlocate
          split at hlocate
          · cases hlocate
          · exact absurd hget (ne_link_of_follow ht hstart hlocate target)

/-- A walk of a root at which something lies finds files. -/
theorem exists_walk_of_find? (ht : t.WellFormed) {root : Text}
    (hstart : t.isDirAt (t.start root) = true) {e : Entry} (he : t.find? root = some e)
    (respectIgnore : Bool) : ∃ files, t.walk root respectIgnore = .ok files := by
  cases hwalk : t.walk root respectIgnore with
  | ok files => exact ⟨files, rfl⟩
  | error failure =>
      obtain ⟨-, hnone⟩ := (walk_eq_error_iff_find? ht hstart).1 hwalk
      rw [he] at hnone
      cases hnone

end FileTree

/-! ### Runs -/

section Runs

variable {tools : Tools} {s : Settings} {t : FileTree} {exports : ExportSet}

/-- A root below which a file that is there cannot be read has a file whose path has a backslash. -/
theorem Settings.Obstructed.exists_backslash (hroot : Path.isAbsolute s.root = true)
    (ht : t.WellFormed) {wanted : SourcePath → Prop} {configured q : Text}
    (h : s.Obstructed t wanted configured (.unreadable q)) :
    ∃ p k, t.Discovers (s.resolve configured) s.respectIgnoreFiles p k ∧ '\\' ∈ p ∧
      q = Path.normalize p := by
  cases h with
  | unreadable hfiles hm _ hread =>
      obtain ⟨p, k, hp, rfl⟩ := (FileTree.mem_walk_iff_discovers ht hfiles).1 hm
      refine ⟨p, k, hp, ?_, rfl⟩
      by_contra hslash
      obtain ⟨bytes, hbytes⟩ := hp.readable
      rw [(hp.text_eq_iff ht (Settings.isAbsolute_resolve hroot configured)).2 hslash, hbytes] at hread
      cases hread

/-- A run keeps the tree well-formed up to every root that it comes to. -/
theorem ComesTo.wellFormed (hwalk : tools.walk = FileTree.walk)
    (hroot : Path.isAbsolute s.root = true) (haggregator : Path.isAbsolute s.aggregator.path = true)
    (ht : t.WellFormed) {i : Nat} {seen : List SourcePath} {st : SyncState}
    (h : ComesTo tools s t i exports seen st) : st.tree.WellFormed := by
  induction h with
  | @start output o st st' hharvest hwritten =>
      obtain ⟨-, htree, -⟩ := (observes_harvestFrom [] {} s.importRoots).of_yields rfl
        (NameCache.isTruthful_empty _ _) hharvest
      change st.tree = t at htree
      rw [← htree] at ht
      rw [yields_syncAggregator_iff] at hwritten
      cases hmode : s.mode with
      | check =>
          rw [hmode, yields_bringUpToDate_check] at hwritten
          rw [hwritten.2]
          exact ht
      | write =>
          rw [hmode, yields_bringUpToDate] at hwritten
          rcases hwritten with ⟨-, -, rfl⟩ | ⟨-, -, hwrite⟩
          · exact ht
          · exact wellFormed_of_yields_writeText ht haggregator hwrite
  | root _ _ hroot' ih => exact (addsFiles_of_modifyRoot hwalk hroot ih hroot').2.wellFormed ih

/-- If a run cannot read a file that is there, then the path of the file has a backslash. -/
theorem exists_backslash_of_sync (hwalk : tools.walk = FileTree.walk)
    (hroot : Path.isAbsolute s.root = true) (haggregator : Path.isAbsolute s.aggregator.path = true)
    (ht : t.WellFormed) {q : Text} (h : (sync tools s t).result = .error (.unreadable q)) :
    ∃ c ∈ s.importRoots ++ s.modifyRoots, ∃ p k,
      (sync tools s t).tree.Discovers (s.resolve c) s.respectIgnoreFiles p k ∧ '\\' ∈ p ∧
        q = Path.normalize p := by
  rcases causes_of_sync hwalk h with ⟨⟨c, hc, hobstructed⟩, htree⟩ | ⟨i, hstops, htree⟩ | hwriting
  · refine ⟨c, List.mem_append_left _ hc, ?_⟩
    rw [htree]
    exact hobstructed.exists_backslash hroot ht
  · obtain ⟨r, hr⟩ := hstops.before
    obtain ⟨c, hc, hobstructed⟩ := hstops.obstructed
    obtain ⟨hi, -⟩ := List.getElem?_eq_some_iff.1 hc
    obtain ⟨exports, seen, st, hcomes⟩ := comesTo_of_sync_upTo hi.le hr
    have ht' := hcomes.wellFormed hwalk hroot haggregator ht
    rw [← hcomes.sync_upTo.2] at ht'
    refine ⟨c, List.mem_append_right _ (List.mem_of_getElem? hc), ?_⟩
    rw [htree]
    exact hobstructed.exists_backslash hroot ht'
  · rcases hwriting with ⟨_, h⟩ | ⟨_, h⟩ <;> cases h

/-- What one more root adds is brought up to date, malformed bytes aside. -/
theorem updated_of_modifyRoot {seen fresh : List SourcePath} {configured : Text}
    {updates : List Update} {st st' : SyncState}
    (h : (modifyRoot tools s exports seen configured).Yields st (fresh, updates) st')
    {m : SourcePath} (hm : m ∈ fresh) :
    (∃ u ∈ updates, u.path = m) ∨
      ∃ bytes, st.tree.read? m.text = some bytes ∧ Utf8.decode? bytes = none := by
  obtain ⟨files, drafts, mid, -, rfl, hdrafts, hupdates⟩ := steps_of_yields_modifyRoot h
  obtain ⟨-, -, htold⟩ := SyncM.Tells.mapM tells_draftFor _ _ _ _ hdrafts
  obtain ⟨d?, hd?, hmalformed, hpath⟩ := htold m hm
  cases d? with
  | none => exact .inr (hmalformed rfl)
  | some d =>
      have hd : d ∈ drafts.filterMap id := List.mem_filterMap.2 ⟨_, hd?, rfl⟩
      obtain ⟨-, -, happlied⟩ := SyncM.yields_mapM (I := fun _ => True) (by simp) trivial hupdates
      obtain ⟨u, hu, before, after, -, happlied⟩ := happlied d hd
      obtain ⟨o, -, rfl⟩ := yields_applyDraft.1 happlied
      exact .inl ⟨_, hu, (hpath d rfl).1⟩

/-- What is found below a modify root when the run comes there has been brought up to date in the end,
unless its bytes were malformed when it was found first. -/
theorem ComesTo.updated {i : Nat} {seen : List SourcePath} {st st' : SyncState}
    (h : ComesTo tools s t i exports seen st) {todo : List Text}
    (htodo : todo <+: s.modifyRoots.drop i) {updates : List Update}
    (hyields : (updateFrom tools s exports seen todo).Yields st updates st') {m : SourcePath}
    (hm : s.isModified m = true) {j : Nat} (hj : j < i + todo.length)
    (hfinds : s.FindsAt tools t j m) :
    m ∈ seen ∨ (∃ u ∈ updates, u.path = m) ∨
      ∃ n ≤ j, ∃ bytes, (sync tools (s.upTo n) t).tree.read? m.text = some bytes ∧
        Utf8.decode? bytes = none := by
  induction todo generalizing i seen st updates with
  | nil => exact .inl (h.mem_seen_iff.2 ⟨hm, j, by simpa using hj, hfinds⟩)
  | cons configured todo ih =>
      by_cases hbefore : m ∈ seen
      · exact .inl hbefore
      obtain ⟨hconfigured, htodo⟩ := getElem?_of_cons_prefix_drop htodo
      obtain ⟨⟨fresh, first⟩, mid, hroot, hyields⟩ := SyncM.yields_bind.1 hyields
      obtain ⟨later, last, hothers, hyields⟩ := SyncM.yields_bind.1 hyields
      obtain ⟨rfl, rfl⟩ := SyncM.yields_pure.1 hyields
      have hnext := h.root hconfigured hroot
      rw [List.length_cons] at hj
      rcases ih hnext htodo hothers (by omega) with hseen | ⟨u, hu, hpath⟩ | hmalformed
      · -- the file is new at this root, so it is drafted there
        have hfresh := (List.mem_append.1 hseen).resolve_left hbefore
        rcases updated_of_modifyRoot hroot hfresh with ⟨u, hu, hpath⟩ | hmalformed
        · exact .inr (.inl ⟨u, List.mem_append_left _ hu, hpath⟩)
        · refine .inr (.inr ⟨i, ?_, by rw [h.sync_upTo.2]; exact hmalformed⟩)
          by_contra hlt
          exact hbefore (h.mem_seen_iff.2 ⟨hm, j, by omega, hfinds⟩)
      · exact .inr (.inl ⟨u, List.mem_append_right _ hu, hpath⟩)
      · exact .inr (.inr hmalformed)

/-- A run comes to every root that is done. -/
theorem ComesTo.exists_of_le {i : Nat} {seen : List SourcePath} {st st' : SyncState}
    (h : ComesTo tools s t i exports seen st) {todo : List Text}
    (htodo : todo <+: s.modifyRoots.drop i) {updates : List Update}
    (hyields : (updateFrom tools s exports seen todo).Yields st updates st') {j : Nat} (hi : i ≤ j)
    (hj : j ≤ i + todo.length) : ∃ seen' mid, ComesTo tools s t j exports seen' mid := by
  induction todo generalizing i seen st st' updates with
  | nil =>
      obtain rfl : i = j := Nat.le_antisymm hi hj
      exact ⟨seen, st, h⟩
  | cons configured todo ih =>
      rcases Nat.eq_or_lt_of_le hi with rfl | hlt
      · exact ⟨seen, st, h⟩
      obtain ⟨hconfigured, htodo⟩ := getElem?_of_cons_prefix_drop htodo
      obtain ⟨⟨fresh, first⟩, mid, hroot, hyields⟩ := SyncM.yields_bind.1 hyields
      obtain ⟨later, last, hothers, -⟩ := SyncM.yields_bind.1 hyields
      rw [List.length_cons] at hj
      exact ih (h.root hconfigured hroot) htodo hothers hlt (by omega)

/-- In a run that succeeds, what is found below a modify root under a path without backslashes has been
brought up to date under that path, unless its bytes were malformed. -/
theorem updated_of_sync (hwalk : tools.walk = FileTree.walk)
    (hroot : Path.isAbsolute s.root = true) (haggregator : Path.isAbsolute s.aggregator.path = true)
    (ht : t.WellFormed) {r : RunReport} (h : (sync tools s t).result = .ok r) {i : Nat} {c p : Text}
    {k : Location} (hc : s.modifyRoots[i]? = some c)
    (hp : (sync tools (s.upTo i) t).tree.Discovers (s.resolve c) s.respectIgnoreFiles p k)
    (hslash : '\\' ∉ p) (hm : s.isModified ⟨p⟩ = true) :
    (∃ u ∈ r.consumers, u.path = ⟨p⟩) ∨
      ∃ n ≤ i, ∃ bytes, (sync tools (s.upTo n) t).tree.read? p = some bytes ∧
        Utf8.decode? bytes = none := by
  obtain ⟨st, hyields, -⟩ := yields_of_sync h
  obtain ⟨output, st₁, hharvest, hyields⟩ := SyncM.yields_bind.1 hyields
  obtain ⟨o, st₂, hwritten, hyields⟩ := SyncM.yields_bind.1 hyields
  obtain ⟨updates, st₃, hconsumers, hyields⟩ := SyncM.yields_bind.1 hyields
  obtain ⟨rfl, rfl⟩ := SyncM.yields_pure.1 hyields
  have hstart := ComesTo.start hharvest hwritten
  have hroots : s.modifyRoots <+: s.modifyRoots.drop 0 := List.prefix_rfl
  obtain ⟨hi, -⟩ := List.getElem?_eq_some_iff.1 hc
  obtain ⟨seen, mid, hcomes⟩ := hstart.exists_of_le hroots hconsumers (Nat.zero_le i) (by omega)
  have ht' := hcomes.wellFormed hwalk hroot haggregator ht
  rw [← hcomes.sync_upTo.2] at ht'
  obtain ⟨files, hfiles, hmem⟩ :=
    hp.mem_walk_of_no_backslash ht' (Settings.isAbsolute_resolve hroot c) hslash
  have hfinds : s.FindsAt tools t i ⟨p⟩ := ⟨c, files, hc, by rw [hwalk]; exact hfiles, hmem⟩
  exact (hstart.updated hroots hconsumers hm (by omega) hfinds).resolve_left (by simp)

end Runs

/-! ### Main statement -/

/-- The walk of a root comes to its files by paths of their own: the files that it finds are those that
it comes to, and the path of each leads where its entry leads. A path is kept as it is exactly if there is
no backslash in it, so two entries are taken for one only where there is one. Without links, what is
kept of any other path does not lead to the entry. -/
structure FileTree.TellsApart (t : FileTree) (root : Text) (respectIgnore : Bool) : Prop where
  found : ∃ files, t.walk root respectIgnore = .ok files ∧
    ∀ m, m ∈ files ↔ ∃ p k, t.Discovers root respectIgnore p k ∧ m = .ofText p
  leads : ∀ p k, t.Discovers root respectIgnore p k → t.locate? p = t.locate? (pathOf k)
  path_eq : ∀ p p' k k', t.Discovers root respectIgnore p k → t.Discovers root respectIgnore p' k' →
    (p = p' ↔ k = k')
  kept : ∀ p k, t.Discovers root respectIgnore p k → ((SourcePath.ofText p).text = p ↔ '\\' ∉ p)
  merged : ∀ p p' k k', t.Discovers root respectIgnore p k → t.Discovers root respectIgnore p' k' →
    k ≠ k' → SourcePath.ofText p = .ofText p' → '\\' ∈ p ∨ '\\' ∈ p'
  lost : t.IsPlain → '\\' ∉ root → ∀ p k, t.Discovers root respectIgnore p k →
    (t.locate? (SourcePath.ofText p).text = t.locate? (pathOf k) ↔ '\\' ∉ p)

/-- A run works on the files that its roots lead to. If it cannot read one that is there, then there is a
backslash in its path; and every other file takes part under its own path, both where the generated
module is built and where modules are brought up to date. -/
structure Settings.WorksOnFound (tools : Tools) (s : Settings) (t : FileTree) : Prop where
  unreadable : ∀ q, (sync tools s t).result = .error (.unreadable q) →
    ∃ c ∈ s.importRoots ++ s.modifyRoots, ∃ p k,
      (sync tools s t).tree.Discovers (s.resolve c) s.respectIgnoreFiles p k ∧ '\\' ∈ p ∧
        q = Path.normalize p
  imported : ∀ output st, (harvest tools s).Yields { tree := t } output st →
    ∃ found, List.Forall₂ (FindsInOrder tools s t) s.importRoots found ∧
      output.IsMadeOf tools s t (s.participants found) ∧
      ∀ c ∈ s.importRoots, ∀ p k, t.Discovers (s.resolve c) s.respectIgnoreFiles p k → '\\' ∉ p →
        s.isImported ⟨p⟩ = true → ⟨p⟩ ∈ s.participants found
  modified : ∀ r, (sync tools s t).result = .ok r → ∀ (i : Nat) c p k, s.modifyRoots[i]? = some c →
    (sync tools (s.upTo i) t).tree.Discovers (s.resolve c) s.respectIgnoreFiles p k → '\\' ∉ p →
    s.isModified ⟨p⟩ = true →
    (∃ u ∈ r.consumers, u.path = ⟨p⟩) ∨
      ∃ n ≤ i, ∃ bytes, (sync tools (s.upTo n) t).tree.read? p = some bytes ∧
        Utf8.decode? bytes = none

/-- A file is known by the one spelling of its path exactly as far as its path has no backslash: the walk
of an absolute root at which something lies tells such files apart, and a run from an absolute root works
on them. -/
theorem files_known_without_backslash {t : FileTree} (ht : t.WellFormed) (extract : Extractor) :
    (∀ root respectIgnore e, Path.isAbsolute root = true → t.find? root = some e →
      t.TellsApart root respectIgnore) ∧
    ∀ s : Settings, Path.isAbsolute s.root = true → Path.isAbsolute s.aggregator.path = true →
      s.WorksOnFound { extract } t := by
  constructor
  · intro root respectIgnore e hroot he
    obtain ⟨files, hfiles⟩ :=
      FileTree.exists_walk_of_find? ht (t.isDirAt_start_of_isAbsolute hroot) he respectIgnore
    refine ⟨⟨files, hfiles, fun m => FileTree.mem_walk_iff_discovers ht hfiles⟩,
      fun p k h => h.locate?_eq ht, fun p p' k k' h h' => h.path_eq_iff ht h',
      fun p k h => h.text_eq_iff ht hroot, ?_, fun hplain hslash p k h =>
        h.locate?_text_iff hplain hroot hslash⟩
    intro p p' k k' h h' hne hsame
    by_contra hslash
    rw [not_or] at hslash
    have htext := (h.text_eq_iff ht hroot).2 hslash.1
    have htext' := (h'.text_eq_iff ht hroot).2 hslash.2
    rw [hsame, htext'] at htext
    exact hne ((h.path_eq_iff ht h').1 htext.symm)
  · intro s hroot haggregator
    refine ⟨fun q => exists_backslash_of_sync rfl hroot haggregator ht, fun output st hyields => ?_,
      fun r hr i c p k => updated_of_sync rfl hroot haggregator ht hr⟩
    obtain ⟨found, hfound, rfl, hreadable⟩ := harvest_eq_withFiles hyields
    refine ⟨found, hfound, Harvest.isMadeOf_withFiles hreadable, fun c hc p k hp hslash hm => ?_⟩
    obtain ⟨files, hfiles, hmem⟩ :=
      hp.mem_walk_of_no_backslash ht (Settings.isAbsolute_resolve hroot c) hslash
    rw [Settings.participants, List.mem_eraseDups, List.mem_filter]
    exact ⟨(mem_flatten_iff_finds hfound).2 ⟨c, hc, files, hfiles, hmem⟩, hm⟩

/-- A directory with a file whose name has a backslash, and a file in a directory that is spelled
likewise. -/
def doubledSite : FileTree where
  workingDir := []
  entries := [
    (["site".toList], .dir),
    (["site".toList, "a\\b.js".toList], .file (Utf8.encode "export const x = 1;\n".toList)),
    (["site".toList, "a".toList], .dir),
    (["site".toList, "a".toList, "b.js".toList],
      .file (Utf8.encode "export const y = 2;\n".toList))]

/-- The two files are found under one path, which leads to one of them; and a run stops at a page that is
there but whose name has a backslash. -/
theorem files_known_without_backslash_doubledSite :
    doubledSite.walk "/site".toList false =
      .ok [⟨"/site/a/b.js".toList⟩, ⟨"/site/a/b.js".toList⟩] ∧
    (∃ p k, doubledSite.Discovers "/site".toList false p k ∧ k = ["site".toList, "a\\b.js".toList] ∧
      doubledSite.locate? (SourcePath.ofText p).text ≠ doubledSite.locate? (FileTree.pathOf k)) ∧
    (∃ p k, doubledSite.Discovers "/site".toList false p k ∧
      k = ["site".toList, "a".toList, "b.js".toList] ∧
      doubledSite.locate? (SourcePath.ofText p).text = doubledSite.locate? (FileTree.pathOf k)) ∧
    (sync {} siteSettings backslashSite).result =
      .error (.unreadable "/site/src/pages/a/b.js".toList) ∧
    ∃ c ∈ siteSettings.importRoots ++ siteSettings.modifyRoots, ∃ p k,
      (sync {} siteSettings backslashSite).tree.Discovers (siteSettings.resolve c) false p k ∧
        '\\' ∈ p ∧ "/site/src/pages/a/b.js".toList = Path.normalize p := by
  have hdoubled : doubledSite.IsPlain :=
    FileTree.isPlain_of_entries (by decide +kernel) (by decide +kernel)
  have hsite : backslashSite.WellFormed := FileTree.wellFormed_of_entries (by decide +kernel)
  have hfirst : doubledSite.Discovers "/site".toList false "/site/a\\b.js".toList
      ["site".toList, "a\\b.js".toList] := {
    way := ⟨["site".toList], ["a\\b.js".toList], by decide +kernel, rfl, by decide +kernel, by simp⟩
    entry := ⟨_, rfl⟩
    readable := Option.isSome_iff_exists.1 (by decide +kernel) }
  have hsecond : doubledSite.Discovers "/site".toList false "/site/a/b.js".toList
      ["site".toList, "a".toList, "b.js".toList] := {
    way := ⟨["site".toList], ["a".toList, "b.js".toList], by decide +kernel, rfl, by decide +kernel,
      by simp⟩
    entry := ⟨_, rfl⟩
    readable := Option.isSome_iff_exists.1 (by decide +kernel) }
  have hresult : (sync {} siteSettings backslashSite).result =
      .error (.unreadable "/site/src/pages/a/b.js".toList) := by
    decide +kernel
  obtain ⟨hapart, -⟩ := files_known_without_backslash hdoubled.toWellFormed namesExported?
  have hlost := (hapart "/site".toList false .dir rfl (by decide +kernel)).lost hdoubled (by decide)
  obtain ⟨-, hruns⟩ := files_known_without_backslash hsite namesExported?
  refine ⟨by decide +kernel, ⟨_, _, hfirst, rfl, ?_⟩, ⟨_, _, hsecond, rfl, ?_⟩, hresult,
    (hruns siteSettings rfl (by decide +kernel)).unreadable _ hresult⟩
  · exact fun h => (hlost _ _ hfirst).1 h (by decide)
  · exact (hlost _ _ hsecond).2 (by decide)

end ImportSync
