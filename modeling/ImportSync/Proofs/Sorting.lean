import ImportSync.Proofs.Order

/-!
Sorted files. The order of paths is linear whatever the case folding, so that the files that there are
tell their order; and it keeps directories together. What lies between two paths that start with the
same folded segments starts with them as well: it cannot end within them, as then it would come before
the first path, and it cannot part from them, as then it would come before both or after both.
-/

namespace ImportSync

/-! ### One order -/

/-- Under every case folding the order of paths is linear, and sorting is a rearrangement into that order
which depends only on the files that there are. -/
theorem paths_have_one_order (fold : Char → Text) :
    (∀ a b, Path.compareBy fold a b = (Path.compareBy fold b a).swap) ∧
      (∀ a b, Path.compareBy fold a b = .eq ↔ a = b) ∧
      (∀ a b c, (Path.compareBy fold a b).isLE = true → (Path.compareBy fold b c).isLE = true →
        (Path.compareBy fold a c).isLE = true) ∧
      ∀ files, (SourcePath.sortBy fold files).Perm files ∧
        (SourcePath.sortBy fold files).Pairwise
          (fun a b => (Path.compareBy fold a.text b.text).isLE = true) ∧
        ∀ files', files'.Perm files →
          SourcePath.sortBy fold files' = SourcePath.sortBy fold files := by
  refine ⟨fun a b => Std.OrientedCmp.eq_swap, fun a b => Std.LawfulEqCmp.compare_eq_iff_eq,
    fun a b c => Std.TransCmp.isLE_trans, fun files => ⟨?_, ?_, fun files' h => ?_⟩⟩
  · exact SourcePath.sortBy_perm fold files
  · exact SourcePath.pairwise_sortBy fold files
  · exact SourcePath.sortBy_eq_of_perm fold h

/-! ### Directories -/

namespace Path

/-- What lies between two lists that start alike starts like them. -/
theorem prefix_of_between {α : Type} {cmp : α → α → Ordering} [Std.OrientedCmp cmp]
    [Std.LawfulEqCmp cmp] {front a b c : List α} (ha : front <+: a) (hc : front <+: c)
    (hab : (compareLists cmp a b).isLE = true) (hbc : (compareLists cmp b c).isLE = true) :
    front <+: b := by
  induction front generalizing a b c with
  | nil => exact List.nil_prefix
  | cons x front ih =>
      obtain ⟨a', rfl⟩ := ha
      obtain ⟨c', rfl⟩ := hc
      rw [List.cons_append] at hab hbc
      cases b with
      | nil => cases hab
      | cons y b =>
          rw [compareLists, Ordering.isLE_then_iff_and] at hab hbc
          -- the entry can come neither after nor before the one that both lists have
          obtain rfl : x = y :=
            Std.LawfulEqCmp.eq_of_compare (Std.OrientedCmp.isLE_antisymm hab.1 hbc.1)
          have hself : cmp x x ≠ .lt := by simp [Std.ReflCmp.compare_self]
          rw [List.cons_prefix_cons]
          exact ⟨rfl, ih (List.prefix_append front a') (List.prefix_append front c')
            (hab.2.resolve_left hself) (hbc.2.resolve_left hself)⟩

/-- The spelling decides only between paths whose folded segments are the same. -/
theorem isLE_segments_of_compareBy {fold : Char → Text} {a b : Text}
    (h : (compareBy fold a b).isLE = true) :
    (compareLists compareTexts ((List.splitOn '/' a).map fun s => s.flatMap fold)
      ((List.splitOn '/' b).map fun s => s.flatMap fold)).isLE = true :=
  (Ordering.isLE_then_iff_and.1 h).1

end Path

/-- What comes between two files in one directory, letter case aside, is in that directory too. -/
theorem SourcePath.Before.directory_between {a b c : SourcePath} (hab : a.Before b)
    (hbc : b.Before c) {k : Nat} (hk : k ≤ a.segments.length)
    (hac : (a.segments.take k).map Text.foldCase = (c.segments.take k).map Text.foldCase) :
    k ≤ b.segments.length ∧
      (b.segments.take k).map Text.foldCase = (a.segments.take k).map Text.foldCase := by
  have hstart (m : SourcePath) :
      (m.segments.take k).map Text.foldCase <+: m.segments.map Text.foldCase :=
    (List.take_prefix k m.segments).map Text.foldCase
  have hfront : (a.segments.take k).map Text.foldCase <+: b.segments.map Text.foldCase :=
    Path.prefix_of_between (hstart a) (hac ▸ hstart c) (Path.isLE_segments_of_compareBy hab)
      (Path.isLE_segments_of_compareBy hbc)
  have hlength : ((a.segments.take k).map Text.foldCase).length = k := by
    rw [List.length_map, List.length_take, Nat.min_eq_left hk]
  refine ⟨?_, ?_⟩
  · have hle := hfront.length_le
    rwa [hlength, List.length_map] at hle
  · rw [List.prefix_iff_eq_take.1 hfront, hlength, List.map_take]

/-- Among sorted files, every file that stands between two files in one directory, letter case aside, is
in that directory: it has as many segments, and they are the same once folded. -/
theorem sort_keeps_directories_together (files : List SourcePath) {i j l k : Nat} (hij : i < j)
    (hjl : j < l) {a b c : SourcePath} (ha : (SourcePath.sort files)[i]? = some a)
    (hb : (SourcePath.sort files)[j]? = some b) (hc : (SourcePath.sort files)[l]? = some c)
    (hka : k ≤ a.segments.length)
    (hac : (a.segments.take k).map Text.foldCase = (c.segments.take k).map Text.foldCase) :
    k ≤ b.segments.length ∧
      (b.segments.take k).map Text.foldCase = (a.segments.take k).map Text.foldCase := by
  obtain ⟨hi, rfl⟩ := List.getElem?_eq_some_iff.1 ha
  obtain ⟨hj, rfl⟩ := List.getElem?_eq_some_iff.1 hb
  obtain ⟨hl, rfl⟩ := List.getElem?_eq_some_iff.1 hc
  have hsorted := List.pairwise_iff_getElem.1 (SourcePath.pairwise_sort files)
  exact (hsorted i j hi hj hij).directory_between (hsorted j l hj hl hjl) hka hac

/-- Files in a directory that is spelled in two ways, found in no order, with a file beside it whose name
starts like the directory's. -/
def scatteredFiles : List SourcePath :=
  [⟨"src/a.js".toList⟩, ⟨"SRC/A/y.js".toList⟩, ⟨"src/A".toList⟩, ⟨"src/a/x.js".toList⟩]

theorem sort_scatteredFiles : SourcePath.sort scatteredFiles =
    [⟨"src/A".toList⟩, ⟨"src/a/x.js".toList⟩, ⟨"SRC/A/y.js".toList⟩, ⟨"src/a.js".toList⟩] := by
  have hperm : scatteredFiles.Perm [⟨"src/A".toList⟩, ⟨"src/a/x.js".toList⟩,
      ⟨"SRC/A/y.js".toList⟩, ⟨"src/a.js".toList⟩] := by decide
  rw [SourcePath.sort, SourcePath.sortBy_eq_of_perm _ hperm]
  exact List.mergeSort_of_pairwise (by decide)

theorem sort_keeps_directories_together_scatteredFiles :
    let x : SourcePath := ⟨"src/a/x.js".toList⟩
    (SourcePath.sort scatteredFiles)[1]? = some x ∧ 2 ≤ x.segments.length ∧
      (x.segments.take 2).map Text.foldCase = ["src".toList, "a".toList] := by
  have hfirst : (SourcePath.sort scatteredFiles)[0]? = some ⟨"src/A".toList⟩ := by
    rw [sort_scatteredFiles]
    rfl
  have hmiddle : (SourcePath.sort scatteredFiles)[1]? = some ⟨"src/a/x.js".toList⟩ := by
    rw [sort_scatteredFiles]
    rfl
  have hlast : (SourcePath.sort scatteredFiles)[2]? = some ⟨"SRC/A/y.js".toList⟩ := by
    rw [sort_scatteredFiles]
    rfl
  obtain ⟨hlength, hsame⟩ := sort_keeps_directories_together scatteredFiles (by decide) (by decide)
    hfirst hmiddle hlast (k := 2) (by decide) (by decide)
  exact ⟨hmiddle, hlength, hsame⟩

end ImportSync
