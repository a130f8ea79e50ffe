import Mathlib.Data.List.Perm.Basic
import ImportSync.Sync.Basic

/-!
The order of paths is linear, so that the files of a directory come in an order that does not depend on
how they were found. Main statement: what is new among sorted files is told by which files there are.
-/

namespace ImportSync.Path

/-! ### Comparing -/

theorem compareLists_eq_compareLex {α : Type} (cmp : α → α → Ordering) (as bs : List α) :
    compareLists cmp as bs = List.compareLex cmp as bs := by
  induction as generalizing bs with
  | nil => cases bs <;> rfl
  | cons a as ih =>
      cases bs with
      | nil => rfl
      | cons b bs => simp [compareLists, List.compareLex_cons_cons, ih]

theorem transCmp_compareLists {α : Type} {cmp : α → α → Ordering} (h : Std.TransCmp cmp) :
    Std.TransCmp (compareLists cmp) := by
  have heq : compareLists cmp = List.compareLex cmp := by
    funext as bs
    exact compareLists_eq_compareLex cmp as bs
  rw [heq]
  infer_instance

instance transCmp_toNat : Std.TransCmp fun x y : Char => Ord.compare x.toNat y.toNat where
  eq_swap := Std.OrientedOrd.eq_swap
  isLE_trans := Std.TransOrd.isLE_trans

instance transCmp_compareTexts : Std.TransCmp compareTexts :=
  transCmp_compareLists inferInstance

theorem eq_of_compareTexts {a b : Text} (h : compareTexts a b = .eq) : a = b := by
  induction a generalizing b with
  | nil =>
      cases b with
      | nil => rfl
      | cons y b => simp [compareTexts, compareLists] at h
  | cons x a ih =>
      cases b with
      | nil => simp [compareTexts, compareLists] at h
      | cons y b =>
          rw [compareTexts, compareLists, Ordering.then_eq_eq] at h
          have hxy : x = y := Char.toNat_inj.1 (Std.LawfulEqOrd.eq_of_compare h.1)
          rw [hxy, ih h.2]

instance lawfulEqCmp_compareTexts : Std.LawfulEqCmp compareTexts where
  eq_of_compare := eq_of_compareTexts

/-- Comparing along a function and then directly, as paths are compared. -/
theorem transCmp_then {α β : Type} {cmp : β → β → Ordering} {cmp' : α → α → Ordering}
    (h : Std.TransCmp cmp) (h' : Std.TransCmp cmp') (f : α → β) :
    Std.TransCmp fun a b => (cmp (f a) (f b)).then (cmp' a b) := by
  have hf : Std.TransCmp fun a b => cmp (f a) (f b) :=
    { eq_swap := Std.OrientedCmp.eq_swap, isLE_trans := Std.TransCmp.isLE_trans }
  exact inferInstanceAs (Std.TransCmp (compareLex (fun a b => cmp (f a) (f b)) cmp'))

instance transCmp_compareBy (fold : Char → Text) : Std.TransCmp (compareBy fold) :=
  transCmp_then (transCmp_compareLists inferInstance) inferInstance _

instance lawfulEqCmp_compareBy (fold : Char → Text) : Std.LawfulEqCmp (compareBy fold) where
  eq_of_compare h := by
    rw [compareBy, Ordering.then_eq_eq] at h
    exact eq_of_compareTexts h.2

end ImportSync.Path

namespace ImportSync

/-! ### Sorting -/

/-- The order in which files are sorted. -/
def SourcePath.Before (a b : SourcePath) : Prop :=
  (Path.compare a.text b.text).isLE = true

theorem SourcePath.eq_of_text {a b : SourcePath} (h : a.text = b.text) : a = b := by
  cases a
  cases b
  exact congrArg SourcePath.mk h

theorem SourcePath.eq_of_compareBy {fold : Char → Text} {a b : SourcePath}
    (h : (Path.compareBy fold a.text b.text).isLE = true)
    (h' : (Path.compareBy fold b.text a.text).isLE = true) : a = b :=
  SourcePath.eq_of_text (Std.LawfulEqCmp.eq_of_compare (Std.OrientedCmp.isLE_antisymm h h'))

theorem SourcePath.pairwise_sortBy (fold : Char → Text) (files : List SourcePath) :
    (SourcePath.sortBy fold files).Pairwise fun a b =>
      (Path.compareBy fold a.text b.text).isLE = true := by
  refine List.pairwise_mergeSort ?_ ?_ files
  · intro a b c hab hbc
    exact Std.TransCmp.isLE_trans hab hbc
  · intro a b
    have hswap : Path.compareBy fold b.text a.text = (Path.compareBy fold a.text b.text).swap :=
      Std.OrientedCmp.eq_swap
    rw [hswap]
    cases Path.compareBy fold a.text b.text <;> rfl

theorem SourcePath.sortBy_perm (fold : Char → Text) (files : List SourcePath) :
    (SourcePath.sortBy fold files).Perm files :=
  List.mergeSort_perm files _

/-- The order of paths is linear, so sorting leaves nothing of the order in which files were found. -/
theorem SourcePath.sortBy_eq_of_perm (fold : Char → Text) {files files' : List SourcePath}
    (h : files.Perm files') : SourcePath.sortBy fold files = SourcePath.sortBy fold files' := by
  have hperm : (SourcePath.sortBy fold files).Perm (SourcePath.sortBy fold files') :=
    (sortBy_perm fold files).trans (h.trans (sortBy_perm fold files').symm)
  exact hperm.eq_of_pairwise (fun a b _ _ => SourcePath.eq_of_compareBy)
    (SourcePath.pairwise_sortBy fold files) (SourcePath.pairwise_sortBy fold files')

theorem SourcePath.Before.antisymm {a b : SourcePath} (h : a.Before b) (h' : b.Before a) : a = b :=
  SourcePath.eq_of_compareBy h h'

theorem SourcePath.pairwise_sort (files : List SourcePath) :
    (SourcePath.sort files).Pairwise SourcePath.Before :=
  SourcePath.pairwise_sortBy Text.lowerChar files

@[simp] theorem SourcePath.mem_sort {files : List SourcePath} {m : SourcePath} :
    m ∈ SourcePath.sort files ↔ m ∈ files :=
  List.mem_mergeSort

theorem nodup_eraseDups {α : Type} [BEq α] [LawfulBEq α] (xs : List α) : xs.eraseDups.Nodup := by
  cases xs with
  | nil => simp
  | cons x xs =>
      rw [List.eraseDups_cons, List.nodup_cons]
      exact ⟨by simp [List.mem_eraseDups], nodup_eraseDups _⟩
termination_by xs.length
decreasing_by exact Nat.lt_succ_of_le (List.length_filter_le _ _)

theorem eraseDups_of_nodup {α : Type} [BEq α] [LawfulBEq α] {xs : List α} (h : xs.Nodup) :
    xs.eraseDups = xs := by
  induction xs with
  | nil => rfl
  | cons x xs ih =>
      rw [List.nodup_cons] at h
      rw [List.eraseDups_cons, List.filter_eq_self.2, ih h.2]
      intro y hy
      have hne : y ≠ x := fun heq => h.1 (heq ▸ hy)
      simp [hne]

theorem eraseDups_sublist {α : Type} [BEq α] (xs : List α) : xs.eraseDups.Sublist xs := by
  cases xs with
  | nil => simp
  | cons x xs =>
      rw [List.eraseDups_cons]
      exact ((eraseDups_sublist _).trans List.filter_sublist).cons_cons x
termination_by xs.length
decreasing_by exact Nat.lt_succ_of_le (List.length_filter_le _ _)

/-- What passes a test passes it once repetitions are gone. -/
theorem filter_eraseDups {α : Type} [BEq α] [LawfulBEq α] (p : α → Bool) (xs : List α) :
    xs.eraseDups.filter p = (xs.filter p).eraseDups := by
  cases xs with
  | nil => simp
  | cons x xs =>
      have hsame : (xs.filter (!· == x)).filter p = (xs.filter p).filter (!· == x) := by
        rw [List.filter_filter, List.filter_filter]
        exact List.filter_congr fun y _ => Bool.and_comm _ _
      rw [List.eraseDups_cons]
      by_cases hx : p x = true
      · rw [List.filter_cons_of_pos hx, List.filter_cons_of_pos hx, List.eraseDups_cons,
          filter_eraseDups p _, hsame]
      · have hgone : (xs.filter p).filter (!· == x) = xs.filter p := by
          refine List.filter_eq_self.2 fun y hy => ?_
          have hne : y ≠ x := fun heq => hx (heq ▸ (List.mem_filter.1 hy).2)
          simp [hne]
        rw [List.filter_cons_of_neg hx, List.filter_cons_of_neg hx, filter_eraseDups p _, hsame, hgone]
termination_by xs.length
decreasing_by all_goals exact Nat.lt_succ_of_le (List.length_filter_le _ _)

/-- Repetitions may be erased in the parts of a list first. -/
theorem eraseDups_append_eraseDups {α : Type} [BEq α] [LawfulBEq α] (xs ys : List α) :
    (xs.eraseDups ++ ys.eraseDups).eraseDups = (xs ++ ys).eraseDups := by
  have hrest : ys.eraseDups.removeAll xs.eraseDups = (ys.removeAll xs).eraseDups := by
    rw [List.removeAll, List.removeAll, ← filter_eraseDups]
    refine List.filter_congr fun y _ => ?_
    simp [List.mem_eraseDups]
  rw [List.eraseDups_append, List.eraseDups_append, hrest, eraseDups_of_nodup (nodup_eraseDups xs),
    eraseDups_of_nodup (nodup_eraseDups _)]

/-! ### What is new -/

theorem mem_unseen {seen files : List SourcePath} {m : SourcePath} :
    m ∈ unseen seen files ↔ m ∈ files ∧ m ∉ seen := by
  simp [unseen, List.mem_eraseDups]

theorem nodup_unseen (seen files : List SourcePath) : (unseen seen files).Nodup :=
  nodup_eraseDups _

theorem pairwise_unseen {seen files : List SourcePath} (h : files.Pairwise SourcePath.Before) :
    (unseen seen files).Pairwise SourcePath.Before :=
  (h.filter _).sublist (eraseDups_sublist _)

/-- What is new among the sorted files that pass a test depends only on which files those are. -/
theorem unseen_sort_congr {files files' : List SourcePath} {p : SourcePath → Bool}
    (h : ∀ m, p m = true → (m ∈ files ↔ m ∈ files')) (seen : List SourcePath) :
    unseen seen ((SourcePath.sort files).filter p) =
      unseen seen ((SourcePath.sort files').filter p) := by
  -- two sorted lists without duplicates that have the same members are equal
  refine List.Perm.eq_of_pairwise (fun a b _ _ => SourcePath.Before.antisymm)
    (pairwise_unseen ((SourcePath.pairwise_sort files).filter p))
    (pairwise_unseen ((SourcePath.pairwise_sort files').filter p)) ?_
  rw [List.perm_ext_iff_of_nodup (nodup_unseen _ _) (nodup_unseen _ _)]
  intro m
  simp only [mem_unseen, List.mem_filter, SourcePath.mem_sort]
  constructor
  · rintro ⟨⟨hm, hp⟩, hseen⟩
    exact ⟨⟨(h m hp).1 hm, hp⟩, hseen⟩
  · rintro ⟨⟨hm, hp⟩, hseen⟩
    exact ⟨⟨(h m hp).2 hm, hp⟩, hseen⟩

end ImportSync
