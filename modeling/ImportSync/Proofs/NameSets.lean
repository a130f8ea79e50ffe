import ImportSync.Exports
import Mathlib.Data.List.Basic

/-!
The set of names after any run of operations. Adding one name is adding a list of one name, so that a run
adds all names it is given, one after the other, however they are divided among its operations. The names
of the set are then those that are not empty, each where it came in first. What a module does not define
itself is a part of them in the same order.
-/

namespace ImportSync.ExportSet

/-! ### Adding names -/

theorem admits_iff {s : ExportSet} {n : Text} : s.admits n = true ↔ n ≠ [] ∧ n ∉ s.names := by
  simp [admits, contains]

theorem names_insert (s : ExportSet) (n : Text) :
    (s.insert n).names = if n ≠ [] ∧ n ∉ s.names then s.names ++ [n] else s.names := by
  rw [insert]
  split
  next h => rw [if_pos (admits_iff.1 h)]
  next h => rw [if_neg fun h' => h (admits_iff.2 h')]

/-- Names come in at their first occurrence. -/
theorem names_extend (s : ExportSet) (ns : List Text) :
    (s.extend ns).names = s.names ++ (ns.filter fun n => n ≠ [] ∧ n ∉ s.names).eraseDups := by
  induction ns generalizing s with
  | nil => simp [extend]
  | cons n ns ih =>
      show ((s.insert n).extend ns).names = _
      rw [ih, names_insert]
      by_cases hn : n ≠ [] ∧ n ∉ s.names
      · -- the name comes in, and its later occurrences go
        have hrest : (ns.filter fun k => k ≠ [] ∧ k ∉ s.names ++ [n]) =
            (ns.filter fun k => k ≠ [] ∧ k ∉ s.names).filter (!· == n) := by
          rw [List.filter_filter]
          refine List.filter_congr fun k _ => ?_
          rw [Bool.eq_iff_iff]
          simp
          tauto
        rw [if_pos hn, hrest, List.filter_cons_of_pos (by simpa using hn), List.eraseDups_cons,
          List.append_assoc, List.singleton_append]
      · rw [if_neg hn, List.filter_cons_of_neg (by simpa using hn)]

theorem names_ofList (ns : List Text) : (ofList ns).names = (ns.filter (· ≠ [])).eraseDups := by
  rw [ofList, names_extend]
  simp [empty]

theorem mem_names_ofList {ns : List Text} {n : Text} : n ∈ (ofList ns).names ↔ n ≠ [] ∧ n ∈ ns := by
  rw [names_ofList, List.mem_eraseDups, List.mem_filter]
  simp [and_comm]

theorem names_prefix_extend (s : ExportSet) (ns : List Text) : s.names <+: (s.extend ns).names := by
  rw [names_extend]
  exact List.prefix_append _ _

theorem extend_append (s : ExportSet) (first later : List Text) :
    s.extend (first ++ later) = (s.extend first).extend later :=
  List.foldl_append

/-! ### Runs of operations -/

/-- A change of the set. -/
inductive Operation where
  | insert (n : Text)
  | extend (ns : List Text)

/-- The names that an operation is given. -/
def Operation.given : Operation → List Text
  | .insert n => [n]
  | .extend ns => ns

/-- The set after an operation. -/
def apply (s : ExportSet) : Operation → ExportSet
  | .insert n => s.insert n
  | .extend ns => s.extend ns

/-- The set after operations on the empty one. -/
def after (ops : List Operation) : ExportSet :=
  ops.foldl apply empty

theorem apply_eq_extend (s : ExportSet) (op : Operation) : s.apply op = s.extend op.given := by
  cases op <;> rfl

/-- It does not matter how the names are divided among operations. -/
theorem foldl_apply (s : ExportSet) (ops : List Operation) :
    ops.foldl apply s = s.extend (ops.flatMap Operation.given) := by
  induction ops generalizing s with
  | nil => rfl
  | cons op ops ih => rw [List.foldl_cons, ih, apply_eq_extend, List.flatMap_cons, extend_append]

theorem after_eq_ofList (ops : List Operation) : after ops = ofList (ops.flatMap Operation.given) :=
  foldl_apply empty ops

theorem names_after_prefix (ops more : List Operation) :
    (after ops).names <+: (after (ops ++ more)).names := by
  have hsplit : after (ops ++ more) = (after ops).extend (more.flatMap Operation.given) := by
    rw [after, List.foldl_append, foldl_apply (ops.foldl apply empty)]
    rfl
  rw [hsplit]
  exact names_prefix_extend _ _

/-! ### Names that are not local -/

theorem mem_without {s : ExportSet} {localNames : List Text} {n : Text} :
    n ∈ s.without localNames ↔ n ∈ s.names ∧ n ∉ localNames := by
  simp [without]

/-- Some names are divided by a list of local ones: the rest is a part of them in order, none of it is
local, and together with those that are local it is the whole. -/
structure DividesAt (localNames names rest : List Text) : Prop where
  sublist : rest.Sublist names
  mem_rest : ∀ n, n ∈ rest ↔ n ∈ names ∧ n ∉ localNames
  disjoint : rest.Disjoint localNames
  whole : (rest ++ names.filter localNames.contains).Perm names

theorem dividesAt_without (s : ExportSet) (localNames : List Text) :
    DividesAt localNames s.names (s.without localNames) where
  sublist := List.filter_sublist
  mem_rest _ := mem_without
  disjoint _ hrest hlocal := (mem_without.1 hrest).2 hlocal
  whole := List.perm_append_comm.trans (List.filter_append_perm localNames.contains s.names)

/-! ### Main statement -/

/-- After any run of operations, the names are those that were given and are not empty, each at its first
occurrence. Further operations only append. A single name is admitted if it is not empty and not there, which
is to say that it was not given before; then it comes to stand at the end, and else nothing changes. Any local
names divide the set. -/
theorem names_after_operations (ops : List Operation) :
    (after ops).names = ((ops.flatMap Operation.given).filter (· ≠ [])).eraseDups ∧
    (∀ more, (after ops).names <+: (after (ops ++ more)).names) ∧
    (∀ n, ((after ops).admits n = true ↔ n ≠ [] ∧ n ∉ (after ops).names) ∧
      ((after ops).admits n = true ↔ n ≠ [] ∧ n ∉ ops.flatMap Operation.given) ∧
      (after (ops ++ [.insert n])).names =
        if (after ops).admits n then (after ops).names ++ [n] else (after ops).names) ∧
    ∀ localNames, DividesAt localNames (after ops).names ((after ops).without localNames) := by
  refine ⟨?_, names_after_prefix ops, fun n => ⟨admits_iff, ?_, ?_⟩, dividesAt_without _⟩
  · rw [after_eq_ofList]
    exact names_ofList _
  · rw [admits_iff, after_eq_ofList, mem_names_ofList]
    tauto
  · have hlast : after (ops ++ [.insert n]) = (after ops).insert n := by
      rw [after, List.foldl_append]
      rfl
    rw [hlast, names_insert]
    simp only [admits_iff]

end ImportSync.ExportSet
