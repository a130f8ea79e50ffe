import ImportSync.Proofs.References

/-!
The way from one place to another, whether the paths are absolute or not. It goes up out of what only
the base has and down into what only the target has, and so it leads to the target. Two dots that a base
starts with are never cancelled, whatever is joined to it: where the target does not start with them as
well, no relative path leads there, and there no way is given.
-/

namespace ImportSync.Path

/-! ### Settled stacks -/

/-- A stack of pieces on which nothing is left to cancel: under two dots there are only two dots, and
at the root there are none. -/
structure IsSettled (absolute : Bool) (st : List Text) : Prop where
  dots_sink : st.Pairwise fun upper lower => upper = above → lower = above
  rooted : absolute = true → above ∉ st

theorem IsSettled.of_suffix {absolute : Bool} {st st' : List Text} (h : IsSettled absolute st)
    (hsuffix : st' <:+ st) : IsSettled absolute st' :=
  ⟨h.dots_sink.sublist hsuffix.sublist, fun habs hmem => h.rooted habs (hsuffix.subset hmem)⟩

theorem IsSettled.pushPiece_eq {absolute : Bool} {p : Text} {st : List Text}
    (h : IsSettled absolute (p :: st)) : pushPiece absolute st p = p :: st := by
  by_cases hp : p = above
  · subst hp
    cases st with
    | nil =>
        have hrel : absolute = false := by
          rw [← Bool.not_eq_true]
          exact fun habs => h.rooted habs (by simp)
        rw [hrel]
        rfl
    | cons q st =>
        have hq : q = above := List.rel_of_pairwise_cons h.dots_sink List.mem_cons_self rfl
        simp [pushPiece, hq]
  · exact pushPiece_name hp absolute st

theorem IsSettled.foldl_eq {absolute : Bool} {ps st : List Text}
    (h : IsSettled absolute (ps.reverse ++ st)) :
    ps.foldl (pushPiece absolute) st = ps.reverse ++ st := by
  induction ps generalizing st with
  | nil => rfl
  | cons p ps ih =>
      rw [List.reverse_cons, List.append_assoc, List.singleton_append] at h ⊢
      have hp : IsSettled absolute (p :: st) := h.of_suffix (List.suffix_append _ _)
      rw [List.foldl_cons, hp.pushPiece_eq, ih h]

/-- Cleaned pieces are two dots, so many times, and then names; at the root, only names. -/
theorem exists_cleanPieces_eq (p : Text) :
    ∃ j names, above ∉ names ∧ cleanPieces p = List.replicate j above ++ names ∧
      (isAbsolute p = true → j = 0) := by
  cases h : isAbsolute p with
  | true =>
      exact ⟨0, cleanPieces p, above_not_mem fun q => isName_of_mem_cleanPieces h, rfl, fun _ => rfl⟩
  | false =>
      obtain ⟨j, names, hnames, hclean, -⟩ := cleanPieces_relative h
      exact ⟨j, names, above_not_mem hnames, hclean, by simp⟩

theorem isSettled_cleanPieces (p : Text) : IsSettled (isAbsolute p) (cleanPieces p).reverse := by
  obtain ⟨j, names, hnames, hclean, hroot⟩ := exists_cleanPieces_eq p
  rw [hclean, List.reverse_append, List.reverse_replicate]
  constructor
  · rw [List.pairwise_append, List.pairwise_replicate]
    refine ⟨?_, .inr fun _ => rfl, fun q hq r hr _ => List.eq_of_mem_replicate hr⟩
    refine List.pairwise_of_forall_mem_list fun q hq r _ heq => ?_
    rw [heq, List.mem_reverse] at hq
    exact absurd hq hnames
  · intro habs
    rw [hroot habs]
    simpa using hnames

/-! ### The way that is given -/

theorem foldl_pushPiece_up {absolute : Bool} {up : List Text} (h : above ∉ up) (st : List Text) :
    (List.replicate up.length above).foldl (pushPiece absolute) (up ++ st) = st := by
  induction up with
  | nil => rfl
  | cons q up ih =>
      simp only [List.mem_cons, not_or] at h
      rw [List.length_cons, List.replicate_succ, List.foldl_cons, List.cons_append,
        pushPiece_above_cons (Ne.symm h.1), ih h.2]

/-- Up out of what only the base has, and down into what only the target has. -/
theorem foldl_pushPiece_way {target base : Text} (habs : isAbsolute target = isAbsolute base)
    (hup : above ∉ (dropCommon (cleanPieces target) (cleanPieces base)).2) :
    (way target base).foldl (pushPiece (isAbsolute base)) (cleanPieces base).reverse =
      (cleanPieces target).reverse := by
  obtain ⟨common, htarget, hbase⟩ := dropCommon_spec (cleanPieces target) (cleanPieces base)
  have hclimb : (List.replicate (stepsUp target base) above).foldl (pushPiece (isAbsolute base))
      (cleanPieces base).reverse = common.reverse := by
    conv_lhs => rw [hbase, List.reverse_append, stepsUp, ← List.length_reverse]
    exact foldl_pushPiece_up (by simpa using hup) common.reverse
  have hsettled : IsSettled (isAbsolute base) ((wayDown target base).reverse ++ common.reverse) := by
    rw [← List.reverse_append, ← habs]
    exact htarget ▸ isSettled_cleanPieces target
  rw [way, List.foldl_append, hclimb, hsettled.foldl_eq, ← List.reverse_append]
  exact congrArg List.reverse htarget.symm

theorem leads_of_relative? {target base r : Text} (h : relative? target base = some r) :
    isAbsolute r = false ∧ clean (join (clean base) r) = clean target := by
  obtain ⟨ps, hps, rfl⟩ := Option.map_eq_some_iff.1 h
  obtain ⟨habs, hup, rfl⟩ := relativePieces?_eq_some_iff.1 hps
  have hrel : isAbsolute (ofCleanPieces false (way target base)) = false :=
    isAbsolute_ofCleanPieces fun p => isPiece_of_mem_way
  refine ⟨hrel, clean_eq_clean_iff.2 ⟨?_, ?_⟩⟩
  · rw [isAbsolute_join_eq _ hrel, isAbsolute_clean, habs]
  · rw [cleanPieces_join _ hrel, pieces_ofCleanPieces fun p => isPiece_of_mem_way, cleanPieces_clean,
      isAbsolute_clean, foldl_pushPiece_way habs hup, List.reverse_reverse]

/-! ### All ways -/

/-- Two dots at the bottom of a stack stay there. -/
theorem suffix_pushPiece {bottom st : List Text} (hbottom : ∀ q ∈ bottom, q = above)
    (h : bottom <:+ st) (absolute : Bool) (p : Text) : bottom <:+ pushPiece absolute st p := by
  by_cases hp : p = above
  · subst hp
    cases st with
    | nil =>
        rw [List.suffix_nil.1 h]
        exact List.nil_suffix
    | cons q st =>
        by_cases hq : q = above
        · rw [pushPiece, if_pos rfl, if_pos hq]
          exact h.trans (List.suffix_cons _ _)
        · rw [pushPiece_above_cons hq]
          -- a name is taken away, and it is not one of the two dots
          rcases List.suffix_cons_iff.1 h with rfl | h
          · exact absurd (hbottom q (by simp)) hq
          · exact h
  · rw [pushPiece_name hp]
    exact h.trans (List.suffix_cons _ _)

theorem suffix_foldl_pushPiece {bottom : List Text} (hbottom : ∀ q ∈ bottom, q = above)
    (absolute : Bool) (ps : List Text) {st : List Text} (h : bottom <:+ st) :
    bottom <:+ ps.foldl (pushPiece absolute) st := by
  induction ps generalizing st with
  | nil => exact h
  | cons p ps ih => exact ih (suffix_pushPiece hbottom h absolute p)

/-- Where some relative path leads from the base to the target, a way is given. -/
theorem exists_relative?_of_leads {target base r : Text} (hr : isAbsolute r = false)
    (h : clean (join (clean base) r) = clean target) : ∃ way, relative? target base = some way := by
  obtain ⟨habs, hpieces⟩ := clean_eq_clean_iff.1 h
  rw [isAbsolute_join_eq _ hr, isAbsolute_clean] at habs
  rw [cleanPieces_join _ hr, isAbsolute_clean, cleanPieces_clean] at hpieces
  obtain ⟨j, names, hnames, hbase, -⟩ := exists_cleanPieces_eq base
  have hclimb : List.replicate j above <+: cleanPieces target := by
    rw [← hpieces, ← List.reverse_suffix, List.reverse_reverse, List.reverse_replicate]
    refine suffix_foldl_pushPiece (fun q => List.eq_of_mem_replicate) _ _ ?_
    rw [hbase, List.reverse_append, List.reverse_replicate]
    exact List.suffix_append _ _
  -- the two dots of the base are shared, so only names are left to go up from
  have hup : (dropCommon (cleanPieces target) (cleanPieces base)).2 <:+ names := by
    rw [dropCommon_swap (cleanPieces base), hbase]
    exact dropCommon_suffix hclimb
  have hsome : relativePieces? target base = some (way target base) :=
    relativePieces?_eq_some_iff.2 ⟨habs.symm, fun hmem => hnames (hup.subset hmem), rfl⟩
  exact ⟨_, congrArg (Option.map (ofCleanPieces false)) hsome⟩

/-- The way that is given is relative and leads from the cleaned base to the cleaned target, and none is
given exactly if no relative path leads there. Between absolute paths there always is one. -/
theorem relative?_sound_complete (target base : Text) :
    (∀ r, relative? target base = some r →
        isAbsolute r = false ∧ clean (join (clean base) r) = clean target) ∧
      (relative? target base = none ↔
        ¬∃ r, isAbsolute r = false ∧ clean (join (clean base) r) = clean target) ∧
      (isAbsolute target = true → isAbsolute base = true → ∃ r, relative? target base = some r) := by
  refine ⟨fun r => leads_of_relative?, ⟨?_, fun h => ?_⟩, fun htarget hbase => ?_⟩
  · rintro hnone ⟨r, hr, hleads⟩
    obtain ⟨way, hway⟩ := exists_relative?_of_leads hr hleads
    rw [hnone] at hway
    cases hway
  · rw [Option.eq_none_iff_forall_ne_some]
    exact fun r hr => h ⟨r, leads_of_relative? hr⟩
  · exact ⟨_, congrArg (Option.map (ofCleanPieces false)) (relativePieces?_absolute hbase htarget)⟩

/-- A file above the directory where one is, as seen from a directory beside it; and a base above that,
whose name no path from there tells. -/
theorem relative?_sound_complete_above :
    relative? "../../a/b.js".toList "../c".toList = some "../../a/b.js".toList ∧
      clean (join (clean "../c".toList) "../../a/b.js".toList) = clean "../../a/b.js".toList ∧
      relative? "../a/b.js".toList "../../c".toList = none ∧
      ¬∃ r, isAbsolute r = false ∧
        clean (join (clean "../../c".toList) r) = clean "../a/b.js".toList := by
  have hway : relative? "../../a/b.js".toList "../c".toList = some "../../a/b.js".toList := by decide
  have hnone : relative? "../a/b.js".toList "../../c".toList = none := by decide
  exact ⟨hway, ((relative?_sound_complete _ _).1 _ hway).2, hnone,
    (relative?_sound_complete _ _).2.1.1 hnone⟩

end ImportSync.Path
