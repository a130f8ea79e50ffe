import ImportSync.Proofs.Relative
import Mathlib.Data.List.Forall2

/-!
The names of an aggregator in their one spelling. A name is given its extension, cleaned and kept; the path
is cleaned after the name, as it was given, has been joined to the root. The two agree because cleaning a
path before it is joined to another one changes nothing: where two dots of the path find nothing to cancel,
they stay, and cancel what they find when the paths are joined.
-/

namespace ImportSync

namespace Path

/-! ### Cleaning before joining -/

/-- What one piece does to cleaned pieces, it does to a stack on which they are run. -/
theorem foldl_reverse_pushPiece (absolute : Bool) (st top : List Text) (p : Text) :
    (pushPiece false top p).reverse.foldl (pushPiece absolute) st =
      pushPiece absolute (top.reverse.foldl (pushPiece absolute) st) p := by
  have hpush : (p :: top).reverse.foldl (pushPiece absolute) st =
      pushPiece absolute (top.reverse.foldl (pushPiece absolute) st) p := by
    rw [List.reverse_cons, List.foldl_append]
    rfl
  by_cases hp : p = above
  · subst hp
    cases top with
    | nil => rfl
    | cons q top =>
        by_cases hq : q = above
        · rw [pushPiece, if_pos rfl, if_pos hq]
          exact hpush
        · -- the piece that is cancelled comes to lie on the stack and is taken away from it
          rw [pushPiece_above_cons hq, List.reverse_cons, List.foldl_append, List.foldl_cons,
            List.foldl_nil, pushPiece_name hq, pushPiece_above_cons hq]
  · rw [pushPiece_name hp]
    exact hpush

theorem foldl_reverse_foldl (absolute : Bool) (st top ps : List Text) :
    (ps.foldl (pushPiece false) top).reverse.foldl (pushPiece absolute) st =
      ps.foldl (pushPiece absolute) (top.reverse.foldl (pushPiece absolute) st) := by
  induction ps generalizing top with
  | nil => rfl
  | cons p ps ih => rw [List.foldl_cons, ih, foldl_reverse_pushPiece, List.foldl_cons]

theorem foldl_cleanPieces (absolute : Bool) (st : List Text) {p : Text} (hp : isAbsolute p = false) :
    (cleanPieces p).foldl (pushPiece absolute) st = (pieces p).foldl (pushPiece absolute) st := by
  rw [cleanPieces, hp]
  exact foldl_reverse_foldl absolute st [] (pieces p)

/-- A path leads from a directory to where it leads once it is cleaned. -/
theorem clean_join_clean (dir p : Text) : clean (join dir (clean p)) = clean (join dir p) := by
  rw [clean_eq_clean_iff]
  cases hp : isAbsolute p with
  | true =>
      rw [join_absolute hp, join_absolute (by rw [isAbsolute_clean, hp])]
      exact ⟨isAbsolute_clean p, cleanPieces_clean p⟩
  | false =>
      have hclean : isAbsolute (clean p) = false := by rw [isAbsolute_clean, hp]
      refine ⟨by rw [isAbsolute_join_eq dir hclean, isAbsolute_join_eq dir hp], ?_⟩
      rw [cleanPieces_join dir hclean, cleanPieces_join dir hp, pieces_clean, foldl_cleanPieces _ _ hp]

/-- In a cleaned path two dots stand after nothing but two dots. -/
theorem pairwise_cleanPieces (p : Text) :
    (cleanPieces p).Pairwise fun earlier later => later = above → earlier = above :=
  List.pairwise_reverse.1 (isSettled_cleanPieces p).dots_sink

theorem above_not_mem_cleanPieces {p : Text} (h : isAbsolute p = true) : above ∉ cleanPieces p :=
  fun hmem => (isSettled_cleanPieces p).rooted h (List.mem_reverse.2 hmem)

end Path

namespace Aggregator

/-! ### One spelling -/

/-- A name that is spelled in the one way: it has the extension, forward slashes and none at the end, no
segment that is a single dot, and two dots after nothing but two dots. -/
structure IsCanonical (n : Text) : Prop where
  extension : aggregatorExtension <:+ n
  no_backslash : '\\' ∉ n
  no_slash_last : n.getLast? ≠ some '/'
  no_here : Path.here ∉ List.splitOn '/' n
  above_first : (List.splitOn '/' n).Pairwise fun earlier later =>
    later = Path.above → earlier = Path.above

theorem cleanPieces_ne_nil (name : Text) : Path.cleanPieces (aggregatorFileName name) ≠ [] := by
  obtain ⟨cleaned, x, hcleaned, -⟩ := cleanPieces_aggregatorFileName name
  simp [hcleaned]

/-- Once a name is cleaned, there is nothing left to respell. -/
theorem canonicalName_eq_clean (name : Text) :
    canonicalName name = Path.clean (aggregatorFileName name) := by
  refine Path.normalize_eq_self (backslash_not_mem_clean name) ?_
  rw [Path.clean_eq_ofPieces (cleanPieces_ne_nil name)]
  exact Path.getLast?_ofPieces (cleanPieces_ne_nil name) fun p => Path.isPiece_of_mem_cleanPieces

theorem canonicalName_eq_ofPieces (name : Text) :
    canonicalName name = Path.ofPieces (Path.isAbsolute (aggregatorFileName name))
      (Path.cleanPieces (aggregatorFileName name)) := by
  rw [canonicalName_eq_clean, Path.clean_eq_ofPieces (cleanPieces_ne_nil name)]

theorem isCanonical_canonicalName (name : Text) : IsCanonical (canonicalName name) := by
  have hpiece : ∀ p ∈ Path.cleanPieces (aggregatorFileName name), Path.IsPiece p :=
    fun p => Path.isPiece_of_mem_cleanPieces
  have hsplit : List.splitOn '/' (canonicalName name) =
      if Path.isAbsolute (aggregatorFileName name) = true then
        [] :: Path.cleanPieces (aggregatorFileName name)
      else Path.cleanPieces (aggregatorFileName name) := by
    rw [canonicalName_eq_ofPieces, Path.splitOn_ofPieces _ (cleanPieces_ne_nil name) hpiece]
  refine ⟨?_, backslash_not_mem_canonicalName name, ?_, ?_, ?_⟩
  · obtain ⟨cleaned, x, hcleaned, -, hextension⟩ := cleanPieces_aggregatorFileName name
    rw [canonicalName_eq_ofPieces, hcleaned]
    exact hextension.trans (Path.suffix_ofPieces _ cleaned x)
  · rw [canonicalName_eq_ofPieces]
    exact Path.getLast?_ofPieces (cleanPieces_ne_nil name) hpiece
  · have hhere : Path.here ∉ Path.cleanPieces (aggregatorFileName name) :=
      fun hmem => (hpiece _ hmem).ne_here rfl
    rw [hsplit]
    split
    · exact fun hmem => hhere ((List.mem_cons.1 hmem).resolve_left (by decide))
    · exact hhere
  · have hpairwise := Path.pairwise_cleanPieces (aggregatorFileName name)
    rw [hsplit]
    split
    next habs =>
      -- no two dots are left at the root
      refine List.pairwise_cons.2 ⟨fun p hp heq => ?_, hpairwise⟩
      exact absurd (heq ▸ hp) (Path.above_not_mem_cleanPieces habs)
    next => exact hpairwise

theorem IsCanonical.aggregatorFileName_eq {n : Text} (h : IsCanonical n) : aggregatorFileName n = n := by
  rw [aggregatorFileName, Path.normalize_eq_self h.no_backslash h.no_slash_last]
  exact if_pos (List.isSuffixOf_iff_suffix.2 h.extension)

theorem aggregatorFileName_canonicalName (name : Text) :
    aggregatorFileName (canonicalName name) = canonicalName name :=
  (isCanonical_canonicalName name).aggregatorFileName_eq

/-- From every directory, the one spelling of a name leads where the name leads. -/
theorem clean_join_canonicalName (dir name : Text) :
    Path.clean (Path.join dir (canonicalName name)) =
      Path.clean (Path.join dir (aggregatorFileName name)) := by
  rw [canonicalName_eq_clean, Path.clean_join_clean]

theorem canonicalName_canonicalName (name : Text) :
    canonicalName (canonicalName name) = canonicalName name := by
  rw [canonicalName_eq_clean, aggregatorFileName_canonicalName, canonicalName_eq_clean,
    Path.clean_eq_clean_iff]
  exact ⟨Path.isAbsolute_clean _, Path.cleanPieces_clean _⟩

end Aggregator

/-! ### Main statement -/

/-- The names of an aggregator, present and former, are kept in their one spelling, in which they lead
where they were given to lead. An aggregator that is named by what was kept is the same one, and its path
is its name below the root, cleaned. -/
theorem aggregator_keeps_canonical_names (root name : Text) (previous : List Text) :
    let t := Aggregator.ofNames root name previous
    List.Forall₂
        (fun given kept => Aggregator.IsCanonical kept ∧
          ∀ dir, Path.clean (Path.join dir kept) = Path.clean (Path.join dir (aggregatorFileName given)))
        (name :: previous) (t.name :: t.previousNames) ∧
      Aggregator.ofNames root t.name t.previousNames = t ∧
      t.path = Path.clean (Path.join root t.name) := by
  intro t
  have hpath : Path.clean (Path.join root t.name) = t.path := Aggregator.clean_join_canonicalName root name
  refine ⟨?_, ?_, hpath.symm⟩
  · show List.Forall₂ _ (name :: previous) ((name :: previous).map Aggregator.canonicalName)
    rw [List.forall₂_map_right_iff, List.forall₂_same]
    intro given _
    exact ⟨Aggregator.isCanonical_canonicalName given, fun dir =>
      Aggregator.clean_join_canonicalName dir given⟩
  · have hprevious : t.previousNames.map Aggregator.canonicalName = t.previousNames := by
      show (previous.map _).map _ = previous.map _
      simp [Aggregator.canonicalName_canonicalName]
    have hname : t.name = Aggregator.canonicalName name := rfl
    rw [Aggregator.ofNames, hprevious, hname, Aggregator.canonicalName_canonicalName,
      Aggregator.aggregatorFileName_canonicalName, ← hname, hpath]

end ImportSync
