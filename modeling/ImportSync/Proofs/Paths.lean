import ImportSync.Path
import ImportSync.Proofs.Text

/-!
Paths and their pieces. What a path means depends on whether it is absolute and on its pieces only, so
every operation on paths is described here by what it does to the pieces: joining appends them, and
cleaning runs a stack over them, on which two dots take away the piece before.
-/

namespace ImportSync.Path

/-- A text that stands between the slashes of a path and names something. -/
structure IsPiece (p : Text) : Prop where
  nonempty : p ≠ []
  ne_here : p ≠ here
  no_slash : '/' ∉ p

/-- A name that can stand in a directory. -/
structure IsName (p : Text) : Prop extends IsPiece p where
  ne_above : p ≠ above

instance (p : Text) : Decidable (IsName p) :=
  decidable_of_iff (((p ≠ [] ∧ p ≠ here) ∧ '/' ∉ p) ∧ p ≠ above)
    ⟨fun h => ⟨⟨h.1.1.1, h.1.1.2, h.1.2⟩, h.2⟩, fun h => ⟨⟨⟨h.nonempty, h.ne_here⟩, h.no_slash⟩, h.ne_above⟩⟩

/-- No piece is passed over on the way that a path takes. -/
theorem IsPiece.not_skipped {p : Text} (h : IsPiece p) : (p.isEmpty || p == here) = false := by
  simp [h.nonempty, h.ne_here]

theorem isPiece_above : IsPiece above := ⟨by decide, by decide, by decide⟩

/-! ### The pieces of a path -/

theorem isPiece_of_mem_pieces {t p : Text} (h : p ∈ pieces t) : IsPiece p := by
  rw [pieces, List.mem_filter] at h
  obtain ⟨hsplit, hkept⟩ := h
  simp only [Bool.and_eq_true, Bool.not_eq_true', List.isEmpty_eq_false_iff, bne_iff_ne] at hkept
  exact ⟨hkept.1, hkept.2, Text.not_mem_of_mem_splitOn hsplit⟩

theorem filter_pieces {ps : List Text} (h : ∀ p ∈ ps, IsPiece p) :
    (ps.filter fun s => !s.isEmpty && s != here) = ps := by
  rw [List.filter_eq_self]
  intro p hp
  simp [(h p hp).nonempty, (h p hp).ne_here]

@[simp] theorem pieces_nil : pieces [] = [] := rfl

theorem pieces_joinWith {ps : List Text} (h : ∀ p ∈ ps, IsPiece p) :
    pieces (Text.joinWith ['/'] ps) = ps := by
  cases ps with
  | nil => rfl
  | cons p ps =>
      rw [pieces, Text.splitOn_joinWith (by simp) fun q hq => (h q hq).no_slash]
      exact filter_pieces h

theorem pieces_of_isPiece {p : Text} (h : IsPiece p) : pieces p = [p] := by
  have hone : ∀ q ∈ [p], IsPiece q := by simpa using h
  simpa using pieces_joinWith hone

theorem pieces_append_slash (a b : Text) : pieces (a ++ '/' :: b) = pieces a ++ pieces b := by
  rw [pieces, List.splitOn_append_cons_self, List.filter_append]
  rfl

theorem pieces_slash_cons (b : Text) : pieces ('/' :: b) = pieces b :=
  pieces_append_slash [] b

theorem pieces_concat_slash (a : Text) : pieces (a ++ ['/']) = pieces a := by
  rw [pieces_append_slash, pieces_nil, List.append_nil]

theorem pieces_append_slashes (a : Text) (k : Nat) :
    pieces (a ++ List.replicate k '/') = pieces a := by
  induction k with
  | zero => simp
  | succ k ih =>
      rw [List.replicate_succ', ← List.append_assoc, pieces_concat_slash]
      exact ih

theorem pieces_ofPieces {absolute : Bool} {ps : List Text} (h : ∀ p ∈ ps, IsPiece p) :
    pieces (ofPieces absolute ps) = ps := by
  cases absolute with
  | false => exact pieces_joinWith h
  | true =>
      rw [ofPieces, if_pos rfl, List.singleton_append, pieces_slash_cons]
      exact pieces_joinWith h

theorem infix_of_mem_pieces {t p : Text} (h : p ∈ pieces t) : p <:+: t := by
  have hsplit : p ∈ List.splitOn '/' t := (List.mem_filter.1 h).1
  rw [← Text.joinWith_splitOn '/' t]
  exact Text.infix_joinWith_of_mem hsplit

theorem mem_of_mem_pieces {t p : Text} {c : Char} (h : p ∈ pieces t) (hc : c ∈ p) : c ∈ t :=
  (infix_of_mem_pieces h).subset hc

theorem mem_ofPieces {absolute : Bool} {ps : List Text} {c : Char} (h : c ∈ ofPieces absolute ps) :
    c = '/' ∨ ∃ p ∈ ps, c ∈ p := by
  rw [ofPieces] at h
  rcases List.mem_append.1 h with h | h
  · left
    cases absolute <;> simp_all
  · rcases Text.mem_joinWith h with h | h
    · exact .inl (by simpa using h)
    · exact .inr h

/-! ### Absolute and relative -/

@[simp] theorem isAbsolute_slash_cons (t : Text) : isAbsolute ('/' :: t) = true := rfl

@[simp] theorem isAbsolute_ofPieces_true (ps : List Text) : isAbsolute (ofPieces true ps) = true := rfl

theorem eq_slash_cons_of_isAbsolute {p : Text} (h : isAbsolute p = true) : ∃ t, p = '/' :: t := by
  cases p with
  | nil => simp [isAbsolute] at h
  | cons c t =>
      simp only [isAbsolute, List.head?_cons, beq_iff_eq, Option.some.injEq] at h
      exact ⟨t, by rw [h]⟩

theorem isAbsolute_ofPieces_false {ps : List Text} (h : ∀ p ∈ ps, IsPiece p) :
    isAbsolute (ofPieces false ps) = false := by
  cases ps with
  | nil => rfl
  | cons p ps =>
      have hp := h p (by simp)
      cases p with
      | nil => exact absurd rfl hp.nonempty
      | cons c p =>
          have hc : '/' ≠ c := fun heq => hp.no_slash (heq ▸ List.mem_cons_self)
          by_cases hps : ps = []
          · simp [hps, ofPieces, isAbsolute, Ne.symm hc]
          · simp [ofPieces, Text.joinWith_cons hps, isAbsolute, Ne.symm hc]

/-! ### Joining -/

theorem join_absolute {dir p : Text} (h : isAbsolute p = true) : join dir p = p := by
  simp [join, h]

theorem pieces_join {dir p : Text} (h : isAbsolute p = false) :
    pieces (join dir p) = pieces dir ++ pieces p := by
  rw [join]
  by_cases hdir : dir = []
  · simp [hdir]
  · rw [if_neg (by simp [h, hdir])]
    by_cases hlast : dir.getLast? = some '/'
    · obtain ⟨init, rfl⟩ := List.getLast?_eq_some_iff.1 hlast
      rw [if_pos (by simp), List.append_assoc, List.singleton_append, pieces_append_slash,
        pieces_concat_slash]
    · rw [if_neg (by simpa using hlast), pieces_append_slash]

theorem mem_join {dir p : Text} {c : Char} (h : c ∈ join dir p) : c = '/' ∨ c ∈ dir ∨ c ∈ p := by
  rw [join] at h
  split at h
  · exact .inr (.inr h)
  · split at h
    · exact .inr (List.mem_append.1 h)
    · rcases List.mem_append.1 h with h | h
      · exact .inr (.inl h)
      · rcases List.mem_cons.1 h with h | h
        · exact .inl h
        · exact .inr (.inr h)

theorem isAbsolute_join {dir : Text} (h : isAbsolute dir = true) (p : Text) :
    isAbsolute (join dir p) = true := by
  obtain ⟨t, rfl⟩ := eq_slash_cons_of_isAbsolute h
  by_cases hp : isAbsolute p = true
  · rw [join_absolute hp, hp]
  · rw [join, if_neg (by simp [hp])]
    split <;> rfl

/-- Joining puts one slash between a directory and a relative path, whether the directory is spelled
with a slash at its end or without. -/
theorem exists_join_eq {dir : Text} (hdir : dir ≠ []) :
    ∃ init, (dir = init ∨ dir = init ++ ['/']) ∧
      ∀ p, isAbsolute p = false → join dir p = init ++ '/' :: p := by
  by_cases hlast : dir.getLast? = some '/'
  · obtain ⟨init, rfl⟩ := List.getLast?_eq_some_iff.1 hlast
    refine ⟨init, .inr rfl, fun p hp => ?_⟩
    rw [join, if_neg (by simp [hp]), if_pos (by simp), List.append_assoc, List.singleton_append]
  · refine ⟨dir, .inl rfl, fun p hp => ?_⟩
    rw [join, if_neg (by simp [hp, hdir]), if_neg (by simpa using hlast)]

theorem isAbsolute_join_eq (dir : Text) {p : Text} (hp : isAbsolute p = false) :
    isAbsolute (join dir p) = isAbsolute dir := by
  cases dir with
  | nil =>
      have hjoin : join [] p = p := by simp [join]
      rw [hjoin, hp]
      rfl
  | cons c dir =>
      rw [join, if_neg (by simp [hp])]
      split <;> rfl

theorem suffix_ofPieces (absolute : Bool) (init : List Text) (x : Text) :
    x <:+ ofPieces absolute (init ++ [x]) := by
  rw [ofPieces]
  by_cases hinit : init = []
  · rw [hinit, List.nil_append, Text.joinWith_singleton]
    exact List.suffix_append _ _
  · rw [Text.joinWith_append hinit (by simp), Text.joinWith_singleton, ← List.append_assoc,
      ← List.append_assoc]
    exact List.suffix_append _ _

theorem getLast?_ofPieces {absolute : Bool} {ps : List Text} (hne : ps ≠ [])
    (h : ∀ p ∈ ps, IsPiece p) : (ofPieces absolute ps).getLast? ≠ some '/' := by
  obtain ⟨init, x, rfl⟩ : ∃ init x, ps = init ++ [x] :=
    ⟨ps.dropLast, ps.getLast hne, (List.dropLast_concat_getLast hne).symm⟩
  have hx := h x (by simp)
  obtain ⟨before, hbefore⟩ := suffix_ofPieces absolute init x
  rw [← hbefore, List.getLast?_append, List.getLast?_eq_some_getLast hx.nonempty]
  intro hslash
  have hlast : x.getLast hx.nonempty = '/' := by simpa using hslash
  exact hx.no_slash (hlast ▸ List.getLast_mem hx.nonempty)

/-- Between the slashes of a path that is put together there are its pieces, and nothing before the first
slash of an absolute one. -/
theorem splitOn_ofPieces (absolute : Bool) {ps : List Text} (hne : ps ≠ [])
    (h : ∀ p ∈ ps, IsPiece p) :
    List.splitOn '/' (ofPieces absolute ps) = if absolute = true then [] :: ps else ps := by
  have hsplit := Text.splitOn_joinWith hne fun p hp => (h p hp).no_slash
  cases absolute with
  | false => exact hsplit
  | true =>
      have hslash := List.splitOn_append_cons_self (a := '/') [] (Text.joinWith ['/'] ps)
      rw [hsplit] at hslash
      exact hslash

/-- Joining puts the pieces of two paths after one another, unless the first one has no text. -/
theorem join_ofPieces {absolute : Bool} {ps names : List Text} (hps : ∀ p ∈ ps, IsPiece p)
    (hne : ps ≠ [] ∨ absolute = true) (hnames : names ≠ []) (h : ∀ n ∈ names, IsPiece n) :
    join (ofPieces absolute ps) (Text.joinWith ['/'] names) = ofPieces absolute (ps ++ names) := by
  have hrel : isAbsolute (Text.joinWith ['/'] names) = false := isAbsolute_ofPieces_false h
  by_cases hnil : ps = []
  · obtain rfl : absolute = true := hne.resolve_left (not_not_intro hnil)
    subst hnil
    simp [join, hrel, ofPieces]
  · have hlast : (ofPieces absolute ps).getLast? ≠ some '/' := getLast?_ofPieces hnil hps
    have htext : (ofPieces absolute ps).isEmpty = false := by
      rw [List.isEmpty_eq_false_iff]
      intro hempty
      have hpieces : pieces (ofPieces absolute ps) = ps := pieces_ofPieces hps
      rw [hempty, pieces_nil] at hpieces
      exact hnil hpieces.symm
    rw [join, hrel, htext, Bool.or_false, if_neg (by simp), if_neg (by simpa using hlast), ofPieces,
      ofPieces, Text.joinWith_append hnil hnames]
    simp

/-! ### The one spelling -/

theorem exists_of_mem_normalize {p : Text} {c : Char} (h : c ∈ normalize p) :
    ∃ d ∈ p, (if d = '\\' then '/' else d) = c := by
  have hdrop := (List.dropWhile_suffix (· == '/')).subset (List.mem_reverse.1 h)
  exact List.mem_map.1 (List.mem_reverse.1 hdrop)

theorem no_backslash_of_normalize (p : Text) : '\\' ∉ normalize p := by
  intro h
  obtain ⟨c, -, hc⟩ := exists_of_mem_normalize h
  split at hc <;> simp_all

theorem mem_normalize {p : Text} {c : Char} (h : c ∈ normalize p) : c = '/' ∨ c ∈ p := by
  obtain ⟨d, hd, rfl⟩ := exists_of_mem_normalize h
  split
  · exact .inl rfl
  · exact .inr hd

theorem map_backslash {p : Text} (h : '\\' ∉ p) :
    (p.map fun c => if c = '\\' then '/' else c) = p := by
  conv => rhs; rw [← List.map_id p]
  refine List.map_congr_left fun c hc => ?_
  rw [if_neg, id]
  rintro rfl
  exact h hc

/-- Without backslashes, the one spelling differs from the path by slashes at the end. -/
theorem normalize_append_slashes {p : Text} (h : '\\' ∉ p) :
    ∃ k, normalize p ++ List.replicate k '/' = p := by
  have hslashes : ∀ c ∈ p.reverse.takeWhile (· == '/'), c = '/' := by
    intro c hc
    simpa using List.all_eq_true.1 List.all_takeWhile c hc
  refine ⟨(p.reverse.takeWhile (· == '/')).length, ?_⟩
  rw [normalize, map_backslash h]
  have hsplit := List.takeWhile_append_dropWhile (p := (· == '/')) (l := p.reverse)
  rw [List.eq_replicate_of_mem hslashes] at hsplit
  have hrev := congrArg List.reverse hsplit
  rwa [List.reverse_append, List.reverse_replicate, List.reverse_reverse] at hrev

/-- The one spelling of an absolute path is absolute, unless there is nothing but slashes in it. -/
theorem isAbsolute_normalize {p : Text} (h : isAbsolute p = true) :
    normalize p = [] ∨ isAbsolute (normalize p) = true := by
  obtain ⟨q, rfl⟩ := eq_slash_cons_of_isAbsolute h
  have hprefix : normalize ('/' :: q) <+: '/' :: q.map fun c => if c = '\\' then '/' else c := by
    rw [normalize, ← List.reverse_suffix, List.reverse_reverse]
    exact List.dropWhile_suffix _
  cases hnormal : normalize ('/' :: q) with
  | nil => exact .inl rfl
  | cons c rest =>
      rw [hnormal] at hprefix
      obtain ⟨rfl, -⟩ := List.cons_prefix_cons.1 hprefix
      exact .inr rfl

theorem pieces_normalize {p : Text} (h : '\\' ∉ p) : pieces (normalize p) = pieces p := by
  obtain ⟨k, hk⟩ := normalize_append_slashes h
  conv => rhs; rw [← hk]
  exact (pieces_append_slashes _ k).symm

theorem normalize_eq_self {p : Text} (h : '\\' ∉ p) (hlast : p.getLast? ≠ some '/') :
    normalize p = p := by
  rw [normalize, map_backslash h]
  cases hp : p.reverse with
  | nil => simpa using hp
  | cons c r =>
      have hc : c ≠ '/' := by
        rintro rfl
        exact hlast (by rw [List.getLast?_eq_head?_reverse, hp]; rfl)
      rw [List.dropWhile_cons_of_neg (by simpa using hc), ← hp, List.reverse_reverse]

/-! ### The directory of a path -/

/-- Slashes and single dots at the end of a path name nothing. -/
theorem pieces_trimEndReversed (r : Text) :
    pieces (trimEndReversed r).reverse = pieces r.reverse := by
  fun_induction trimEndReversed r with
  | case1 rest hrest => simp_all
  | case2 rest hrest ih => rw [ih, List.reverse_cons, pieces_concat_slash]
  | case3 rest hrest =>
      simp_all
      rfl
  | case4 rest hrest ih =>
      rw [ih]
      simp only [List.reverse_cons, List.append_assoc, List.cons_append, List.nil_append]
      rw [pieces_append_slash]
      simp [pieces, List.splitOn_cons_eq_if_modifyHead, here]
  | case5 => rfl

theorem trimEndReversed_suffix (r : Text) : trimEndReversed r <:+ r := by
  fun_induction trimEndReversed r with
  | case1 rest hrest => simp_all
  | case2 rest hrest ih => exact ih.trans (List.suffix_cons '/' rest)
  | case3 rest hrest => simp_all
  | case4 rest hrest ih =>
      exact ih.trans ((List.suffix_cons '/' rest).trans (List.suffix_cons '.' ('/' :: rest)))
  | case5 => exact List.suffix_refl _

/-- A path starts with the directory that it lies in. -/
theorem prefix_of_parent? {p dir : Text} (h : parent? p = some dir) : dir <+: p := by
  rw [parent?] at h
  split at h
  · cases h
  · cases h
  · obtain rfl := Option.some.inj h
    rw [← List.reverse_suffix, List.reverse_reverse]
    exact (trimEndReversed_suffix _).trans
      ((List.dropWhile_suffix _).trans (trimEndReversed_suffix _))

theorem isAbsolute_of_parent? {p dir : Text} (h : parent? p = some dir) (hne : dir ≠ []) :
    isAbsolute dir = isAbsolute p := by
  obtain ⟨rest, rfl⟩ := prefix_of_parent? h
  cases dir with
  | nil => exact absurd rfl hne
  | cons c dir => rfl

theorem getLast?_trimEndReversed {r : Text} (h : r.getLast? = some '/') :
    (trimEndReversed r).getLast? = some '/' := by
  fun_induction trimEndReversed r with
  | case1 rest hrest => rfl
  | case2 rest hrest ih =>
      refine ih ?_
      rwa [List.getLast?_cons_of_ne_nil (by simpa using hrest)] at h
  | case3 rest hrest => rfl
  | case4 rest hrest ih =>
      refine ih ?_
      rwa [List.getLast?_cons_of_ne_nil (by simp),
        List.getLast?_cons_of_ne_nil (by simpa using hrest)] at h
  | case5 => exact h

theorem trimEndReversed_eq_slash_cons {r s : Text} (h : trimEndReversed r = '/' :: s) : s = [] := by
  fun_induction trimEndReversed r with
  | case1 rest hrest => simpa using h.symm
  | case2 rest hrest ih => exact ih h
  | case3 rest hrest => simpa using h.symm
  | case4 rest hrest ih => exact ih h
  | case5 r hslash hdot => exact absurd h (hslash s)

theorem trimEndReversed_ne_dot_slash (r s : Text) : trimEndReversed r ≠ '.' :: '/' :: s := by
  fun_induction trimEndReversed r with
  | case1 rest hrest => simp
  | case2 rest hrest ih => exact ih
  | case3 rest hrest => simp
  | case4 rest hrest ih => exact ih
  | case5 r hslash hdot => exact hdot s

theorem dropWhile_append_slash {x : Text} (h : '/' ∉ x) (s : Text) :
    (x ++ '/' :: s).dropWhile (· != '/') = '/' :: s := by
  have hx : ∀ c ∈ x, (c != '/') = true := by
    intro c hc
    simp only [bne_iff_ne, ne_eq]
    rintro rfl
    exact h hc
  rw [List.dropWhile_append_of_pos hx]
  simp

/-- An absolute path is the root or ends in a piece, which stands backwards before the first slash of
the path read from its end. -/
theorem trimEndReversed_absolute {p : Text} (habs : isAbsolute p = true) :
    (trimEndReversed p.reverse = ['/'] ∧ pieces p = []) ∨
      ∃ x s, trimEndReversed p.reverse = x ++ '/' :: s ∧ IsPiece x.reverse ∧
        ('/' :: s).getLast? = some '/' ∧ pieces p = pieces s.reverse ++ [x.reverse] := by
  have hlast : (trimEndReversed p.reverse).getLast? = some '/' := by
    apply getLast?_trimEndReversed
    obtain ⟨t, rfl⟩ := eq_slash_cons_of_isAbsolute habs
    simp
  have hp : pieces (trimEndReversed p.reverse).reverse = pieces p := by
    rw [pieces_trimEndReversed, List.reverse_reverse]
  obtain ⟨x, s, hr, hx⟩ := List.eq_append_cons_of_mem (List.mem_of_getLast? hlast)
  rw [hr] at hlast hp
  cases x with
  | nil =>
      -- only the root ends in a slash after trimming
      have hs : s = [] := trimEndReversed_eq_slash_cons hr
      subst hs
      exact .inl ⟨hr, hp.symm⟩
  | cons c x =>
      have hpiece : IsPiece (c :: x).reverse := by
        refine ⟨by simp, ?_, fun hmem => hx (List.mem_reverse.1 hmem)⟩
        intro heq
        have hdot : c :: x = ['.'] := by simpa [here] using congrArg List.reverse heq
        -- a single dot would have been trimmed
        rw [hdot] at hr
        exact trimEndReversed_ne_dot_slash _ _ hr
      refine .inr ⟨c :: x, s, hr, hpiece, ?_, ?_⟩
      · rw [List.getLast?_cons]
        rwa [List.getLast?_append, List.getLast?_cons, Option.some_or] at hlast
      · rw [← hp, List.reverse_append, List.reverse_cons, List.append_assoc, List.singleton_append,
          pieces_append_slash, pieces_of_isPiece hpiece]

/-- The directory of an absolute path is absolute, and the path has one piece more. -/
theorem parent?_absolute {p dir : Text} (habs : isAbsolute p = true) (h : parent? p = some dir) :
    isAbsolute dir = true ∧ ∃ x, IsPiece x ∧ pieces p = pieces dir ++ [x] := by
  rw [parent?] at h
  rcases trimEndReversed_absolute habs with ⟨hr, -⟩ | ⟨x, s, hr, hx, hs, hp⟩
  · simp [hr] at h
  · have hslash : '/' ∉ x := fun hmem => hx.no_slash (List.mem_reverse.2 hmem)
    rw [hr] at h
    split at h
    · exact absurd h (by simp)
    · exact absurd h (by simp)
    · rw [dropWhile_append_slash hslash] at h
      obtain rfl : (trimEndReversed ('/' :: s)).reverse = dir := by simpa using h
      refine ⟨?_, x.reverse, hx, ?_⟩
      · rw [isAbsolute, List.head?_reverse, getLast?_trimEndReversed hs]
        rfl
      · rw [hp, pieces_trimEndReversed, List.reverse_cons, pieces_concat_slash]

theorem pieces_eq_nil_of_parent? {p : Text} (habs : isAbsolute p = true) (h : parent? p = none) :
    pieces p = [] := by
  rw [parent?] at h
  rcases trimEndReversed_absolute habs with ⟨-, hp⟩ | ⟨x, s, hr, hx, -, -⟩
  · exact hp
  · have hne : x ≠ [] := fun heq => hx.nonempty (by simp [heq])
    rw [hr] at h
    split at h
    next heq => simp at heq
    next heq =>
      cases x with
      | nil => exact absurd rfl hne
      | cons c x => simp at heq
    · simp at h

end ImportSync.Path
