import ImportSync.Proofs.Paths

/-!
Lexical cleaning, piece by piece. On a relative path the stack of cleaned pieces consists of names and,
below them, of two dots that found nothing to cancel. Run on top of an absolute path, the same pieces
leave the same names, and the two dots at the bottom take away as many pieces of that path.
-/

namespace ImportSync.Path

/-! ### One piece on the stack -/

theorem pushPiece_name {p : Text} (h : p ≠ above) (absolute : Bool) (st : List Text) :
    pushPiece absolute st p = p :: st := by
  simp [pushPiece, h]

theorem pushPiece_above_cons {q : Text} (h : q ≠ above) (absolute : Bool) (st : List Text) :
    pushPiece absolute (q :: st) above = st := by
  simp [pushPiece, h]

theorem pushPiece_above_replicate (j : Nat) :
    pushPiece false (List.replicate j above) above = List.replicate (j + 1) above := by
  cases j with
  | zero => rfl
  | succ j => simp [pushPiece, List.replicate_succ]

theorem pushPiece_above_drop {st : List Text} (h : above ∉ st) (j : Nat) :
    pushPiece true (st.drop j) above = st.drop (j + 1) := by
  rw [← List.tail_drop]
  cases hdrop : st.drop j with
  | nil => rfl
  | cons q rest =>
      have hq : q ∈ st := List.mem_of_mem_drop (hdrop ▸ List.mem_cons_self)
      exact pushPiece_above_cons (fun heq => h (heq ▸ hq)) true rest

theorem mem_pushPiece {absolute : Bool} {st : List Text} {p q : Text}
    (h : q ∈ pushPiece absolute st p) : q = above ∨ q ∈ st ∨ q = p := by
  by_cases hp : p = above
  · subst hp
    cases st with
    | nil => cases absolute <;> simp_all [pushPiece]
    | cons x st =>
        by_cases hx : x = above
        · simp_all [pushPiece]
        · rw [pushPiece_above_cons hx] at h
          exact .inr (.inl (List.mem_cons_of_mem _ h))
  · rw [pushPiece_name hp] at h
    rcases List.mem_cons.1 h with h | h
    · exact .inr (.inr h)
    · exact .inr (.inl h)

/-- One piece has the same effect on the names of a relative and of an absolute stack. -/
theorem pushPiece_alongside {names : List Text} (hnames : ∀ q ∈ names, IsName q) (j : Nat)
    {p : Text} (hp : IsPiece p) :
    ∃ names' j', (∀ q ∈ names', IsName q) ∧
      pushPiece false (names ++ List.replicate j above) p = names' ++ List.replicate j' above ∧
      ∀ st : List Text, above ∉ st → pushPiece true (names ++ st.drop j) p = names' ++ st.drop j' := by
  by_cases habove : p = above
  · subst habove
    cases names with
    | nil =>
        exact ⟨[], j + 1, by simp, pushPiece_above_replicate j, fun st hst =>
          pushPiece_above_drop hst j⟩
    | cons q names =>
        have hq := (hnames q (by simp)).ne_above
        exact ⟨names, j, fun r hr => hnames r (List.mem_cons_of_mem _ hr),
          pushPiece_above_cons hq false _, fun st _ => pushPiece_above_cons hq true _⟩
  · refine ⟨p :: names, j, ?_, pushPiece_name habove false _, fun st _ =>
      pushPiece_name habove true _⟩
    intro q hq
    rcases List.mem_cons.1 hq with rfl | hq
    · exact { hp with ne_above := habove }
    · exact hnames q hq

/-! ### All pieces on the stack -/

theorem foldl_pushPiece_alongside {ps : List Text} (hps : ∀ p ∈ ps, IsPiece p)
    {names : List Text} (hnames : ∀ q ∈ names, IsName q) (j : Nat) :
    ∃ names' j', (∀ q ∈ names', IsName q) ∧
      ps.foldl (pushPiece false) (names ++ List.replicate j above) =
        names' ++ List.replicate j' above ∧
      ∀ st : List Text, above ∉ st → ps.foldl (pushPiece true) (names ++ st.drop j) = names' ++ st.drop j' := by
  -- both stacks keep their form: the same names, above two dots or above what is left of the other path
  induction ps generalizing names j with
  | nil => exact ⟨names, j, hnames, rfl, fun _ _ => rfl⟩
  | cons p ps ih =>
      obtain ⟨names₁, j₁, hnames₁, hrel, habs⟩ := pushPiece_alongside hnames j (hps p (by simp))
      obtain ⟨names', j', hnames', hrel', habs'⟩ :=
        ih (fun q hq => hps q (List.mem_cons_of_mem _ hq)) hnames₁ j₁
      refine ⟨names', j', hnames', ?_, fun st hst => ?_⟩
      · rw [List.foldl_cons, hrel, hrel']
      · rw [List.foldl_cons, habs st hst, habs' st hst]

theorem foldl_pushPiece_pieces (p : Text) :
    ∃ names j, (∀ q ∈ names, IsName q) ∧
      (pieces p).foldl (pushPiece false) [] = names ++ List.replicate j above ∧
      ∀ st : List Text, above ∉ st → (pieces p).foldl (pushPiece true) st = names ++ st.drop j := by
  have hnil : ∀ q ∈ ([] : List Text), IsName q := by simp
  exact foldl_pushPiece_alongside (fun q => isPiece_of_mem_pieces) hnil 0

theorem foldl_pushPiece_names {ps : List Text} (h : above ∉ ps) (absolute : Bool)
    (st : List Text) : ps.foldl (pushPiece absolute) st = ps.reverse ++ st := by
  induction ps generalizing st with
  | nil => rfl
  | cons p ps ih =>
      simp only [List.mem_cons, not_or] at h
      rw [List.foldl_cons, pushPiece_name (Ne.symm h.1), ih h.2]
      simp

theorem foldl_pushPiece_aboves (j : Nat) :
    (List.replicate j above).foldl (pushPiece false) [] = List.replicate j above := by
  induction j with
  | zero => rfl
  | succ j ih =>
      rw [List.replicate_succ', List.foldl_append, ih, List.foldl_cons, List.foldl_nil,
        pushPiece_above_replicate, List.replicate_succ']

theorem mem_foldl_pushPiece {absolute : Bool} {ps st : List Text} {q : Text}
    (h : q ∈ ps.foldl (pushPiece absolute) st) : q = above ∨ q ∈ st ∨ q ∈ ps := by
  induction ps generalizing st with
  | nil => exact .inr (.inl h)
  | cons p ps ih =>
      rcases ih h with h | h | h
      · exact .inl h
      · rcases mem_pushPiece h with h | h | rfl
        · exact .inl h
        · exact .inr (.inl h)
        · exact .inr (.inr (by simp))
      · exact .inr (.inr (List.mem_cons_of_mem _ h))

theorem above_not_mem {names : List Text} (h : ∀ q ∈ names, IsName q) : above ∉ names :=
  fun hmem => (h above hmem).ne_above rfl

/-! ### Cleaned pieces -/

/-- The cleaned pieces of a relative path are two dots, so many times, and names. Joined to an
absolute path, they take away so many of its cleaned pieces and add the names. -/
theorem cleanPieces_relative {p : Text} (h : isAbsolute p = false) :
    ∃ j names, (∀ q ∈ names, IsName q) ∧ cleanPieces p = List.replicate j above ++ names ∧
      ∀ st : List Text, above ∉ st → ((pieces p).foldl (pushPiece true) st.reverse).reverse =
        st.take (st.length - j) ++ names := by
  obtain ⟨names, j, hnames, hrel, habs⟩ := foldl_pushPiece_pieces p
  refine ⟨j, names.reverse, fun q hq => hnames q (List.mem_reverse.1 hq), ?_, fun st hst => ?_⟩
  · rw [cleanPieces, h, hrel, List.reverse_append, List.reverse_replicate]
  · have hfold : (pieces p).foldl (pushPiece true) st.reverse = names ++ st.reverse.drop j :=
      habs st.reverse fun hmem => hst (List.mem_reverse.1 hmem)
    rw [hfold, List.reverse_append, List.drop_reverse, List.reverse_reverse]

theorem isName_of_mem_cleanPieces {p q : Text} (h : isAbsolute p = true) (hq : q ∈ cleanPieces p) :
    IsName q := by
  obtain ⟨names, j, hnames, -, habs⟩ := foldl_pushPiece_pieces p
  have hfold : (pieces p).foldl (pushPiece true) [] = names := by
    simpa using habs [] (by simp)
  rw [cleanPieces, h, hfold] at hq
  exact hnames q (List.mem_reverse.1 hq)

theorem isPiece_of_mem_cleanPieces {p q : Text} (hq : q ∈ cleanPieces p) : IsPiece q := by
  cases h : isAbsolute p with
  | true => exact (isName_of_mem_cleanPieces h hq).toIsPiece
  | false =>
      obtain ⟨j, names, hnames, hclean, -⟩ := cleanPieces_relative h
      rw [hclean] at hq
      rcases List.mem_append.1 hq with hq | hq
      · rw [List.eq_of_mem_replicate hq]
        exact isPiece_above
      · exact (hnames q hq).toIsPiece

/-- A cleaned piece is two dots or a piece of the path. -/
theorem mem_pieces_of_mem_cleanPieces {p q : Text} (hq : q ∈ cleanPieces p) :
    q = above ∨ q ∈ pieces p := by
  rcases mem_foldl_pushPiece (List.mem_reverse.1 hq) with h | h | h
  · exact .inl h
  · simp at h
  · exact .inr h

/-- A last piece that is a name stays last. -/
theorem cleanPieces_concat {p x : Text} {init : List Text} (hp : pieces p = init ++ [x])
    (hx : x ≠ above) : ∃ cleaned, cleanPieces p = cleaned ++ [x] := by
  rw [cleanPieces, hp, List.foldl_append, List.foldl_cons, List.foldl_nil, pushPiece_name hx,
    List.reverse_cons]
  exact ⟨_, rfl⟩

theorem cleanPieces_ofPieces {l : List Text} (h : ∀ q ∈ l, IsName q) :
    cleanPieces (ofPieces true l) = l := by
  rw [cleanPieces, pieces_ofPieces fun q hq => (h q hq).toIsPiece,
    foldl_pushPiece_names (above_not_mem h), List.append_nil, List.reverse_reverse]

/-! ### Cleaned paths -/

theorem clean_absolute {p : Text} (h : isAbsolute p = true) :
    clean p = ofPieces true (cleanPieces p) := by
  simp [clean, ofCleanPieces, h]

theorem clean_eq_ofPieces {p : Text} (h : cleanPieces p ≠ []) :
    clean p = ofPieces (isAbsolute p) (cleanPieces p) := by
  simp [clean, ofCleanPieces, h]

theorem isAbsolute_ofCleanPieces {absolute : Bool} {ps : List Text} (h : ∀ p ∈ ps, IsPiece p) :
    isAbsolute (ofCleanPieces absolute ps) = absolute := by
  cases absolute with
  | true => simp [ofCleanPieces]
  | false =>
      rw [ofCleanPieces]
      split
      · rfl
      · exact isAbsolute_ofPieces_false h

theorem pieces_ofCleanPieces {absolute : Bool} {ps : List Text} (h : ∀ p ∈ ps, IsPiece p) :
    pieces (ofCleanPieces absolute ps) = ps := by
  rw [ofCleanPieces]
  split
  next hnil =>
    simp only [Bool.and_eq_true, List.isEmpty_iff] at hnil
    rw [hnil.1]
    rfl
  next => exact pieces_ofPieces h

@[simp] theorem isAbsolute_clean (p : Text) : isAbsolute (clean p) = isAbsolute p :=
  isAbsolute_ofCleanPieces fun _ => isPiece_of_mem_cleanPieces

theorem pieces_clean (p : Text) : pieces (clean p) = cleanPieces p :=
  pieces_ofCleanPieces fun _ => isPiece_of_mem_cleanPieces

/-- A path leads where its cleaned pieces tell, from the root or from where one is. -/
theorem clean_eq_clean_iff {p q : Text} :
    clean p = clean q ↔ isAbsolute p = isAbsolute q ∧ cleanPieces p = cleanPieces q := by
  constructor
  · intro h
    rw [← isAbsolute_clean p, ← pieces_clean p, h]
    exact ⟨isAbsolute_clean q, pieces_clean q⟩
  · rintro ⟨habs, hpieces⟩
    rw [clean, habs, hpieces]
    rfl

theorem mem_clean {p : Text} {c : Char} (h : c ∈ clean p) : c = '/' ∨ c = '.' ∨ c ∈ p := by
  rw [clean, ofCleanPieces] at h
  split at h
  · exact .inr (.inl (by simpa [here] using h))
  · rcases mem_ofPieces h with h | ⟨q, hq, hc⟩
    · exact .inl h
    · rcases mem_pieces_of_mem_cleanPieces hq with rfl | hq
      · exact .inr (.inl (by simpa [above] using hc))
      · exact .inr (.inr (mem_of_mem_pieces hq hc))

theorem cleanPieces_clean (p : Text) : cleanPieces (clean p) = cleanPieces p := by
  cases h : isAbsolute p with
  | true =>
      rw [clean_absolute h]
      exact cleanPieces_ofPieces fun q => isName_of_mem_cleanPieces h
  | false =>
      -- two dots at the bottom find nothing to cancel, and the names cancel nothing
      obtain ⟨j, names, hnames, hclean, -⟩ := cleanPieces_relative h
      rw [cleanPieces, pieces_clean, isAbsolute_clean, h, hclean, List.foldl_append,
        foldl_pushPiece_aboves, foldl_pushPiece_names (above_not_mem hnames), List.reverse_append,
        List.reverse_replicate, List.reverse_reverse]

theorem cleanPieces_join (dir : Text) {p : Text} (hp : isAbsolute p = false) :
    cleanPieces (join dir p) =
      ((pieces p).foldl (pushPiece (isAbsolute dir)) (cleanPieces dir).reverse).reverse := by
  rw [cleanPieces, isAbsolute_join_eq dir hp, pieces_join hp, List.foldl_append, cleanPieces,
    List.reverse_reverse]

end ImportSync.Path
