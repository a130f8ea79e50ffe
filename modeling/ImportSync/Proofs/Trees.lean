import ImportSync.Proofs.Cleaning
import ImportSync.Tree

/-!
File trees in which everything lies in a directory. Where a path leads depends on the directories and
links of a tree only, so that writing a file anew changes what is read there and nothing else.
-/

namespace ImportSync.FileTree

/-! ### Entries -/

theorem lookup_filter_ne (entries : List (Location × Entry)) (l k : Location) :
    (entries.filter (·.1 != l)).lookup k = if k = l then none else entries.lookup k := by
  induction entries with
  | nil => simp
  | cons entry entries ih =>
      obtain ⟨l', e⟩ := entry
      by_cases hl : l' = l
      · subst hl
        rw [List.filter_cons_of_neg (by simp), ih]
        by_cases hk : k = l'
        · simp [hk]
        · simp [hk, List.lookup_cons, beq_false_of_ne hk]
      · rw [List.filter_cons_of_pos (by simpa using hl), List.lookup_cons, List.lookup_cons, ih]
        by_cases hk : k = l'
        · subst hk
          simp [hl]
        · simp [beq_false_of_ne hk]

/-- After an entry is put at a location, it lies there, and everything else lies where it lay. -/
theorem get?_set (t : FileTree) {l : Location} (hl : l ≠ []) (e : Entry) (k : Location) :
    (t.set l e).get? k = if k = l then some e else t.get? k := by
  rw [get?, get?, set, List.lookup_append, lookup_filter_ne]
  by_cases hk : k = l
  · subst hk
    simp [hl]
  · by_cases hnil : k = []
    · simp [hnil, Ne.symm hl]
    · simp [hk, hnil, List.lookup_cons, beq_false_of_ne hk]

@[simp] theorem get?_nil (t : FileTree) : t.get? [] = some .dir := rfl

theorem isDirAt_iff {t : FileTree} {l : Location} : t.isDirAt l = true ↔ t.get? l = some .dir := by
  rw [isDirAt]
  split <;> simp_all

@[simp] theorem isDirAt_nil (t : FileTree) : t.isDirAt [] = true := rfl

/-! ### Well-formed trees -/

/-- A tree in which everything has a proper name and lies in a directory. -/
structure WellFormed (t : FileTree) : Prop where
  isName : ∀ {l e}, t.get? l = some e → ∀ n ∈ l, Path.IsName n
  inDir : ∀ {l e}, t.get? l = some e → t.isDirAt l.dropLast = true

theorem mem_entries_of_get? {t : FileTree} {l : Location} {e : Entry} (hl : l ≠ [])
    (h : t.get? l = some e) : (l, e) ∈ t.entries := by
  have hlookup : t.entries.lookup l = some e := by
    simpa [get?, hl] using h
  obtain ⟨before, after, hentries, -⟩ := List.lookup_eq_some_iff.1 hlookup
  simp [hentries]

/-- Whether a tree is well-formed can be told from its entries one by one. -/
theorem wellFormed_of_entries {t : FileTree}
    (h : ∀ entry ∈ t.entries,
      (∀ n ∈ entry.1, Path.IsName n) ∧ t.isDirAt entry.1.dropLast = true) : t.WellFormed where
  isName := by
    intro l e hl
    by_cases hnil : l = []
    · simp [hnil]
    · exact (h (l, e) (mem_entries_of_get? hnil hl)).1
  inDir := by
    intro l e hl
    by_cases hnil : l = []
    · simp [hnil]
    · exact (h (l, e) (mem_entries_of_get? hnil hl)).2

/-- Everything above an entry is a directory. -/
theorem WellFormed.isDirAt_of_prefix {t : FileTree} (ht : t.WellFormed) {l k : Location} {e : Entry}
    (hl : t.get? l = some e) (hk : k <+: l) (hne : k ≠ l) : t.isDirAt k = true := by
  obtain ⟨rest, rfl⟩ := hk
  induction hn : rest.length generalizing rest e with
  | zero =>
      rw [List.length_eq_zero_iff] at hn
      simp [hn] at hne
  | succ n ih =>
      have hrest : rest ≠ [] := by
        rintro rfl
        simp at hn
      have hdir := ht.inDir hl
      rw [List.dropLast_append_of_ne_nil hrest] at hdir
      by_cases hlast : rest.dropLast = []
      · simpa [hlast] using hdir
      · exact ih rest.dropLast (isDirAt_iff.1 hdir) (by simpa using hlast)
          (by rw [List.length_dropLast, hn]; rfl)

theorem WellFormed.isDirAt_dropLast {t : FileTree} (ht : t.WellFormed) {l : Location}
    (h : t.isDirAt l = true) : t.isDirAt l.dropLast = true :=
  ht.inDir (isDirAt_iff.1 h)

/-- Putting a directory or a file where its directory is keeps a tree well-formed, as long as no
directory is replaced by a file. -/
theorem WellFormed.set {t : FileTree} (ht : t.WellFormed) {l : Location} (hl : l ≠ [])
    (hname : ∀ n ∈ l, Path.IsName n) (hdir : t.isDirAt l.dropLast = true) {e : Entry}
    (he : e = .dir ∨ t.isDirAt l = false) : (t.set l e).WellFormed where
  isName := by
    intro k e' hk
    rw [get?_set t hl] at hk
    by_cases hkl : k = l
    · exact hkl ▸ hname
    · rw [if_neg hkl] at hk
      exact ht.isName hk
  inDir := by
    intro k e' hk
    have hdropLast : l.dropLast ≠ l := fun heq => by
      have hlen := congrArg List.length heq
      rw [List.length_dropLast] at hlen
      have hpos := List.length_pos_iff.2 hl
      omega
    have hparent : t.isDirAt k.dropLast = true := by
      rw [get?_set t hl] at hk
      by_cases hkl : k = l
      · exact hkl ▸ hdir
      · rw [if_neg hkl] at hk
        exact ht.inDir hk
    rw [isDirAt_iff, get?_set t hl]
    by_cases hkl : k.dropLast = l
    · rcases he with rfl | he
      · simp [hkl]
      · rw [hkl, he] at hparent
        simp at hparent
    · rw [if_neg hkl]
      exact isDirAt_iff.1 hparent

/-! ### Following a path -/

theorem follow_nil (t : FileTree) (n : Nat) (dir : Location) : t.follow n dir [] = some dir := by
  cases n <;> rfl

theorem follow_skip (t : FileTree) (n : Nat) (dir : Location) {piece : Text}
    (h : (piece.isEmpty || piece == Path.here) = true) (rest : List Text) :
    t.follow n dir (piece :: rest) = t.follow n dir rest := by
  cases n <;> rw [follow, followWith, if_pos h]

/-- Names that lead through directories lead on from the last one. -/
theorem follow_names_append {t : FileTree} (ht : t.WellFormed) {dir : Location} {names : List Text}
    (h : t.isDirAt (dir ++ names) = true) (n : Nat) (rest : List Text) :
    t.follow n dir (names ++ rest) = t.follow n (dir ++ names) rest := by
  induction names generalizing dir with
  | nil => rw [List.append_nil, List.nil_append]
  | cons x names ih =>
      have hx : Path.IsName x := ht.isName (isDirAt_iff.1 h) x (by simp)
      have hnext : t.isDirAt (dir ++ [x]) = true := by
        by_cases hnil : names = []
        · rwa [hnil] at h
        · exact ht.isDirAt_of_prefix (isDirAt_iff.1 h) ⟨names, by simp⟩ (by simp [hnil])
      have hstep : t.follow n dir (x :: (names ++ rest)) = t.follow n (dir ++ [x]) (names ++ rest) := by
        cases n <;> simp [follow, followWith, hx.not_skipped, hx.ne_above, isDirAt_iff.1 hnext]
      rw [List.append_cons] at h
      rw [List.cons_append, hstep, ih h, List.append_assoc, List.singleton_append]

/-- The piece leads from a directory to the next one, which then needs no making. -/
structure Moves (t : FileTree) (dir : Location) (piece : Text) (next : Location) : Prop where
  isDirAt : t.isDirAt dir = true → t.isDirAt next = true
  follow : ∀ n rest, t.follow n dir (piece :: rest) = t.follow n next rest
  createDirsFrom : ∀ rest, t.createDirsFrom dir (piece :: rest) = t.createDirsFrom next rest

/-- The piece is a link, and the way goes on along its target. -/
structure Jumps (t : FileTree) (dir : Location) (piece target : Text) : Prop where
  keeps : (piece.isEmpty || piece == Path.here) = false
  follow_zero : ∀ rest, t.follow 0 dir (piece :: rest) = none
  follow_succ : ∀ n rest, t.follow (n + 1) dir (piece :: rest) =
    t.follow n (if Path.isAbsolute target then [] else dir) (List.splitOn '/' target ++ rest)
  createDirsFrom : ∀ rest l, t.follow linkLimit dir [piece] = some l → t.isDirAt l = true →
    t.createDirsFrom dir (piece :: rest) = t.createDirsFrom l rest

/-- The piece leads to a file or to nothing, so that it has to be the last one. -/
structure Ends (t : FileTree) (dir : Location) (piece : Text) : Prop where
  keeps : (piece.isEmpty || piece == Path.here) = false
  ne_above : piece ≠ Path.above
  isFile : ∀ {e}, t.get? (dir ++ [piece]) = some e → ∃ bytes, e = .file bytes
  follow : ∀ n rest, t.follow n dir (piece :: rest) =
    if rest.isEmpty then some (dir ++ [piece]) else none

theorem moves_or_jumps_or_ends {t : FileTree} (ht : t.WellFormed) (dir : Location) (piece : Text) :
    (∃ next, t.Moves dir piece next) ∨ (∃ target, t.Jumps dir piece target) ∨ t.Ends dir piece := by
  have hunfold (n : Nat) : ∃ jump, t.follow n = t.followWith jump := by
    cases n <;> exact ⟨_, rfl⟩
  by_cases hskip : (piece.isEmpty || piece == Path.here) = true
  · exact .inl ⟨dir, id, fun n rest => t.follow_skip n dir hskip rest, fun rest => by
      rw [createDirsFrom, if_pos hskip]⟩
  by_cases habove : (piece == Path.above) = true
  · refine .inl ⟨dir.dropLast, ht.isDirAt_dropLast, fun n rest => ?_, fun rest => by
      rw [createDirsFrom, if_neg hskip, if_pos habove]⟩
    obtain ⟨jump, hjump⟩ := hunfold n
    rw [hjump, followWith, if_neg hskip, if_pos habove]
  have hkeeps := Bool.eq_false_iff.2 hskip
  have hne : piece ≠ Path.above := by simpa using habove
  cases hget : t.get? (dir ++ [piece]) with
  | none =>
      refine .inr (.inr ⟨hkeeps, hne, fun he => (nomatch hget.symm.trans he), fun n rest => ?_⟩)
      obtain ⟨jump, hjump⟩ := hunfold n
      simp only [hjump, followWith, if_neg hskip, if_neg habove, hget]
  | some e =>
      cases e with
      | dir =>
          refine .inl ⟨dir ++ [piece], fun _ => isDirAt_iff.2 hget, fun n rest => ?_, fun rest => ?_⟩
          · obtain ⟨jump, hjump⟩ := hunfold n
            simp only [hjump, followWith, if_neg hskip, if_neg habove, hget]
          · simp only [createDirsFrom, if_neg hskip, if_neg habove, hget]
      | file bytes =>
          refine .inr (.inr ⟨hkeeps, hne, fun he => ⟨bytes, Option.some.inj (he.symm.trans hget)⟩,
            fun n rest => ?_⟩)
          obtain ⟨jump, hjump⟩ := hunfold n
          simp only [hjump, followWith, if_neg hskip, if_neg habove, hget]
      | link target =>
          refine .inr (.inl ⟨target, hkeeps, fun rest => ?_, fun n rest => ?_, fun rest l hl hdir => ?_⟩)
          · simp only [follow, followWith, if_neg hskip, if_neg habove, hget]
          · rw [follow]
            simp only [followWith, if_neg hskip, if_neg habove, hget]
          · simp only [createDirsFrom, if_neg hskip, if_neg habove, hget, hl, hdir, if_true]

/-- Induction along the way that a path takes: by the links left to go through and, between two links,
by the pieces. -/
@[elab_as_elim]
theorem follow_induction {t : FileTree} (ht : t.WellFormed)
    {motive : Nat → Location → List Text → Prop}
    (nil : ∀ n dir, motive n dir [])
    (move : ∀ n dir piece rest next, t.Moves dir piece next → motive n next rest →
      motive n dir (piece :: rest))
    (stop : ∀ dir piece rest target, t.Jumps dir piece target → motive 0 dir (piece :: rest))
    (jump : ∀ n dir piece rest target, t.Jumps dir piece target →
      motive n (if Path.isAbsolute target then [] else dir) (List.splitOn '/' target ++ rest) →
      motive (n + 1) dir (piece :: rest))
    (last : ∀ n dir piece rest, t.Ends dir piece → motive n dir (piece :: rest))
    (n : Nat) (dir : Location) (ps : List Text) : motive n dir ps := by
  induction n generalizing dir ps with
  | zero =>
      induction ps generalizing dir with
      | nil => exact nil 0 dir
      | cons piece rest ih =>
          rcases moves_or_jumps_or_ends ht dir piece with ⟨next, h⟩ | ⟨target, h⟩ | h
          · exact move 0 dir piece rest next h (ih next)
          · exact stop dir piece rest target h
          · exact last 0 dir piece rest h
  | succ n ihn =>
      induction ps generalizing dir with
      | nil => exact nil (n + 1) dir
      | cons piece rest ih =>
          rcases moves_or_jumps_or_ends ht dir piece with ⟨next, h⟩ | ⟨target, h⟩ | h
          · exact move (n + 1) dir piece rest next h (ih next)
          · exact jump n dir piece rest target h (ihn _ _)
          · exact last (n + 1) dir piece rest h

/-- More links may be gone through without harm. -/
theorem follow_mono {t : FileTree} (ht : t.WellFormed) {n m : Nat} (hnm : n ≤ m) {dir l : Location}
    {ps : List Text} (h : t.follow n dir ps = some l) : t.follow m dir ps = some l := by
  induction n, dir, ps using follow_induction ht generalizing m with
  | nil n dir => rwa [follow_nil] at h ⊢
  | move n dir piece rest next hmove ih =>
      rw [hmove.follow] at h ⊢
      exact ih hnm h
  | stop dir piece rest target hjump => simp [hjump.follow_zero] at h
  | jump n dir piece rest target hjump ih =>
      obtain ⟨m, rfl⟩ : ∃ k, m = k + 1 := ⟨m - 1, by omega⟩
      rw [hjump.follow_succ] at h ⊢
      exact ih (by omega) h
  | last n dir piece rest hend => rwa [hend.follow] at h ⊢

/-- The way to a place goes through a directory wherever it is cut. -/
theorem follow_append {t : FileTree} (ht : t.WellFormed) {n : Nat} {dir l : Location}
    {ps rest : List Text} (hdir : t.isDirAt dir = true) (hrest : rest ≠ [])
    (h : t.follow n dir (ps ++ rest) = some l) :
    ∃ mid k, k ≤ n ∧ t.follow n dir ps = some mid ∧ t.isDirAt mid = true ∧
      t.follow k mid rest = some l := by
  induction n, dir, ps using follow_induction ht with
  | nil n dir => exact ⟨dir, n, Nat.le_refl n, t.follow_nil n dir, hdir, h⟩
  | move n dir piece ps next hmove ih =>
      rw [List.cons_append, hmove.follow] at h
      rw [hmove.follow]
      exact ih (hmove.isDirAt hdir) h
  | stop dir piece ps target hjump => simp [hjump.follow_zero] at h
  | jump n dir piece ps target hjump ih =>
      rw [List.cons_append, hjump.follow_succ, ← List.append_assoc] at h
      have hstart : t.isDirAt (if Path.isAbsolute target then [] else dir) = true := by
        split
        · exact t.isDirAt_nil
        · exact hdir
      obtain ⟨mid, k, hk, hmid, hdirMid, hl⟩ := ih hstart h
      exact ⟨mid, k, by omega, by rw [hjump.follow_succ]; exact hmid, hdirMid, hl⟩
  | last n dir piece ps hend => simp [hend.follow, hrest] at h

/-- A way that has come into a directory goes on from there, with the links that are left. -/
theorem follow_append_of_isDirAt {t : FileTree} (ht : t.WellFormed) {n : Nat} {dir mid : Location}
    {ps : List Text} (h : t.follow n dir ps = some mid) (hmid : t.isDirAt mid = true) :
    ∃ k, k ≤ n ∧ ∀ rest, t.follow n dir (ps ++ rest) = t.follow k mid rest := by
  induction n, dir, ps using follow_induction ht with
  | nil n dir =>
      rw [follow_nil] at h
      obtain rfl := Option.some.inj h
      exact ⟨n, Nat.le_refl n, fun rest => rfl⟩
  | move n dir piece ps next hmove ih =>
      rw [hmove.follow] at h
      obtain ⟨k, hle, hk⟩ := ih h
      exact ⟨k, hle, fun rest => by rw [List.cons_append, hmove.follow, hk]⟩
  | stop dir piece ps target hjump => simp [hjump.follow_zero] at h
  | jump n dir piece ps target hjump ih =>
      rw [hjump.follow_succ] at h
      obtain ⟨k, hle, hk⟩ := ih h
      refine ⟨k, by omega, fun rest => ?_⟩
      rw [List.cons_append, hjump.follow_succ, ← List.append_assoc, hk]
  | last n dir piece ps hend =>
      rw [hend.follow] at h
      split at h
      · obtain rfl := Option.some.inj h
        obtain ⟨bytes, hfile⟩ := hend.isFile (isDirAt_iff.1 hmid)
        cases hfile
      · cases h

/-- A slash at the end of a path makes no difference to where it leads, if it leads somewhere. -/
theorem follow_of_concat_nil {t : FileTree} (ht : t.WellFormed) {n : Nat} {dir l : Location}
    {ps : List Text} (h : t.follow n dir (ps ++ [[]]) = some l) : t.follow n dir ps = some l := by
  induction n, dir, ps using follow_induction ht with
  | nil n dir => rwa [List.nil_append, follow_skip t n dir rfl] at h
  | move n dir piece ps next hmove ih =>
      rw [List.cons_append, hmove.follow] at h
      rw [hmove.follow]
      exact ih h
  | stop dir piece ps target hjump => simp [hjump.follow_zero] at h
  | jump n dir piece ps target hjump ih =>
      rw [List.cons_append, hjump.follow_succ, ← List.append_assoc] at h
      rw [hjump.follow_succ]
      exact ih h
  | last n dir piece ps hend => simp [hend.follow] at h

/-- A way ends in a directory, or at a place in one. -/
theorem isDirAt_or_place_of_follow {t : FileTree} (ht : t.WellFormed) {n : Nat} {dir l : Location}
    {ps : List Text} (hdir : t.isDirAt dir = true) (hps : ∀ p ∈ ps, '/' ∉ p)
    (h : t.follow n dir ps = some l) :
    t.isDirAt l = true ∨ l ≠ [] ∧ t.isDirAt l.dropLast = true ∧ ∀ x ∈ l, Path.IsName x := by
  induction n, dir, ps using follow_induction ht with
  | nil n dir =>
      rw [follow_nil] at h
      obtain rfl := Option.some.inj h
      exact .inl hdir
  | move n dir piece ps next hmove ih =>
      rw [hmove.follow] at h
      exact ih (hmove.isDirAt hdir) (fun p hp => hps p (List.mem_cons_of_mem _ hp)) h
  | stop dir piece ps target hjump => simp [hjump.follow_zero] at h
  | jump n dir piece ps target hjump ih =>
      rw [hjump.follow_succ] at h
      refine ih ?_ (fun p hp => ?_) h
      · split
        · exact t.isDirAt_nil
        · exact hdir
      · rcases List.mem_append.1 hp with hp | hp
        · exact Text.not_mem_of_mem_splitOn hp
        · exact hps p (List.mem_cons_of_mem _ hp)
  | last n dir piece ps hend =>
      rw [hend.follow] at h
      split at h
      · obtain rfl := Option.some.inj h
        have hkeeps := Bool.or_eq_false_iff.1 hend.keeps
        have hpiece : Path.IsName piece := {
          nonempty := List.isEmpty_eq_false_iff.1 hkeeps.1
          ne_here := by simpa using hkeeps.2
          no_slash := hps piece List.mem_cons_self
          ne_above := hend.ne_above }
        refine .inr ⟨by simp, by simpa using hdir, fun x hx => ?_⟩
        rcases List.mem_append.1 hx with hx | hx
        · exact ht.isName (isDirAt_iff.1 hdir) x hx
        · exact List.mem_singleton.1 hx ▸ hpiece
      · cases h

/-- A way never ends at a link. -/
theorem ne_link_of_follow {t : FileTree} (ht : t.WellFormed) {n : Nat} {dir l : Location}
    {ps : List Text} (hdir : t.isDirAt dir = true) (h : t.follow n dir ps = some l) (target : Text) :
    t.get? l ≠ some (.link target) := by
  induction n, dir, ps using follow_induction ht with
  | nil n dir =>
      rw [follow_nil] at h
      obtain rfl := Option.some.inj h
      simp [isDirAt_iff.1 hdir]
  | move n dir piece ps next hmove ih =>
      rw [hmove.follow] at h
      exact ih (hmove.isDirAt hdir) h
  | stop dir piece ps target hjump => simp [hjump.follow_zero] at h
  | jump n dir piece ps next hjump ih =>
      rw [hjump.follow_succ] at h
      refine ih ?_ h
      split
      · exact t.isDirAt_nil
      · exact hdir
  | last n dir piece ps hend =>
      rw [hend.follow] at h
      split at h
      · obtain rfl := Option.some.inj h
        intro hlink
        obtain ⟨bytes, hfile⟩ := hend.isFile hlink
        cases hfile
      · cases h

/-- Pieces that name nothing can be left out of a path that leads somewhere. -/
theorem follow_filter {t : FileTree} (ht : t.WellFormed) {n : Nat} {dir l : Location}
    {all ps rest : List Text} (hall : all = ps ++ rest) (h : t.follow n dir all = some l) :
    t.follow n dir (ps ++ rest.filter fun s => !s.isEmpty && s != Path.here) = some l := by
  -- the pieces before the cut are kept, since a link puts those of its target there
  induction n, dir, all using follow_induction ht generalizing ps rest with
  | nil n dir =>
      obtain ⟨rfl, rfl⟩ := List.append_eq_nil_iff.1 hall.symm
      exact h
  | move n dir piece all next hmove ih =>
      rw [hmove.follow] at h
      rcases List.cons_eq_append_iff.1 hall with ⟨rfl, rfl⟩ | ⟨ps, rfl, rfl⟩
      · have hrest := ih (List.nil_append _).symm h
        by_cases hskip : (piece.isEmpty || piece == Path.here) = true
        · have hnext : next = dir := by
            have hmoved := hmove.follow n []
            rw [follow_skip t n dir hskip, follow_nil, follow_nil] at hmoved
            exact (Option.some.inj hmoved).symm
          rw [List.filter_cons_of_neg (by grind), ← hnext]
          exact hrest
        · rw [List.filter_cons_of_pos (by grind), List.nil_append, hmove.follow]
          exact hrest
      · rw [List.cons_append, hmove.follow]
        exact ih rfl h
  | stop dir piece all target hjump => simp [hjump.follow_zero] at h
  | jump n dir piece all target hjump ih =>
      rw [hjump.follow_succ] at h
      rcases List.cons_eq_append_iff.1 hall with ⟨rfl, rfl⟩ | ⟨ps, rfl, rfl⟩
      · rw [List.filter_cons_of_pos (by have := hjump.keeps; grind), List.nil_append,
          hjump.follow_succ]
        exact ih rfl h
      · rw [List.cons_append, hjump.follow_succ, ← List.append_assoc]
        exact ih (List.append_assoc _ _ _).symm h
  | last n dir piece all hend =>
      rw [hend.follow] at h
      have hnil : all = [] := by
        cases all with
        | nil => rfl
        | cons next all => simp at h
      rcases List.cons_eq_append_iff.1 hall with ⟨rfl, rfl⟩ | ⟨ps, rfl, rfl⟩
      · rw [List.filter_cons_of_pos (by have := hend.keeps; grind), List.nil_append, hend.follow]
        simpa [hnil] using h
      · obtain ⟨rfl, rfl⟩ := List.append_eq_nil_iff.1 hnil
        rw [List.filter_nil, List.append_nil, hend.follow]
        exact h

/-- The directories on the way to a place need no making. -/
theorem createDirsFrom_of_follow {t : FileTree} (ht : t.WellFormed) {n : Nat} (hn : n ≤ linkLimit)
    {dir l : Location} {ps : List Text} {name : Text} (hdir : t.isDirAt dir = true)
    (h : t.follow n dir (ps ++ [name]) = some l) : t.createDirsFrom dir ps = some t := by
  induction ps generalizing n dir with
  | nil => rfl
  | cons piece ps ih =>
      rw [List.cons_append] at h
      rcases moves_or_jumps_or_ends ht dir piece with ⟨next, hmove⟩ | ⟨target, hjump⟩ | hend
      · rw [hmove.follow] at h
        rw [hmove.createDirsFrom]
        exact ih hn (hmove.isDirAt hdir) h
      · have hne : ps ++ [name] ≠ [] := by simp
        rw [← List.singleton_append] at h
        obtain ⟨mid, k, hk, hmid, hdirMid, hl⟩ := follow_append ht hdir hne h
        rw [hjump.createDirsFrom ps mid (follow_mono ht hn hmid) hdirMid]
        exact ih (by omega) hdirMid hl
      · simp [hend.follow] at h

/-- Making directories keeps a tree well-formed. -/
theorem WellFormed.of_createDirsFrom {t t' : FileTree} (ht : t.WellFormed) {dir : Location}
    {ps : List Text} (hdir : t.isDirAt dir = true) (hps : ∀ p ∈ ps, '/' ∉ p)
    (h : t.createDirsFrom dir ps = some t') : t'.WellFormed := by
  induction ps generalizing t dir with
  | nil => exact Option.some.inj h ▸ ht
  | cons piece rest ih =>
      have hrest : ∀ p ∈ rest, '/' ∉ p := fun p hp => hps p (List.mem_cons_of_mem _ hp)
      rw [createDirsFrom] at h
      by_cases hskip : (piece.isEmpty || piece == Path.here) = true
      · rw [if_pos hskip] at h
        exact ih ht hdir hrest h
      rw [if_neg hskip] at h
      by_cases habove : (piece == Path.above) = true
      · rw [if_pos habove] at h
        exact ih ht (ht.isDirAt_dropLast hdir) hrest h
      rw [if_neg habove] at h
      cases hget : t.get? (dir ++ [piece]) with
      | none =>
          simp only [hget] at h
          have hne : dir ++ [piece] ≠ [] := by simp
          have hpiece : Path.IsName piece := {
            nonempty := by rintro rfl; simp at hskip
            ne_here := by rintro rfl; simp at hskip
            no_slash := hps piece List.mem_cons_self
            ne_above := by simpa using habove }
          have hnames : ∀ x ∈ dir ++ [piece], Path.IsName x := by
            intro x hx
            rcases List.mem_append.1 hx with hx | hx
            · exact ht.isName (isDirAt_iff.1 hdir) x hx
            · exact List.mem_singleton.1 hx ▸ hpiece
          have hset := ht.set hne hnames (by simpa using hdir) (e := .dir) (.inl rfl)
          exact ih hset (isDirAt_iff.2 (by rw [get?_set t hne, if_pos rfl])) hrest h
      | some e =>
          cases e with
          | dir =>
              simp only [hget] at h
              exact ih ht (isDirAt_iff.2 hget) hrest h
          | file bytes =>
              simp only [hget] at h
              cases h
          | link target =>
              simp only [hget] at h
              split at h
              · split at h
                next hl => exact ih ht hl hrest h
                next => cases h
              · cases h

theorem WellFormed.of_createDirs? {t t' : FileTree} (ht : t.WellFormed) {p : Text}
    (hp : Path.isAbsolute p = true) (h : t.createDirs? p = some t') : t'.WellFormed := by
  rw [createDirs?, if_pos hp] at h
  exact ht.of_createDirsFrom t.isDirAt_nil (fun _ => Text.not_mem_of_mem_splitOn) h

/-- Writing a file keeps a tree well-formed. -/
theorem WellFormed.of_write? {t t' : FileTree} (ht : t.WellFormed) {p : Text}
    (hp : Path.isAbsolute p = true) {bytes : Utf8.Bytes} (h : t.write? p bytes = some t') :
    t'.WellFormed := by
  obtain ⟨l, hlocate, hset⟩ := Option.bind_eq_some_iff.1 h
  split at hset
  next => cases hset
  next hfile =>
    obtain rfl := Option.some.inj hset
    rw [locate?, if_pos hp] at hlocate
    split at hlocate
    · cases hlocate
    · have hplace := isDirAt_or_place_of_follow ht t.isDirAt_nil
        (fun _ => Text.not_mem_of_mem_splitOn) hlocate
      obtain ⟨hne, hparent, hnames⟩ := hplace.resolve_left hfile
      exact ht.set hne hnames hparent (.inr (Bool.eq_false_iff.2 hfile))

theorem createDirsFrom_filter (t : FileTree) (dir : Location) (ps : List Text) :
    t.createDirsFrom dir (ps.filter fun s => !s.isEmpty && s != Path.here) =
      t.createDirsFrom dir ps := by
  induction ps generalizing t dir with
  | nil => rfl
  | cons piece ps ih =>
      by_cases hskip : (piece.isEmpty || piece == Path.here) = true
      · rw [List.filter_cons_of_neg (by grind), ih, createDirsFrom, if_pos hskip]
      · rw [List.filter_cons_of_pos (by grind), createDirsFrom, createDirsFrom, if_neg hskip,
          if_neg hskip]
        simp only [ih]

/-- Only the pieces of a path that name something tell which directories are made. -/
theorem createDirs?_eq (t : FileTree) (p : Text) :
    t.createDirs? p =
      t.createDirsFrom (if Path.isAbsolute p then [] else t.workingDir) (Path.pieces p) :=
  (t.createDirsFrom_filter _ _).symm

/-! ### Writing a file anew -/

/-- The path leads to the file at the location. -/
structure HoldsFile (t : FileTree) (p : Text) (l : Location) (bytes : Utf8.Bytes) : Prop where
  locate? : t.locate? p = some l
  get? : t.get? l = some (.file bytes)

theorem read?_eq_some_iff {t : FileTree} {p : Text} {bytes : Utf8.Bytes} :
    t.read? p = some bytes ↔ ∃ l, t.HoldsFile p l bytes := by
  constructor
  · intro h
    rw [read?, find?] at h
    cases hl : t.locate? p with
    | none => simp [hl] at h
    | some l =>
        refine ⟨l, hl, ?_⟩
        simp only [hl, Option.bind_some] at h
        split at h <;> simp_all
  · rintro ⟨l, h⟩
    simp [read?, find?, h.locate?, h.get?]

/-- Where a path leads does not depend on what is in the files. -/
theorem follow_set_file {t : FileTree} {l : Location} {old : Utf8.Bytes}
    (h : t.get? l = some (.file old)) (new : Utf8.Bytes) (n : Nat) :
    (t.set l (.file new)).follow n = t.follow n := by
  have hl : l ≠ [] := by
    rintro rfl
    simp at h
  have hwith (jump : Location → List Text → Option Location) :
      (t.set l (.file new)).followWith jump = t.followWith jump := by
    funext dir ps
    induction ps generalizing dir with
    | nil => rfl
    | cons piece ps ih =>
        rw [followWith, followWith, ih, ih, ih, get?_set t hl]
        by_cases hpiece : dir ++ [piece] = l
        · simp [hpiece, h]
        · simp only [if_neg hpiece]
  induction n with
  | zero => exact hwith _
  | succ n ih => rw [follow, follow, ih, hwith]

theorem HoldsFile.ne_nil {t : FileTree} {p : Text} {l : Location} {bytes : Utf8.Bytes}
    (h : t.HoldsFile p l bytes) : l ≠ [] := by
  rintro rfl
  simpa using h.get?

theorem HoldsFile.isDirAt {t : FileTree} {p : Text} {l : Location} {bytes : Utf8.Bytes}
    (h : t.HoldsFile p l bytes) : t.isDirAt l = false := by
  simp [FileTree.isDirAt, h.get?]

theorem HoldsFile.write? {t : FileTree} {p : Text} {l : Location} {old : Utf8.Bytes}
    (h : t.HoldsFile p l old) (new : Utf8.Bytes) :
    t.write? p new = some (t.set l (.file new)) := by
  simp [FileTree.write?, h.locate?, h.isDirAt]

theorem HoldsFile.set {t : FileTree} {p : Text} {l : Location} {old : Utf8.Bytes}
    (h : t.HoldsFile p l old) (new : Utf8.Bytes) : (t.set l (.file new)).HoldsFile p l new where
  locate? := by
    have hlocate := h.locate?
    rw [FileTree.locate?] at hlocate ⊢
    rw [follow_set_file h.get?]
    exact hlocate
  get? := by
    rw [get?_set t h.ne_nil, if_pos rfl]

theorem HoldsFile.wellFormed_set {t : FileTree} (ht : t.WellFormed) {p : Text} {l : Location}
    {old : Utf8.Bytes} (h : t.HoldsFile p l old) (new : Utf8.Bytes) :
    (t.set l (.file new)).WellFormed :=
  ht.set h.ne_nil (ht.isName h.get?) (ht.inDir h.get?) (.inr h.isDirAt)

/-- The directory in which a file lies that can be read needs no making. -/
theorem createDirs?_parent {t : FileTree} (ht : t.WellFormed) {p dir : Text}
    {bytes : Utf8.Bytes} (hp : Path.isAbsolute p = true) (hdir : Path.parent? p = some dir)
    (h : t.read? p = some bytes) : t.createDirs? dir = some t := by
  obtain ⟨l, hl, -⟩ := read?_eq_some_iff.1 h
  obtain ⟨habs, x, -, hpieces⟩ := Path.parent?_absolute hp hdir
  have hfollow : t.follow linkLimit [] (Path.pieces dir ++ [x]) = some l := by
    rw [locate?, if_pos hp] at hl
    split at hl
    · simp at hl
    · rw [← hpieces]
      exact follow_filter ht (List.nil_append _).symm hl
  rw [createDirs?_eq, if_pos habs]
  exact createDirsFrom_of_follow ht (Nat.le_refl _) t.isDirAt_nil hfollow

end ImportSync.FileTree
