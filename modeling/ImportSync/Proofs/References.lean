import ImportSync.Aggregator.Basic
import ImportSync.Path
import ImportSync.Proofs.Cleaning
import ImportSync.Proofs.Purge

/-!
How generated references look, and by which patterns they are known. The way from a directory to the
aggregator goes up some directories and down the rest of the aggregator's path. As long as that rest
lies within the aggregator's name, it is one of the name's tails, and the pattern of that tail ends the
reference.
-/

namespace ImportSync

namespace Path

/-! ### The way from a directory to a file -/

theorem dropCommon_spec (as bs : List Text) :
    ∃ common, as = common ++ (dropCommon as bs).1 ∧ bs = common ++ (dropCommon as bs).2 := by
  induction as generalizing bs with
  | nil => exact ⟨[], rfl, rfl⟩
  | cons a as ih =>
      cases bs with
      | nil => exact ⟨[], rfl, rfl⟩
      | cons b bs =>
          by_cases hab : a = b
          · subst hab
            obtain ⟨common, ha, hb⟩ := ih bs
            refine ⟨a :: common, ?_, ?_⟩
            · rw [dropCommon, if_pos rfl, List.cons_append, ← ha]
            · rw [dropCommon, if_pos rfl, List.cons_append, ← hb]
          · exact ⟨[], by simp [dropCommon, hab], by simp [dropCommon, hab]⟩

theorem dropCommon_swap (as bs : List Text) : dropCommon bs as = (dropCommon as bs).swap := by
  induction as generalizing bs with
  | nil => cases bs <;> rfl
  | cons a as ih =>
      cases bs with
      | nil => rfl
      | cons b bs =>
          by_cases hab : a = b
          · rw [dropCommon, dropCommon, if_pos hab, if_pos hab.symm, ih bs]
          · rw [dropCommon, dropCommon, if_neg hab, if_neg (Ne.symm hab)]
            rfl

/-- Going down starts below every directory that both paths share. -/
theorem dropCommon_suffix {base own bs : List Text} (h : base <+: bs) :
    (dropCommon (base ++ own) bs).1 <:+ own := by
  induction base generalizing bs with
  | nil =>
      obtain ⟨common, ha, -⟩ := dropCommon_spec own bs
      exact ⟨common, ha.symm⟩
  | cons a base ih =>
      obtain ⟨rest, rfl⟩ := h
      rw [List.cons_append, List.cons_append, dropCommon, if_pos rfl]
      exact ih ⟨rest, rfl⟩

theorem prefix_of_dropCommon_eq_nil {as bs : List Text} (h : (dropCommon as bs).1 = []) :
    as <+: bs := by
  obtain ⟨common, ha, hb⟩ := dropCommon_spec as bs
  rw [h, List.append_nil] at ha
  rw [ha]
  exact ⟨_, hb.symm⟩

/-- The pieces that lead down to a file from the last directory on the way to it that is also on the
way to the other path. -/
def wayDown (target base : Text) : List Text :=
  (dropCommon (cleanPieces target) (cleanPieces base)).1

/-- How many directories the way goes up before. -/
def stepsUp (target base : Text) : Nat :=
  (dropCommon (cleanPieces target) (cleanPieces base)).2.length

theorem mem_cleanPieces_of_mem_wayDown {target base p : Text} (h : p ∈ wayDown target base) :
    p ∈ cleanPieces target := by
  obtain ⟨common, ha, -⟩ := dropCommon_spec (cleanPieces target) (cleanPieces base)
  rw [ha]
  exact List.mem_append_right _ h

/-- The pieces of the way: two dots for each step up, and the way down. -/
def way (target base : Text) : List Text :=
  List.replicate (stepsUp target base) above ++ wayDown target base

theorem relativePieces?_eq_some_iff {target base : Text} {ps : List Text} :
    relativePieces? target base = some ps ↔
      isAbsolute target = isAbsolute base ∧
        above ∉ (dropCommon (cleanPieces target) (cleanPieces base)).2 ∧ way target base = ps := by
  rw [relativePieces?]
  by_cases habs : isAbsolute target = isAbsolute base
  · by_cases hup : above ∈ (dropCommon (cleanPieces target) (cleanPieces base)).2
    · simp [habs, hup]
    · simp [habs, hup, way, stepsUp, wayDown, List.map_const']
  · simp [habs]

theorem relativePieces?_absolute {dir target : Text} (hdir : isAbsolute dir = true)
    (htarget : isAbsolute target = true) :
    relativePieces? target dir = some (way target dir) := by
  have hup : above ∉ (dropCommon (cleanPieces target) (cleanPieces dir)).2 := by
    intro hmem
    obtain ⟨common, -, hb⟩ := dropCommon_spec (cleanPieces target) (cleanPieces dir)
    have hclean : above ∈ cleanPieces dir := by
      rw [hb]
      exact List.mem_append_right _ hmem
    exact (isName_of_mem_cleanPieces hdir hclean).ne_above rfl
  exact relativePieces?_eq_some_iff.2 ⟨by rw [hdir, htarget], hup, rfl⟩

/-- A reference between absolute paths is a single dot and the way. -/
theorem reference_absolute {dir target : Text} (hdir : isAbsolute dir = true)
    (htarget : isAbsolute target = true) :
    reference dir target = Text.joinWith ['/']
      (here :: if way target dir = [] then [here] else way target dir) := by
  have hdot : "./".toList = here ++ ['/'] := by decide
  rw [reference, relative?, relativePieces?_absolute hdir htarget, Option.map_some]
  by_cases hway : way target dir = []
  · rw [if_pos hway, hway]
    rfl
  · rw [if_neg hway, Text.joinWith_cons hway]
    simp [ofCleanPieces, ofPieces, hdot, hway]

theorem isPiece_of_mem_way {target base p : Text} (hp : p ∈ way target base) : IsPiece p := by
  rcases List.mem_append.1 hp with hp | hp
  · rw [List.eq_of_mem_replicate hp]
    exact isPiece_above
  · exact isPiece_of_mem_cleanPieces (mem_cleanPieces_of_mem_wayDown hp)

theorem splitOn_reference {dir target : Text} (hdir : isAbsolute dir = true)
    (htarget : isAbsolute target = true) :
    List.splitOn '/' (reference dir target) =
      here :: if way target dir = [] then [here] else way target dir := by
  have hhere : '/' ∉ here := by decide
  rw [reference_absolute hdir htarget, Text.splitOn_joinWith (by simp)]
  intro p hp
  rcases List.mem_cons.1 hp with rfl | hp
  · exact hhere
  · split at hp
    · exact List.mem_singleton.1 hp ▸ hhere
    · exact (isPiece_of_mem_way hp).no_slash

theorem mem_reference {dir target : Text} (hdir : isAbsolute dir = true)
    (htarget : isAbsolute target = true) {c : Char} (h : c ∈ reference dir target) :
    c = '/' ∨ c = '.' ∨ ∃ p ∈ wayDown target dir, c ∈ p := by
  rw [reference_absolute hdir htarget] at h
  rcases Text.mem_joinWith h with h | ⟨p, hp, hc⟩
  · exact .inl (by simpa using h)
  · have hdots : p = here ∨ p = above ∨ p ∈ wayDown target dir := by
      rcases List.mem_cons.1 hp with hp | hp
      · exact .inl hp
      · split at hp
        · exact .inl (by simpa using hp)
        · rcases List.mem_append.1 hp with hp | hp
          · exact .inr (.inl (List.eq_of_mem_replicate hp))
          · exact .inr (.inr hp)
    rcases hdots with rfl | rfl | hp
    · exact .inr (.inl (by simpa [here] using hc))
    · exact .inr (.inl (by simpa [above] using hc))
    · exact .inr (.inr ⟨p, hp, hc⟩)

/-- A path ends in a dot, a slash and some pieces exactly if its last pieces are these and the piece
before them ends in a dot. -/
theorem dot_slash_suffix_iff {ps tail : List Text} (hps : ∀ p ∈ ps, '/' ∉ p)
    (htail : ∀ p ∈ tail, '/' ∉ p) (hne : tail ≠ []) :
    '.' :: '/' :: Text.joinWith ['/'] tail <:+ Text.joinWith ['/'] ps ↔
      ∃ init x, ps = init ++ (x ++ ['.']) :: tail := by
  constructor
  · rintro ⟨a, ha⟩
    have hjoin : Text.joinWith ['/'] ps = (a ++ ['.']) ++ '/' :: Text.joinWith ['/'] tail := by
      rw [← ha]
      simp
    have hpsne : ps ≠ [] := by
      rintro rfl
      simp at hjoin
    -- cut at their slashes, both sides end in the same pieces
    have hsplit := congrArg (List.splitOn '/') hjoin
    rw [Text.splitOn_joinWith hpsne hps, List.splitOn_append_cons_self,
      Text.splitOn_joinWith hne htail] at hsplit
    have hdot : '/' ∉ ['.'] := by decide
    obtain ⟨init, x, hx⟩ := Text.splitOn_append_of_not_mem hdot a
    exact ⟨init, x, by rw [hsplit, hx, List.append_assoc]; rfl⟩
  · rintro ⟨init, x, rfl⟩
    have hlast : ∃ a, Text.joinWith ['/'] (init ++ [x ++ ['.']]) = a ++ ['.'] := by
      by_cases hinit : init = []
      · exact ⟨x, by simp [hinit]⟩
      · rw [Text.joinWith_append hinit (by simp)]
        exact ⟨Text.joinWith ['/'] init ++ (['/'] ++ x), by simp⟩
    obtain ⟨a, ha⟩ := hlast
    refine ⟨a, ?_⟩
    rw [show init ++ (x ++ ['.']) :: tail = (init ++ [x ++ ['.']]) ++ tail by simp,
      Text.joinWith_append (by simp) hne, ha]
    simp

/-- The last step before the way down ends in a dot, be it the single dot or two dots. -/
theorem steps_eq_concat (k : Nat) :
    ∃ init x, here :: List.replicate k above = init ++ [x ++ ['.']] := by
  cases k with
  | zero => exact ⟨[], [], rfl⟩
  | succ k => exact ⟨here :: List.replicate k above, ['.'], by simp [List.replicate_succ', above]⟩

theorem dot_slash_suffix_reference {dir target : Text} (hdir : isAbsolute dir = true)
    (htarget : isAbsolute target = true) (hne : wayDown target dir ≠ []) :
    '.' :: '/' :: Text.joinWith ['/'] (wayDown target dir) <:+ reference dir target := by
  have hway : way target dir ≠ [] := by simp [way, hne]
  have hname : ∀ p ∈ wayDown target dir, '/' ∉ p := fun p hp =>
    (isName_of_mem_cleanPieces htarget (mem_cleanPieces_of_mem_wayDown hp)).no_slash
  rw [reference_absolute hdir htarget, if_neg hway, dot_slash_suffix_iff _ hname hne]
  · obtain ⟨init, x, hsteps⟩ := steps_eq_concat (stepsUp target dir)
    rw [way, ← List.cons_append, hsteps]
    exact ⟨init, x, by simp⟩
  · intro p hp
    rcases List.mem_cons.1 hp with rfl | hp
    · decide
    · exact (isPiece_of_mem_way hp).no_slash

end Path

/-! ### Patterns -/

namespace References

theorem mem_tails_iff {α : Type} {l tail : List α} : tail ∈ tails l ↔ tail ≠ [] ∧ tail <:+ l := by
  induction l with
  | nil => simp [tails]
  | cons a l ih =>
      rw [tails, List.mem_cons, ih, List.suffix_cons_iff]
      constructor
      · rintro (rfl | ⟨hne, hsuffix⟩)
        · exact ⟨by simp, .inl rfl⟩
        · exact ⟨hne, .inr hsuffix⟩
      · rintro ⟨hne, rfl | hsuffix⟩
        · exact .inl rfl
        · exact .inr ⟨hne, hsuffix⟩

theorem pattern_eq (tail : List Text) :
    pattern tail = '.' :: '/' :: Text.joinWith ['/'] tail ++ ['\'', ';'] := by
  have hopen : "./".toList = ['.', '/'] := by decide
  have hclose : "';".toList = ['\'', ';'] := by decide
  rw [pattern, hopen, hclose]
  rfl

theorem recognizes_ofNames_iff {current : Text} {previous : List Text} {line : Text} :
    (ofNames current previous).recognizes line = true ↔
      ∃ name ∈ current :: previous, ∃ tail, tail ≠ [] ∧
        tail <:+ Path.pieces (Path.normalize name) ∧ pattern tail <:+: line := by
  simp only [recognizes, ofNames, List.any_eq_true, List.mem_eraseDups, List.mem_flatMap,
    patternsOf, List.mem_map, Text.hasPart_iff_infix]
  constructor
  · rintro ⟨_, ⟨name, hname, tail, htail, rfl⟩, hpart⟩
    obtain ⟨hne, hsuffix⟩ := mem_tails_iff.1 htail
    exact ⟨name, hname, tail, hne, hsuffix, hpart⟩
  · rintro ⟨name, hname, tail, hne, hsuffix, hpart⟩
    exact ⟨_, ⟨name, hname, tail, mem_tails_iff.2 ⟨hne, hsuffix⟩, rfl⟩, hpart⟩

end References

/-! ### The names of an aggregator -/

theorem aggregatorFileName_ends (name : Text) :
    ∃ stem, aggregatorFileName name = stem ++ ['.', 'j', 's'] := by
  have hext : aggregatorExtension = ['.', 'j', 's'] := by decide
  rw [aggregatorFileName, hext]
  split
  next h =>
    obtain ⟨stem, hstem⟩ := List.isSuffixOf_iff_suffix.1 h
    exact ⟨stem, hstem.symm⟩
  next => exact ⟨_, rfl⟩

theorem backslash_not_mem_aggregatorFileName (name : Text) : '\\' ∉ aggregatorFileName name := by
  have hnormal := Path.no_backslash_of_normalize name
  have hext : '\\' ∉ aggregatorExtension := by decide
  rw [aggregatorFileName]
  split
  · exact hnormal
  · simp [hnormal, hext]

/-- What ends in the extension is none of the pieces that are only dots. -/
theorem append_js_ne {piece : Text} (h : piece.getLast? = some '.') (x : Text) :
    x ++ ['.', 'j', 's'] ≠ piece := by
  rintro rfl
  simp at h

/-- The last piece of an aggregator's name ends in its extension. -/
theorem pieces_aggregatorFileName (name : Text) :
    ∃ init x, Path.pieces (aggregatorFileName name) = init ++ [x ++ ['.', 'j', 's']] := by
  obtain ⟨stem, hstem⟩ := aggregatorFileName_ends name
  have hext : '/' ∉ ['.', 'j', 's'] := by decide
  obtain ⟨init, x, hsplit⟩ := Text.splitOn_append_of_not_mem hext stem
  refine ⟨init.filter fun s => !s.isEmpty && s != Path.here, x, ?_⟩
  have hhere : x ++ ['.', 'j', 's'] ≠ Path.here := append_js_ne rfl x
  simp [Path.pieces, hstem, hsplit, hhere]

/-- It stays last below any root. -/
theorem cleanPieces_join_aggregatorFileName (root name : Text) :
    ∃ cleaned x, Path.cleanPieces (Path.join root (aggregatorFileName name)) =
      cleaned ++ [x ++ ['.', 'j', 's']] := by
  obtain ⟨init, x, hpieces⟩ := pieces_aggregatorFileName name
  have habove : x ++ ['.', 'j', 's'] ≠ Path.above := append_js_ne rfl x
  have hjoin : ∃ init, Path.pieces (Path.join root (aggregatorFileName name)) =
      init ++ [x ++ ['.', 'j', 's']] := by
    cases habs : Path.isAbsolute (aggregatorFileName name) with
    | true =>
        rw [Path.join_absolute habs]
        exact ⟨init, hpieces⟩
    | false =>
        rw [Path.pieces_join habs, hpieces, ← List.append_assoc]
        exact ⟨_, rfl⟩
  obtain ⟨init, hinit⟩ := hjoin
  obtain ⟨cleaned, hcleaned⟩ := Path.cleanPieces_concat hinit habove
  exact ⟨cleaned, x, hcleaned⟩

namespace Aggregator

theorem backslash_not_mem_canonicalName (name : Text) : '\\' ∉ canonicalName name :=
  Path.no_backslash_of_normalize _

theorem backslash_not_mem_clean (name : Text) : '\\' ∉ Path.clean (aggregatorFileName name) := by
  intro hmem
  rcases Path.mem_clean hmem with h | h | h
  · exact absurd h (by decide)
  · exact absurd h (by decide)
  · exact backslash_not_mem_aggregatorFileName name h

theorem pieces_canonicalName (name : Text) :
    Path.pieces (canonicalName name) = Path.cleanPieces (aggregatorFileName name) := by
  rw [canonicalName, Path.pieces_normalize (backslash_not_mem_clean name), Path.pieces_clean]

theorem cleanPieces_aggregatorFileName (name : Text) :
    ∃ cleaned x, Path.cleanPieces (aggregatorFileName name) = cleaned ++ [x] ∧ x ≠ Path.above ∧
      aggregatorExtension <:+ x := by
  obtain ⟨init, x, hpieces⟩ := pieces_aggregatorFileName name
  have habove : x ++ ['.', 'j', 's'] ≠ Path.above := append_js_ne rfl x
  obtain ⟨cleaned, hcleaned⟩ := Path.cleanPieces_concat hpieces habove
  exact ⟨cleaned, _, hcleaned, habove, List.suffix_append _ _⟩

theorem mem_names_ofNames {root name : Text} {previous : List Text} {n : Text}
    (h : n ∈ (ofNames root name previous).name :: (ofNames root name previous).previousNames) :
    ∃ given, n = canonicalName given := by
  rcases List.mem_cons.1 h with h | h
  · exact ⟨name, h⟩
  · obtain ⟨given, -, hgiven⟩ := List.mem_map.1 h
    exact ⟨given, hgiven.symm⟩

theorem recognizes_references_iff {root name : Text} {previous : List Text} {line : Text} :
    (ofNames root name previous).references.recognizes line = true ↔
      ∃ n ∈ (ofNames root name previous).name :: (ofNames root name previous).previousNames,
        ∃ tail, tail ≠ [] ∧ tail <:+ Path.pieces n ∧ References.pattern tail <:+: line := by
  rw [references, References.recognizes_ofNames_iff]
  refine exists_congr fun n => and_congr_right fun hn => ?_
  obtain ⟨given, rfl⟩ := mem_names_ofNames hn
  rw [Path.pieces_normalize (backslash_not_mem_canonicalName given)]

@[simp] theorem isAbsolute_path {root : Text} (h : Path.isAbsolute root = true) (name : Text)
    (previous : List Text) : Path.isAbsolute (ofNames root name previous).path = true := by
  rw [ofNames, Path.isAbsolute_clean]
  exact Path.isAbsolute_join h _

/-- The path of an aggregator leads from a directory on the way to the root down pieces that end its
name. -/
theorem path_ends_in_name {root : Text} (hroot : Path.isAbsolute root = true) (name : Text)
    (previous : List Text) :
    ∃ base own, base <+: Path.cleanPieces root ∧ own ≠ [] ∧
      Path.cleanPieces (ofNames root name previous).path = base ++ own ∧
      own <:+ Path.pieces (ofNames root name previous).name := by
  have hpath : Path.cleanPieces (ofNames root name previous).path =
      Path.cleanPieces (Path.join root (aggregatorFileName name)) := Path.cleanPieces_clean _
  have hname : Path.pieces (ofNames root name previous).name =
      Path.cleanPieces (aggregatorFileName name) := pieces_canonicalName name
  obtain ⟨cleaned, x, hcleaned, hx, -⟩ := cleanPieces_aggregatorFileName name
  rw [hpath, hname]
  cases habs : Path.isAbsolute (aggregatorFileName name) with
  | true =>
      -- an absolute name stands for itself, wherever the root is
      rw [Path.join_absolute habs]
      exact ⟨[], Path.cleanPieces (aggregatorFileName name), List.nil_prefix, by simp [hcleaned], rfl,
        List.suffix_refl _⟩
  | false =>
      -- a relative name takes away some pieces of the root, and the names in it are added
      obtain ⟨j, own, -, hrel, hjoin⟩ := Path.cleanPieces_relative habs
      refine ⟨(Path.cleanPieces root).take ((Path.cleanPieces root).length - j), own,
        List.take_prefix _ _, ?_, ?_, ?_⟩
      · rintro rfl
        have hmem : x ∈ List.replicate j Path.above ++ [] := by simp [← hrel, hcleaned]
        exact hx (List.eq_of_mem_replicate (by simpa using hmem))
      · rw [Path.cleanPieces_join root habs, hroot]
        exact hjoin _ (Path.above_not_mem fun q => Path.isName_of_mem_cleanPieces hroot)
      · exact ⟨_, hrel.symm⟩

/-! ### Recognising what refers to an aggregator -/

variable {root name : Text} {previous : List Text}

/-- An import whose source ends in a dot, a slash and a tail of one of the names is recognised. -/
theorem recognizes_of_tail {n : Text} {tail : List Text}
    (hn : n ∈ (ofNames root name previous).name :: (ofNames root name previous).previousNames)
    (hne : tail ≠ []) (htail : tail <:+ Path.pieces n) {source : Text}
    (hsource : '.' :: '/' :: Text.joinWith ['/'] tail <:+ source) (names : List Text) :
    (ofNames root name previous).references.recognizes (ImportLine.named source names).render
      = true := by
  obtain ⟨before, rfl⟩ := hsource
  refine recognizes_references_iff.2 ⟨n, hn, tail, hne, htail, ImportLine.lead names ++ before, [], ?_⟩
  rw [ImportLine.render_named, References.pattern_eq]
  simp only [List.append_assoc, List.cons_append, List.append_nil]

/-- A directory from which the way down to the aggregator lies within the aggregator's name. -/
structure IsNamedFrom (t : Aggregator) (dir : Text) : Prop where
  absolute : Path.isAbsolute dir = true
  down_ne_nil : Path.wayDown t.path dir ≠ []
  down_suffix : Path.wayDown t.path dir <:+ Path.pieces t.name

theorem recognizes_reference (hroot : Path.isAbsolute root = true) {dir : Text}
    (h : (ofNames root name previous).IsNamedFrom dir) (names : List Text) :
    (ofNames root name previous).references.recognizes
      (ImportLine.named (Path.reference dir (ofNames root name previous).path) names).render
        = true :=
  recognizes_of_tail List.mem_cons_self h.down_ne_nil h.down_suffix
    (Path.dot_slash_suffix_reference h.absolute (isAbsolute_path hroot name previous) h.down_ne_nil)
    names

theorem newline_not_mem_reference (hroot : Path.isAbsolute root = true) {dir : Text}
    (h : (ofNames root name previous).IsNamedFrom dir)
    (hname : '\n' ∉ (ofNames root name previous).name) :
    '\n' ∉ Path.reference dir (ofNames root name previous).path := by
  intro hmem
  rcases Path.mem_reference h.absolute (isAbsolute_path hroot name previous) hmem with
    hc | hc | ⟨p, hp, hc⟩
  · exact absurd hc (by decide)
  · exact absurd hc (by decide)
  · exact hname (Path.mem_of_mem_pieces (h.down_suffix.subset hp) hc)

/-- The aggregator is named from every directory below the one where its own pieces start. -/
theorem isNamedFrom_of_base {base own : List Text} {dir : Text}
    (hpath : Path.cleanPieces (ofNames root name previous).path = base ++ own)
    (hown : own <:+ Path.pieces (ofNames root name previous).name)
    (hdir : Path.isAbsolute dir = true) (hbase : base <+: Path.cleanPieces dir)
    (hnot : ¬ Path.cleanPieces (ofNames root name previous).path <+: Path.cleanPieces dir) :
    (ofNames root name previous).IsNamedFrom dir where
  absolute := hdir
  down_ne_nil := fun hnil => hnot (Path.prefix_of_dropCommon_eq_nil hnil)
  down_suffix := by
    rw [Path.wayDown, hpath]
    exact (Path.dropCommon_suffix hbase).trans hown

/-- The aggregator is named from every directory at or below the root, unless that lies at or below
the aggregator. -/
theorem isNamedFrom_of_root (hroot : Path.isAbsolute root = true) {dir : Text}
    (hdir : Path.isAbsolute dir = true) (hbelow : Path.cleanPieces root <+: Path.cleanPieces dir)
    (hnot : ¬ Path.cleanPieces (ofNames root name previous).path <+: Path.cleanPieces dir) :
    (ofNames root name previous).IsNamedFrom dir := by
  obtain ⟨base, own, hbase, -, hpath, hown⟩ := path_ends_in_name hroot name previous
  exact isNamedFrom_of_base hpath hown hdir (hbase.trans hbelow) hnot

end Aggregator

end ImportSync
