import ImportSync.Proofs.Conflicts

/-!
What a removal takes from a text. The blanks before a line, the line itself and the parts of a
conflict all have lines that may go: blank ones, ones with a reference to the aggregator, ones with
a sign of a conflict. Lines that may go can be put together, so all that one round takes is made of
such lines, and so is all that the rounds take one after another. A round takes a whole line with its
end, or all there is; so there are not more rounds than lines.
-/

namespace ImportSync

/-! ### Lines -/

namespace Text

/-- The last piece of a text and the first one of what is appended to it become one. -/
theorem splitOn_append (sep : Char) (a b : Text) :
    ∃ init x y tail, List.splitOn sep a = init ++ [x] ∧ List.splitOn sep b = y :: tail ∧
      List.splitOn sep (a ++ b) = init ++ (x ++ y) :: tail := by
  induction a with
  | nil =>
      obtain ⟨y, tail, hb⟩ := List.exists_cons_of_ne_nil (List.splitOn_ne_nil sep b)
      exact ⟨[], [], y, tail, rfl, hb, hb⟩
  | cons c a ih =>
      obtain ⟨init, x, y, tail, ha, hb, hab⟩ := ih
      rw [List.cons_append, List.splitOn_cons_eq_if_modifyHead,
        List.splitOn_cons_eq_if_modifyHead, ha, hab]
      by_cases hc : c = sep
      · exact ⟨[] :: init, x, y, tail, by simp [hc], hb, by simp [hc]⟩
      · cases init with
        | nil => exact ⟨[], c :: x, y, tail, by simp [hc], hb, by simp [hc]⟩
        | cons z init => exact ⟨(c :: z) :: init, x, y, tail, by simp [hc], hb, by simp [hc]⟩

theorem mem_of_mem_splitOn {sep c : Char} {t p : Text} (hp : p ∈ List.splitOn sep t) (hc : c ∈ p) :
    c ∈ t := by
  rw [← joinWith_splitOn sep t]
  exact (infix_joinWith_of_mem hp).subset hc

theorem newline_not_mem_lineOf (t : Text) : '\n' ∉ lineOf t := by
  intro h
  simpa using List.all_eq_true.1 List.all_takeWhile '\n' h

theorem eq_of_afterLine? {t rest : Text} (h : afterLine? t = some rest) :
    t = lineOf t ++ '\n' :: rest := by
  induction t with
  | nil => simp [afterLine?] at h
  | cons c t ih =>
      rw [afterLine?] at h
      by_cases hc : c = '\n'
      · rw [if_pos hc] at h
        obtain rfl := Option.some.inj h
        simp [lineOf, hc]
      · rw [if_neg hc] at h
        have hline : lineOf (c :: t) = c :: lineOf t := by simp [lineOf, hc]
        rw [hline, List.cons_append, ← ih h]

theorem eq_of_afterLine?_none {t : Text} (h : afterLine? t = none) : t = lineOf t := by
  induction t with
  | nil => rfl
  | cons c t ih =>
      rw [afterLine?] at h
      split at h
      · cases h
      · rename_i hc
        have hline : lineOf (c :: t) = c :: lineOf t := by simp [lineOf, hc]
        rw [hline, ← ih h]

theorem eq_of_cutAt? {part t before after : Text} (h : cutAt? part t = some (before, after)) :
    t = before ++ after ∧ part <+: after := by
  induction t generalizing before with
  | nil =>
      rw [cutAt?] at h
      split at h
      · rename_i hempty
        obtain ⟨rfl, rfl⟩ := Prod.mk.inj (Option.some.inj h)
        rw [List.isEmpty_iff.1 hempty]
        exact ⟨rfl, List.nil_prefix⟩
      · cases h
  | cons c t ih =>
      rw [cutAt?] at h
      split at h
      · rename_i hfound
        obtain ⟨rfl, rfl⟩ := Prod.mk.inj (Option.some.inj h)
        exact ⟨rfl, List.isPrefixOf_iff_prefix.1 hfound⟩
      · obtain ⟨cut, hcut, hpair⟩ := Option.map_eq_some_iff.1 h
        obtain ⟨rfl, rfl⟩ := Prod.mk.inj hpair
        obtain ⟨rfl, hpart⟩ := ih hcut
        exact ⟨rfl, hpart⟩

/-- A part without a line end at the start of a text stands in its first line. -/
theorem prefix_lineOf {part t : Text} (hpart : '\n' ∉ part) (h : part <+: t) :
    part <+: lineOf t := by
  obtain ⟨rest, rfl⟩ := h
  have hkeep : ∀ c ∈ part, (c != '\n') = true := by
    intro c hc
    simp only [bne_iff_ne, ne_eq]
    rintro rfl
    exact hpart hc
  rw [lineOf, List.takeWhile_append_of_pos hkeep]
  exact List.prefix_append _ _

/-- Trimming takes blanks from both ends. -/
theorem trim_spec (t : Text) :
    ∃ front back, t = front ++ trim t ++ back ∧ (∀ c ∈ front, isBlank c = true) ∧
      ∀ c ∈ back, isBlank c = true := by
  refine ⟨t.takeWhile isBlank, ((trimStart t).reverse.takeWhile isBlank).reverse, ?_,
    List.all_eq_true.1 List.all_takeWhile, ?_⟩
  · rw [trim, trimEnd, List.append_assoc, ← List.reverse_append, List.takeWhile_append_dropWhile,
      List.reverse_reverse, trimStart, List.takeWhile_append_dropWhile]
  · intro c hc
    exact List.all_eq_true.1 List.all_takeWhile c (List.mem_reverse.1 hc)

end Text

namespace Purge

variable {refs : References}

/-! ### Lines that may go -/

/-- The three signs of a conflict. -/
def signs : List Text := [conflictOpening, conflictDivider, conflictClosing]

/-- A line that a removal may take. -/
def Removable (refs : References) (line : Text) : Prop :=
  (∀ c ∈ line, Text.isBlank c = true) ∨ (∃ p ∈ refs.patterns, p <:+: line) ∨
    ∃ sign ∈ signs, sign <:+: line

/-- Every line of a text may go. -/
def AllRemovable (refs : References) (t : Text) : Prop :=
  ∀ line ∈ List.splitOn '\n' t, Removable refs line

theorem Removable.append {a b : Text} (ha : Removable refs a) (hb : Removable refs b) :
    Removable refs (a ++ b) := by
  have hleft : a <:+: a ++ b := (List.prefix_append a b).isInfix
  have hright : b <:+: a ++ b := (List.suffix_append a b).isInfix
  rcases ha with ha | ⟨p, hp, ha⟩ | ⟨sign, hsign, ha⟩
  · rcases hb with hb | ⟨p, hp, hb⟩ | ⟨sign, hsign, hb⟩
    · exact .inl fun c hc => (List.mem_append.1 hc).elim (ha c) (hb c)
    · exact .inr (.inl ⟨p, hp, hb.trans hright⟩)
    · exact .inr (.inr ⟨sign, hsign, hb.trans hright⟩)
  · exact .inr (.inl ⟨p, hp, ha.trans hleft⟩)
  · exact .inr (.inr ⟨sign, hsign, ha.trans hleft⟩)

theorem removable_of_recognizes {line : Text} (h : refs.recognizes line = true) :
    Removable refs line := by
  obtain ⟨p, hp, hpart⟩ := List.any_eq_true.1 h
  exact .inr (.inl ⟨p, hp, (Text.hasPart_iff_infix p line).1 hpart⟩)

theorem removable_of_sign {sign line : Text} (hsign : sign ∈ signs) (h : sign <:+: line) :
    Removable refs line :=
  .inr (.inr ⟨sign, hsign, h⟩)

/-- Texts that may go can be put together anywhere, in the middle of a line as well. -/
theorem AllRemovable.append {a b : Text} (ha : AllRemovable refs a) (hb : AllRemovable refs b) :
    AllRemovable refs (a ++ b) := by
  obtain ⟨init, x, y, tail, hsplit, hsplit', happend⟩ := Text.splitOn_append '\n' a b
  simp only [AllRemovable, hsplit, hsplit', happend] at *
  intro line hline
  rcases List.mem_append.1 hline with hline | hline
  · exact ha line (List.mem_append_left _ hline)
  · rcases List.mem_cons.1 hline with rfl | hline
    · exact (ha x (by simp)).append (hb y (by simp))
    · exact hb line (List.mem_cons_of_mem _ hline)

theorem allRemovable_of_blank {t : Text} (h : ∀ c ∈ t, Text.isBlank c = true) :
    AllRemovable refs t :=
  fun _ hline => .inl fun c hc => h c (Text.mem_of_mem_splitOn hline hc)

theorem allRemovable_newline : AllRemovable refs ['\n'] := by
  apply allRemovable_of_blank
  intro c hc
  rw [List.mem_singleton.1 hc]
  decide

theorem Removable.allRemovable {line : Text} (h : Removable refs line) (hline : '\n' ∉ line) :
    AllRemovable refs line := by
  rw [AllRemovable, List.splitOn_eq_singleton hline]
  simpa using h

/-- One side of a conflict, if it is a single line that is recognised. -/
theorem allRemovable_of_isGenerated {side : Text} (h : isGenerated refs side = true) :
    AllRemovable refs side := by
  simp only [isGenerated, Bool.and_eq_true, Bool.not_eq_true', List.contains_eq_mem,
    decide_eq_false_iff_not] at h
  obtain ⟨front, back, hside, hfront, hback⟩ := Text.trim_spec side
  rw [hside]
  have hline := (removable_of_recognizes h.2).allRemovable h.1
  exact ((allRemovable_of_blank hfront).append hline).append (allRemovable_of_blank hback)

/-! ### One round -/

/-- A part of a text that is taken: its lines may go, and it ends with a line or takes all that is
left. -/
structure Takes (refs : References) (removed rest : Text) : Prop where
  lines : AllRemovable refs removed
  ends : rest = [] ∨ ∃ before, removed = before ++ ['\n']

theorem Takes.prepend {a removed rest : Text} (ha : AllRemovable refs a)
    (h : Takes refs removed rest) : Takes refs (a ++ removed) rest where
  lines := ha.append h.lines
  ends := by
    rcases h.ends with hnil | ⟨before, rfl⟩
    · exact .inl hnil
    · exact .inr ⟨a ++ before, by rw [List.append_assoc]⟩

/-- The first line goes with its end, if it has one. -/
theorem takes_line {t : Text} (h : Removable refs (Text.lineOf t)) :
    ∃ removed, t = removed ++ (Text.afterLine? t).getD [] ∧
      Takes refs removed ((Text.afterLine? t).getD []) := by
  have hline := h.allRemovable (Text.newline_not_mem_lineOf t)
  cases hafter : Text.afterLine? t with
  | none =>
      rw [← Text.eq_of_afterLine?_none hafter] at hline
      exact ⟨t, by simp, hline, .inl rfl⟩
  | some rest =>
      refine ⟨Text.lineOf t ++ ['\n'], ?_, hline.append allRemovable_newline, .inr ⟨_, rfl⟩⟩
      simpa using Text.eq_of_afterLine? hafter

theorem removable_lineOf_of_sign {sign t : Text} (hsign : sign ∈ signs) (h : sign <+: t) :
    Removable refs (Text.lineOf t) := by
  have hsingle : ∀ sign ∈ signs, '\n' ∉ sign := by decide
  exact removable_of_sign hsign (Text.prefix_lineOf (hsingle sign hsign) h).isInfix

/-- A line that another one follows goes with its end. -/
theorem allRemovable_line {t rest : Text} (h : Text.afterLine? t = some rest)
    (hline : Removable refs (Text.lineOf t)) :
    ∃ removed, t = removed ++ rest ∧ AllRemovable refs removed := by
  obtain ⟨removed, ht, htakes⟩ := takes_line hline
  rw [h] at ht
  exact ⟨removed, ht, htakes.lines⟩

/-- A conflict: the line of the first sign, our side up to the second sign, the rest of that line,
their side up to the third sign, and the rest of that line. -/
theorem takes_of_afterConflict? {text rest : Text} (hopening : Removable refs (Text.lineOf text))
    (h : afterConflict? refs text = some rest) :
    ∃ removed, text = removed ++ rest ∧ Takes refs removed rest := by
  simp only [afterConflict?, Option.bind_eq_some_iff] at h
  obtain ⟨_, hours, ⟨ours, separator⟩, hdivider, _, htheirs, ⟨theirs, close⟩, hclosing, h⟩ := h
  split at h
  · rename_i hsides
    obtain rfl := Option.some.inj h
    obtain ⟨hourSide, htheirSide⟩ := Bool.and_eq_true_iff.1 hsides
    obtain ⟨rfl, hdividerLine⟩ := Text.eq_of_cutAt? hdivider
    obtain ⟨rfl, hclosingLine⟩ := Text.eq_of_cutAt? hclosing
    obtain ⟨first, htext, hfirst⟩ := allRemovable_line hours hopening
    obtain ⟨second, hsecond, hsecondLines⟩ :=
      allRemovable_line htheirs (removable_lineOf_of_sign (by decide) hdividerLine)
    obtain ⟨third, hthird, htakes⟩ := takes_line (removable_lineOf_of_sign (by decide) hclosingLine)
    have hlines := ((hfirst.append (allRemovable_of_isGenerated hourSide)).append
      hsecondLines).append (allRemovable_of_isGenerated htheirSide)
    refine ⟨first ++ ours ++ second ++ theirs ++ third, ?_, htakes.prepend hlines⟩
    calc text = first ++ (ours ++ separator) := htext
      _ = first ++ (ours ++ (second ++ (theirs ++ close))) := by rw [← hsecond]
      _ = first ++ (ours ++ (second ++ (theirs ++ (third ++ (Text.afterLine? close).getD [])))) := by
        rw [← hthird]
      _ = first ++ ours ++ second ++ theirs ++ third ++ (Text.afterLine? close).getD [] := by
        simp only [List.append_assoc]
  · cases h

theorem takes_of_step? {code rest : Text} (h : step? refs code = some rest) :
    ∃ removed, code = removed ++ rest ∧ Takes refs removed rest := by
  have hcode : code = code.takeWhile Text.isBlank ++ Text.trimStart code :=
    List.takeWhile_append_dropWhile.symm
  have hblanks : AllRemovable refs (code.takeWhile Text.isBlank) :=
    allRemovable_of_blank (List.all_eq_true.1 List.all_takeWhile)
  have hhead : headLine (Text.trimStart code) <:+: Text.lineOf (Text.trimStart code) := by
    rw [headLine, trimStart_trimStart]
    exact Text.trim_isInfix _
  suffices hrest : ∃ removed, Text.trimStart code = removed ++ rest ∧ Takes refs removed rest by
    obtain ⟨removed, htrim, htakes⟩ := hrest
    refine ⟨_, ?_, htakes.prepend hblanks⟩
    rw [List.append_assoc, ← htrim]
    exact hcode
  simp only [step?] at h
  split at h
  · cases h
  · split at h
    · rename_i hknown
      obtain rfl := Option.some.inj h
      obtain ⟨p, hp, hpart⟩ := List.any_eq_true.1 hknown
      exact takes_line (.inr (.inl ⟨p, hp, ((Text.hasPart_iff_infix _ _).1 hpart).trans hhead⟩))
    · split at h
      · rename_i hsign
        have hopening := (List.isPrefixOf_iff_prefix.1 hsign).isInfix.trans hhead
        exact takes_of_afterConflict? (removable_of_sign (by decide) hopening) h
      · cases h

/-! ### All rounds -/

/-- A round that does not ask first whether anything is left. -/
def round? (refs : References) (code : Text) : Option Text :=
  if refs.recognizes (headLine code) then
    some ((Text.afterLine? (Text.trimStart code)).getD [])
  else if conflictOpening.isPrefixOf (headLine code) then
    afterConflict? refs (Text.trimStart code)
  else
    none

/-- Rounds that come to an end: the text they start from, and what there is left when no round finds
anything more. -/
inductive Rounds (refs : References) : Nat → Text → Text → Prop
  | stop {code : Text} : round? refs code = none → Rounds refs 0 code code
  | next {n : Nat} {code rest final : Text} : round? refs code = some rest →
      Rounds refs n rest final → Rounds refs (n + 1) code final

/-- Nothing is recognised in a text without a line. -/
theorem round?_ofNames (current : Text) (previous : List Text) (code : Text) :
    round? (References.ofNames current previous) code =
      step? (References.ofNames current previous) code := by
  by_cases hnil : Text.trimStart code = []
  · have hhead : headLine code = [] := by rw [headLine, hnil]; rfl
    have hunknown : (References.ofNames current previous).recognizes [] = false := by
      by_contra hknown
      rw [Bool.not_eq_false] at hknown
      exact References.trimStart_ne_nil_of_recognizes hknown rfl
    have hsign : conflictOpening.isPrefixOf [] = false := by decide
    simp [round?, step?, hnil, hhead, hunknown, hsign]
  · have hne : (Text.trimStart code).isEmpty = false := by simpa using hnil
    simp [round?, step?, headLine_trimStart, hne]

theorem step?_nil (refs : References) : step? refs [] = none := rfl

/-- A round takes a line end or leaves nothing. -/
theorem count_newline_of_step? {code rest : Text} (h : step? refs code = some rest) :
    rest = [] ∨ rest.count '\n' < code.count '\n' := by
  obtain ⟨removed, rfl, htakes⟩ := takes_of_step? h
  rcases htakes.ends with hnil | ⟨before, rfl⟩
  · exact .inl hnil
  · right
    simp only [List.count_append, List.count_singleton_self]
    omega

/-- The rounds of a removal come to an end, and there are not more of them than lines. -/
theorem exists_rounds (current : Text) (previous : List Text) (code : Text) :
    ∃ n, n ≤ code.count '\n' + 1 ∧
      Rounds (References.ofNames current previous) n code
        (purge (References.ofNames current previous) code) := by
  induction code using purge.induct (References.ofNames current previous) with
  | case1 code rest h _ ih =>
      obtain ⟨n, hn, hrounds⟩ := ih
      rw [purge_of_step? h]
      have hround := (round?_ofNames current previous code).trans h
      rcases count_newline_of_step? h with rfl | hlt
      · -- from nothing there is no further round
        have hnil := step?_nil (References.ofNames current previous)
        have hstop : round? (References.ofNames current previous) [] = none :=
          (round?_ofNames current previous []).trans hnil
        rw [purge_of_step?_none hnil]
        exact ⟨1, by omega, .next hround (.stop hstop)⟩
      · exact ⟨n + 1, by omega, .next hround hrounds⟩
  | case2 code h =>
      rw [purge_of_step?_none h]
      exact ⟨0, by omega, .stop ((round?_ofNames current previous code).trans h)⟩

/-- What all rounds take together. -/
theorem takes_purge (refs : References) (code : Text) :
    ∃ removed, code = removed ++ purge refs code ∧
      (removed = [] ∨ Takes refs removed (purge refs code)) := by
  induction code using purge.induct refs with
  | case1 code rest h _ ih =>
      obtain ⟨more, hrest, htakes⟩ := ih
      obtain ⟨removed, hcode, hround⟩ := takes_of_step? h
      rw [purge_of_step? h]
      refine ⟨removed ++ more, ?_, .inr ?_⟩
      · rw [List.append_assoc, ← hrest]
        exact hcode
      · rcases htakes with rfl | htakes
        · rw [List.nil_append] at hrest
          rw [List.append_nil, ← hrest]
          exact hround
        · exact htakes.prepend hround.lines
  | case2 code h =>
      refine ⟨[], ?_, .inl rfl⟩
      rw [List.nil_append, purge_of_step?_none h]

end Purge

/-- A removal ends after not more rounds than there are lines, with nothing left that a round would
take. What stays is the end of the text, from the start of a line on; each line of what went was
blank, or had a reference to the aggregator or a sign of a conflict; and another removal takes
nothing. -/
theorem purge_takes_marked_lines (current : Text) (previous : List Text) (code : Text) :
    (∃ n, n ≤ code.count '\n' + 1 ∧
      Purge.Rounds (References.ofNames current previous) n code
        (purge (References.ofNames current previous) code)) ∧
    (∃ removed, removed ++ purge (References.ofNames current previous) code = code ∧
      (removed = [] ∨ purge (References.ofNames current previous) code = [] ∨
        ∃ before, removed = before ++ ['\n']) ∧
      ∀ line ∈ List.splitOn '\n' removed,
        Purge.Removable (References.ofNames current previous) line) ∧
    purge (References.ofNames current previous)
        (purge (References.ofNames current previous) code) =
      purge (References.ofNames current previous) code := by
  refine ⟨Purge.exists_rounds current previous code, ?_, purge_purge _ code⟩
  obtain ⟨removed, hcode, htakes⟩ := Purge.takes_purge (References.ofNames current previous) code
  refine ⟨removed, hcode.symm, ?_, ?_⟩
  · rcases htakes with hnil | htakes
    · exact .inl hnil
    · exact .inr htakes.ends
  · rcases htakes with rfl | htakes
    · exact Purge.allRemovable_of_blank (by simp)
    · exact htakes.lines

end ImportSync
