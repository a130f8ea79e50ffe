import ImportSync.Text.Basic
import Mathlib.Data.List.TakeWhile

/-!
Laws of cutting texts up. Splitting at a character and joining undo one another; containing a part is
being an infix; and a text that starts with a line ends where the line end stands.
-/

namespace ImportSync.Text

/-! ### Splitting and joining -/

/-- What is appended to a text without a separator belongs to its last piece. -/
theorem splitOn_append_of_not_mem {sep : Char} {b : Text} (h : sep ∉ b) (a : Text) :
    ∃ init x, List.splitOn sep (a ++ b) = init ++ [x ++ b] := by
  induction a with
  | nil => exact ⟨[], [], by simpa using List.splitOn_eq_singleton h⟩
  | cons c a ih =>
      obtain ⟨init, x, hsplit⟩ := ih
      rw [List.cons_append, List.splitOn_cons_eq_if_modifyHead, hsplit]
      by_cases hc : c = sep
      · exact ⟨[] :: init, x, by simp [hc]⟩
      · cases init with
        | nil => exact ⟨[], c :: x, by simp [hc]⟩
        | cons y init => exact ⟨(c :: y) :: init, x, by simp [hc]⟩

theorem splitOn_joinWith {sep : Char} {ps : List Text} (hne : ps ≠ []) (h : ∀ p ∈ ps, sep ∉ p) :
    List.splitOn sep (joinWith [sep] ps) = ps :=
  List.splitOn_intercalate sep h hne

theorem joinWith_splitOn (sep : Char) (t : Text) : joinWith [sep] (List.splitOn sep t) = t :=
  List.intercalate_splitOn sep

theorem not_mem_of_mem_splitOn {sep : Char} {t p : Text} (h : p ∈ List.splitOn sep t) : sep ∉ p := by
  induction t generalizing p with
  | nil =>
      simp only [List.splitOn_nil, List.mem_singleton] at h
      simp [h]
  | cons c rest ih =>
      rw [List.splitOn_cons_eq_if_modifyHead] at h
      by_cases hc : c = sep
      · rw [if_pos (by simpa using hc)] at h
        rcases List.mem_cons.1 h with rfl | h
        · simp
        · exact ih h
      · rw [if_neg (by simpa using hc)] at h
        cases hrest : List.splitOn sep rest with
        | nil => exact absurd hrest (List.splitOn_ne_nil sep rest)
        | cons piece pieces =>
            rw [hrest] at ih h
            rcases List.mem_cons.1 h with rfl | h
            · simp [ih List.mem_cons_self, Ne.symm hc]
            · exact ih (List.mem_cons_of_mem _ h)

@[simp] theorem joinWith_nil (sep : Text) : joinWith sep [] = [] := rfl

@[simp] theorem joinWith_singleton (sep p : Text) : joinWith sep [p] = p := by
  simp [joinWith]

theorem joinWith_cons {sep p : Text} {ps : List Text} (h : ps ≠ []) :
    joinWith sep (p :: ps) = p ++ (sep ++ joinWith sep ps) := by
  rw [joinWith, joinWith, List.intercalate_cons_of_ne_nil h, List.append_assoc]

theorem joinWith_append {sep : Text} {ps qs : List Text} (hp : ps ≠ []) (hq : qs ≠ []) :
    joinWith sep (ps ++ qs) = joinWith sep ps ++ (sep ++ joinWith sep qs) := by
  induction ps with
  | nil => exact absurd rfl hp
  | cons p ps ih =>
      cases ps with
      | nil => simp [joinWith_cons hq]
      | cons p' ps =>
          have hps : p' :: ps ≠ [] := by simp
          rw [List.cons_append, joinWith_cons (by simp), ih hps, joinWith_cons hps]
          simp only [List.append_assoc]

/-- A character of joined pieces stands in a piece or in the separator. -/
theorem mem_joinWith {sep : Text} {ps : List Text} {c : Char} (h : c ∈ joinWith sep ps) :
    c ∈ sep ∨ ∃ p ∈ ps, c ∈ p := by
  induction ps with
  | nil => simp at h
  | cons p ps ih =>
      by_cases hps : ps = []
      · subst hps
        exact .inr ⟨p, by simp, by simpa using h⟩
      · rw [joinWith_cons hps] at h
        rcases List.mem_append.1 h with h | h
        · exact .inr ⟨p, by simp, h⟩
        · rcases List.mem_append.1 h with h | h
          · exact .inl h
          · rcases ih h with h | ⟨q, hq, h⟩
            · exact .inl h
            · exact .inr ⟨q, by simp [hq], h⟩

/-! ### Parts -/

theorem hasPart_iff_infix (part t : Text) : hasPart part t = true ↔ part <:+: t := by
  induction t with
  | nil => simp [hasPart]
  | cons c rest ih =>
      simp only [hasPart, Bool.or_eq_true, List.isPrefixOf_iff_prefix, ih]
      exact List.infix_cons_iff.symm

/-- A part without the separator stands on one side of it. -/
theorem infix_of_infix_append_cons {sep : Char} {part a b : Text} (hsep : sep ∉ part)
    (hne : part ≠ []) (h : part <:+: a ++ sep :: b) : part <:+: a ∨ part <:+: b := by
  obtain ⟨before, after, h⟩ := h
  rcases List.append_eq_append_iff.1 h with ⟨rest, ha, -⟩ | ⟨rest, hpart, hb⟩
  · exact .inl ⟨before, rest, ha.symm⟩
  · cases rest with
    | nil => exact .inl ⟨before, [], by simpa using hpart⟩
    | cons c rest =>
        -- the part ends behind the separator, so it starts there as well
        obtain ⟨rfl, rfl⟩ := List.cons.inj hb
        rcases List.append_eq_append_iff.1 hpart with ⟨inner, -, hinner⟩ | ⟨inner, -, hinner⟩
        · exact absurd (by simp [hinner]) hsep
        · cases inner with
          | nil =>
              cases part with
              | nil => exact absurd rfl hne
              | cons d part =>
                  obtain ⟨rfl, -⟩ := List.cons.inj hinner
                  exact absurd List.mem_cons_self hsep
          | cons d inner =>
              obtain ⟨-, rfl⟩ := List.cons.inj hinner
              exact .inr ⟨inner, after, rfl⟩

theorem infix_of_infix_joinWith {sep : Char} {part : Text} {ps : List Text} (hsep : sep ∉ part)
    (hne : part ≠ []) (h : part <:+: joinWith [sep] ps) : ∃ p ∈ ps, part <:+: p := by
  induction ps with
  | nil => exact absurd (List.infix_nil.1 h) hne
  | cons p ps ih =>
      by_cases hps : ps = []
      · subst hps
        exact ⟨p, by simp, by simpa using h⟩
      · rw [joinWith_cons hps] at h
        rcases infix_of_infix_append_cons hsep hne h with h | h
        · exact ⟨p, by simp, h⟩
        · obtain ⟨q, hq, h⟩ := ih h
          exact ⟨q, by simp [hq], h⟩

theorem infix_joinWith_of_mem {sep p : Text} {ps : List Text} (h : p ∈ ps) :
    p <:+: joinWith sep ps := by
  induction ps with
  | nil => simp at h
  | cons q ps ih =>
      by_cases hps : ps = []
      · subst hps
        rw [List.mem_singleton] at h
        simp [h]
      · rw [joinWith_cons hps]
        rcases List.mem_cons.1 h with rfl | h
        · exact (List.prefix_append _ _).isInfix
        · exact (ih h).trans ((List.suffix_append _ _).trans (List.suffix_append _ _)).isInfix

/-! ### Lines -/

theorem lineOf_append_newline {line : Text} (h : '\n' ∉ line) (body : Text) :
    lineOf (line ++ '\n' :: body) = line := by
  have hline : ∀ c ∈ line, (c != '\n') = true := by
    intro c hc
    simp only [bne_iff_ne, ne_eq]
    rintro rfl
    exact h hc
  rw [lineOf, List.takeWhile_append_of_pos hline]
  simp

theorem afterLine?_append_newline {line : Text} (h : '\n' ∉ line) (body : Text) :
    afterLine? (line ++ '\n' :: body) = some body := by
  induction line with
  | nil => simp [afterLine?]
  | cons c rest ih =>
      simp only [List.mem_cons, not_or] at h
      rw [List.cons_append, afterLine?, if_neg (Ne.symm h.1)]
      exact ih h.2

theorem suffix_of_afterLine? {t rest : Text} (h : afterLine? t = some rest) : rest <:+ t := by
  induction t with
  | nil => simp [afterLine?] at h
  | cons c t ih =>
      rw [afterLine?] at h
      split at h
      · obtain rfl := Option.some.inj h
        exact List.suffix_cons c _
      · exact (ih h).trans (List.suffix_cons c t)

theorem afterLine?_getD_suffix (t : Text) : (afterLine? t).getD [] <:+ t := by
  cases h : afterLine? t with
  | none => exact List.nil_suffix
  | some rest => exact suffix_of_afterLine? h

theorem suffix_of_cutAt? {part t before after : Text} (h : cutAt? part t = some (before, after)) :
    after <:+ t := by
  induction t generalizing before with
  | nil =>
      rw [cutAt?] at h
      split at h
      · simp_all
      · cases h
  | cons c t ih =>
      rw [cutAt?] at h
      split at h
      · simp only [Option.some.injEq, Prod.mk.injEq] at h
        obtain ⟨-, rfl⟩ := h
        exact List.suffix_refl _
      · obtain ⟨cut, hcut, hpair⟩ := Option.map_eq_some_iff.1 h
        obtain ⟨-, rfl⟩ := Prod.mk.inj hpair
        exact (ih hcut).trans (List.suffix_cons c t)

/-! ### Blanks -/

theorem trimStart_cons {c : Char} (h : isBlank c = false) (t : Text) :
    trimStart (c :: t) = c :: t := by
  rw [trimStart, List.dropWhile_cons_of_neg (by simp [h])]

theorem trimEnd_concat {c : Char} (h : isBlank c = false) (t : Text) :
    trimEnd (t ++ [c]) = t ++ [c] := by
  simp [trimEnd, List.dropWhile_cons_of_neg, h]

theorem trim_cons_concat {c d : Char} (hc : isBlank c = false) (hd : isBlank d = false) (t : Text) :
    trim (c :: (t ++ [d])) = c :: (t ++ [d]) := by
  rw [trim, trimStart_cons hc]
  exact trimEnd_concat hd (c :: t)

/-- A text with a character that is not blank does not vanish when the blanks around it go. -/
theorem trim_ne_nil {c : Char} {t : Text} (h : c ∈ t) (hc : isBlank c = false) : trim t ≠ [] := by
  have hstart : c ∈ trimStart t := by
    rw [← List.takeWhile_append_dropWhile (p := isBlank) (l := t)] at h
    rcases List.mem_append.1 h with h | h
    · have hblank := List.all_eq_true.1 List.all_takeWhile c h
      rw [hc] at hblank
      cases hblank
    · exact h
  intro hnil
  have hall := List.dropWhile_eq_nil_iff.1 (List.reverse_eq_nil_iff.1 hnil)
  have hblank := hall c (List.mem_reverse.2 hstart)
  rw [hc] at hblank
  cases hblank

end ImportSync.Text
