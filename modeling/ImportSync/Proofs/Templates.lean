import ImportSync.Proofs.Extensions
import ImportSync.Settings.Rules

/-!
Templates and the marks in them. A template is filled in twice: the reference is put in first, and then
the stem, also where the reference has brought in a stem mark or has completed one. Beside it stands the
one pass that fills in both marks at once and looks at nothing that it has put in. The two agree exactly
if filling in the reference makes no new stem mark, or if a stem mark is filled in with itself.
-/

namespace ImportSync

namespace Text

/-! ### Occurrences and replacements -/

/-- How often a part occurs in a text. -/
def occurrences (part : Text) : Text → Nat
  | [] => 0
  | c :: rest => if part.isPrefixOf (c :: rest) then occurrences part rest + 1 else occurrences part rest

theorem occurrences_le_cons (part : Text) (c : Char) (t : Text) :
    occurrences part t ≤ occurrences part (c :: t) := by
  rw [occurrences]
  split <;> omega

theorem occurrences_cons_of_not_start {part : Text} {c : Char} {t : Text} (h : ¬ part <+: c :: t) :
    occurrences part (c :: t) = occurrences part t := by
  rw [occurrences, if_neg (by simpa using h)]

theorem occurrences_pos_of_part {part t : Text} (hne : part ≠ []) (h : part <:+: t) :
    0 < occurrences part t := by
  induction t with
  | nil => exact absurd (List.infix_nil.1 h) hne
  | cons c t ih =>
      rcases List.infix_cons_iff.1 h with h | h
      · rw [occurrences, if_pos (List.isPrefixOf_iff_prefix.2 h)]
        omega
      · exact (ih h).trans_le (occurrences_le_cons part c t)

theorem occurrences_append_le (part a b : Text) :
    occurrences part a + occurrences part b ≤ occurrences part (a ++ b) := by
  induction a with
  | nil => simp [occurrences]
  | cons c a ih =>
      rw [List.cons_append, occurrences, occurrences]
      by_cases h : part.isPrefixOf (c :: a) = true
      · have hlonger : part.isPrefixOf (c :: (a ++ b)) = true :=
          List.isPrefixOf_iff_prefix.2
            ((List.isPrefixOf_iff_prefix.1 h).trans (List.prefix_append (c :: a) b))
        rw [if_pos h, if_pos hlonger]
        omega
      · rw [if_neg h]
        split <;> omega

theorem replaceFrom_eq_drop (part replacement : Text) (skip : Nat) (t : Text) :
    replaceFrom part replacement skip t = replaceAll part replacement (t.drop skip) := by
  induction t generalizing skip with
  | nil => cases skip <;> rfl
  | cons c t ih =>
      cases skip with
      | zero => rfl
      | succ skip => exact ih skip

theorem replaceAll_part_append {part : Text} (hne : part ≠ []) (replacement t : Text) :
    replaceAll part replacement (part ++ t) = replacement ++ replaceAll part replacement t := by
  cases part with
  | nil => exact absurd rfl hne
  | cons c part =>
      have hprefix : (c :: part).isPrefixOf (c :: (part ++ t)) = true :=
        List.isPrefixOf_iff_prefix.2 (List.prefix_append (c :: part) t)
      rw [List.cons_append, replaceAll, replaceFrom, if_pos hprefix, replaceFrom_eq_drop]
      simp

theorem replaceAll_cons_of_not_start {part : Text} {c : Char} {t : Text} (h : ¬ part <+: c :: t)
    (replacement : Text) :
    replaceAll part replacement (c :: t) = c :: replaceAll part replacement t := by
  rw [replaceAll, replaceFrom, if_neg (by simpa using h)]
  rfl

end Text

namespace CustomRules

open Text

/-! ### Filling in at once -/

/-- Fills in a reference and a stem in one pass from left to right, the first `skip` characters being the
rest of a mark that was filled in already. -/
def fillAtOnceFrom (reference stem : Text) : Nat → Text → Text
  | _, [] => []
  | skip + 1, _ :: rest => fillAtOnceFrom reference stem skip rest
  | 0, c :: rest =>
    if pathMark.isPrefixOf (c :: rest) then
      reference ++ fillAtOnceFrom reference stem (pathMark.length - 1) rest
    else if stemMark.isPrefixOf (c :: rest) then
      stem ++ fillAtOnceFrom reference stem (stemMark.length - 1) rest
    else
      c :: fillAtOnceFrom reference stem 0 rest

variable (reference stem : Text)

theorem fillAtOnceFrom_path (t : Text) :
    fillAtOnceFrom reference stem 0 (pathMark ++ t) = reference ++ fillAtOnceFrom reference stem 0 t :=
  rfl

theorem fillAtOnceFrom_stem (t : Text) :
    fillAtOnceFrom reference stem 0 (stemMark ++ t) = stem ++ fillAtOnceFrom reference stem 0 t :=
  rfl

theorem fillAtOnceFrom_char {c : Char} {t : Text} (hpath : ¬ pathMark <+: c :: t)
    (hstem : ¬ stemMark <+: c :: t) :
    fillAtOnceFrom reference stem 0 (c :: t) = c :: fillAtOnceFrom reference stem 0 t := by
  rw [fillAtOnceFrom, if_neg (by simpa using hpath), if_neg (by simpa using hstem)]

theorem length_lt_of_append_eq {part rest t : Text} (hne : part ≠ []) (h : part ++ rest = t) :
    rest.length < t.length := by
  rw [← h, List.length_append]
  exact Nat.lt_add_of_pos_left (List.length_pos_iff.2 hne)

/-- A template is empty, or starts with one of the marks, or starts with a character that belongs to
none. -/
theorem template_induction {motive : Text → Prop} (nil : motive [])
    (path : ∀ t, motive t → motive (pathMark ++ t)) (stem : ∀ t, motive t → motive (stemMark ++ t))
    (char : ∀ c t, ¬ pathMark <+: c :: t → ¬ stemMark <+: c :: t → motive t → motive (c :: t))
    (t : Text) : motive t := by
  match t with
  | [] => exact nil
  | c :: t =>
      by_cases hpath : pathMark <+: c :: t
      · obtain ⟨rest, hrest⟩ := hpath
        have hshorter : rest.length < (c :: t).length := length_lt_of_append_eq (by decide) hrest
        rw [← hrest]
        exact path rest (template_induction nil path stem char rest)
      · by_cases hstem : stemMark <+: c :: t
        · obtain ⟨rest, hrest⟩ := hstem
          have hshorter : rest.length < (c :: t).length := length_lt_of_append_eq (by decide) hrest
          rw [← hrest]
          exact stem rest (template_induction nil path stem char rest)
        · exact char c t hpath hstem (template_induction nil path stem char t)
termination_by t.length
decreasing_by
  · exact hshorter
  · exact hshorter
  · exact Nat.lt_succ_self _

/-! ### No mark reaches into another -/

theorem replaceAll_path_stemMark (t : Text) :
    replaceAll pathMark reference (stemMark ++ t) = stemMark ++ replaceAll pathMark reference t := rfl

theorem replaceAll_stem_pathMark (t : Text) :
    replaceAll stemMark stem (pathMark ++ t) = pathMark ++ replaceAll stemMark stem t := rfl

theorem occurrences_stemMark_pathMark (t : Text) :
    occurrences stemMark (pathMark ++ t) = occurrences stemMark t := rfl

theorem occurrences_stemMark_stemMark (t : Text) :
    occurrences stemMark (stemMark ++ t) = occurrences stemMark t + 1 := rfl

theorem occurrences_pathMark_pathMark (t : Text) :
    occurrences pathMark (pathMark ++ t) = occurrences pathMark t + 1 := rfl

theorem occurrences_pathMark_stemMark (t : Text) :
    occurrences pathMark (stemMark ++ t) = occurrences pathMark t := rfl

theorem not_stemMark_prefix_cons {c : Char} (hc : c ≠ '{') (t : Text) : ¬ stemMark <+: c :: t :=
  fun h => hc (List.cons_prefix_cons.1 h).1.symm

theorem occurrences_stemMark_append {reference : Text} (h : '{' ∉ reference) (t : Text) :
    occurrences stemMark (reference ++ t) = occurrences stemMark t := by
  induction reference with
  | nil => rfl
  | cons c reference ih =>
      have hc : c ≠ '{' := fun heq => h (heq ▸ List.mem_cons_self)
      rw [List.cons_append, occurrences_cons_of_not_start (not_stemMark_prefix_cons hc _),
        ih fun hmem => h (List.mem_cons_of_mem c hmem)]

/-! ### Replacing a stem mark -/

theorem replaceAll_stemMark_self (t : Text) : replaceAll stemMark stemMark t = t := by
  induction t using template_induction with
  | nil => rfl
  | path t ih => rw [replaceAll_stem_pathMark, ih]
  | stem t ih => rw [replaceAll_part_append (by decide), ih]
  | char c t _ hstem ih => rw [replaceAll_cons_of_not_start hstem, ih]

/-- Each stem mark is replaced once. -/
theorem length_replaceAll_stemMark (t : Text) :
    (replaceAll stemMark stem t).length + stemMark.length * occurrences stemMark t =
      t.length + stem.length * occurrences stemMark t := by
  induction t using template_induction with
  | nil => rfl
  | path t ih =>
      rw [replaceAll_stem_pathMark, occurrences_stemMark_pathMark, List.length_append, List.length_append]
      omega
  | stem t ih =>
      rw [replaceAll_part_append (by decide), occurrences_stemMark_stemMark, List.length_append,
        List.length_append, Nat.mul_succ, Nat.mul_succ]
      omega
  | char c t _ hstem ih =>
      rw [replaceAll_cons_of_not_start hstem, occurrences_cons_of_not_start hstem, List.length_cons,
        List.length_cons]
      omega

/-! ### Texts with the places of their stem marks -/

/-- The text of a list of characters, with a value where there is none. -/
def spell (value : Text) (items : List (Option Char)) : Text :=
  items.flatMap fun item => item.elim value ([·])

theorem spell_none (value : Text) (items : List (Option Char)) :
    spell value (none :: items) = value ++ spell value items := rfl

theorem spell_some (value : Text) (c : Char) (items : List (Option Char)) :
    spell value (some c :: items) = c :: spell value items := rfl

theorem spell_map_some_append (value t : Text) (items : List (Option Char)) :
    spell value (t.map some ++ items) = t ++ spell value items := by
  induction t with
  | nil => rfl
  | cons c t ih => rw [List.map_cons, List.cons_append, spell_some, ih, List.cons_append]

theorem length_spell (value other : Text) (items : List (Option Char)) :
    (spell value items).length + other.length * items.count none =
      (spell other items).length + value.length * items.count none := by
  induction items with
  | nil => rfl
  | cons item items ih =>
      cases item with
      | none =>
          rw [spell_none, spell_none, List.count_cons_self, List.length_append, List.length_append,
            Nat.mul_succ, Nat.mul_succ]
          omega
      | some c =>
          rw [spell_some, spell_some, List.count_cons_of_ne (by simp), List.length_cons, List.length_cons]
          omega

theorem count_none_le_occurrences (items : List (Option Char)) :
    items.count none ≤ occurrences stemMark (spell stemMark items) := by
  induction items with
  | nil => exact Nat.zero_le _
  | cons item items ih =>
      cases item with
      | none =>
          rw [spell_none, List.count_cons_self, occurrences_stemMark_stemMark]
          exact Nat.succ_le_succ ih
      | some c =>
          rw [spell_some, List.count_cons_of_ne (by simp)]
          exact ih.trans (occurrences_le_cons stemMark c _)

/-- A stem mark has its brace in front, so a text without one is spelled by characters. -/
theorem exists_of_prefix_spell {t : Text} {items : List (Option Char)} (hbrace : '{' ∉ t)
    (h : t <+: spell stemMark items) : ∃ rest, items = t.map some ++ rest := by
  induction t generalizing items with
  | nil => exact ⟨items, rfl⟩
  | cons c t ih =>
      match items with
      | [] => exact absurd (List.prefix_nil.1 h) (by simp)
      | none :: items =>
          have hc : c = '{' := (List.cons_prefix_cons.1 h).1
          exact absurd (hc ▸ List.mem_cons_self) hbrace
      | some d :: items =>
          obtain ⟨rfl, htail⟩ := List.cons_prefix_cons.1 h
          obtain ⟨rest, rfl⟩ := ih (fun hmem => hbrace (List.mem_cons_of_mem c hmem)) htail
          exact ⟨rest, rfl⟩

/-- If there are no other stem marks than those of the list, then replacing them is spelling the list
with the stem. -/
theorem replaceAll_spell {items : List (Option Char)}
    (h : occurrences stemMark (spell stemMark items) = items.count none) :
    replaceAll stemMark stem (spell stemMark items) = spell stem items := by
  induction items with
  | nil => rfl
  | cons item items ih =>
      cases item with
      | none =>
          rw [spell_none, occurrences_stemMark_stemMark, List.count_cons_self] at h
          rw [spell_none, spell_none, replaceAll_part_append (by decide), ih (Nat.succ.inj h)]
      | some c =>
          rw [spell_some, List.count_cons_of_ne (by simp)] at h
          have hle := count_none_le_occurrences items
          have hnot : ¬ stemMark <+: c :: spell stemMark items := by
            intro hprefix
            rw [occurrences, if_pos (List.isPrefixOf_iff_prefix.2 hprefix)] at h
            omega
          rw [occurrences_cons_of_not_start hnot] at h
          rw [spell_some, spell_some, replaceAll_cons_of_not_start hnot, ih h]

/-- A stem mark beyond those of the list is replaced in place by a stem of its own length. -/
theorem eq_stemMark_of_replaceAll {items : List (Option Char)} {stem : Text}
    (hlength : stem.length = stemMark.length)
    (h : replaceAll stemMark stem (spell stemMark items) = spell stem items)
    (hmore : occurrences stemMark (spell stemMark items) ≠ items.count none) : stem = stemMark := by
  induction items with
  | nil => exact absurd rfl hmore
  | cons item items ih =>
      cases item with
      | none =>
          rw [spell_none, spell_none, replaceAll_part_append (by decide)] at h
          rw [spell_none, occurrences_stemMark_stemMark, List.count_cons_self] at hmore
          exact ih (List.append_cancel_left h) fun heq => hmore (congrArg (· + 1) heq)
      | some c =>
          by_cases hprefix : stemMark <+: c :: spell stemMark items
          · -- the mark is spelled by characters, which the stem takes the place of
            obtain ⟨hc, htail⟩ := List.cons_prefix_cons.1 hprefix
            obtain ⟨rest, hrest⟩ := exists_of_prefix_spell (by decide) htail
            have hitems : some c :: items = stemMark.map some ++ rest := by
              rw [hrest, ← hc]
              rfl
            rw [hitems, spell_map_some_append, spell_map_some_append,
              replaceAll_part_append (by decide)] at h
            exact (List.append_inj h hlength).1
          · rw [spell_some, spell_some, replaceAll_cons_of_not_start hprefix] at h
            rw [spell_some, occurrences_cons_of_not_start hprefix, List.count_cons_of_ne (by simp)]
              at hmore
            exact ih (List.cons.inj h).2 hmore

theorem replaceAll_spell_iff (items : List (Option Char)) :
    replaceAll stemMark stem (spell stemMark items) = spell stem items ↔
      stem = stemMark ∨ occurrences stemMark (spell stemMark items) = items.count none := by
  constructor
  · intro h
    by_cases hmore : occurrences stemMark (spell stemMark items) = items.count none
    · exact .inr hmore
    · refine .inl (eq_stemMark_of_replaceAll ?_ h hmore)
      -- every further mark changes the length by the same amount
      have hreplaced := length_replaceAll_stemMark stem (spell stemMark items)
      have hspelled := length_spell stem stemMark items
      have hle := count_none_le_occurrences items
      rw [h] at hreplaced
      generalize occurrences stemMark (spell stemMark items) = n at *
      obtain ⟨k, rfl⟩ := Nat.exists_eq_add_of_le hle
      rw [Nat.mul_add, Nat.mul_add] at hreplaced
      have hk : 0 < k := by omega
      exact Nat.eq_of_mul_eq_mul_right hk (by omega)
  · rintro (rfl | h)
    · exact replaceAll_stemMark_self _
    · exact replaceAll_spell stem h

/-- A template with the reference filled in, and the same template with both filled in at once, have their
stem marks at the same places. -/
theorem exists_items (t : Text) :
    ∃ items, replaceAll pathMark reference t = spell stemMark items ∧
      (∀ stem, fillAtOnceFrom reference stem 0 t = spell stem items) ∧
      items.count none = occurrences stemMark t := by
  induction t using template_induction with
  | nil => exact ⟨[], rfl, fun _ => rfl, rfl⟩
  | path t ih =>
      obtain ⟨items, hpath, honce, hcount⟩ := ih
      refine ⟨reference.map some ++ items, ?_, fun stem => ?_, ?_⟩
      · rw [replaceAll_part_append (by decide), hpath, spell_map_some_append]
      · rw [fillAtOnceFrom_path, honce, spell_map_some_append]
      · have hchars : (reference.map some).count none = 0 := List.count_eq_zero.2 (by simp)
        rw [List.count_append, hchars, Nat.zero_add, occurrences_stemMark_pathMark, hcount]
  | stem t ih =>
      obtain ⟨items, hpath, honce, hcount⟩ := ih
      refine ⟨none :: items, ?_, fun stem => ?_, ?_⟩
      · rw [replaceAll_path_stemMark, hpath, spell_none]
      · rw [fillAtOnceFrom_stem, honce, spell_none]
      · rw [List.count_cons_self, occurrences_stemMark_stemMark, hcount]
  | char c t hnopath hnostem ih =>
      obtain ⟨items, hpath, honce, hcount⟩ := ih
      refine ⟨some c :: items, ?_, fun stem => ?_, ?_⟩
      · rw [replaceAll_cons_of_not_start hnopath, hpath, spell_some]
      · rw [fillAtOnceFrom_char reference stem hnopath hnostem, honce, spell_some]
      · rw [List.count_cons_of_ne (by simp), occurrences_cons_of_not_start hnostem, hcount]

/-- Filling in the reference makes no new stem mark in a template. -/
def BringsNoStemMark (template : Text) : Prop :=
  occurrences stemMark (replaceAll pathMark reference template) = occurrences stemMark template

/-- Two replacements one after the other are one pass exactly if the first makes no new mark for the
second, or if the second changes nothing. -/
theorem replaceAll_replaceAll_iff (t : Text) :
    replaceAll stemMark stem (replaceAll pathMark reference t) = fillAtOnceFrom reference stem 0 t ↔
      stem = stemMark ∨ BringsNoStemMark reference t := by
  obtain ⟨items, hpath, honce, hcount⟩ := exists_items reference t
  rw [BringsNoStemMark, hpath, honce, ← hcount]
  exact replaceAll_spell_iff stem items

/-! ### References that make no mark, and references that do -/

/-- A reference with a dot and without a closing brace holds no end of a mark. -/
theorem not_prefix_reference_append {reference v : Text} (hclose : '}' ∉ reference)
    (hdot : '.' ∈ reference) (hv : '.' ∉ v) (t : Text) : ¬ v ++ ['}'] <+: reference ++ t := by
  intro h
  rcases List.prefix_or_prefix_of_prefix h (List.prefix_append reference t) with h | h
  · exact hclose (h.subset (by simp))
  · rcases List.mem_append.1 (h.subset hdot) with hmem | hmem
    · exact hv hmem
    · exact absurd hmem (by decide)

/-- So an end of a mark that stands in a filled template stands in the template. -/
theorem prefix_of_prefix_replaceAll {reference v t : Text} (hclose : '}' ∉ reference)
    (hdot : '.' ∈ reference) (hv : '.' ∉ v) (h : v ++ ['}'] <+: replaceAll pathMark reference t) :
    v ++ ['}'] <+: t := by
  by_cases hpath : pathMark <+: t
  · obtain ⟨rest, rfl⟩ := hpath
    rw [replaceAll_part_append (by decide)] at h
    exact absurd h (not_prefix_reference_append hclose hdot hv _)
  · cases t with
    | nil => exact h
    | cons c t =>
        rw [replaceAll_cons_of_not_start hpath] at h
        cases v with
        | nil => exact List.cons_prefix_cons.2 ⟨(List.cons_prefix_cons.1 h).1, List.nil_prefix⟩
        | cons d v =>
            obtain ⟨hd, htail⟩ := List.cons_prefix_cons.1 h
            have hv' : '.' ∉ v := fun hmem => hv (List.mem_cons_of_mem d hmem)
            exact List.cons_prefix_cons.2 ⟨hd, prefix_of_prefix_replaceAll hclose hdot hv' htail⟩

theorem bringsNoStemMark_of_no_brace {reference : Text} (hopen : '{' ∉ reference)
    (hclose : '}' ∉ reference) (hdot : '.' ∈ reference) (t : Text) : BringsNoStemMark reference t := by
  rw [BringsNoStemMark]
  induction t using template_induction with
  | nil => rfl
  | path t ih =>
      rw [replaceAll_part_append (by decide), occurrences_stemMark_append hopen, ih,
        occurrences_stemMark_pathMark]
  | stem t ih =>
      rw [replaceAll_path_stemMark, occurrences_stemMark_stemMark, occurrences_stemMark_stemMark, ih]
  | char c t hnopath hnostem ih =>
      have hnone : ¬ stemMark <+: c :: replaceAll pathMark reference t := by
        intro hprefix
        obtain ⟨hc, htail⟩ := List.cons_prefix_cons.1 hprefix
        have hmark : ['s', 't', 'e', 'm'] ++ ['}'] <+: t :=
          prefix_of_prefix_replaceAll hclose hdot (by decide) htail
        exact hnostem (List.cons_prefix_cons.2 ⟨hc, hmark⟩)
      rw [replaceAll_cons_of_not_start hnopath, occurrences_cons_of_not_start hnone,
        occurrences_cons_of_not_start hnostem, ih]

/-- Every reference that is filled in brings its own stem marks. -/
theorem occurrences_replaceAll_ge (t : Text) :
    occurrences stemMark t + occurrences stemMark reference * occurrences pathMark t ≤
      occurrences stemMark (replaceAll pathMark reference t) := by
  induction t using template_induction with
  | nil => exact Nat.le_refl 0
  | path t ih =>
      have happend := occurrences_append_le stemMark reference (replaceAll pathMark reference t)
      rw [replaceAll_part_append (by decide), occurrences_stemMark_pathMark,
        occurrences_pathMark_pathMark, Nat.mul_succ]
      omega
  | stem t ih =>
      rw [replaceAll_path_stemMark, occurrences_stemMark_stemMark, occurrences_stemMark_stemMark,
        occurrences_pathMark_stemMark]
      omega
  | char c t hnopath hnostem ih =>
      rw [replaceAll_cons_of_not_start hnopath, occurrences_cons_of_not_start hnopath,
        occurrences_cons_of_not_start hnostem]
      exact ih.trans (occurrences_le_cons stemMark c _)

theorem not_bringsNoStemMark {reference t : Text} (hreference : stemMark <:+: reference)
    (ht : pathMark <:+: t) : ¬ BringsNoStemMark reference t := by
  have hge := occurrences_replaceAll_ge reference t
  have hmarks := Nat.mul_pos (occurrences_pos_of_part (by decide) hreference)
    (occurrences_pos_of_part (by decide) ht)
  rw [BringsNoStemMark]
  omega

/-! ### Main statement -/

/-- A template with the file's reference and its stem filled in at once. -/
def fillAtOnce (h : CustomRules) (m : SourcePath) (template : Text) : Text :=
  fillAtOnceFrom (Path.reference h.dir m.text) ((Path.stem? m.text).getD []) 0 template

/-- What the first rule contributes whose extension the file has, filled in at once. -/
def entryAtOnce (h : CustomRules) (m : SourcePath) : CustomEntry :=
  match h.rules.find? fun r => m.hasExtension r.extension with
  | none => {}
  | some r =>
    { importLine := r.importLine.map (h.fillAtOnce m)
      exportedNames := if r.exports.isEmpty then none else some (r.exports.map (h.fillAtOnce m)) }

/-- The templates that are filled in for a file. -/
def templatesFor (h : CustomRules) (m : SourcePath) : List Text :=
  match h.rules.find? fun r => m.hasExtension r.extension with
  | none => []
  | some r => r.importLine.toList ++ r.exports

theorem entryFor_eq_entryAtOnce_iff (h : CustomRules) (m : SourcePath) :
    h.entryFor m = h.entryAtOnce m ↔
      ∀ template ∈ h.templatesFor m, h.fill m template = h.fillAtOnce m template := by
  rw [entryFor, entryAtOnce, templatesFor]
  cases h.rules.find? fun r => m.hasExtension r.extension with
  | none => simp
  | some r =>
      have hline : r.importLine.map (h.fill m) = r.importLine.map (h.fillAtOnce m) ↔
          ∀ template ∈ r.importLine.toList, h.fill m template = h.fillAtOnce m template := by
        cases r.importLine <;> simp
      have hexports : ((if r.exports.isEmpty then none else some (r.exports.map (h.fill m))) =
            if r.exports.isEmpty then none else some (r.exports.map (h.fillAtOnce m))) ↔
          ∀ template ∈ r.exports, h.fill m template = h.fillAtOnce m template := by
        cases r.exports <;> simp
      rw [CustomEntry.mk.injEq, hline, hexports, List.forall_mem_append]

theorem dot_mem_normalize {p : Text} (h : '.' ∈ p) : '.' ∈ Path.normalize p := by
  rw [Path.normalize, List.mem_reverse]
  have hmapped : '.' ∈ (p.map fun c => if c = '\\' then '/' else c).reverse :=
    List.mem_reverse.2 (List.mem_map.2 ⟨'.', h, rfl⟩)
  generalize (p.map fun c => if c = '\\' then '/' else c).reverse = q at hmapped ⊢
  rw [← List.takeWhile_append_dropWhile (p := (· == '/')) (l := q)] at hmapped
  rcases List.mem_append.1 hmapped with hslash | hkept
  · exact absurd (List.all_eq_true.1 List.all_takeWhile _ hslash) (by decide)
  · exact hkept

theorem dot_mem_reference {h : CustomRules} {m : SourcePath} {template : Text}
    (hm : template ∈ h.templatesFor m) : '.' ∈ Path.reference h.dir m.text := by
  have hdot : '.' ∈ m.text := by
    rw [templatesFor] at hm
    split at hm
    · cases hm
    · next r hr =>
        have hextension := List.find?_some hr
        exact SourcePath.dot_mem_of_hasExtension hextension
  rw [Path.reference]
  split
  · exact List.mem_append_left _ (by decide)
  · exact dot_mem_normalize hdot

/-- Rules contribute for a file what they would if its reference and its stem were filled in at once,
exactly if its reference makes no new stem mark in a template of the rule, or the stem is the stem mark.
A reference without braces makes none; and one with a stem mark in it makes one wherever it is filled in,
so that it does not stand there as it is. -/
theorem entry_filled_at_once_iff (h : CustomRules) (m : SourcePath) :
    let reference := Path.reference h.dir m.text
    let stem := (Path.stem? m.text).getD []
    (h.entryFor m = h.entryAtOnce m ↔
      stem = stemMark ∨ ∀ template ∈ h.templatesFor m, BringsNoStemMark reference template) ∧
    ('{' ∉ reference → '}' ∉ reference → h.entryFor m = h.entryAtOnce m) ∧
    (stemMark <:+: reference → stem ≠ stemMark →
      ∀ template ∈ h.templatesFor m, pathMark <:+: template → h.entryFor m ≠ h.entryAtOnce m) := by
  intro reference stem
  have hfill (template : Text) : h.fill m template = h.fillAtOnce m template ↔
      stem = stemMark ∨ BringsNoStemMark reference template :=
    replaceAll_replaceAll_iff reference stem template
  have hiff : h.entryFor m = h.entryAtOnce m ↔
      stem = stemMark ∨ ∀ template ∈ h.templatesFor m, BringsNoStemMark reference template := by
    rw [entryFor_eq_entryAtOnce_iff]
    by_cases hstem : stem = stemMark
    · exact iff_of_true (fun template _ => (hfill template).2 (.inl hstem)) (.inl hstem)
    · simp only [hfill, hstem, false_or]
  refine ⟨hiff, fun hopen hclose => ?_, fun hreference hstem template hmem hpath hsame => ?_⟩
  · exact hiff.2 (.inr fun template hmem =>
      bringsNoStemMark_of_no_brace hopen hclose (dot_mem_reference hmem) template)
  · rcases hiff.1 hsame with hmark | hnone
    · exact hstem hmark
    · exact not_bringsNoStemMark hreference hpath (hnone template hmem)

/-- Rules for images, with a line that takes the reference and the stem. -/
def imageRules : CustomRules where
  rules := [{ extension := "svg".toList
              importLine := some "import \x7bstem\x7d from '\x7bpath\x7d';".toList
              exports := ["\x7bstem\x7d".toList] }]
  dir := "/site".toList

/-- The line for a file below a directory that is named like the stem mark leads elsewhere, and the line
for another file is as it should be. -/
theorem entry_filled_at_once_iff_imageRules :
    imageRules.entryFor ⟨"/site/\x7bstem\x7d/logo.svg".toList⟩ ≠
      imageRules.entryAtOnce ⟨"/site/\x7bstem\x7d/logo.svg".toList⟩ ∧
    imageRules.entryFor ⟨"/site/\x7bstem\x7d/logo.svg".toList⟩ =
      { importLine := some "import logo from './logo/logo.svg';".toList
        exportedNames := some ["logo".toList] } ∧
    imageRules.entryFor ⟨"/site/images/logo.svg".toList⟩ =
      imageRules.entryAtOnce ⟨"/site/images/logo.svg".toList⟩ := by
  obtain ⟨-, -, hmarked⟩ :=
    entry_filled_at_once_iff imageRules ⟨"/site/\x7bstem\x7d/logo.svg".toList⟩
  obtain ⟨-, hplain, -⟩ := entry_filled_at_once_iff imageRules ⟨"/site/images/logo.svg".toList⟩
  refine ⟨hmarked (by decide +kernel) (by decide +kernel)
    "import \x7bstem\x7d from '\x7bpath\x7d';".toList (by decide +kernel) (by decide +kernel),
    by decide +kernel, hplain (by decide +kernel) (by decide +kernel)⟩

end CustomRules

end ImportSync
