import ImportSync.Proofs.References

/-!
Texts that start with what several runs and a merge left behind: generated lines, blank lines and
merge conflicts between two generated lines, in any order. Removing generated imports takes all of it,
up to the body. One round takes one line or conflict with the blank lines before it; a sign of a
conflict is found where its line starts, because no sign goes across a line end and the lines before
do not have it.
-/

namespace ImportSync

/-! ### Trimming -/

namespace Text

theorem trimStart_append {a : Text} (h : trimStart a ≠ []) (b : Text) :
    trimStart (a ++ b) = trimStart a ++ b := by
  have hempty : ¬ (a.dropWhile isBlank).isEmpty = true := by
    rwa [List.isEmpty_iff]
  rw [trimStart, List.dropWhile_append, if_neg hempty, trimStart]

theorem suffix_trimStart {c : Char} {part t : Text} (hc : isBlank c = false) (h : c :: part <:+ t) :
    c :: part <:+ trimStart t := by
  obtain ⟨before, rfl⟩ := h
  rw [trimStart, List.dropWhile_append]
  split
  · exact ⟨[], (trimStart_cons hc part).symm⟩
  · exact List.suffix_append _ _

theorem prefix_trimEnd {d : Char} {part t : Text} (hd : isBlank d = false) (h : part ++ [d] <+: t) :
    part ++ [d] <+: trimEnd t := by
  rw [← List.reverse_suffix, List.reverse_append, List.reverse_singleton] at h ⊢
  rw [trimEnd, List.reverse_reverse]
  exact suffix_trimStart hd h

theorem trim_isInfix (t : Text) : trim t <:+: t := by
  have hend : trim t <+: trimStart t := by
    rw [← List.reverse_suffix, trim, trimEnd, List.reverse_reverse]
    exact List.dropWhile_suffix _
  exact hend.isInfix.trans (List.dropWhile_suffix _).isInfix

/-- A part that neither starts nor ends with a blank stays when the blanks around a text go. -/
theorem infix_trim_iff {c d : Char} {mid t : Text} (hc : isBlank c = false)
    (hd : isBlank d = false) : c :: (mid ++ [d]) <:+: trim t ↔ c :: (mid ++ [d]) <:+: t := by
  constructor
  · intro h
    exact h.trans (trim_isInfix t)
  · rintro ⟨before, after, rfl⟩
    have hstart : c :: (mid ++ [d] ++ after) <:+
        trimStart (before ++ c :: (mid ++ [d]) ++ after) :=
      suffix_trimStart hc ⟨before, by simp⟩
    obtain ⟨kept, hkept⟩ := hstart
    have hend : kept ++ c :: mid ++ [d] <+: trim (before ++ c :: (mid ++ [d]) ++ after) :=
      prefix_trimEnd hd ⟨after, by rw [← hkept]; simp⟩
    obtain ⟨rest, hrest⟩ := hend
    exact ⟨kept, rest, by rw [← hrest]; simp⟩

theorem trim_append_newline {line : Text} (h : trimStart line ≠ []) :
    trim (line ++ ['\n']) = trim line := by
  have hblank : isBlank '\n' = true := by decide
  rw [trim, trimStart_append h, trim]
  simp [trimEnd, hblank]

/-- A part that a line does not have is found at the start of the line after it. -/
theorem cutAt?_next_line {part line : Text} (hpart : '\n' ∉ part) (hnot : ¬ part <:+: line)
    (rest : Text) :
    cutAt? part (line ++ '\n' :: (part ++ rest)) = some (line ++ ['\n'], part ++ rest) := by
  have hne : part ≠ [] := by
    rintro rfl
    exact hnot List.nil_infix
  -- an occurrence that starts in the line or with its end would go across that end
  have hstart : ∀ t : Text, ¬ part <:+: t → ¬ part <+: t ++ '\n' :: (part ++ rest) := by
    rintro t ht ⟨after, hafter⟩
    rcases List.append_eq_append_iff.1 hafter with ⟨more, rfl, -⟩ | ⟨more, rfl, hmore⟩
    · exact ht (List.prefix_append _ _).isInfix
    · cases more with
      | nil => exact ht (by simp)
      | cons c more =>
          obtain ⟨rfl, -⟩ := List.cons.inj hmore
          exact hpart (by simp)
  induction line with
  | nil =>
      have hnewline := hstart [] hnot
      rw [List.nil_append, ← List.isPrefixOf_iff_prefix] at hnewline
      have hfound : cutAt? part (part ++ rest) = some ([], part ++ rest) := by
        obtain ⟨c, part', rfl⟩ := List.exists_cons_of_ne_nil hne
        simp [cutAt?]
      rw [List.nil_append, cutAt?, if_neg hnewline, hfound]
      rfl
  | cons c line ih =>
      have hc := hstart (c :: line) hnot
      have hrest := ih fun h => hnot (h.trans (List.suffix_cons c line).isInfix)
      rw [List.cons_append, ← List.isPrefixOf_iff_prefix] at hc
      rw [List.cons_append, cutAt?, if_neg hc, hrest]
      rfl

end Text

/-! ### The first line -/

section FirstLine

variable {line : Text} (hline : '\n' ∉ line) (hne : Text.trimStart line ≠ [])
include hline hne

theorem headLine_line (rest : Text) : headLine (line ++ '\n' :: rest) = Text.trim line := by
  have hstart : '\n' ∉ Text.trimStart line := fun h => hline ((List.dropWhile_sublist _).mem h)
  rw [headLine, Text.trimStart_append hne, Text.lineOf_append_newline hstart, Text.trim,
    trimStart_trimStart, Text.trim]

theorem afterLine?_trimStart (rest : Text) :
    Text.afterLine? (Text.trimStart (line ++ '\n' :: rest)) = some rest := by
  have hstart : '\n' ∉ Text.trimStart line := fun h => hline ((List.dropWhile_sublist _).mem h)
  rw [Text.trimStart_append hne, Text.afterLine?_append_newline hstart]

end FirstLine

namespace References

/-- A pattern starts with a dot and ends with a semicolon, so blanks around a line play no part. -/
theorem recognizes_trim (current : Text) (previous : List Text) (line : Text) :
    (ofNames current previous).recognizes (Text.trim line) =
      (ofNames current previous).recognizes line := by
  have hpattern : ∀ tail, pattern tail <:+: Text.trim line ↔ pattern tail <:+: line := by
    intro tail
    have hends : pattern tail = '.' :: ('/' :: Text.joinWith ['/'] tail ++ ['\''] ++ [';']) := by
      simp [pattern_eq]
    rw [hends]
    exact Text.infix_trim_iff (by decide) (by decide)
  rw [Bool.eq_iff_iff, recognizes_ofNames_iff, recognizes_ofNames_iff]
  simp only [hpattern]

/-- A line that is recognised has a character that is not blank. -/
theorem trimStart_ne_nil_of_recognizes {current : Text} {previous : List Text} {line : Text}
    (h : (ofNames current previous).recognizes line = true) : Text.trimStart line ≠ [] := by
  obtain ⟨-, -, tail, -, -, hpart⟩ := recognizes_ofNames_iff.1 h
  have hdot : '.' ∈ line := hpart.subset (by simp [pattern_eq])
  intro hnil
  exact Text.trim_ne_nil hdot (by decide) (by rw [Text.trim, hnil]; rfl)

end References

namespace Purge

/-! ### What a text may start with -/

/-- A merge conflict between two generated lines. The three lines with a sign go on with any label,
but the first one is not recognised itself. -/
structure Conflict (refs : References) where
  ourLabel : Text
  ours : Text
  middleLabel : Text
  theirs : Text
  theirLabel : Text
  single_lines : ∀ text ∈ [ourLabel, ours, middleLabel, theirs, theirLabel], '\n' ∉ text
  opening_unknown : refs.recognizes (conflictOpening ++ ourLabel) = false
  ours_known : refs.recognizes ours = true
  ours_undivided : ¬ conflictDivider <:+: ours
  theirs_known : refs.recognizes theirs = true
  theirs_unclosed : ¬ conflictClosing <:+: theirs

/-- What may stand before the body of a text. -/
inductive LeadingItem (refs : References) where
  | blank (line : Text) (single_line : '\n' ∉ line) (blanks : ∀ c ∈ line, Text.isBlank c = true)
  | known (line : Text) (single_line : '\n' ∉ line) (known : refs.recognizes line = true)
  | conflict (c : Conflict refs)

namespace LeadingItem

variable {refs : References}

def isBlank : LeadingItem refs → Bool
  | blank _ _ _ => true
  | known _ _ _ => false
  | conflict _ => false

def lines : LeadingItem refs → List Text
  | blank line _ _ => [line]
  | known line _ _ => [line]
  | conflict c =>
    [conflictOpening ++ c.ourLabel, c.ours, conflictDivider ++ c.middleLabel, c.theirs,
      conflictClosing ++ c.theirLabel]

/-- The lines of an item, each with its end. -/
def text (item : LeadingItem refs) : Text :=
  item.lines.flatMap (· ++ ['\n'])

end LeadingItem

/-! ### Rounds -/

/-- Blanks before a text play no part in a round. -/
theorem step?_blanks_append (refs : References) {blanks : Text}
    (h : ∀ c ∈ blanks, Text.isBlank c = true) (code : Text) :
    step? refs (blanks ++ code) = step? refs code := by
  have htrim : Text.trimStart (blanks ++ code) = Text.trimStart code :=
    List.dropWhile_append_of_pos h
  simp only [step?, htrim]

theorem step?_of_opening {refs : References} {code : Text} (hne : Text.trimStart code ≠ [])
    (hunknown : refs.recognizes (headLine code) = false)
    (hsign : conflictOpening.isPrefixOf (headLine code) = true) :
    step? refs code = afterConflict? refs (Text.trimStart code) := by
  have htrim : (Text.trimStart code).isEmpty = false := by simpa using hne
  simp [step?, headLine_trimStart, hunknown, hsign, htrim]

section

variable {current : Text} {previous : List Text}

theorem step?_known {line : Text} (hline : '\n' ∉ line)
    (hknown : (References.ofNames current previous).recognizes line = true) (rest : Text) :
    step? (References.ofNames current previous) (line ++ '\n' :: rest) = some rest := by
  have hne := References.trimStart_ne_nil_of_recognizes hknown
  have hhead := headLine_line hline hne rest
  rw [← References.recognizes_trim, ← hhead] at hknown
  have hstep := step?_of_recognizes ?_ hknown
  · rw [hstep, afterLine?_trimStart hline hne, Option.getD_some]
  · intro hnil
    rw [hnil] at hknown
    exact References.trimStart_ne_nil_of_recognizes hknown rfl

theorem isGenerated_line {line : Text} (hline : '\n' ∉ line)
    (hknown : (References.ofNames current previous).recognizes line = true) :
    isGenerated (References.ofNames current previous) (line ++ ['\n']) = true := by
  have htrim := Text.trim_append_newline (References.trimStart_ne_nil_of_recognizes hknown)
  have hsingle : '\n' ∉ Text.trim line := fun h => hline ((Text.trim_isInfix line).subset h)
  rw [isGenerated, htrim, References.recognizes_trim, hknown]
  simpa using hsingle

theorem afterConflict?_conflict (c : Conflict (References.ofNames current previous)) (rest : Text) :
    afterConflict? (References.ofNames current previous) ((LeadingItem.conflict c).text ++ rest) =
      some rest := by
  have hlabels := c.single_lines
  simp only [List.mem_cons, List.not_mem_nil, or_false, forall_eq_or_imp, forall_eq] at hlabels
  obtain ⟨hourLabel, hours, hmiddleLabel, htheirs, htheirLabel⟩ := hlabels
  have hopening : '\n' ∉ conflictOpening ++ c.ourLabel := List.not_mem_append (by decide) hourLabel
  have hdivider : '\n' ∉ conflictDivider ++ c.middleLabel :=
    List.not_mem_append (by decide) hmiddleLabel
  have hclosing : '\n' ∉ conflictClosing ++ c.theirLabel :=
    List.not_mem_append (by decide) htheirLabel
  have htext : (LeadingItem.conflict c).text ++ rest =
      conflictOpening ++ c.ourLabel ++ '\n' :: (c.ours ++ '\n' :: (conflictDivider ++
        (c.middleLabel ++ '\n' :: (c.theirs ++ '\n' :: (conflictClosing ++
          (c.theirLabel ++ '\n' :: rest)))))) := by
    simp [LeadingItem.text, LeadingItem.lines]
  rw [htext, afterConflict?, Text.afterLine?_append_newline hopening, Option.bind_some,
    Text.cutAt?_next_line (by decide) c.ours_undivided, Option.bind_some]
  simp only []
  rw [← List.append_assoc conflictDivider, Text.afterLine?_append_newline hdivider,
    Option.bind_some, Text.cutAt?_next_line (by decide) c.theirs_unclosed, Option.bind_some]
  simp only []
  rw [isGenerated_line hours c.ours_known, isGenerated_line htheirs c.theirs_known,
    ← List.append_assoc, Text.afterLine?_append_newline hclosing]
  rfl

theorem step?_conflict (c : Conflict (References.ofNames current previous)) (rest : Text) :
    step? (References.ofNames current previous) ((LeadingItem.conflict c).text ++ rest) =
      some rest := by
  have hourLabel : '\n' ∉ c.ourLabel := c.single_lines _ (by simp)
  have hopening : '\n' ∉ conflictOpening ++ c.ourLabel := List.not_mem_append (by decide) hourLabel
  have htext : ∃ more, (LeadingItem.conflict c).text ++ rest =
      conflictOpening ++ c.ourLabel ++ '\n' :: more := by
    exact ⟨_, by simp [LeadingItem.text, LeadingItem.lines]; rfl⟩
  obtain ⟨more, htext⟩ := htext
  have hafter := afterConflict?_conflict c rest
  rw [htext] at hafter ⊢
  have hstart : Text.trimStart (conflictOpening ++ c.ourLabel) = conflictOpening ++ c.ourLabel :=
    Text.trimStart_cons (by decide) _
  have hne : Text.trimStart (conflictOpening ++ c.ourLabel) ≠ [] := by
    rw [hstart]
    exact List.cons_ne_nil _ _
  have hhead := headLine_line hopening hne more
  have hunknown : (References.ofNames current previous).recognizes
      (headLine (conflictOpening ++ c.ourLabel ++ '\n' :: more)) = false := by
    rw [hhead, References.recognizes_trim, c.opening_unknown]
  have hsign : conflictOpening.isPrefixOf
      (headLine (conflictOpening ++ c.ourLabel ++ '\n' :: more)) = true := by
    have hlast : conflictOpening = "<<<<<<".toList ++ ['<'] := by decide
    rw [hhead, Text.trim, hstart, List.isPrefixOf_iff_prefix, hlast]
    exact Text.prefix_trimEnd (by decide) (List.prefix_append _ _)
  have htrim : Text.trimStart (conflictOpening ++ c.ourLabel ++ '\n' :: more) =
      conflictOpening ++ c.ourLabel ++ '\n' :: more := by
    rw [Text.trimStart_append hne, hstart]
  rw [step?_of_opening (by rw [htrim]; simp) hunknown hsign, htrim, hafter]

/-- An item that is not blank takes one round. -/
theorem step?_item {item : LeadingItem (References.ofNames current previous)}
    (hitem : item.isBlank = false) (rest : Text) :
    step? (References.ofNames current previous) (item.text ++ rest) = some rest := by
  cases item with
  | blank line hline hblanks => cases hitem
  | known line hline hknown =>
      have htext : (LeadingItem.known line hline hknown).text ++ rest = line ++ '\n' :: rest := by
        simp [LeadingItem.text, LeadingItem.lines]
      rw [htext]
      exact step?_known hline hknown rest
  | conflict c => exact step?_conflict c rest

/-- A blank line is taken by the round of what follows it. -/
theorem step?_blank_item {item : LeadingItem (References.ofNames current previous)}
    (hitem : item.isBlank = true) (rest : Text) :
    step? (References.ofNames current previous) (item.text ++ rest) =
      step? (References.ofNames current previous) rest := by
  cases item with
  | blank line hline hblanks =>
      apply step?_blanks_append
      have hnewline : Text.isBlank '\n' = true := by decide
      simpa [LeadingItem.text, LeadingItem.lines, hnewline, or_imp, forall_and] using hblanks
  | known line hline hknown => cases hitem
  | conflict c => cases hitem

/-- The items up to the first one that is not blank take one round, and what is left are the other
items. -/
theorem purge_items {items : List (LeadingItem (References.ofNames current previous))}
    (hlast : ∀ item ∈ items.getLast?, item.isBlank = false) (hne : items ≠ []) (body : Text) :
    ∃ rest, step? (References.ofNames current previous)
        (items.flatMap LeadingItem.text ++ body) = some rest ∧
      purge (References.ofNames current previous) rest =
        purge (References.ofNames current previous) body := by
  induction items with
  | nil => exact absurd rfl hne
  | cons item items ih =>
      have hlater : ∀ item' ∈ items.getLast?, item'.isBlank = false := by
        intro item' hitem'
        apply hlast
        rw [Option.mem_def] at hitem' ⊢
        rw [List.getLast?_cons, hitem', Option.getD_some]
      rw [List.flatMap_cons, List.append_assoc]
      cases hblank : item.isBlank with
      | true =>
          have hmore : items ≠ [] := by
            rintro rfl
            rw [hlast item rfl] at hblank
            cases hblank
          obtain ⟨rest, hstep, hrest⟩ := ih hlater hmore
          exact ⟨rest, (step?_blank_item hblank _).trans hstep, hrest⟩
      | false =>
          refine ⟨_, step?_item hblank _, ?_⟩
          by_cases hmore : items = []
          · rw [hmore]
            rfl
          · obtain ⟨rest, hstep, hrest⟩ := ih hlater hmore
            rw [purge_of_step? hstep, hrest]

end

end Purge

open Purge in
/-- Generated lines, blank lines and conflicts between generated lines are all removed from the start
of a text, whatever the body after them is, as long as the last of them is not a blank line. -/
theorem purge_leading_items (current : Text) (previous : List Text)
    (items : List (LeadingItem (References.ofNames current previous)))
    (hlast : ∀ item ∈ items.getLast?, item.isBlank = false) (body : Text) :
    purge (References.ofNames current previous) (items.flatMap LeadingItem.text ++ body) =
      purge (References.ofNames current previous) body := by
  by_cases hne : items = []
  · rw [hne]
    rfl
  · obtain ⟨rest, hstep, hrest⟩ := purge_items hlast hne body
    rw [purge_of_step? hstep, hrest]

/-- A head that was merged after the aggregator got a new name. -/
def mergedHead :
    List (Purge.LeadingItem (References.ofNames "imports.js".toList ["old/all.js".toList])) :=
  [.blank "  ".toList (by decide) (List.all_eq_true.1 (by decide)),
    .known "import \x7ba\x7d from './../all.js'; // generated".toList (by decide) (by decide),
    .blank [] (by decide) (List.forall_mem_nil _),
    .conflict
      { ourLabel := " ours ======= ".toList
        ours := "import \x7ba, b\x7d from './../imports.js';".toList
        middleLabel := []
        theirs := "\timport \x7ba, c\x7d from './../old/all.js';".toList
        theirLabel := " theirs".toList
        single_lines := by decide
        opening_unknown := by decide
        ours_known := by decide
        ours_undivided := by rw [← Text.hasPart_iff_infix]; decide
        theirs_known := by decide
        theirs_unclosed := by rw [← Text.hasPart_iff_infix]; decide }]

/-- A body that has an open conflict of its own. -/
def conflictedBody : Text :=
  "<<<<<<< ours\nshow(a);\n=======\nimport \x7bc\x7d from './imports.js';\n>>>>>>> theirs\n".toList

theorem purge_leading_items_mergedHead :
    (∀ item ∈ mergedHead.getLast?, item.isBlank = false) ∧
      purge (References.ofNames "imports.js".toList ["old/all.js".toList])
        (mergedHead.flatMap Purge.LeadingItem.text ++ conflictedBody) = conflictedBody := by
  have hlast : ∀ item ∈ mergedHead.getLast?, item.isBlank = false := by
    rintro item ⟨⟩
    rfl
  have hbody : purge (References.ofNames "imports.js".toList ["old/all.js".toList]) conflictedBody =
      conflictedBody := purge_of_step?_none (by decide)
  exact ⟨hlast, (purge_leading_items _ _ mergedHead hlast conflictedBody).trans hbody⟩

end ImportSync
