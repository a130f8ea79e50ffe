import ImportSync.Syntax.Parser

/-!
The tokens of a text that was put together from words, quoted texts and marks. A word is read to its end
where something follows that no word goes on with, a quoted text to its closing quote, and blanks before
a token are passed over; in each case the text that follows is left as it is.
-/

namespace ImportSync.Syntax

open ImportSync.Text

/-! ### Characters -/

/-- The characters that may stand between tokens, by their code points. -/
def gapCodes : List Nat :=
  [0x09, 0x0A, 0x0B, 0x0C, 0x0D, 0x20, 0x85, 0xA0, 0x1680, 0x2000, 0x2001, 0x2002, 0x2003, 0x2004,
   0x2005, 0x2006, 0x2007, 0x2008, 0x2009, 0x200A, 0x200B, 0x2028, 0x2029, 0x202F, 0x205F, 0x3000,
   0xFEFF]

theorem mem_gapCodes {c : Char} (h : isLineEnd c = true ∨ isSpace c = true) :
    c.toNat ∈ gapCodes := by
  have hchar {d : Char} (hcd : c = d) (hd : d.toNat ∈ gapCodes) : c.toNat ∈ gapCodes := hcd ▸ hd
  rcases h with h | h
  · simp only [isLineEnd, Bool.or_eq_true, beq_iff_eq] at h
    rcases h with ((h | h) | h) | h
    all_goals exact hchar h (by decide)
  · simp only [isSpace, Bool.or_eq_true, beq_iff_eq] at h
    rcases h with (h | h) | h
    · exact hchar h (by decide)
    · exact hchar h (by decide)
    · simp only [inRanges, List.any_cons, List.any_nil, Bool.or_eq_true, Bool.and_eq_true,
        decide_eq_true_eq, Bool.or_false] at h
      simp only [gapCodes, List.mem_cons, List.not_mem_nil, or_false]
      omega

theorem not_isNameStart_of_mem_gapCodes {c : Char} (h : c.toNat ∈ gapCodes) :
    isNameStart c = false := by
  have hall : ∀ n ∈ gapCodes, isNameStart (Char.ofNat n) = false := by decide +kernel
  have hc := hall c.toNat h
  rwa [Char.ofNat_toNat] at hc

theorem not_gap_of_isNameStart {c : Char} (h : isNameStart c = true) :
    c.toNat ∉ gapCodes ∧ c ≠ '/' := by
  constructor
  · intro hgap
    rw [not_isNameStart_of_mem_gapCodes hgap] at h
    cases h
  · rintro rfl
    exact absurd h (by decide)

theorem isNamePart_of_isNameStart {c : Char} (h : isNameStart c = true) : isNamePart c = true := by
  rw [isNameStart] at h
  rw [isNamePart]
  split at h
  next hlow =>
    rw [if_pos hlow]
    simp only [Bool.or_eq_true] at h ⊢
    rcases h with (h | h) | h
    · exact .inl (.inl (by simp [Char.isAlphanum, h]))
    · exact .inl (.inr h)
    · exact .inr h
  next hhigh =>
    rw [if_neg hhigh]
    simp [h]

/-- What may follow a name: nothing, or a character that does not go on with it. -/
def EndsName (rest : Text) : Prop :=
  ∀ c ∈ rest.head?, isNamePart c = false ∧ c ≠ '\\'

theorem scanNameTail_append {w rest : Text} (hw : w.all isNamePart = true) (hrest : EndsName rest) :
    scanNameTail 0 (w ++ rest) = some (w, false, rest) := by
  induction w with
  | nil =>
      cases rest with
      | nil => rfl
      | cons c rest =>
          obtain ⟨hpart, hescape⟩ := hrest c rfl
          simp [scanNameTail, hpart, hescape]
  | cons c w ih =>
      simp only [List.all_cons, Bool.and_eq_true] at hw
      have hescape : c ≠ '\\' := by
        rintro rfl
        exact absurd hw.1 (by decide)
      simp [scanNameTail, hescape, hw.1, ih hw.2]

/-! ### Tokens -/

/-- A word is read up to where it ends. -/
theorem scanToken_word {w rest : Text} (hw : isIdentifier w = true) (hrest : EndsName rest) :
    scanToken (w ++ rest) = (.word (String.ofList w) false, rest) := by
  cases w with
  | nil => simp [isIdentifier] at hw
  | cons c w =>
      simp only [isIdentifier, Bool.and_eq_true] at hw
      have hall : (c :: w).all isNamePart = true := by
        simp [isNamePart_of_isNameStart hw.1, hw.2]
      have htail := scanNameTail_append hall hrest
      have hname : scanName (c :: w ++ rest) = some (String.ofList (c :: w), false, rest) := by
        rw [scanName, htail]
        simp only [hw.1, if_true]
      rw [List.cons_append] at hname ⊢
      simp [scanToken, hw.1, hname]

/-- A text that can be quoted as it stands. -/
def IsQuotable (t : Text) : Prop :=
  ∀ c ∈ t, c ≠ '\'' ∧ c ≠ '\\' ∧ c ≠ '\n' ∧ c ≠ '\r'

instance : DecidablePred IsQuotable :=
  fun t => List.decidableBAll _ t

theorem scanQuoted_append {t : Text} (h : IsQuotable t) (rest : Text) :
    scanQuoted '\'' 0 (t ++ '\'' :: rest) = some (t.map .char, rest) := by
  induction t with
  | nil => simp [scanQuoted]
  | cons c t ih =>
      obtain ⟨hquote, hescape, hnewline, hreturn⟩ := h c (by simp)
      have htail := ih fun d hd => h d (by simp [hd])
      simp [scanQuoted, hquote, hescape, hnewline, hreturn, htail]

theorem joinHalves_map_char (t : Text) : Unit16.joinHalves (t.map .char) = t.map .char := by
  induction t with
  | nil => rfl
  | cons c t ih => simp [Unit16.joinHalves, ih]

/-- Where a text has a character that no gap has and no comment starts with, its token starts. -/
theorem skipGap_of_not_gap {c : Char} (hgap : c.toNat ∉ gapCodes) (hslash : c ≠ '/')
    (lineEnded : Bool) (rest : Text) :
    skipGap false .blanks lineEnded (c :: rest) = some (lineEnded, c :: rest) := by
  have hend : isLineEnd c = false := Bool.eq_false_iff.2 fun h => hgap (mem_gapCodes (.inl h))
  have hspace : isSpace c = false := Bool.eq_false_iff.2 fun h => hgap (mem_gapCodes (.inr h))
  have hline : "//".toList = ['/', '/'] := by decide
  have hblock : "/*".toList = ['/', '*'] := by decide
  rw [skipGap.eq_def]
  simp [hend, hspace, hline, hblock, hslash.symm]

theorem skipGap_space (lineEnded : Bool) (t : Text) :
    skipGap false .blanks lineEnded (' ' :: t) = skipGap false .blanks lineEnded t := by
  rw [skipGap.eq_def]
  rfl

theorem skipGap_newline (lineEnded : Bool) (t : Text) :
    skipGap false .blanks lineEnded ('\n' :: t) = skipGap false .blanks true t := by
  rw [skipGap.eq_def]
  rfl

/-- The text starts with a token, perhaps after blanks, and goes on with the rest. -/
def Starts (t : Text) (token : Token) (rest : Text) : Prop :=
  ∃ start, (∀ lineEnded, ∃ ended, skipGap false .blanks lineEnded t = some (ended, start)) ∧
    scanToken start = (token, rest)

theorem at_of_skipGap {lineEnded ended : Bool} {t start : Text}
    (h : skipGap false .blanks lineEnded t = some (ended, start)) :
    Cursor.at false lineEnded t = {
      afterLineEnd := ended
      token := (scanToken start).1
      start
      rest := (scanToken start).2
      spelled := isSpelled_scanToken start } := by
  rw [Cursor.at.eq_def]
  simp only [h]

namespace Starts

variable {t rest : Text} {token : Token}

theorem token_eq (h : Starts t token rest) (lineEnded : Bool) :
    (Cursor.at false lineEnded t).token = token := by
  obtain ⟨start, hskip, hscan⟩ := h
  obtain ⟨ended, hskip⟩ := hskip lineEnded
  rw [at_of_skipGap hskip]
  exact congrArg Prod.fst hscan

theorem rest_eq (h : Starts t token rest) (lineEnded : Bool) :
    (Cursor.at false lineEnded t).rest = rest := by
  obtain ⟨start, hskip, hscan⟩ := h
  obtain ⟨ended, hskip⟩ := hskip lineEnded
  rw [at_of_skipGap hskip]
  exact congrArg Prod.snd hscan

theorem space (h : Starts t token rest) : Starts (' ' :: t) token rest := by
  obtain ⟨start, hskip, hscan⟩ := h
  refine ⟨start, fun lineEnded => ?_, hscan⟩
  rw [skipGap_space]
  exact hskip lineEnded

theorem at_space (h : Starts t token rest) (lineEnded : Bool) :
    Cursor.at false lineEnded (' ' :: t) = Cursor.at false lineEnded t := by
  obtain ⟨start, hskip, -⟩ := h
  obtain ⟨ended, hskip⟩ := hskip lineEnded
  rw [at_of_skipGap hskip, at_of_skipGap ((skipGap_space lineEnded t).trans hskip)]

theorem at_newline (h : Starts t token rest) (lineEnded : Bool) :
    Cursor.at false lineEnded ('\n' :: t) = Cursor.at false true t := by
  obtain ⟨start, hskip, -⟩ := h
  obtain ⟨ended, hskip⟩ := hskip true
  rw [at_of_skipGap hskip, at_of_skipGap ((skipGap_newline lineEnded t).trans hskip)]

theorem newline (h : Starts t token rest) : Starts ('\n' :: t) token rest := by
  obtain ⟨start, hskip, hscan⟩ := h
  refine ⟨start, fun lineEnded => ?_, hscan⟩
  rw [skipGap_newline]
  exact hskip true

end Starts

theorem starts_of_scanToken {c : Char} {t rest : Text} {token : Token} (hgap : c.toNat ∉ gapCodes)
    (hslash : c ≠ '/') (h : scanToken (c :: t) = (token, rest)) : Starts (c :: t) token rest :=
  ⟨c :: t, fun lineEnded => ⟨lineEnded, skipGap_of_not_gap hgap hslash lineEnded t⟩, h⟩

theorem starts_word {w rest : Text} (hw : isIdentifier w = true) (hrest : EndsName rest) :
    Starts (w ++ rest) (.word (String.ofList w) false) rest := by
  have hscan := scanToken_word hw hrest
  cases w with
  | nil => simp [isIdentifier] at hw
  | cons c w =>
      simp only [isIdentifier, Bool.and_eq_true] at hw
      obtain ⟨hgap, hslash⟩ := not_gap_of_isNameStart hw.1
      exact starts_of_scanToken hgap hslash hscan

theorem endsName_cons {c : Char} (h : isNamePart c = false ∧ c ≠ '\\') (rest : Text) :
    EndsName (c :: rest) := by
  rintro d ⟨⟩
  exact h

/-- A word with a blank after it. -/
theorem starts_keyword {w : String} {t : Text} (hw : String.ofList t = w)
    (ht : isIdentifier t = true) (rest : Text) :
    Starts (t ++ ' ' :: rest) (.word w false) (' ' :: rest) :=
  hw ▸ starts_word ht (endsName_cons (by decide) rest)

theorem starts_string {t : Text} (h : IsQuotable t) (rest : Text) :
    Starts ('\'' :: (t ++ '\'' :: rest)) (.string (t.map .char)) rest := by
  refine starts_of_scanToken (by decide) (by decide) ?_
  have hquoted := scanQuoted_append h rest
  have hstart : isNameStart '\'' = false := by decide
  have hdigit : '\''.isDigit = false := by decide
  simp [scanToken, hquoted, joinHalves_map_char, hstart, hdigit]

theorem starts_lbrace (rest : Text) : Starts ('{' :: rest) (.symbol .lbrace) rest :=
  starts_of_scanToken (by decide) (by decide) rfl

theorem starts_rbrace (rest : Text) : Starts ('}' :: rest) (.symbol .rbrace) rest :=
  starts_of_scanToken (by decide) (by decide) rfl

theorem starts_comma (rest : Text) : Starts (',' :: rest) (.symbol .comma) rest :=
  starts_of_scanToken (by decide) (by decide) rfl

theorem starts_semicolon (rest : Text) : Starts (';' :: rest) (.symbol .semicolon) rest :=
  starts_of_scanToken (by decide) (by decide) rfl

end ImportSync.Syntax
