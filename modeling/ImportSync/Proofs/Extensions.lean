import ImportSync.Proofs.Paths
import ImportSync.Settings.Basic

/-!
Extensions and lower case. A path and an extension are lower-cased each on its own, so that a path which
ends in an extension as it stands has this extension if lower-casing does not depend on what stands
before. It depends on it for one character only: a capital sigma at the end of a word becomes a final
sigma, and a dot does not end a word. So a path misses its own extension exactly if the extension is such
a sigma, by itself or among characters that do not count, and the stem ends in a cased character.
-/

namespace ImportSync

namespace Text

/-! ### Characters that count for the case -/

theorem meetsCased_cons_of_ignorable {c : Char} (h : isCaseIgnorable c = true) (t : Text) :
    meetsCased (c :: t) = meetsCased t := by
  rw [meetsCased, meetsCased, List.dropWhile_cons_of_pos h]

theorem meetsCased_cons_of_counting {c : Char} (h : isCaseIgnorable c = false) (t : Text) :
    meetsCased (c :: t) = isCased c := by
  rw [meetsCased, List.dropWhile_cons_of_neg (by simp [h])]

/-- Whether the first character that is not case-ignorable is a capital sigma with which a word may end.
What stands before the text decides about its lower-case form. -/
def opensWithSigma (t : Text) : Bool :=
  match t.dropWhile isCaseIgnorable with
  | c :: rest => c == 'Σ' && !meetsCased rest
  | [] => false

theorem opensWithSigma_cons_of_ignorable {c : Char} (h : isCaseIgnorable c = true) (t : Text) :
    opensWithSigma (c :: t) = opensWithSigma t := by
  rw [opensWithSigma, opensWithSigma, List.dropWhile_cons_of_pos h]

theorem opensWithSigma_cons_of_counting {c : Char} (h : isCaseIgnorable c = false) (t : Text) :
    opensWithSigma (c :: t) = (c == 'Σ' && !meetsCased t) := by
  rw [opensWithSigma, List.dropWhile_cons_of_neg (by simp [h])]

theorem sigma_mem_of_opensWithSigma {t : Text} (h : opensWithSigma t = true) : 'Σ' ∈ t := by
  rw [opensWithSigma] at h
  split at h
  next c rest hdrop =>
    rw [Bool.and_eq_true, beq_iff_eq] at h
    have hmem : c ∈ t.dropWhile isCaseIgnorable := hdrop ▸ List.mem_cons_self
    exact h.1 ▸ (List.dropWhile_suffix _).subset hmem
  next => cases h

theorem isCaseIgnorable_sigma : isCaseIgnorable 'Σ' = false := by decide +kernel

theorem isCaseIgnorable_dot : isCaseIgnorable '.' = true := by decide +kernel

/-! ### Lower case after other text -/

theorem lowerChar_ne_nil (c : Char) : lowerChar c ≠ [] := by
  rw [lowerChar]
  split
  · simp
  · split
    · simp
    · split <;> simp

/-- The lower-case form of a character with some text before and after it. -/
def lowerBetween (before : Text) (c : Char) (rest : Text) : Text :=
  if c = 'Σ' then
    if meetsCased before && !meetsCased rest then ['ς'] else ['σ']
  else
    lowerChar c

theorem lowercaseAfter_cons (before : Text) (c : Char) (rest : Text) :
    lowercaseAfter before (c :: rest) =
      lowerBetween before c rest ++ lowercaseAfter (c :: before) rest := rfl

theorem length_lowerBetween (before before' : Text) (c : Char) (rest : Text) :
    (lowerBetween before c rest).length = (lowerBetween before' c rest).length := by
  rw [lowerBetween, lowerBetween]
  split
  · split <;> split <;> rfl
  · rfl

theorem lowerBetween_sigma_eq_iff (before before' rest : Text) :
    lowerBetween before 'Σ' rest = lowerBetween before' 'Σ' rest ↔
      (meetsCased rest = false → meetsCased before = meetsCased before') := by
  rw [lowerBetween, lowerBetween, if_pos rfl, if_pos rfl]
  cases meetsCased before <;> cases meetsCased before' <;> cases meetsCased rest <;> decide

theorem length_lowercaseAfter (before before' t : Text) :
    (lowercaseAfter before t).length = (lowercaseAfter before' t).length := by
  induction t generalizing before before' with
  | nil => rfl
  | cons c rest ih =>
      simp only [lowercaseAfter_cons, List.length_append]
      rw [length_lowerBetween before before', ih (c :: before) (c :: before')]

/-- The front of a text is what stands before the rest. -/
theorem lowercaseAfter_append (before front rest : Text) :
    ∃ lowered, lowercaseAfter before (front ++ rest) =
      lowered ++ lowercaseAfter (front.reverse ++ before) rest := by
  induction front generalizing before with
  | nil => exact ⟨[], rfl⟩
  | cons c front ih =>
      obtain ⟨lowered, hlowered⟩ := ih (c :: before)
      refine ⟨lowerBetween before c (front ++ rest) ++ lowered, ?_⟩
      rw [List.cons_append, lowercaseAfter_cons, hlowered]
      simp

/-- What stands before a text matters to its lower-case form only through a sigma that it opens with. -/
theorem lowercaseAfter_eq_iff (before before' t : Text) :
    lowercaseAfter before t = lowercaseAfter before' t ↔
      (opensWithSigma t = true → meetsCased before = meetsCased before') := by
  induction t generalizing before before' with
  | nil => simp [lowercaseAfter, opensWithSigma]
  | cons c rest ih =>
      have hsplit : lowercaseAfter before (c :: rest) = lowercaseAfter before' (c :: rest) ↔
          lowerBetween before c rest = lowerBetween before' c rest ∧
            lowercaseAfter (c :: before) rest = lowercaseAfter (c :: before') rest := by
        rw [lowercaseAfter_cons, lowercaseAfter_cons]
        exact ⟨fun h => List.append_inj h (length_lowerBetween before before' c rest),
          fun ⟨hchar, hrest⟩ => by rw [hchar, hrest]⟩
      rw [hsplit, ih (c :: before) (c :: before')]
      by_cases hsigma : c = 'Σ'
      · -- from here on the sigma itself is the cased character before
        subst hsigma
        simp only [lowerBetween_sigma_eq_iff, opensWithSigma_cons_of_counting isCaseIgnorable_sigma,
          meetsCased_cons_of_counting isCaseIgnorable_sigma]
        simp
      · have hsame : lowerBetween before c rest = lowerBetween before' c rest := by
          rw [lowerBetween, lowerBetween, if_neg hsigma, if_neg hsigma]
        simp only [hsame, true_and]
        cases hc : isCaseIgnorable c with
        | true => simp only [meetsCased_cons_of_ignorable hc, opensWithSigma_cons_of_ignorable hc]
        | false => simp [meetsCased_cons_of_counting hc, opensWithSigma_cons_of_counting hc, hsigma]

theorem lowercase_ne_nil {t : Text} (h : t ≠ []) : lowercase t ≠ [] := by
  cases t with
  | nil => exact absurd rfl h
  | cons c rest =>
      rw [lowercase, lowercaseAfter_cons, lowerBetween]
      split
      · split <;> simp
      · simp [lowerChar_ne_nil]

theorem eq_dot_of_ofNat {n : Nat} (h : '.' = Char.ofNat n) : n = 46 := by
  have hcode : 46 = (Char.ofNat n).toNat := congrArg Char.toNat h
  by_cases hvalid : n.isValidChar
  · rw [Char.ofNat, dif_pos hvalid] at hcode
    exact hcode.symm
  · rw [Char.ofNat, dif_neg hvalid] at hcode
    exact absurd hcode (by decide)

/-- Lower-casing makes no dots. -/
theorem eq_dot_of_mem_lowerChar {c : Char} (h : '.' ∈ lowerChar c) : c = '.' := by
  rw [lowerChar] at h
  split at h
  next hascii =>
    have hsmall : ∀ n < 0x80, (Char.ofNat n).toLower = '.' → n = 46 := by decide
    have hcode := hsmall c.toNat hascii
    rw [Char.ofNat_toNat] at hcode
    rw [← Char.ofNat_toNat c, hcode (List.mem_singleton.1 h).symm]
  next =>
    split at h
    next => exact absurd h (by decide)
    next =>
      split at h
      next n hn =>
        -- every run of the table leads beyond the dot
        have hruns : ∀ r ∈ caseRuns, 46 < (r.first : Int) + r.offset := by decide +kernel
        obtain ⟨r, hr, rfl⟩ := Option.map_eq_some_iff.1 hn
        have hbeyond := hruns r (List.mem_of_find?_eq_some hr)
        have hfirst := List.find?_some hr
        simp only [Bool.and_eq_true, decide_eq_true_eq] at hfirst
        have hcode := eq_dot_of_ofNat (List.mem_singleton.1 h)
        simp only [Int.ofNat_eq_natCast] at hcode
        omega
      next => exact (List.mem_singleton.1 h).symm

theorem dot_mem_of_lowercaseAfter {before t : Text} (h : '.' ∈ lowercaseAfter before t) : '.' ∈ t := by
  induction t generalizing before with
  | nil => exact h
  | cons c rest ih =>
      rw [lowercaseAfter_cons, lowerBetween] at h
      rcases List.mem_append.1 h with h | h
      · split at h
        · split at h <;> exact absurd h (by decide)
        · exact eq_dot_of_mem_lowerChar h ▸ List.mem_cons_self
      · exact List.mem_cons_of_mem c (ih h)

/-- Slashes and backslashes are alike: neither is cased, and a word ends before either. -/
theorem meetsCased_map_backslash (t : Text) :
    meetsCased (t.map fun c => if c = '\\' then '/' else c) = meetsCased t := by
  have hslash : isCaseIgnorable '/' = false ∧ isCased '/' = false := by decide +kernel
  have hback : isCaseIgnorable '\\' = false ∧ isCased '\\' = false := by decide +kernel
  induction t with
  | nil => rfl
  | cons c t ih =>
      rw [List.map_cons]
      by_cases hc : c = '\\'
      · rw [if_pos hc, hc, meetsCased_cons_of_counting hslash.1, meetsCased_cons_of_counting hback.1,
          hslash.2, hback.2]
      · rw [if_neg hc]
        cases hignorable : isCaseIgnorable c with
        | true => rw [meetsCased_cons_of_ignorable hignorable, meetsCased_cons_of_ignorable hignorable, ih]
        | false => rw [meetsCased_cons_of_counting hignorable, meetsCased_cons_of_counting hignorable]

/-- After a stem and a dot, a sigma that the extension opens with becomes a final one. By itself it does
not. -/
def TurnsFinalAfter (stem extension : Text) : Prop :=
  meetsCased stem.reverse = true ∧ opensWithSigma extension = true

theorem suffix_lowercase_iff (stem extension : Text) :
    '.' :: lowercase extension <:+ lowercase (stem ++ '.' :: extension) ↔
      ¬ TurnsFinalAfter stem extension := by
  obtain ⟨lowered, hlowered⟩ := lowercaseAfter_append [] stem ('.' :: extension)
  have hpath : lowercase (stem ++ '.' :: extension) =
      lowered ++ '.' :: lowercaseAfter ('.' :: stem.reverse) extension := by
    rw [lowercase, hlowered, List.append_nil]
    rfl
  -- what ends the path is as long as the extension by itself
  have hlength := length_lowercaseAfter [] ('.' :: stem.reverse) extension
  have hsuffix : '.' :: lowercase extension <:+ lowercase (stem ++ '.' :: extension) ↔
      lowercase extension = lowercaseAfter ('.' :: stem.reverse) extension := by
    rw [hpath]
    constructor
    · intro h
      have hends := List.suffix_of_suffix_length_le h (List.suffix_append lowered _)
        (by simp [lowercase, hlength])
      exact (List.cons.inj (hends.eq_of_length (by simp [lowercase, hlength]))).2
    · intro h
      rw [h]
      exact List.suffix_append _ _
  rw [hsuffix, lowercase, lowercaseAfter_eq_iff, meetsCased_cons_of_ignorable isCaseIgnorable_dot,
    TurnsFinalAfter]
  cases meetsCased stem.reverse <;> simp [meetsCased]

end Text

open Text

/-! ### Paths that end in an extension -/

theorem dropWhile_dots {extension : Text} (hdot : extension.head? ≠ some '.') (dots : Nat) :
    (List.replicate dots '.' ++ extension).dropWhile (· == '.') = extension := by
  induction dots with
  | zero =>
      cases extension with
      | nil => rfl
      | cons c rest =>
          have hc : c ≠ '.' := by simpa using hdot
          exact List.dropWhile_cons_of_neg (by simpa using hc)
  | succ dots ih =>
      rw [List.replicate_succ, List.cons_append, List.dropWhile_cons_of_pos (by simp), ih]

namespace SourcePath

theorem dot_mem_of_hasExtension {m : SourcePath} {extension : Text}
    (h : m.hasExtension extension = true) : '.' ∈ m.text := by
  rw [hasExtension, Bool.and_eq_true, List.isSuffixOf_iff_suffix] at h
  exact dot_mem_of_lowercaseAfter (h.2.subset List.mem_cons_self)

theorem text_ofText_extension {extension : Text} (hne : extension ≠ []) (hslash : '/' ∉ extension)
    (hback : '\\' ∉ extension) (stem : Text) :
    (ofText (stem ++ '.' :: extension)).text =
      (stem.map fun c => if c = '\\' then '/' else c) ++ '.' :: extension := by
  have hplain : ('.' :: extension).map (fun c => if c = '\\' then '/' else c) = '.' :: extension :=
    Path.map_backslash (by simpa using hback)
  rw [ofText, Path.normalize, List.map_append, hplain]
  rcases List.eq_nil_or_concat extension with rfl | ⟨front, last, rfl⟩
  · exact absurd rfl hne
  · have hlast : last ≠ '/' := by
      rintro rfl
      simp at hslash
    simp [hlast]

/-- A path that ends in a dot and an extension as they stand has this extension, unless a sigma of it
turns final in the path. -/
theorem hasExtension_iff {extension : Text} (hne : extension ≠ [])
    (hdot : extension.head? ≠ some '.') (hslash : '/' ∉ extension) (hback : '\\' ∉ extension)
    (stem : Text) (dots : Nat) :
    (ofText (stem ++ '.' :: extension)).hasExtension (List.replicate dots '.' ++ extension) = true ↔
      ¬ TurnsFinalAfter stem extension := by
  have hwanted : (lowercase extension).isEmpty = false := by
    simpa using lowercase_ne_nil hne
  rw [hasExtension, text_ofText_extension hne hslash hback]
  simp only [dropWhile_dots hdot, hwanted, Bool.not_false, Bool.true_and, List.isSuffixOf_iff_suffix]
  rw [suffix_lowercase_iff, TurnsFinalAfter, TurnsFinalAfter, ← List.map_reverse,
    meetsCased_map_backslash]

end SourcePath

/-! ### Main statement -/

/-- A path that ends in a dot and an extension is found to have this extension, with any number of dots
given before it, except where a sigma of the extension turns final after the stem. So in all other cases,
and in all at once if there is no sigma, the file is a module if the extension is among those of modules,
and an asset if it is among those of assets and the file has no extension of modules. In the exceptional
case it is found under no list that spells the extension only as it stands. -/
theorem extension_found_unless_final_sigma (stem : Text) {extension : Text} (hne : extension ≠ [])
    (hdot : extension.head? ≠ some '.') (hslash : '/' ∉ extension) (hback : '\\' ∉ extension) :
    let m := SourcePath.ofText (stem ++ '.' :: extension)
    let spelled (dots : Nat) := List.replicate dots '.' ++ extension
    (∀ dots, m.hasExtension (spelled dots) = true ↔ ¬ TurnsFinalAfter stem extension) ∧
    ('Σ' ∉ extension → ¬ TurnsFinalAfter stem extension) ∧
    (¬ TurnsFinalAfter stem extension → ∀ dots,
      (∀ extensions, spelled dots ∈ extensions → m.hasAnyExtension extensions = true) ∧
      ∀ s : Settings,
        (spelled dots ∈ s.scriptExtensions → s.kindOf? m = some .script) ∧
        (spelled dots ∈ s.assetExtensions → m.hasAnyExtension s.scriptExtensions = false →
          s.kindOf? m = some .asset)) ∧
    (TurnsFinalAfter stem extension →
      ∀ extensions, (∀ e ∈ extensions, ∃ dots, e = spelled dots) →
        m.hasAnyExtension extensions = false) := by
  intro m spelled
  have hfound := SourcePath.hasExtension_iff hne hdot hslash hback stem
  have hany (hplain : ¬ TurnsFinalAfter stem extension) (dots : Nat) (extensions : List Text)
      (hmem : spelled dots ∈ extensions) : m.hasAnyExtension extensions = true :=
    List.any_eq_true.2 ⟨_, hmem, (hfound dots).2 hplain⟩
  refine ⟨hfound, fun hsigma hturns => hsigma (sigma_mem_of_opensWithSigma hturns.2),
    fun hplain dots => ⟨hany hplain dots, fun s => ⟨fun hscript => ?_, fun hasset hscript => ?_⟩⟩,
    fun hturns extensions hspelled => ?_⟩
  · rw [Settings.kindOf?, if_pos (hany hplain dots _ hscript)]
  · rw [Settings.kindOf?, if_neg (by simp [hscript]), if_pos (hany hplain dots _ hasset)]
  · refine List.any_eq_false.2 fun e he => ?_
    obtain ⟨dots, rfl⟩ := hspelled e he
    exact fun hextension => (hfound dots).1 hextension hturns

/-- Settings with a sigma as the extension of modules, and one before a letter as that of assets. -/
def sigmaSettings : Settings :=
  { Settings.ofRoot "/site".toList with
    scriptExtensions := ["..Σ".toList]
    assetExtensions := [".ΣX".toList] }

/-- A sigma alone turns final after a letter, so that the path misses it, and its file is left out. After
a digit it does not, and neither does a sigma before a letter. -/
theorem extension_found_unless_final_sigma_alone :
    sigmaSettings.kindOf? (.ofText "lib\\a.Σ".toList) = none ∧
    sigmaSettings.kindOf? (.ofText "lib\\1.Σ".toList) = some .script ∧
    sigmaSettings.kindOf? (.ofText "lib\\a.ΣX".toList) = some .asset := by
  obtain ⟨-, -, -, hmissed⟩ := @extension_found_unless_final_sigma "lib\\a".toList "Σ".toList
    (by decide) (by decide) (by decide) (by decide)
  obtain ⟨-, -, hscript, -⟩ := @extension_found_unless_final_sigma "lib\\1".toList "Σ".toList
    (by decide) (by decide) (by decide) (by decide)
  obtain ⟨-, -, hasset, -⟩ := @extension_found_unless_final_sigma "lib\\a".toList "ΣX".toList
    (by decide) (by decide) (by decide) (by decide)
  have hturns : TurnsFinalAfter "lib\\a".toList "Σ".toList :=
    ⟨by decide +kernel, by decide +kernel⟩
  have hdigit : ¬ TurnsFinalAfter "lib\\1".toList "Σ".toList :=
    fun h => absurd h.1 (by decide +kernel)
  have hletter : ¬ TurnsFinalAfter "lib\\a".toList "ΣX".toList :=
    fun h => absurd h.2 (by decide +kernel)
  have hunscripted := hmissed hturns sigmaSettings.scriptExtensions
    fun e he => ⟨2, List.eq_of_mem_singleton he⟩
  refine ⟨?_, ((hscript hdigit 2).2 sigmaSettings).1 (by decide),
    ((hasset hletter 1).2 sigmaSettings).2 (by decide) (by decide +kernel)⟩
  exact (if_neg (Bool.eq_false_iff.1 hunscripted)).trans (by decide +kernel)

end ImportSync
