import ImportSync.Aggregator.Basic
import ImportSync.Generated
import ImportSync.Proofs.Text
import Mathlib.Data.List.DropRight

/-!
What removing generated imports does to a text. A round that finds nothing leaves the text as it is,
so that what is left after all rounds is left alone by another removal; and a line that is recognised is
removed together with its end, whatever follows it.
-/

namespace ImportSync

/-! ### Rounds -/

theorem purge_of_step? {refs : References} {code rest : Text}
    (h : Purge.step? refs code = some rest) : purge refs code = purge refs rest := by
  rw [purge]
  split
  next rest' h' =>
    rw [h] at h'
    obtain rfl := Option.some.inj h'
    rfl
  next h' => simp [h] at h'

theorem purge_of_step?_none {refs : References} {code : Text} (h : Purge.step? refs code = none) :
    purge refs code = code := by
  rw [purge]
  split
  next rest' h' => simp [h] at h'
  next => rfl

/-- Nothing is left to remove. -/
theorem step?_purge (refs : References) (code : Text) :
    Purge.step? refs (purge refs code) = none := by
  induction code using purge.induct refs with
  | case1 code rest h _ ih =>
      rw [purge_of_step? h]
      exact ih
  | case2 code h =>
      rw [purge_of_step?_none h]
      exact h

theorem purge_purge (refs : References) (code : Text) :
    purge refs (purge refs code) = purge refs code :=
  purge_of_step?_none (step?_purge refs code)

theorem suffix_of_afterConflict? {refs : References} {text rest : Text}
    (h : Purge.afterConflict? refs text = some rest) : rest <:+ text := by
  simp only [Purge.afterConflict?, Option.bind_eq_some_iff] at h
  obtain ⟨ours, hours, ⟨_, separator⟩, hdivider, theirs, htheirs, ⟨_, close⟩, hclosing, h⟩ := h
  split at h
  · obtain rfl := Option.some.inj h
    have hseparator : separator <:+ text :=
      (Text.suffix_of_cutAt? hdivider).trans (Text.suffix_of_afterLine? hours)
    have hclose : close <:+ separator :=
      (Text.suffix_of_cutAt? hclosing).trans (Text.suffix_of_afterLine? htheirs)
    exact (Text.afterLine?_getD_suffix close).trans (hclose.trans hseparator)
  · cases h

theorem suffix_of_step? {refs : References} {code rest : Text}
    (h : Purge.step? refs code = some rest) : rest <:+ code := by
  have htrim : Text.trimStart code <:+ code := List.dropWhile_suffix _
  simp only [Purge.step?] at h
  split at h
  · cases h
  · split at h
    · obtain rfl := Option.some.inj h
      exact (Text.afterLine?_getD_suffix _).trans htrim
    · split at h
      · exact (suffix_of_afterConflict? h).trans htrim
      · cases h

/-- What is left is the end of the text. -/
theorem purge_suffix (refs : References) (code : Text) : purge refs code <:+ code := by
  induction code using purge.induct refs with
  | case1 code rest h _ ih =>
      rw [purge_of_step? h]
      exact ih.trans (suffix_of_step? h)
  | case2 code h =>
      refine ⟨[], ?_⟩
      rw [List.nil_append, purge_of_step?_none h]

theorem length_purge_le (refs : References) (code : Text) :
    (purge refs code).length ≤ code.length :=
  (purge_suffix refs code).length_le

/-- A round that removes something leaves another text. -/
theorem purge_ne_self {refs : References} {code rest : Text}
    (h : Purge.step? refs code = some rest) : purge refs code ≠ code := by
  intro heq
  have hle := length_purge_le refs rest
  have hlt := Purge.length_step?_lt h
  rw [← purge_of_step? h, heq] at hle
  omega

/-! ### The first line -/

theorem trimStart_trimStart (code : Text) :
    Text.trimStart (Text.trimStart code) = Text.trimStart code :=
  List.dropWhile_idempotent _ _

theorem headLine_trimStart (code : Text) : headLine (Text.trimStart code) = headLine code := by
  rw [headLine, trimStart_trimStart, headLine]

theorem headLine_append_newline {c d : Char} {mid : Text} (hc : Text.isBlank c = false)
    (hd : Text.isBlank d = false) (hline : '\n' ∉ c :: (mid ++ [d])) (body : Text) :
    headLine (c :: (mid ++ [d]) ++ '\n' :: body) = c :: (mid ++ [d]) := by
  rw [headLine, List.cons_append, Text.trimStart_cons hc, ← List.cons_append,
    Text.lineOf_append_newline hline, Text.trim_cons_concat hc hd]

theorem trimStart_ne_nil {code : Text} (h : headLine code ≠ []) : Text.trimStart code ≠ [] := by
  intro heq
  rw [headLine, heq] at h
  exact h rfl

theorem step?_of_recognizes {refs : References} {code : Text} (hne : headLine code ≠ [])
    (h : refs.recognizes (headLine code) = true) :
    Purge.step? refs code = some ((Text.afterLine? (Text.trimStart code)).getD []) := by
  have htrim : (Text.trimStart code).isEmpty = false := by simpa using trimStart_ne_nil hne
  simp [Purge.step?, headLine_trimStart, h, htrim]

theorem step?_of_not_recognizes {refs : References} {code : Text}
    (h : refs.recognizes (headLine code) = false)
    (hconflict : Purge.conflictOpening.isPrefixOf (headLine code) = false) :
    Purge.step? refs code = none := by
  simp [Purge.step?, headLine_trimStart, h, hconflict]

/-- A text whose first line does not open a conflict stays as it is exactly if that line is not
recognised. -/
theorem purge_eq_self_iff {refs : References} {code : Text} (hne : headLine code ≠ [])
    (hconflict : Purge.conflictOpening.isPrefixOf (headLine code) = false) :
    purge refs code = code ↔ refs.recognizes (headLine code) = false := by
  cases h : refs.recognizes (headLine code) with
  | true => simpa using purge_ne_self (step?_of_recognizes hne h)
  | false => simpa using purge_of_step?_none (step?_of_not_recognizes h hconflict)

/-! ### Import lines -/

theorem not_mem_nameList {c : Char} {names : List Text} (hcomma : c ∉ ", ".toList)
    (hnames : ∀ n ∈ names, c ∉ n) : c ∉ nameList names := by
  intro hmem
  rcases Text.mem_joinWith hmem with hmem | ⟨n, hn, hmem⟩
  · exact hcomma hmem
  · exact hnames n hn hmem

namespace ImportLine

/-- What stands before the source of an import. -/
def lead (names : List Text) : Text :=
  ['i', 'm', 'p', 'o', 'r', 't', ' ', '{'] ++ nameList names ++
    ['}', ' ', 'f', 'r', 'o', 'm', ' ', '\'']

theorem render_named (source : Text) (names : List Text) :
    (named source names).render = lead names ++ source ++ ['\'', ';'] := by
  have hopen : "import \x7b".toList = ['i', 'm', 'p', 'o', 'r', 't', ' ', '{'] := by decide
  have hfrom : "\x7d from '".toList = ['}', ' ', 'f', 'r', 'o', 'm', ' ', '\''] := by decide
  have hclose : "';".toList = ['\'', ';'] := by decide
  change "import \x7b".toList ++ nameList names ++ "\x7d from '".toList ++ source ++ "';".toList = _
  rw [hopen, hfrom, hclose, lead]

/-- An import starts and ends with characters that are not blank. -/
theorem render_named_ends (source : Text) (names : List Text) :
    ∃ mid, (named source names).render = 'i' :: (mid ++ [';']) := by
  rw [render_named, lead]
  refine ⟨['m', 'p', 'o', 'r', 't', ' ', '{'] ++ nameList names ++
    ['}', ' ', 'f', 'r', 'o', 'm', ' ', '\''] ++ source ++ ['\''], ?_⟩
  simp only [List.append_assoc, List.cons_append, List.nil_append]

/-- What stands before the source has a character only where the words around the names or a name
have it. -/
theorem not_mem_lead {c : Char} {names : List Text} (hwords : c ∉ lead [])
    (hcomma : c ∉ ", ".toList) (hnames : ∀ n ∈ names, c ∉ n) : c ∉ lead names := by
  have hlist : c ∉ nameList names := not_mem_nameList hcomma hnames
  rw [lead, List.mem_append, List.mem_append, not_or, not_or] at hwords ⊢
  exact ⟨⟨hwords.1.1, hlist⟩, hwords.2⟩

theorem newline_not_mem_render {source : Text} {names : List Text} (hsource : '\n' ∉ source)
    (hnames : ∀ n ∈ names, '\n' ∉ n) : '\n' ∉ (named source names).render := by
  have hlead : '\n' ∉ lead names := not_mem_lead (by decide) (by decide) hnames
  simp [render_named, hlead, hsource]

/-- The first line of a text that starts with an import is that import. -/
theorem headLine_of_ends {i : ImportLine} (hends : ∃ mid, i.render = 'i' :: (mid ++ [';']))
    (hline : '\n' ∉ i.render) (body : Text) : headLine (i.render ++ '\n' :: body) = i.render := by
  obtain ⟨mid, hmid⟩ := hends
  rw [hmid] at hline ⊢
  exact headLine_append_newline (by decide) (by decide) hline body

theorem headLine_render {source : Text} {names : List Text}
    (h : '\n' ∉ (named source names).render) (body : Text) :
    headLine ((named source names).render ++ '\n' :: body) = (named source names).render :=
  headLine_of_ends (render_named_ends source names) h body

theorem not_conflictOpening (source : Text) (names : List Text) :
    Purge.conflictOpening.isPrefixOf (named source names).render = false := by
  obtain ⟨mid, hmid⟩ := render_named_ends source names
  rw [hmid]
  rfl

theorem render_ne_nil (source : Text) (names : List Text) : (named source names).render ≠ [] := by
  simp [render_named, lead]

end ImportLine

/-- An import that is recognised is removed with its line end. -/
theorem purge_import_line {refs : References} {source : Text} {names : List Text}
    (hline : '\n' ∉ (ImportLine.named source names).render)
    (h : refs.recognizes (ImportLine.named source names).render = true) (body : Text) :
    purge refs ((ImportLine.named source names).render ++ '\n' :: body) = purge refs body := by
  have hhead := ImportLine.headLine_render hline body
  have hne := ImportLine.render_ne_nil source names
  rw [← hhead] at h hne
  have hstep := step?_of_recognizes hne h
  have htrim : Text.trimStart ((ImportLine.named source names).render ++ '\n' :: body) =
      (ImportLine.named source names).render ++ '\n' :: body := by
    obtain ⟨mid, hmid⟩ := ImportLine.render_named_ends source names
    rw [hmid, List.cons_append]
    exact Text.trimStart_cons (by decide) _
  rw [htrim, Text.afterLine?_append_newline hline, Option.getD_some] at hstep
  exact purge_of_step? hstep

/-- A text that is purged and then gets an import as its first line purges to the same as before
exactly if the import is recognised. -/
theorem purge_import_line_iff {refs : References} {source : Text} {names : List Text}
    (hline : '\n' ∉ (ImportLine.named source names).render) (code : Text) :
    purge refs ((ImportLine.named source names).render ++ '\n' :: purge refs code) =
        purge refs code ↔
      refs.recognizes (ImportLine.named source names).render = true := by
  have hhead := ImportLine.headLine_render hline (purge refs code)
  constructor
  · intro heq
    by_contra hnot
    rw [Bool.not_eq_true, ← hhead] at hnot
    have hself := purge_of_step?_none (step?_of_not_recognizes hnot
      (by rw [hhead]; exact ImportLine.not_conflictOpening source names))
    have hlen := congrArg List.length (hself.symm.trans heq)
    simp only [List.length_append, List.length_cons] at hlen
    omega
  · intro h
    rw [purge_import_line hline h, purge_purge]

end ImportSync
