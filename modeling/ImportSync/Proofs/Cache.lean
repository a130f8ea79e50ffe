import ImportSync.Exports

/-!
The cache of names is transparent. Asked about any files and texts, one after the other, it answers as
if every text were read anew, as long as no two texts of one file share a fingerprint. What it holds in
the end is told by the questions alone: of each file, the names of the last text that was well-formed.
-/

namespace ImportSync

/-- A question to the cache: which names a file exports, given its purged text. -/
structure Inquiry where
  file : SourcePath
  text : Text

namespace NameCache

variable {F : Type} {fingerprint : Text → F} {extract : Extractor} {o : CollectOptions}
  {c : NameCache F} {m : SourcePath} {text : Text}

/-! ### What a text leaves -/

/-- What a text leaves in the cache: nothing if it is ill-formed. -/
def trace? (fingerprint : Text → F) (extract : Extractor) (o : CollectOptions) (m : SourcePath)
    (text : Text) : Option (F × List Text) :=
  (extract m text o).map fun names => (fingerprint text, names)

/-- What the last well-formed text of a file leaves in the cache. -/
def lastTrace? (fingerprint : Text → F) (extract : Extractor) (o : CollectOptions) (m : SourcePath)
    (asked : List Inquiry) : Option (F × List Text) :=
  asked.reverse.findSome? fun q =>
    if m = q.file then trace? fingerprint extract o q.file q.text else none

theorem lastTrace?_cons (q : Inquiry) (later : List Inquiry) :
    lastTrace? fingerprint extract o m (q :: later) =
      (lastTrace? fingerprint extract o m later).or
        (if m = q.file then trace? fingerprint extract o q.file q.text else none) := by
  rw [lastTrace?, List.reverse_cons, List.findSome?_append, List.findSome?_singleton]
  rfl

theorem get?_insert (c : NameCache F) (m : SourcePath) (mark : F) (names : List Text)
    (m' : SourcePath) :
    (c.insert m mark names).get? m' = if m' = m then some (mark, names) else c.get? m' := by
  rw [get?, insert, List.lookup_cons]
  by_cases hm : m' = m
  · simp [hm]
  · rw [beq_false_of_ne hm, if_neg hm]
    rfl

/-- What is remembered under the fingerprint of a text, if anything is, is what the text yields. -/
def IsRightAbout (c : NameCache F) (fingerprint : Text → F) (extract : Extractor)
    (o : CollectOptions) (m : SourcePath) (text : Text) : Prop :=
  ∀ names, c.get? m = some (fingerprint text, names) → extract m text o = some names

theorem isRightAbout_empty (m : SourcePath) (text : Text) :
    IsRightAbout {} fingerprint extract o m text := by
  intro names h
  simp [get?] at h

/-! ### One question -/

variable [DecidableEq F]

theorem remembered?_eq_some_iff {mark : F} {names : List Text} :
    c.remembered? m mark = some names ↔ c.get? m = some (mark, names) := by
  rw [remembered?, Option.bind_eq_some_iff]
  constructor
  · rintro ⟨⟨mark', names'⟩, hget, hmark⟩
    simp only [Option.ite_none_right_eq_some, Option.some.injEq] at hmark
    obtain ⟨rfl, rfl⟩ := hmark
    exact hget
  · intro hget
    exact ⟨(mark, names), hget, by simp⟩

theorem IsRightAbout.findings_eq (h : c.IsRightAbout fingerprint extract o m text) :
    (c.findings fingerprint extract o m text).1 = Findings.of extract o m text := by
  rw [findings, Findings.of]
  cases hremembered : c.remembered? m (fingerprint text) with
  | some names => rw [h names (remembered?_eq_some_iff.1 hremembered)]
  | none => cases extract m text o <;> rfl

/-- A well-formed text replaces what was remembered of its file, and an ill-formed one changes
nothing. -/
theorem IsRightAbout.get?_findings (h : c.IsRightAbout fingerprint extract o m text)
    (m' : SourcePath) :
    (c.findings fingerprint extract o m text).2.get? m' =
      if m' = m then (trace? fingerprint extract o m text).or (c.get? m) else c.get? m' := by
  rw [findings, trace?]
  cases hremembered : c.remembered? m (fingerprint text) with
  | some names =>
      -- the cache stays as it is, and the entry that is there is the one that the text would leave
      have hget := remembered?_eq_some_iff.1 hremembered
      rw [h names hget]
      by_cases hm : m' = m
      · rw [if_pos hm, hm]
        exact hget
      · rw [if_neg hm]
  | none =>
      cases extract m text o with
      | none =>
          by_cases hm : m' = m
          · rw [if_pos hm, hm]
            rfl
          · rw [if_neg hm]
      | some names => exact get?_insert c m (fingerprint text) names m'

/-- Once a text was asked about, the cache is still right about every text that can be told from it. -/
theorem IsRightAbout.findings {m' : SourcePath} {text' : Text}
    (h : c.IsRightAbout fingerprint extract o m text)
    (h' : c.IsRightAbout fingerprint extract o m' text')
    (hapart : m' = m → fingerprint text' = fingerprint text → text' = text) :
    (c.findings fingerprint extract o m text).2.IsRightAbout fingerprint extract o m' text' := by
  intro names hget
  rw [h.get?_findings] at hget
  split at hget
  next hm =>
    subst hm
    rcases Option.or_eq_some_iff.1 hget with htrace | ⟨-, hold⟩
    · -- the entry is the new one: under the same fingerprint, it comes from the same text
      obtain ⟨names', hextract, hentry⟩ := Option.map_eq_some_iff.1 htrace
      simp only [Prod.mk.injEq] at hentry
      obtain ⟨hmark, rfl⟩ := hentry
      rwa [hapart rfl hmark.symm]
    · exact h' names hold
  next => exact h' names hget

/-! ### Many questions -/

/-- The answers to questions that are asked one after the other, and the cache afterwards. -/
def answer (c : NameCache F) (fingerprint : Text → F) (extract : Extractor) (o : CollectOptions) :
    List Inquiry → List Findings × NameCache F
  | [] => ([], c)
  | q :: later =>
    let first := c.findings fingerprint extract o q.file q.text
    let others := first.2.answer fingerprint extract o later
    (first.1 :: others.1, others.2)

/-- No two texts that one file is said to have share a fingerprint. -/
def TellsApart (fingerprint : Text → F) (asked : List Inquiry) : Prop :=
  ∀ q ∈ asked, ∀ q' ∈ asked, q.file = q'.file → fingerprint q.text = fingerprint q'.text →
    q.text = q'.text

instance (fingerprint : Text → F) (asked : List Inquiry) :
    Decidable (TellsApart fingerprint asked) :=
  inferInstanceAs (Decidable (∀ q ∈ asked, ∀ q' ∈ asked, _ → _ → _))

/-- Whatever is remembered at first, as long as it is right about all that will be asked. -/
theorem answer_spec {asked : List Inquiry}
    (hright : ∀ q ∈ asked, c.IsRightAbout fingerprint extract o q.file q.text)
    (hapart : TellsApart fingerprint asked) :
    (c.answer fingerprint extract o asked).1 =
        asked.map (fun q => Findings.of extract o q.file q.text) ∧
      ∀ m, (c.answer fingerprint extract o asked).2.get? m =
        (lastTrace? fingerprint extract o m asked).or (c.get? m) := by
  -- being right about what is still to be asked is what each answer hands on to the next one
  induction asked generalizing c with
  | nil => exact ⟨rfl, fun m => rfl⟩
  | cons q later ih =>
      have hfirst := hright q (by simp)
      have hlater : ∀ q' ∈ later, (c.findings fingerprint extract o q.file q.text).2.IsRightAbout
          fingerprint extract o q'.file q'.text := by
        intro q' hq'
        refine hfirst.findings (hright q' (by simp [hq'])) ?_
        exact hapart q' (by simp [hq']) q (by simp)
      obtain ⟨hanswers, hget⟩ := ih hlater fun q₁ h₁ q₂ h₂ =>
        hapart q₁ (by simp [h₁]) q₂ (by simp [h₂])
      refine ⟨?_, fun m => ?_⟩
      · rw [answer, hanswers, hfirst.findings_eq]
        rfl
      · rw [answer, hget, hfirst.get?_findings, lastTrace?_cons, Option.or_assoc]
        split
        next hm => rw [hm]
        next => rfl

end NameCache

/-- Starting with nothing remembered, every question is answered as by reading the text anew, and what
is remembered of a file is what the last well-formed text of it left. -/
theorem cache_answers_as_read_anew {F : Type} [DecidableEq F] (fingerprint : Text → F)
    (extract : Extractor) (o : CollectOptions) {asked : List Inquiry}
    (h : NameCache.TellsApart fingerprint asked) :
    (NameCache.answer {} fingerprint extract o asked).1 =
        asked.map (fun q => Findings.of extract o q.file q.text) ∧
      ∀ m, (NameCache.answer {} fingerprint extract o asked).2.get? m =
        NameCache.lastTrace? fingerprint extract o m asked := by
  have hright : ∀ q ∈ asked, NameCache.IsRightAbout {} fingerprint extract o q.file q.text :=
    fun q _ => NameCache.isRightAbout_empty q.file q.text
  obtain ⟨hanswers, hget⟩ := NameCache.answer_spec hright h
  refine ⟨hanswers, fun m => ?_⟩
  rw [hget]
  exact Option.or_none

/-- Two files whose texts are as long as each other's, and one of them changed, broken and mended. -/
def editedFiles : List Inquiry :=
  let a := SourcePath.ofText "src/a.js".toList
  let b := SourcePath.ofText "src/b.js".toList
  [⟨a, "export const x = 1;".toList⟩, ⟨b, "export const y = 1;".toList⟩,
    ⟨a, "export const x = 1;".toList⟩, ⟨a, "export const longer = 1;".toList⟩,
    ⟨a, "export const = ;".toList⟩, ⟨a, "export const longer = 1;".toList⟩]

/-- With the length as the fingerprint, which tells the texts of each file apart. -/
theorem cache_answers_as_read_anew_editedFiles :
    NameCache.TellsApart List.length editedFiles ∧
      (NameCache.answer {} List.length namesExported? {} editedFiles).1 =
        [{ names := ["x".toList] }, { names := ["y".toList] }, { names := ["x".toList] },
          { names := ["longer".toList] }, { parseFailed := true }, { names := ["longer".toList] }] := by
  have hapart : NameCache.TellsApart List.length editedFiles := by decide
  refine ⟨hapart, ?_⟩
  rw [(cache_answers_as_read_anew List.length namesExported? {} hapart).1]
  decide +kernel

end ImportSync
