import ImportSync.Proofs.Drafts

/-!
One module through rounds of exports. Main statement: however often a module is brought up to date, for
whatever exports, it is what it was at first, or the import of the last round stands before what is left
of the first text once that is purged.
-/

namespace ImportSync

/-- Drafts a module for some exports and brings it up to date. -/
def refresh (tools : Tools) (s : Settings) (exports : ExportSet) (m : SourcePath) :
    SyncM (Option Update) := do
  match ← draftFor tools s exports m with
  | some d => return some (← applyDraft s d)
  | none => return none

/-- The exports of a round, and what is remembered when it starts. -/
structure Round where
  exports : ExportSet
  cache : NameCache Text := {}

/-- The tree after a round. -/
def Round.run (tools : Tools) (s : Settings) (m : SourcePath) (t : FileTree) (r : Round) :
    Except Failure FileTree :=
  let (result, st) := (refresh tools s r.exports m).run { tree := t, cache := r.cache }
  result.map fun _ => st.tree

/-- What a round may be: its names are free of line ends, and what is remembered is true. -/
structure Round.IsSound (tools : Tools) (s : Settings) (r : Round) : Prop where
  newline : ∀ n ∈ r.exports.names, '\n' ∉ n
  truthful : r.cache.IsTruthful tools.extract s.collect

variable {tools : Tools} {s : Settings} {m : SourcePath}

/-- A round whose draft is applied in a state after drafting ends in the tree of that. -/
theorem Round.run_of_applyDraft {t : FileTree} {r : Round} {d : Draft} {u : Update}
    {mid st : SyncState}
    (hdraft : (draftFor tools s r.exports m).Yields { tree := t, cache := r.cache } (some d) mid)
    (happly : (applyDraft s d).Yields mid u st) : r.run tools s m t = .ok st.tree := by
  have hrun : (refresh tools s r.exports m).Yields { tree := t, cache := r.cache } (some u) st := by
    refine SyncM.yields_bind.2 ⟨some d, mid, hdraft, ?_⟩
    exact SyncM.yields_bind.2 ⟨u, st, happly, SyncM.yields_pure.2 ⟨rfl, rfl⟩⟩
  rw [SyncM.Yields] at hrun
  rw [Round.run, hrun]
  rfl

/-- What stays of a module over rounds: it can be read, and it is what it was or has an import before
what was left of that. -/
structure Keeps (tools : Tools) (s : Settings) (m : SourcePath) (original : Text) (t : FileTree) :
    Prop where
  wellFormed : t.WellFormed
  text : ∃ text, t.readText? m.text = some text ∧
    (text = original ∨ ∃ exports : ExportSet, (∀ n ∈ exports.names, '\n' ∉ n) ∧
      text = importFor tools s exports m original ++ '\n' :: purge s.aggregator.references original)

/-- One round: the module becomes what it is to contain, unless its first line says that already. -/
theorem Round.run_text (hm : Path.isAbsolute m.text = true) (hmode : s.mode = .write)
    {t : FileTree} (ht : t.WellFormed) {text : Text} (htext : t.readText? m.text = some text)
    {r : Round} (hr : r.IsSound tools s) {after : Text}
    (hafter : after = importFor tools s r.exports m text ++ '\n' ::
      purge s.aggregator.references text) :
    ∃ t' text', r.run tools s m t = .ok t' ∧ t'.WellFormed ∧ t'.readText? m.text = some text' ∧
      (text' = after ∨ text' = text ∧ headLine text = headLine after) := by
  obtain ⟨bytes, hread, hdecode⟩ := Option.bind_eq_some_iff.1 htext
  obtain ⟨l, hholds⟩ := FileTree.read?_eq_some_iff.1 hread
  have htext' : (SyncState.mk t r.cache []).tree.readText? m.text = some text := htext
  obtain ⟨mid, hyields, htree⟩ := exists_yields_draftFor htext' hr.truthful
  rw [← hafter] at hyields
  obtain rfl : mid.tree = t := htree
  cases hdiffers : Comparison.headLine.differs text after with
  | false =>
      have hbring : (bringUpToDate m.text after text .headLine .write).Yields mid .unchanged mid :=
        yields_bringUpToDate.2 (.inl ⟨hdiffers, rfl, rfl⟩)
      have hsame : headLine text = headLine after := by simpa [Comparison.differs] using hdiffers
      refine ⟨mid.tree, text, ?_, ht, htext, .inr ⟨rfl, hsame⟩⟩
      exact Round.run_of_applyDraft hyields (yields_applyDraft.2 ⟨.unchanged, hmode ▸ hbring, rfl⟩)
  | true =>
      -- the file is there, so that it can be written without making a directory
      have hwrite := yields_writeText_of_holdsFile ht hm hholds after
      have hbring := yields_bringUpToDate.2 (.inr ⟨hdiffers, rfl, hwrite⟩)
      refine ⟨_, after, Round.run_of_applyDraft hyields
        (yields_applyDraft.2 ⟨.written, hmode ▸ hbring, rfl⟩), hholds.wellFormed_set ht _, ?_,
        .inl rfl⟩
      have hnew := hholds.set (Utf8.encode after)
      rw [FileTree.readText?, FileTree.read?_eq_some_iff.2 ⟨l, hnew⟩]
      exact Utf8.decode?_encode after

/-- What one round makes of a module that was kept through the rounds before. -/
theorem Keeps.run (hknown : s.aggregator.IsKnownFrom m.dir) (hm : Path.isAbsolute m.text = true)
    (hmode : s.mode = .write) {original : Text} {t : FileTree} (h : Keeps tools s m original t)
    {r : Round} (hr : r.IsSound tools s) :
    ∃ t' text, r.run tools s m t = .ok t' ∧ t'.WellFormed ∧ t'.readText? m.text = some text ∧
      (text = original ∨ text = importFor tools s r.exports m original ++ '\n' ::
        purge s.aggregator.references original) ∧
      headLine text = importFor tools s r.exports m original := by
  obtain ⟨ht, text, htext, hkept⟩ := h
  -- the round sees the text only as it is purged, and so it sees the original
  have hpurge : purge s.aggregator.references text = purge s.aggregator.references original := by
    rcases hkept with rfl | ⟨exports, hexports, rfl⟩
    · rfl
    · exact purge_importFor hknown hexports original
  have himport : importFor tools s r.exports m text = importFor tools s r.exports m original := by
    rw [importFor, importFor, hpurge]
  obtain ⟨t', text', hrun, ht', htext', hnew⟩ := Round.run_text hm hmode ht htext hr rfl
  rw [himport, hpurge, headLine_importFor hknown.newline hr.newline] at hnew
  refine ⟨t', text', hrun, ht', htext', ?_⟩
  rcases hnew with rfl | ⟨rfl, hhead⟩
  · exact ⟨.inr rfl, headLine_importFor hknown.newline hr.newline original _⟩
  · refine ⟨?_, hhead⟩
    rcases hkept with rfl | ⟨exports, hexports, rfl⟩
    · exact .inl rfl
    · -- the line of an earlier round stands there, and it is that of this one
      rw [headLine_importFor hknown.newline hexports] at hhead
      exact .inr (by rw [hhead])

theorem Keeps.foldlM (hknown : s.aggregator.IsKnownFrom m.dir)
    (hm : Path.isAbsolute m.text = true) (hmode : s.mode = .write) {original : Text}
    {rounds : List Round} (hrounds : ∀ r ∈ rounds, r.IsSound tools s) {t : FileTree}
    (h : Keeps tools s m original t) :
    ∃ t', rounds.foldlM (Round.run tools s m) t = .ok t' ∧ Keeps tools s m original t' := by
  induction rounds generalizing t with
  | nil => exact ⟨t, rfl, h⟩
  | cons r rounds ih =>
      have hr := hrounds r (by simp)
      obtain ⟨mid, text, hrun, hmid, htext, hkept, -⟩ := h.run hknown hm hmode hr
      have hkeeps : Keeps tools s m original mid :=
        ⟨hmid, text, htext, hkept.imp_right fun heq => ⟨r.exports, hr.newline, heq⟩⟩
      obtain ⟨t', ht', hkeeps'⟩ := ih (fun r' hr' => hrounds r' (by simp [hr'])) hkeeps
      refine ⟨t', ?_, hkeeps'⟩
      rw [List.foldlM_cons, hrun]
      exact ht'

/-- However many rounds a module below the root goes through, for whatever exports, generated imports
do not pile up: it is what it was, or the import of the last round stands before what is left of it once
it is purged. In either case its first line is that import. -/
theorem rounds_do_not_accumulate {root name : Text} {previous : List Text}
    (hroot : Path.isAbsolute root = true) (haggregator : s.aggregator = .ofNames root name previous)
    (hname : '\n' ∉ s.aggregator.name) (hmode : s.mode = .write)
    (hm : Path.isAbsolute m.text = true) (hbelow : Path.cleanPieces root <+: Path.cleanPieces m.dir)
    (hnot : ¬ Path.cleanPieces s.aggregator.path <+: Path.cleanPieces m.dir)
    {t : FileTree} (ht : t.WellFormed) {original : Text} (htext : t.readText? m.text = some original)
    {rounds : List Round} (hrounds : ∀ r ∈ rounds, r.IsSound tools s) {last : Round}
    (hlast : last.IsSound tools s) :
    ∃ t' text, (rounds ++ [last]).foldlM (Round.run tools s m) t = .ok t' ∧
      t'.readText? m.text = some text ∧
      (text = original ∨ text = importFor tools s last.exports m original ++ '\n' ::
        purge s.aggregator.references original) ∧
      headLine text = importFor tools s last.exports m original := by
  have hknown : s.aggregator.IsKnownFrom m.dir := by
    rw [haggregator] at hname hnot ⊢
    refine Aggregator.isKnownFrom_of_isNamedFrom hroot hname ?_
    exact Aggregator.isNamedFrom_of_root hroot (SourcePath.isAbsolute_dir hm) hbelow hnot
  have hkeeps : Keeps tools s m original t := ⟨ht, original, htext, .inl rfl⟩
  obtain ⟨mid, hmid, hkeeps⟩ := hkeeps.foldlM hknown hm hmode hrounds
  obtain ⟨t', text, hrun, -, htext', hresult⟩ := hkeeps.run hknown hm hmode hlast
  refine ⟨t', text, ?_, htext', hresult⟩
  rw [List.foldlM_append, hmid]
  change ([last].foldlM (Round.run tools s m) mid) = _
  rw [List.foldlM_cons, hrun]
  rfl

theorem rounds_do_not_accumulate_home :
    ∃ t' text,
      [Round.mk (.ofList ["a".toList, "b".toList]) {}, Round.mk .empty {},
        Round.mk (.ofList ["b".toList]) {}].foldlM (Round.run {} siteSettings homePage) siteTree =
          .ok t' ∧
      t'.readText? homePage.text = some text ∧
      (text = "show(a);\n".toList ∨
        text = "import \x7bb\x7d from './../../imports.js';\nshow(a);\n".toList) ∧
      headLine text = "import \x7bb\x7d from './../../imports.js';".toList := by
  have hsound (exports : ExportSet) (h : ∀ n ∈ exports.names, '\n' ∉ n) :
      (Round.mk exports {}).IsSound {} siteSettings :=
    ⟨h, NameCache.isTruthful_empty _ _⟩
  have hrounds : ∀ r ∈ [Round.mk (.ofList ["a".toList, "b".toList]) {}, Round.mk .empty {}],
      r.IsSound {} siteSettings := by
    intro r hr
    rcases List.mem_cons.1 hr with rfl | hr
    · exact hsound _ (by decide +kernel)
    · exact List.mem_singleton.1 hr ▸ hsound _ (by decide +kernel)
  have himport : importFor {} siteSettings (.ofList ["b".toList]) homePage "show(a);\n".toList =
      "import \x7bb\x7d from './../../imports.js';".toList := by
    decide +kernel
  have hpurge : purge siteSettings.aggregator.references "show(a);\n".toList =
      "show(a);\n".toList := by
    decide +kernel
  have hroot : Path.isAbsolute "/site".toList = true := by decide
  have htext : siteTree.readText? homePage.text = some "show(a);\n".toList := by decide +kernel
  have htree : siteTree.WellFormed := FileTree.wellFormed_of_entries (by decide +kernel)
  obtain ⟨t', text, hrun, htext', hresult, hhead⟩ :=
    rounds_do_not_accumulate hroot rfl (by decide +kernel) rfl (by decide) (by decide +kernel)
      (by decide +kernel) htree htext hrounds (hsound (.ofList ["b".toList]) (by decide +kernel))
  rw [himport, hpurge] at hresult
  rw [himport] at hhead
  exact ⟨t', text, hrun, htext', hresult, hhead⟩

end ImportSync
