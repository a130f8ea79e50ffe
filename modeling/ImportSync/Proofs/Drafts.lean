import ImportSync.Proofs.Purge
import ImportSync.Proofs.References
import ImportSync.Proofs.Steps

/-!
What a module is to contain depends on its text only as far as the text is purged. So a module that
was brought up to date, whose import is known again, is to contain what it contains.
-/

namespace ImportSync

/-- The directory from which a module refers to others. -/
def SourcePath.dir (m : SourcePath) : Text :=
  (Path.parent? m.text).getD m.text

theorem SourcePath.isAbsolute_dir {m : SourcePath} (h : Path.isAbsolute m.text = true) :
    Path.isAbsolute m.dir = true := by
  rw [SourcePath.dir]
  cases hparent : Path.parent? m.text with
  | none => exact h
  | some dir => exact (Path.parent?_absolute h hparent).1

theorem Settings.isAbsolute_resolve {s : Settings} (h : Path.isAbsolute s.root = true)
    (configured : Text) : Path.isAbsolute (s.resolve configured) = true := by
  rw [Settings.resolve, Path.isAbsolute_clean]
  exact Path.isAbsolute_join h _

/-- Imports of the aggregator from the directory are single lines that are known again. -/
structure Aggregator.IsKnownFrom (a : Aggregator) (dir : Text) : Prop where
  newline : '\n' ∉ Path.reference dir a.path
  recognizes : ∀ names,
    a.references.recognizes (ImportLine.named (Path.reference dir a.path) names).render = true

theorem Aggregator.isKnownFrom_of_isNamedFrom {root name : Text} {previous : List Text}
    (hroot : Path.isAbsolute root = true) (hname : '\n' ∉ (ofNames root name previous).name)
    {dir : Text} (h : (ofNames root name previous).IsNamedFrom dir) :
    (ofNames root name previous).IsKnownFrom dir where
  newline := newline_not_mem_reference hroot h hname
  recognizes := recognizes_reference hroot h

/-! ### Texts that purge to the same -/

/-- Two texts that are well-formed alike and differ in generated imports at most. -/
structure Source.Alike (refs : References) (x y : Source) : Prop where
  lossy : y.lossy = x.lossy
  purge : purge refs y.text = purge refs x.text

theorem Source.Alike.refl (refs : References) (x : Source) : x.Alike refs x :=
  ⟨rfl, rfl⟩

theorem Source.Alike.trans {refs : References} {x y z : Source} (h : x.Alike refs y)
    (h' : y.Alike refs z) : x.Alike refs z :=
  ⟨h'.lossy.trans h.lossy, h'.purge.trans h.purge⟩

theorem Source.ofBytes_encode (text : Text) :
    Source.ofBytes (Utf8.encode text) = { text, lossy := false } := by
  rw [Source.ofBytes, Utf8.decode?_encode]

variable {tools : Tools} {s : Settings} {exports : ExportSet} {m : SourcePath} {x y : Source}

theorem scriptShareOf_alike (h : x.Alike s.aggregator.references y) :
    scriptShareOf tools s m y = scriptShareOf tools s m x := by
  rw [scriptShareOf, scriptShareOf, h.purge]

/-- The draft of a text that differs in generated imports starts from that text and leads to the
same. -/
theorem draftOf_alike (h : x.Alike s.aggregator.references y) :
    draftOf tools s exports m y =
      (draftOf tools s exports m x).map fun d => { d with before := y.text } := by
  rw [draftOf, draftOf, h.purge, h.lossy]
  cases x.lossy <;> rfl

/-! ### What a draft says -/

/-- The import that a module of the given text is to start with. -/
def importFor (tools : Tools) (s : Settings) (exports : ExportSet) (m : SourcePath) (text : Text) :
    Text :=
  let found := Findings.of tools.extract s.collect m (purge s.aggregator.references text)
  (s.consumerImport m exports found.names).render

theorem draftOf_eq_some_iff {d : Draft} :
    draftOf tools s exports m x = some d ↔
      x.lossy = false ∧ d = {
        path := m
        before := x.text
        after := importFor tools s exports m x.text ++ '\n' ::
          purge s.aggregator.references x.text } := by
  rw [draftOf]
  cases x.lossy with
  | true => simp
  | false =>
      simp only [Bool.false_eq_true, if_false, Option.some.injEq, true_and]
      exact eq_comm

/-- A module that can be read is drafted, whatever is remembered truthfully. -/
theorem exists_yields_draftFor {original : Text} {st : SyncState}
    (htext : st.tree.readText? m.text = some original)
    (hc : st.cache.IsTruthful tools.extract s.collect) :
    ∃ st', (draftFor tools s exports m).Yields st
        (some {
          path := m
          before := original
          after := importFor tools s exports m original ++ '\n' ::
            purge s.aggregator.references original }) st' ∧
      st'.tree = st.tree := by
  obtain ⟨st', hrun, htree, -⟩ := observes_draftFor exports m st rfl hc
  refine ⟨st', ?_, htree⟩
  rw [sourceIn_of_readText? htext] at hrun
  exact hrun

theorem newline_not_mem_importFor (hline : '\n' ∉ Path.reference m.dir s.aggregator.path)
    (hexports : ∀ n ∈ exports.names, '\n' ∉ n) (text : Text) :
    '\n' ∉ importFor tools s exports m text := by
  refine ImportLine.newline_not_mem_render hline fun n hn => ?_
  exact hexports n (List.mem_of_mem_filter hn)

/-- What a module is to contain purges to what its text purges to. -/
theorem purge_importFor (hknown : s.aggregator.IsKnownFrom m.dir)
    (hexports : ∀ n ∈ exports.names, '\n' ∉ n) (text : Text) :
    purge s.aggregator.references
        (importFor tools s exports m text ++ '\n' :: purge s.aggregator.references text) =
      purge s.aggregator.references text := by
  have hline : '\n' ∉ importFor tools s exports m text :=
    newline_not_mem_importFor hknown.newline hexports text
  exact (purge_import_line hline (hknown.recognizes _) _).trans (purge_purge _ _)

theorem headLine_importFor (hline : '\n' ∉ Path.reference m.dir s.aggregator.path)
    (hexports : ∀ n ∈ exports.names, '\n' ∉ n) (text body : Text) :
    headLine (importFor tools s exports m text ++ '\n' :: body) =
      importFor tools s exports m text :=
  ImportLine.headLine_render (newline_not_mem_importFor hline hexports text) body

/-- A module that was brought up to date is alike to what it was. -/
theorem alike_of_draftOf (hknown : s.aggregator.IsKnownFrom m.dir)
    (hexports : ∀ n ∈ exports.names, '\n' ∉ n) {d : Draft}
    (h : draftOf tools s exports m x = some d) :
    x.Alike s.aggregator.references { text := d.after, lossy := false } := by
  obtain ⟨hlossy, rfl⟩ := draftOf_eq_some_iff.1 h
  exact ⟨hlossy.symm, purge_importFor hknown hexports x.text⟩

/-! ### A small site -/

/-- The page of a small site. -/
def homePage : SourcePath := ⟨"/site/src/pages/home.js".toList⟩

/-- A site with one page and one resource, whose name the page uses. -/
def siteTree : FileTree where
  workingDir := []
  entries := [
    (["site".toList], .dir),
    (["site".toList, "src".toList], .dir),
    (["site".toList, "src".toList, "pages".toList], .dir),
    (["site".toList, "src".toList, "pages".toList, "home.js".toList],
      .file (Utf8.encode "show(a);\n".toList)),
    (["site".toList, "src".toList, "resources".toList], .dir),
    (["site".toList, "src".toList, "resources".toList, "a.js".toList],
      .file (Utf8.encode "export const a = 1;\n".toList))]

/-- What usually holds, for the small site. -/
def siteSettings : Settings := .ofRoot "/site".toList

end ImportSync
