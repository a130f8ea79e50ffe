import Mathlib.Data.List.Infix
import ImportSync.Proofs.Drafts
import ImportSync.Tree

/-!
Which imports are known as generated ones. A line is judged by its text alone: an import is known
exactly if its source ends in a tail of one of the aggregator's names, before which a segment ends in a
dot, wherever the importing module lies. So an import that leads elsewhere can be taken for a generated
one, and the import of a module outside the root need not be known again.
-/

namespace ImportSync

/-! ### Where a pattern can stand -/

/-- A quote and a semicolon that stand in a source followed by the two are these two, unless they stand
in the source. -/
theorem eq_nil_of_append_close {source before after : Text} (hsource : ¬ ['\'', ';'] <:+: source)
    (h : source ++ ['\'', ';'] = before ++ ['\'', ';'] ++ after) : after = [] := by
  rcases List.eq_nil_or_concat after with hnil | ⟨after, c, rfl⟩
  · exact hnil
  · exfalso
    have hquote : source ++ ['\''] = before ++ ['\'', ';'] ++ after := by
      have hinit := congrArg List.dropLast h
      simpa [List.dropLast_append_of_ne_nil, ← List.append_assoc] using hinit
    rcases List.eq_nil_or_concat after with rfl | ⟨after, c, rfl⟩
    · have hlast := congrArg List.getLast? hquote
      simp at hlast
    · refine hsource ⟨before, after, ?_⟩
      have hinit := congrArg List.dropLast hquote
      simpa [List.dropLast_append_of_ne_nil, ← List.append_assoc] using hinit.symm

/-- What starts with a dot and ends in a quote and a semicolon stands at the end of an import, unless
there is such an end in the source or a dot in the names. -/
theorem ImportLine.infix_render_iff {source part : Text} {names : List Text}
    (hnames : ∀ n ∈ names, '.' ∉ n) (hsource : ¬ ['\'', ';'] <:+: source) :
    '.' :: part ++ ['\'', ';'] <:+: (named source names).render ↔ '.' :: part <:+ source := by
  rw [render_named]
  constructor
  · rintro ⟨before, after, h⟩
    have hlead : '.' ∉ lead names := not_mem_lead (by decide) (by decide) hnames
    simp only [List.append_assoc] at h
    -- the dot is not before the source, and nothing comes after the semicolon
    obtain ⟨inner, hinner⟩ : ∃ inner, source ++ ['\'', ';'] =
        (inner ++ '.' :: part) ++ ['\'', ';'] ++ after := by
      rcases List.append_eq_append_iff.1 h with ⟨rest, hrest, hsplit⟩ | ⟨rest, hrest, hsplit⟩
      · cases rest with
        | nil => exact ⟨[], by simpa using hsplit.symm⟩
        | cons c rest =>
            have hc : c = '.' := by
              have hhead := congrArg List.head? hsplit
              simpa using hhead.symm
            exact absurd (by rw [hrest, hc]; simp) hlead
      · exact ⟨rest, by simpa using hsplit⟩
    have hafter := eq_nil_of_append_close hsource hinner
    rw [hafter, List.append_nil] at hinner
    exact ⟨inner, (List.append_cancel_right hinner).symm⟩
  · rintro ⟨before, rfl⟩
    exact ⟨lead names ++ before, [], by simp⟩

/-! ### Imports that are taken for generated ones -/

/-- The segments end in a tail of the name, before which a segment ends in a dot. -/
def EndsInTail (segments : List Text) (name : Text) : Prop :=
  ∃ init x tail, segments = init ++ (x ++ ['.']) :: tail ∧ tail ≠ [] ∧ tail <:+ Path.pieces name

namespace Aggregator

variable {root name : Text} {previous : List Text}

/-- An import is known exactly if its source ends in a tail of one of the names. -/
theorem recognizes_render_iff {source : Text} {names : List Text} (hnames : ∀ n ∈ names, '.' ∉ n)
    (hsource : ¬ ['\'', ';'] <:+: source) :
    (ofNames root name previous).references.recognizes (ImportLine.named source names).render
        = true ↔
      ∃ n ∈ (ofNames root name previous).name :: (ofNames root name previous).previousNames,
        EndsInTail (List.splitOn '/' source) n := by
  rw [recognizes_references_iff]
  refine exists_congr fun n => and_congr_right fun hn => ?_
  have hsuffix {tail : List Text} (hne : tail ≠ []) (htail : tail <:+ Path.pieces n) :
      References.pattern tail <:+: (ImportLine.named source names).render ↔
        ∃ init x, List.splitOn '/' source = init ++ (x ++ ['.']) :: tail := by
    have hslash : ∀ p ∈ tail, '/' ∉ p := fun p hp =>
      (Path.isPiece_of_mem_pieces (htail.subset hp)).no_slash
    rw [References.pattern_eq, ImportLine.infix_render_iff hnames hsource,
      ← Path.dot_slash_suffix_iff (fun p => Text.not_mem_of_mem_splitOn) hslash hne,
      Text.joinWith_splitOn]
  constructor
  · rintro ⟨tail, hne, htail, hpart⟩
    obtain ⟨init, x, hsplit⟩ := (hsuffix hne htail).1 hpart
    exact ⟨init, x, tail, hsplit, hne, htail⟩
  · rintro ⟨init, x, tail, hsplit, hne, htail⟩
    exact ⟨tail, hne, htail, (hsuffix hne htail).2 ⟨init, x, hsplit⟩⟩

/-- A text that starts with an import is left alone exactly if the import's source does not end in a
tail of one of the aggregator's names. Where the module lies, and so where the import leads, does not
matter. -/
theorem purge_keeps_import_iff {source code : Text} {names : List Text}
    (hnames : ∀ n ∈ names, '.' ∉ n) (hsource : ¬ ['\'', ';'] <:+: source)
    (hcode : headLine code = (ImportLine.named source names).render) :
    purge (ofNames root name previous).references code = code ↔
      ¬ ∃ n ∈ (ofNames root name previous).name :: (ofNames root name previous).previousNames,
        EndsInTail (List.splitOn '/' source) n := by
  have hne : headLine code ≠ [] := by
    rw [hcode]
    exact ImportLine.render_ne_nil source names
  have hconflict : Purge.conflictOpening.isPrefixOf (headLine code) = false := by
    rw [hcode]
    exact ImportLine.not_conflictOpening source names
  rw [purge_eq_self_iff hne hconflict, hcode, ← recognizes_render_iff hnames hsource,
    Bool.not_eq_true]

/-- A module of the same name as the aggregator in another directory is imported by what looks like a
generated line, and the import is lost. -/
theorem purge_loses_import_of_namesake :
    Path.clean (Path.join "/site/src".toList "./imports.js".toList) ≠
        (ofNames "/site".toList "imports.js".toList []).path ∧
      purge (ofNames "/site".toList "imports.js".toList []).references
        "import \x7bx\x7d from './imports.js';\nuse(x);\n".toList ≠
          "import \x7bx\x7d from './imports.js';\nuse(x);\n".toList := by
  refine ⟨by decide +kernel, fun hkept => ?_⟩
  have hline : headLine "import \x7bx\x7d from './imports.js';\nuse(x);\n".toList =
      (ImportLine.named "./imports.js".toList ["x".toList]).render := by
    decide +kernel
  refine (purge_keeps_import_iff (by decide) (by decide) hline).1 hkept
    ⟨"imports.js".toList, by decide +kernel, [], [], ["imports.js".toList], ?_, by simp, ?_⟩
  · decide +kernel
  · decide +kernel

end Aggregator

/-! ### Imports of modules anywhere -/

/-- The way down ends in a tail of the name, before which there is nothing or a piece that ends in a
dot. -/
def LeadsByTail (down : List Text) (name : Text) : Prop :=
  ∃ init tail, down = init ++ tail ∧ tail ≠ [] ∧ tail <:+ Path.pieces name ∧
    ∀ x ∈ init.getLast?, x.getLast? = some '.'

namespace Aggregator

theorem getLast?_pieces_canonicalName (given : Text) :
    (Path.pieces (canonicalName given)).getLast? ≠ some Path.above := by
  obtain ⟨cleaned, x, hcleaned, hx, -⟩ := cleanPieces_aggregatorFileName given
  rw [pieces_canonicalName, hcleaned]
  simpa using hx

/-- Pieces that the steps before the way down end in, not from their start, end in a step up. -/
theorem getLast?_of_steps_eq_append {k : Nat} {init tail : List Text}
    (h : Path.here :: List.replicate k Path.above = init ++ tail) (hinit : init ≠ [])
    (hne : tail ≠ []) : tail.getLast? = some Path.above := by
  have hlast := congrArg List.getLast? h
  rw [List.getLast?_append_of_ne_nil _ hne] at hlast
  rw [← hlast]
  cases k with
  | zero =>
      have hlength := congrArg List.length h
      have hposInit := List.length_pos_iff.2 hinit
      have hpos := List.length_pos_iff.2 hne
      simp only [List.replicate_zero, List.length_cons, List.length_nil, List.length_append]
        at hlength
      omega
  | succ k => rw [List.replicate_succ', ← List.cons_append, List.getLast?_concat]

theorem leadsByTail_of_endsInTail {k : Nat} {down : List Text} {given : Text}
    (h : EndsInTail (Path.here :: (List.replicate k Path.above ++ down)) (canonicalName given)) :
    LeadsByTail down (canonicalName given) := by
  obtain ⟨init, x, tail, hsegments, hne, htail⟩ := h
  rw [List.append_cons, ← List.cons_append] at hsegments
  rcases List.append_eq_append_iff.1 hsegments with ⟨inner, hinit, hdown⟩ | ⟨inner, hsteps, htail'⟩
  · -- the tail starts within the way down
    refine ⟨inner, tail, hdown, hne, htail, fun y hy => ?_⟩
    have hlast := congrArg List.getLast? hinit
    rw [List.getLast?_concat, List.getLast?_append, hy, Option.some_or] at hlast
    obtain rfl := Option.some.inj hlast
    simp
  · -- the tail starts with steps up, and the way down is a shorter one
    refine ⟨[], down, rfl, fun hnil => ?_, ?_, by simp⟩
    · rw [hnil, List.append_nil] at htail'
      subst htail'
      obtain ⟨before, hbefore⟩ := htail
      have hlast := getLast?_of_steps_eq_append hsteps (by simp) hne
      rw [← List.getLast?_append_of_ne_nil before hne, hbefore] at hlast
      exact getLast?_pieces_canonicalName given hlast
    · rw [htail'] at htail
      exact (List.suffix_append inner _).trans htail

theorem endsInTail_of_leadsByTail {k : Nat} {down : List Text} {name : Text}
    (h : LeadsByTail down name) :
    EndsInTail (Path.here :: (List.replicate k Path.above ++ down)) name := by
  obtain ⟨init, tail, rfl, hne, htail, hdot⟩ := h
  rcases List.eq_nil_or_concat init with rfl | ⟨init, y, rfl⟩
  · -- the dot is that of the last step
    obtain ⟨init, x, hsteps⟩ := Path.steps_eq_concat k
    rw [← List.cons_append, hsteps]
    exact ⟨init, x, tail, by simp, hne, htail⟩
  · have hy : y.getLast? = some '.' := hdot y (by simp)
    obtain ⟨x, rfl⟩ : ∃ x, y = x ++ ['.'] := List.getLast?_eq_some_iff.1 hy
    exact ⟨Path.here :: (List.replicate k Path.above ++ init), x, tail, by simp, hne, htail⟩

/-- A reference ends in a tail of a name exactly if the way down does: the steps up are no part of the
name. -/
theorem endsInTail_reference_iff {dir target : Text} (hdir : Path.isAbsolute dir = true)
    (htarget : Path.isAbsolute target = true) (given : Text) :
    EndsInTail (List.splitOn '/' (Path.reference dir target)) (canonicalName given) ↔
      LeadsByTail (Path.wayDown target dir) (canonicalName given) := by
  rw [Path.splitOn_reference hdir htarget]
  by_cases hway : Path.way target dir = []
  · -- there is no way, and two single dots end in no tail
    rw [if_pos hway]
    constructor
    · rintro ⟨init, x, tail, hsegments, hne, htail⟩
      have hlast : Path.here ∈ tail := by
        have hget := congrArg List.getLast? hsegments
        rw [List.append_cons, List.getLast?_append_of_ne_nil _ hne] at hget
        exact List.mem_of_getLast? hget.symm
      exact absurd rfl (Path.isPiece_of_mem_pieces (htail.subset hlast)).ne_here
    · rintro ⟨init, tail, hdown, hne, -⟩
      simp [Path.way, hdown, hne] at hway
  · rw [if_neg hway, Path.way]
    exact ⟨leadsByTail_of_endsInTail, endsInTail_of_leadsByTail⟩

/-- Every import of the aggregator from a directory is known exactly if the way down from there ends in
a tail of one of the names. -/
theorem recognizes_reference_iff {root name : Text} {previous : List Text} {dir : Text}
    {names : List Text} (hroot : Path.isAbsolute root = true) (hdir : Path.isAbsolute dir = true)
    (hnames : ∀ n ∈ names, '.' ∉ n)
    (hquote : ¬ ['\'', ';'] <:+: Path.reference dir (ofNames root name previous).path) :
    (ofNames root name previous).references.recognizes
        (ImportLine.named (Path.reference dir (ofNames root name previous).path) names).render
          = true ↔
      ∃ n ∈ (ofNames root name previous).name :: (ofNames root name previous).previousNames,
        LeadsByTail (Path.wayDown (ofNames root name previous).path dir) n := by
  rw [recognizes_render_iff hnames hquote]
  refine exists_congr fun n => and_congr_right fun hn => ?_
  obtain ⟨given, rfl⟩ := mem_names_ofNames hn
  exact endsInTail_reference_iff hdir (isAbsolute_path hroot name previous) given

theorem recognizes_of_leadsByTail {root name : Text} {previous : List Text} {dir n : Text}
    (hroot : Path.isAbsolute root = true) (hdir : Path.isAbsolute dir = true)
    (hn : n ∈ (ofNames root name previous).name :: (ofNames root name previous).previousNames)
    (h : LeadsByTail (Path.wayDown (ofNames root name previous).path dir) n) (names : List Text) :
    (ofNames root name previous).references.recognizes
        (ImportLine.named (Path.reference dir (ofNames root name previous).path) names).render
          = true := by
  obtain ⟨given, rfl⟩ := mem_names_ofNames hn
  obtain ⟨init, x, tail, hsegments, hne, htail⟩ :=
    (endsInTail_reference_iff hdir (isAbsolute_path hroot name previous) given).2 h
  refine recognizes_of_tail hn hne htail ?_ names
  have hslash : ∀ p ∈ tail, '/' ∉ p := fun p hp =>
    (Path.isPiece_of_mem_pieces (htail.subset hp)).no_slash
  have hsuffix := (Path.dot_slash_suffix_iff (fun p => Text.not_mem_of_mem_splitOn) hslash hne).2
    ⟨init, x, hsegments⟩
  rwa [Text.joinWith_splitOn] at hsuffix

/-- What stands in no piece of the aggregator's path stands in no reference to it. -/
theorem not_infix_reference {root name : Text} {previous : List Text} {dir part : Text}
    (hroot : Path.isAbsolute root = true) (hdir : Path.isAbsolute dir = true)
    (hslash : '/' ∉ part) (hdot : ¬ part <:+: Path.above) (hne : part ≠ [])
    (h : ¬ part <:+: (ofNames root name previous).path) :
    ¬ part <:+: Path.reference dir (ofNames root name previous).path := by
  intro hpart
  have hpath := isAbsolute_path hroot name previous
  have hhere : ¬ part <:+: Path.here := fun hin => hdot (hin.trans ⟨['.'], [], rfl⟩)
  rw [Path.reference_absolute hdir hpath] at hpart
  obtain ⟨p, hp, hin⟩ := Text.infix_of_infix_joinWith hslash hne hpart
  rcases List.mem_cons.1 hp with rfl | hp
  · exact hhere hin
  · split at hp
    · exact hhere (List.mem_singleton.1 hp ▸ hin)
    · rcases List.mem_append.1 hp with hp | hp
      · exact hdot (List.eq_of_mem_replicate hp ▸ hin)
      · have hmem := Path.mem_cleanPieces_of_mem_wayDown hp
        rcases Path.mem_pieces_of_mem_cleanPieces hmem with rfl | hpiece
        · exact hdot hin
        · exact h (hin.trans (Path.infix_of_mem_pieces hpiece))

end Aggregator

/-! ### Modules that are found -/

theorem FileTree.isAbsolute_of_mem_walk {t : FileTree} {root : Text} {respectIgnore : Bool}
    {files : List SourcePath} (hroot : Path.isAbsolute root = true)
    (h : t.walk root respectIgnore = .ok files) {m : SourcePath} (hm : m ∈ files) :
    m.text = [] ∨ Path.isAbsolute m.text = true := by
  obtain ⟨l, -, ⟨-, rfl⟩ | ⟨-, rfl⟩⟩ := FileTree.eq_of_walk h
  · obtain rfl := List.mem_singleton.1 hm
    exact Path.isAbsolute_normalize hroot
  · obtain ⟨names, -, rfl⟩ := List.mem_map.1 hm
    exact Path.isAbsolute_normalize (Path.isAbsolute_join hroot _)

theorem FileTree.ne_nil_of_readText? {t : FileTree} {p text : Text}
    (h : t.readText? p = some text) : p ≠ [] := by
  rintro rfl
  simp [FileTree.readText?, FileTree.read?, FileTree.find?, FileTree.locate?] at h

variable {tools : Tools} {s : Settings} {t : FileTree} {m : SourcePath}

/-- Whatever is exported, and whatever is remembered truthfully, there is a draft of the module whose
first line is known again, so that it purges to what the module purges to. -/
def KnowsImports (tools : Tools) (s : Settings) (t : FileTree) (m : SourcePath) : Prop :=
  ∀ exports : ExportSet, (∀ n ∈ exports.names, '\n' ∉ n) →
    ∀ st : SyncState, st.tree = t → st.cache.IsTruthful tools.extract s.collect →
      ∃ d st', (draftFor tools s exports m).Yields st (some d) st' ∧
        s.aggregator.references.recognizes (headLine d.after) = true ∧
        purge s.aggregator.references d.after = purge s.aggregator.references d.before

theorem knowsImports_iff {original : Text} (htext : t.readText? m.text = some original)
    (hline : '\n' ∉ Path.reference m.dir s.aggregator.path) :
    KnowsImports tools s t m ↔
      ∀ exports : ExportSet, (∀ n ∈ exports.names, '\n' ∉ n) →
        s.aggregator.references.recognizes (importFor tools s exports m original) = true := by
  constructor
  · intro h exports hexports
    have htruthful := NameCache.isTruthful_empty tools.extract s.collect
    obtain ⟨d, st', hd, hknown, -⟩ := h exports hexports { tree := t } rfl htruthful
    have htext' : (SyncState.mk t {} []).tree.readText? m.text = some original := htext
    obtain ⟨st'', hdraft, -⟩ := exists_yields_draftFor htext' htruthful
    obtain rfl := Option.some.inj (hd.unique hdraft).1
    rwa [headLine_importFor hline hexports] at hknown
  · intro h exports hexports st ht hc
    subst ht
    obtain ⟨st', hdraft, -⟩ := exists_yields_draftFor htext hc
    have hknown := h exports hexports
    refine ⟨_, st', hdraft, ?_, ?_⟩
    · rwa [headLine_importFor hline hexports]
    · have hnewline : '\n' ∉ importFor tools s exports m original :=
        newline_not_mem_importFor hline hexports original
      exact (purge_import_line_iff hnewline original).2 hknown

/-- The import that a found module gets is known again if the module lies below the root. Anywhere, it
is known again exactly if the way down to the aggregator ends in a tail of one of the aggregator's
names. -/
theorem knowsImports_of_found {name : Text} {previous : List Text}
    (hroot : Path.isAbsolute s.root = true)
    (haggregator : s.aggregator = .ofNames s.root name previous)
    (hname : '\n' ∉ s.aggregator.name) {configured original : Text} {files : List SourcePath}
    (hwalk : t.walk (s.resolve configured) s.respectIgnoreFiles = .ok files) (hm : m ∈ files)
    (htext : t.readText? m.text = some original) :
    (Path.cleanPieces s.root <+: Path.cleanPieces m.dir →
      ¬ Path.cleanPieces s.aggregator.path <+: Path.cleanPieces m.dir → KnowsImports tools s t m) ∧
    ('\n' ∉ s.aggregator.path → ¬ ['\'', ';'] <:+: s.aggregator.path →
      (KnowsImports tools s t m ↔
        ∃ n ∈ s.aggregator.name :: s.aggregator.previousNames,
          LeadsByTail (Path.wayDown s.aggregator.path m.dir) n)) := by
  have hdir : Path.isAbsolute m.dir = true := by
    rcases FileTree.isAbsolute_of_mem_walk (Settings.isAbsolute_resolve hroot configured) hwalk hm with hnil | habs
    · exact absurd hnil (FileTree.ne_nil_of_readText? htext)
    · exact SourcePath.isAbsolute_dir habs
  rw [haggregator] at hname ⊢
  constructor
  · intro hbelow hnot
    have hknown := Aggregator.isKnownFrom_of_isNamedFrom hroot hname
      (Aggregator.isNamedFrom_of_root hroot hdir hbelow hnot)
    rw [← haggregator] at hknown
    exact (knowsImports_iff htext hknown.newline).2 fun exports _ => hknown.recognizes _
  · intro hnewline hquote
    have hline : '\n' ∉ Path.reference m.dir s.aggregator.path := by
      rw [haggregator, ← List.singleton_infix_iff]
      refine Aggregator.not_infix_reference hroot hdir (by decide) (by decide) (by simp) ?_
      rwa [List.singleton_infix_iff]
    have hclose := Aggregator.not_infix_reference hroot hdir (by decide) (by decide) (by simp) hquote
    rw [knowsImports_iff htext hline]
    constructor
    · intro h
      -- without exports there is nothing but the source in which a pattern could stand
      have hempty := h .empty (by simp [ExportSet.empty])
      rw [importFor, Settings.consumerImport, haggregator] at hempty
      exact (Aggregator.recognizes_reference_iff hroot hdir (by simp [ExportSet.empty,
        ExportSet.without]) hclose).1 hempty
    · rintro ⟨n, hn, htail⟩ exports -
      rw [importFor, Settings.consumerImport, haggregator]
      exact Aggregator.recognizes_of_leadsByTail hroot hdir hn htail _

/-- A tree with one page outside the site. -/
def outsideTree : FileTree where
  workingDir := []
  entries := [
    (["other".toList], .dir),
    (["other".toList, "page.js".toList], .file (Utf8.encode "use(a);\n".toList))]

/-- The import of a page beside the root is not known again: the way down to the aggregator starts with
the root's own directory, which is no part of the aggregator's name. -/
theorem not_knowsImports_outside :
    outsideTree.walk (siteSettings.resolve "../other".toList) false =
        .ok [⟨"/other/page.js".toList⟩] ∧
      ¬ KnowsImports {} siteSettings outsideTree ⟨"/other/page.js".toList⟩ := by
  have hwalk : outsideTree.walk (siteSettings.resolve "../other".toList) false =
      .ok [⟨"/other/page.js".toList⟩] := by
    decide +kernel
  refine ⟨hwalk, fun hknows => ?_⟩
  have htext : outsideTree.readText? "/other/page.js".toList = some "use(a);\n".toList := by
    decide +kernel
  have hdown : Path.wayDown siteSettings.aggregator.path
      (SourcePath.mk "/other/page.js".toList).dir = ["site".toList, "imports.js".toList] := by
    decide +kernel
  have hroot : Path.isAbsolute siteSettings.root = true := by decide
  obtain ⟨n, hn, init, tail, hsplit, hne, htail, hdot⟩ :=
    ((knowsImports_of_found hroot rfl (by decide +kernel) hwalk (List.mem_singleton.2 rfl) htext).2
      (by decide +kernel) (by decide +kernel)).1 hknows
  have hname : n = "imports.js".toList := by
    have hnames : siteSettings.aggregator.name :: siteSettings.aggregator.previousNames =
        ["imports.js".toList] := by
      decide +kernel
    rw [hnames] at hn
    exact List.mem_singleton.1 hn
  have hpieces : Path.pieces n = ["imports.js".toList] := by
    rw [hname]
    decide +kernel
  rw [hpieces, List.suffix_cons_iff, List.suffix_nil] at htail
  rcases htail with htail | htail
  · rw [hdown, htail] at hsplit
    have hinit : ["site".toList] = init := List.append_cancel_right hsplit
    exact absurd (hdot "site".toList (by rw [← hinit]; rfl)) (by decide +kernel)
  · exact hne htail

end ImportSync
