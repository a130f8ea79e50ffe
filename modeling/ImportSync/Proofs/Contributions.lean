import ImportSync.Proofs.NameSets
import ImportSync.Proofs.Outcomes
import Mathlib.Data.List.Forall2

/-!
What the generated module is made of. Import roots may overlap, and a file may be found any number of
times and be of any kind, but the module is told by one list of files: those that are found below the
roots, root after root and each root in order, of which the ones that take part are kept at their first
occurrence. Every file of that list stands for one import at most and for the names that it contributes.

Each module is imported with all the names that it exports. So a name that two modules export stands in
two imports, although it is exported once.
-/

namespace ImportSync

variable {tools : Tools} {s : Settings} {t : FileTree}

/-! ### The files that take part -/

/-- The files that are found below a root, in their order. -/
def FindsInOrder (tools : Tools) (s : Settings) (t : FileTree) (configured : Text)
    (files : List SourcePath) : Prop :=
  ∃ found, tools.walk t (s.resolve configured) s.respectIgnoreFiles = .ok found ∧
    files.Perm found ∧ files.Pairwise SourcePath.Before

theorem findsInOrder_sort {configured : Text} {found : List SourcePath}
    (h : tools.walk t (s.resolve configured) s.respectIgnoreFiles = .ok found) :
    FindsInOrder tools s t configured (SourcePath.sort found) :=
  ⟨found, h, List.mergeSort_perm found _, SourcePath.pairwise_sort found⟩

/-- Of the files that are found, root after root, those that take part in the generated module, each
where it is found first. -/
def Settings.participants (s : Settings) (found : List (List SourcePath)) : List SourcePath :=
  (found.flatten.filter s.isImported).eraseDups

theorem nodup_participants (found : List (List SourcePath)) : (s.participants found).Nodup :=
  nodup_eraseDups _

theorem participants_eq_unseen (found : List (List SourcePath)) :
    s.participants found = unseen [] (found.flatten.filter s.isImported) := by
  have hall : (found.flatten.filter s.isImported).filter (!([] : List SourcePath).contains ·) =
      found.flatten.filter s.isImported :=
    List.filter_eq_self.2 fun m _ => rfl
  rw [Settings.participants, unseen, hall]

/-- What is new in two lists is what is new in the first one, and then what is new in the second one. -/
theorem unseen_append (seen first later : List SourcePath) :
    unseen seen (first ++ later) =
      unseen seen first ++ unseen (seen ++ unseen seen first) later := by
  have hlater : (later.filter (!seen.contains ·)).removeAll (first.filter (!seen.contains ·)) =
      later.filter (!(seen ++ unseen seen first).contains ·) := by
    rw [List.removeAll, List.filter_filter]
    refine List.filter_congr fun m _ => ?_
    rw [Bool.eq_iff_iff]
    simp [mem_unseen]
    tauto
  rw [unseen, List.filter_append, List.eraseDups_append, hlater]
  rfl

/-! ### What a file contributes -/

/-- What the custom handler says about a file. Without a handler that is nothing. -/
def Settings.entryOf (s : Settings) (m : SourcePath) : CustomEntry :=
  (s.custom.map fun handle => handle m).getD {}

/-- The import that a file stands for: of all names that it exports if it is a module, without names if
it is an asset, and else the line of the custom handler, if there is one. -/
def importOf? (tools : Tools) (s : Settings) (t : FileTree) (m : SourcePath) : Option ImportLine :=
  match s.kindOf? m with
  | some .script => some (.named (s.referenceTo m) (ownNames tools s m (sourceOf t m).text))
  | some .asset => some (.sideEffect (s.referenceTo m))
  | some .custom => (s.entryOf m).importLine.map .raw
  | none => none

/-- The names that a file contributes: those that a module exports, or those of the custom handler. -/
def contributedNames (tools : Tools) (s : Settings) (t : FileTree) (m : SourcePath) : List Text :=
  match s.kindOf? m with
  | some .script => ownNames tools s m (sourceOf t m).text
  | some .asset => []
  | some .custom => (s.entryOf m).exportedNames.getD []
  | none => []

/-- Whether a file contributes. One that is left to the custom handler does if the handler gives a line
or a list of names, be it an empty one. -/
def Settings.contributes (s : Settings) (m : SourcePath) : Bool :=
  match s.kindOf? m with
  | some .script => true
  | some .asset => true
  | some .custom => (s.entryOf m).importLine.isSome || (s.entryOf m).exportedNames.isSome
  | none => false

/-- Whether a file is a module whose purged text is ill-formed. -/
def isIllFormed (tools : Tools) (s : Settings) (t : FileTree) (m : SourcePath) : Bool :=
  s.kindOf? m == some .script &&
    (tools.extract m (purge s.aggregator.references (sourceOf t m).text) s.collect).isNone

/-- What a file contributes, all in all. -/
def shareOf (tools : Tools) (s : Settings) (t : FileTree) (m : SourcePath) : Option Share :=
  if s.contributes m then
    some {
      statement := importOf? tools s t m
      names := contributedNames tools s t m
      parseFailed := isIllFormed tools s t m }
  else none

/-- The file can be read if it has to be. -/
def IsReadableIn (s : Settings) (t : FileTree) (m : SourcePath) : Prop :=
  s.kindOf? m = some .script → ∃ bytes, t.read? m.text = some bytes

theorem ownNames_eq (m : SourcePath) (text : Text) :
    Findings.of tools.extract s.collect m (purge s.aggregator.references text) =
      { names := ownNames tools s m text
        parseFailed :=
          (tools.extract m (purge s.aggregator.references text) s.collect).isNone } := by
  rw [Findings.of, ownNames]
  cases tools.extract m (purge s.aggregator.references text) s.collect with
  | none => rfl
  | some names => rfl

theorem sourceIn_eq_ok {m : SourcePath} {source : Source} (h : sourceIn t m = .ok source) :
    source = sourceOf t m ∧ ∃ bytes, t.read? m.text = some bytes := by
  rw [sourceIn] at h
  rw [sourceOf]
  cases hread : t.read? m.text with
  | none =>
      rw [hread] at h
      cases h
  | some bytes =>
      rw [hread] at h
      exact ⟨(Except.ok.inj h).symm, bytes, rfl⟩

theorem shareOf_script {m : SourcePath} (h : s.kindOf? m = some .script) :
    shareOf tools s t m = some (scriptShareOf tools s m (sourceOf t m)) := by
  simp [shareOf, importOf?, contributedNames, Settings.contributes, isIllFormed, scriptShareOf,
    ownNames_eq, h]

theorem shareOf_asset {m : SourcePath} (h : s.kindOf? m = some .asset) :
    shareOf tools s t m = some { statement := some (.sideEffect (s.referenceTo m)) } := by
  simp [shareOf, importOf?, contributedNames, Settings.contributes, isIllFormed, h]

theorem shareOf_custom {m : SourcePath} (h : s.kindOf? m = some .custom) :
    shareOf tools s t m = s.customShare? m := by
  simp only [shareOf, importOf?, contributedNames, Settings.contributes, isIllFormed, h,
    Settings.customShare?, Settings.entryOf]
  cases s.custom with
  | none => rfl
  | some handle =>
      cases hline : (handle m).importLine with
      | none => cases hnames : (handle m).exportedNames <;> simp [hline, hnames]
      | some line => simp [hline]

theorem shareOf_none {m : SourcePath} (h : s.kindOf? m = none) : shareOf tools s t m = none := by
  simp [shareOf, Settings.contributes, h]

/-- What is computed for a file is what it contributes. -/
theorem shareIn_eq_ok {m : SourcePath} {share : Option Share}
    (h : shareIn tools s t m = .ok share) :
    share = shareOf tools s t m ∧ IsReadableIn s t m := by
  rw [shareIn] at h
  cases hkind : s.kindOf? m with
  | none =>
      simp only [hkind] at h
      rw [shareOf_none hkind]
      exact ⟨(Except.ok.inj h).symm, by simp [IsReadableIn, hkind]⟩
  | some kind =>
      cases kind with
      | script =>
          simp only [hkind] at h
          cases hsource : sourceIn t m with
          | error e =>
              rw [hsource] at h
              cases h
          | ok source =>
              rw [hsource] at h
              obtain ⟨rfl, hread⟩ := sourceIn_eq_ok hsource
              rw [shareOf_script hkind]
              exact ⟨(Except.ok.inj h).symm, fun _ => hread⟩
      | asset =>
          simp only [hkind] at h
          rw [shareOf_asset hkind]
          exact ⟨(Except.ok.inj h).symm, by simp [IsReadableIn, hkind]⟩
      | custom =>
          simp only [hkind] at h
          rw [shareOf_custom hkind]
          exact ⟨(Except.ok.inj h).symm, by simp [IsReadableIn, hkind]⟩

/-! ### What many files contribute -/

/-- The generated module with what some files contribute, on top of what is there. -/
def Harvest.withFiles (tools : Tools) (s : Settings) (t : FileTree) (h : Harvest)
    (files : List SourcePath) : Harvest where
  document :=
    { imports := h.document.imports ++ files.filterMap (importOf? tools s t)
      exports := h.document.exports.extend (files.flatMap (contributedNames tools s t)) }
  filesScanned := h.filesScanned + files.countP s.contributes
  parseFailures := h.parseFailures + files.countP (isIllFormed tools s t)

namespace Harvest

variable {h : Harvest} {m : SourcePath}

theorem withFiles_nil (h : Harvest) : h.withFiles tools s t [] = h := by
  simp [withFiles, ExportSet.extend]

theorem withFiles_append (h : Harvest) (first later : List SourcePath) :
    (h.withFiles tools s t first).withFiles tools s t later =
      h.withFiles tools s t (first ++ later) := by
  simp [withFiles, ExportSet.extend, List.foldl_append, Nat.add_assoc]

theorem withFiles_of_share {share : Share} (hshare : shareOf tools s t m = some share) :
    h.withFiles tools s t [m] = h.add share := by
  rw [shareOf] at hshare
  split at hshare
  next hcontributes =>
    obtain rfl := Option.some.inj hshare
    cases hfailed : isIllFormed tools s t m <;> cases himport : importOf? tools s t m <;>
      simp [withFiles, add, hcontributes, hfailed, himport]
  next => cases hshare

theorem withFiles_of_no_share (hshare : shareOf tools s t m = none) :
    h.withFiles tools s t [m] = h := by
  cases hkind : s.kindOf? m with
  | none => simp [withFiles, importOf?, contributedNames, Settings.contributes, isIllFormed, hkind,
      ExportSet.extend]
  | some kind =>
      cases kind with
      | script => simp [shareOf_script hkind] at hshare
      | asset => simp [shareOf_asset hkind] at hshare
      | custom =>
          have hidle : s.contributes m = false := by
            by_contra hcontributes
            simp [shareOf, hcontributes] at hshare
          have hentry : (s.entryOf m).importLine = none ∧ (s.entryOf m).exportedNames = none := by
            simpa [Settings.contributes, hkind] using hidle
          simp [withFiles, importOf?, contributedNames, hidle, isIllFormed, hkind, hentry,
            ExportSet.extend]

/-- Adding what files contribute, one after the other. -/
theorem foldl_add (h : Harvest) (files : List SourcePath) :
    (files.filterMap (shareOf tools s t)).foldl add h = h.withFiles tools s t files := by
  induction files generalizing h with
  | nil => exact (withFiles_nil h).symm
  | cons m files ih =>
      rw [← List.singleton_append, ← withFiles_append, List.singleton_append]
      cases hshare : shareOf tools s t m with
      | none => rw [List.filterMap_cons_none hshare, ih, withFiles_of_no_share hshare]
      | some share =>
          rw [List.filterMap_cons_some hshare, List.foldl_cons, ih, withFiles_of_share hshare]

end Harvest

/-! ### All roots -/

/-- What one more root adds: the files that take part and were not seen, and what they contribute. -/
theorem importRootIn_eq_ok {seen fresh : List SourcePath} {configured : Text} {shares : List Share}
    (h : importRootIn tools s t seen configured = .ok (fresh, shares)) :
    ∃ found, tools.walk t (s.resolve configured) s.respectIgnoreFiles = .ok found ∧
      fresh = unseen seen ((SourcePath.sort found).filter s.isImported) ∧
      shares = fresh.filterMap (shareOf tools s t) ∧ ∀ m ∈ fresh, IsReadableIn s t m := by
  obtain ⟨found, given, hwalk, hfresh, hgiven, rfl⟩ := importRootIn_eq_ok_iff.1 h
  have hshare : ∀ m ∈ fresh,
      shareIn tools s t m = .ok (shareOf tools s t m) ∧ IsReadableIn s t m := by
    intro m hm
    obtain ⟨share, hok⟩ := exists_ok_of_mapM hgiven hm
    obtain ⟨rfl, hreadable⟩ := shareIn_eq_ok hok
    exact ⟨hok, hreadable⟩
  refine ⟨found, hwalk, hfresh, ?_, fun m hm => (hshare m hm).2⟩
  have hmap : given = fresh.map (shareOf tools s t) := by
    apply List.map_injective_iff.2 (fun _ _ => Except.ok.inj)
    rw [← mapM_eq_ok_iff.1 hgiven, List.map_map]
    exact List.map_congr_left fun m hm => (hshare m hm).1
  rw [hmap, List.filterMap_map]
  rfl

/-- Root after root, the files that take part are added once each. -/
theorem harvestFromIn_eq_ok {seen : List SourcePath} {h result : Harvest} {roots : List Text}
    (hresult : harvestFromIn tools s t seen h roots = .ok result) :
    ∃ found, List.Forall₂ (FindsInOrder tools s t) roots found ∧
      result = h.withFiles tools s t (unseen seen (found.flatten.filter s.isImported)) ∧
      ∀ m ∈ unseen seen (found.flatten.filter s.isImported), IsReadableIn s t m := by
  induction roots generalizing seen h with
  | nil =>
      obtain rfl : h = result := Except.ok.inj hresult
      exact ⟨[], .nil, (Harvest.withFiles_nil h).symm, by simp [unseen]⟩
  | cons configured others ih =>
      obtain ⟨⟨fresh, shares⟩, hroot, hresult⟩ := bind_eq_ok_iff.1 hresult
      obtain ⟨found, hwalk, hfresh, hshares, hreadable⟩ := importRootIn_eq_ok hroot
      obtain ⟨later, hlater, hlast, hreadable'⟩ := ih hresult
      have hall : unseen seen ((SourcePath.sort found :: later).flatten.filter s.isImported) =
          fresh ++ unseen (seen ++ fresh) (later.flatten.filter s.isImported) := by
        rw [List.flatten_cons, List.filter_append, unseen_append, ← hfresh]
      refine ⟨SourcePath.sort found :: later, .cons (findsInOrder_sort hwalk) hlater, ?_, ?_⟩
      · rw [hall, ← Harvest.withFiles_append, ← Harvest.foldl_add h fresh, ← hshares]
        exact hlast
      · rw [hall]
        intro m hm
        rcases List.mem_append.1 hm with hm | hm
        · exact hreadable m hm
        · exact hreadable' m hm

theorem harvest_eq_withFiles {output : Harvest} {st : SyncState}
    (h : (harvest tools s).Yields { tree := t } output st) :
    ∃ found, List.Forall₂ (FindsInOrder tools s t) s.importRoots found ∧
      output = Harvest.withFiles tools s t {} (s.participants found) ∧
      ∀ m ∈ s.participants found, IsReadableIn s t m := by
  obtain ⟨hresult, -⟩ := (observes_harvestFrom [] {} s.importRoots).of_yields rfl
    (NameCache.isTruthful_empty _ _) h
  obtain ⟨found, hfound, houtput, hreadable⟩ := harvestFromIn_eq_ok hresult
  rw [← participants_eq_unseen] at houtput hreadable
  exact ⟨found, hfound, houtput, hreadable⟩

/-! ### The generated module as a whole -/

/-- The generated module is made of the given files, in their order: of one import for each module and
each asset, and for each other file for which the custom handler gives a line, and of all names that files
contribute, each where it comes first. -/
structure Harvest.IsMadeOf (tools : Tools) (s : Settings) (t : FileTree) (h : Harvest)
    (files : List SourcePath) : Prop where
  readable : ∀ m ∈ files, IsReadableIn s t m
  imports : h.document.imports = files.filterMap (importOf? tools s t)
  exports : h.document.exports.names =
    ((files.flatMap (contributedNames tools s t)).filter (· ≠ [])).eraseDups
  mem_exports : ∀ n, n ∈ h.document.exports.names ↔
    n ≠ [] ∧ ∃ m ∈ files, n ∈ contributedNames tools s t m
  nodup_exports : h.document.exports.names.Nodup
  filesScanned : h.filesScanned = files.countP s.contributes
  parseFailures : h.parseFailures = files.countP (isIllFormed tools s t)

theorem Harvest.isMadeOf_withFiles {files : List SourcePath}
    (hreadable : ∀ m ∈ files, IsReadableIn s t m) :
    (Harvest.withFiles tools s t {} files).IsMadeOf tools s t files := by
  have hexports : (Harvest.withFiles tools s t {} files).document.exports.names =
      ((files.flatMap (contributedNames tools s t)).filter (· ≠ [])).eraseDups := by
    show (ExportSet.empty.extend _).names = _
    rw [ExportSet.names_extend]
    simp [ExportSet.empty]
  constructor
  · exact hreadable
  · simp [Harvest.withFiles]
  · exact hexports
  · intro n
    rw [hexports, List.mem_eraseDups, List.mem_filter, List.mem_flatMap]
    simp [and_comm]
  · exact ExportSet.nodup _
  · simp [Harvest.withFiles]
  · simp [Harvest.withFiles]

/-- A generated module is made of the files that take part, of those that are found below the import
roots. -/
theorem harvest_is_made_of_participants {output : Harvest} {st : SyncState}
    (h : (harvest tools s).Yields { tree := t } output st) :
    ∃ found, List.Forall₂ (FindsInOrder tools s t) s.importRoots found ∧
      output.IsMadeOf tools s t (s.participants found) := by
  obtain ⟨found, hfound, rfl, hreadable⟩ := harvest_eq_withFiles h
  exact ⟨found, hfound, Harvest.isMadeOf_withFiles hreadable⟩

/-- A site with files of all kinds below roots of their own. Two modules export the same name, and a
third one is ill-formed. -/
def mixedSite : FileTree where
  workingDir := []
  entries := [
    (["site".toList], .dir),
    (["site".toList, "a".toList], .dir),
    (["site".toList, "a".toList, "a.js".toList],
      .file (Utf8.encode "export const shared = 1, a = 2;\n".toList)),
    (["site".toList, "b".toList], .dir),
    (["site".toList, "b".toList, "b.js".toList],
      .file (Utf8.encode "export const b = 1, shared = 2;\n".toList)),
    (["site".toList, "style".toList], .dir),
    (["site".toList, "style".toList, "page.css".toList], .file []),
    (["site".toList, "data".toList], .dir),
    (["site".toList, "data".toList, "table.yaml".toList], .file []),
    (["site".toList, "other".toList], .dir),
    (["site".toList, "other".toList, "skip.bin".toList], .file []),
    (["site".toList, "broken".toList], .dir),
    (["site".toList, "broken".toList, "x.js".toList],
      .file (Utf8.encode "export const = ;\n".toList))]

/-- The settings for the site, where one root is given twice. Tables export a name, and there is no line
for them. -/
def mixedSettings : Settings :=
  { siteSettings with
    importRoots := ["./a/".toList, "b".toList, "./a".toList, "./style/".toList, "./data/".toList,
      "./other/".toList, "./broken/".toList]
    custom := some fun m =>
      if m.hasExtension "yaml".toList then { exportedNames := some ["table".toList] } else {} }

/-- A step of which a value is computed that ends well does so. -/
theorem SyncM.exists_yields_of_map {α β : Type} {x : SyncM α} {st : SyncState} {f : α → β} {b : β}
    (h : (x.run st).1.map f = .ok b) : ∃ a st', x.Yields st a st' ∧ f a = b := by
  obtain ⟨a, ha, hb⟩ := map_eq_ok_iff.1 h
  exact ⟨a, (x.run st).2, Prod.ext ha rfl, hb⟩

theorem harvest_is_made_of_participants_mixedSite :
    ∃ output st, (harvest {} mixedSettings).Yields { tree := mixedSite } output st ∧
      output.document.render =
        ("import \x7bshared, a\x7d from './a/a.js';\nimport \x7bb, shared\x7d from './b/b.js';\n" ++
          "import './style/page.css';\nimport \x7b\x7d from './broken/x.js';\n\n" ++
          "export \x7bshared, a, b, table\x7d;\n").toList ∧
      output.filesScanned = 5 ∧ output.parseFailures = 1 ∧
      ∃ found, List.Forall₂ (FindsInOrder {} mixedSettings mixedSite) mixedSettings.importRoots found ∧
        output.IsMadeOf {} mixedSettings mixedSite (mixedSettings.participants found) := by
  have hvalues : ((harvest {} mixedSettings).run { tree := mixedSite }).1.map
      (fun output => (output.document.render, output.filesScanned, output.parseFailures)) =
      .ok (("import \x7bshared, a\x7d from './a/a.js';\nimport \x7bb, shared\x7d from './b/b.js';\n" ++
          "import './style/page.css';\nimport \x7b\x7d from './broken/x.js';\n\n" ++
          "export \x7bshared, a, b, table\x7d;\n").toList, 5, 1) := by
    decide +kernel
  obtain ⟨output, st, hyields, hvalues⟩ := SyncM.exists_yields_of_map hvalues
  obtain ⟨hrender, hcounts⟩ := Prod.mk.inj hvalues
  obtain ⟨hscanned, hfailures⟩ := Prod.mk.inj hcounts
  exact ⟨output, st, hyields, hrender, hscanned, hfailures, harvest_is_made_of_participants hyields⟩

/-! ### Names that several modules export -/

/-- The names that an import brings in. -/
def ImportLine.names : ImportLine → List Text
  | .named _ names => names
  | .sideEffect _ => []
  | .raw _ => []

/-- The imports that bring in a name. -/
def Document.importsOf (d : Document) (n : Text) : List ImportLine :=
  d.imports.filter (n ∈ ·.names)

/-- Whether a file is a module that exports the name. -/
def exportsName (tools : Tools) (s : Settings) (t : FileTree) (n : Text) (m : SourcePath) : Bool :=
  s.kindOf? m = some .script ∧ n ∈ ownNames tools s m (sourceOf t m).text

/-- The import of all names that a module exports. -/
def importOfAll (tools : Tools) (s : Settings) (t : FileTree) (m : SourcePath) : ImportLine :=
  .named (s.referenceTo m) (ownNames tools s m (sourceOf t m).text)

/-- A name is brought in by the imports of the modules that export it. -/
theorem Harvest.IsMadeOf.importsOf {h : Harvest} {files : List SourcePath}
    (hmade : h.IsMadeOf tools s t files) (n : Text) :
    h.document.importsOf n =
      (files.filter (exportsName tools s t n)).map (importOfAll tools s t) := by
  rw [Document.importsOf, hmade.imports, List.filter_filterMap, ← List.filterMap_eq_map,
    List.filterMap_filter]
  refine List.filterMap_congr fun m _ => ?_
  cases hkind : s.kindOf? m with
  | none => simp [importOf?, exportsName, hkind]
  | some kind =>
      cases kind with
      | script =>
          by_cases hn : n ∈ ownNames tools s m (sourceOf t m).text
          · simp [importOf?, exportsName, hkind, importOfAll, ImportLine.names, hn]
          · simp [importOf?, exportsName, hkind, ImportLine.names, hn]
      | asset => simp [importOf?, exportsName, hkind, ImportLine.names]
      | custom =>
          cases hline : (s.entryOf m).importLine <;>
            simp [importOf?, exportsName, hkind, hline, ImportLine.names]

/-- Without a custom handler, every name comes from a module that exports it. -/
theorem Harvest.IsMadeOf.exists_exportsName (hcustom : s.custom = none) {h : Harvest}
    {files : List SourcePath} (hmade : h.IsMadeOf tools s t files) {n : Text}
    (hn : n ∈ h.document.exports.names) : ∃ m ∈ files, exportsName tools s t n m = true := by
  obtain ⟨-, m, hm, hname⟩ := (hmade.mem_exports n).1 hn
  refine ⟨m, hm, ?_⟩
  cases hkind : s.kindOf? m with
  | none => simp [contributedNames, hkind] at hname
  | some kind =>
      cases kind with
      | script =>
          simp only [contributedNames, hkind] at hname
          simp [exportsName, hkind, hname]
      | asset => simp [contributedNames, hkind] at hname
      | custom => simp [contributedNames, hkind, Settings.entryOf, hcustom] at hname

theorem nodup_ownNames (m : SourcePath) (text : Text) : (ownNames {} s m text).Nodup := by
  rw [ownNames]
  cases hnames : namesExported? m (purge s.aggregator.references text) s.collect with
  | none => simp [hnames]
  | some names =>
      obtain ⟨statements, -, rfl⟩ := Option.map_eq_some_iff.1 hnames
      simp only [hnames, Option.getD_some]
      exact (nodup_eraseDups _).filter _

theorem filter_eq_singleton_iff {α : Type} {p : α → Bool} {l : List α} (h : l.Nodup) :
    (∃ a, l.filter p = [a]) ↔ ∃! a, a ∈ l ∧ p a = true := by
  constructor
  · rintro ⟨a, ha⟩
    have hmem : ∀ b, b ∈ l ∧ p b = true ↔ b = a := by
      intro b
      rw [← List.mem_filter, ha, List.mem_singleton]
    exact ⟨a, (hmem a).2 rfl, fun b hb => (hmem b).1 hb⟩
  · rintro ⟨a, ha, hunique⟩
    refine ⟨a, List.perm_singleton.1 ?_⟩
    rw [List.perm_ext_iff_of_nodup (h.filter p) (List.nodup_singleton a)]
    intro b
    rw [List.mem_filter, List.mem_singleton]
    constructor
    · exact hunique b
    · rintro rfl
      exact ha

/-- A name that is exported is brought in, once each time, by the imports of all modules that export it.
So it is brought in by one import only exactly if one module only exports it. -/
theorem exported_name_is_brought_in (hcustom : s.custom = none) {output : Harvest} {st : SyncState}
    (h : (harvest {} s).Yields { tree := t } output st) :
    ∃ found, List.Forall₂ (FindsInOrder {} s t) s.importRoots found ∧
      ∀ n ∈ output.document.exports.names,
        output.document.importsOf n ≠ [] ∧
        output.document.importsOf n =
          ((s.participants found).filter (exportsName {} s t n)).map (importOfAll {} s t) ∧
        (∀ i ∈ output.document.importsOf n, i.names.count n = 1) ∧
        ((∃ i, output.document.importsOf n = [i]) ↔
          ∃! m, m ∈ s.participants found ∧ exportsName {} s t n m = true) := by
  obtain ⟨found, hfound, rfl, hreadable⟩ := harvest_eq_withFiles h
  have hmade : (Harvest.withFiles {} s t {} (s.participants found)).IsMadeOf {} s t
      (s.participants found) := Harvest.isMadeOf_withFiles hreadable
  refine ⟨found, hfound, fun n hn => ?_⟩
  have hall := hmade.importsOf n
  refine ⟨?_, hall, ?_, ?_⟩
  · obtain ⟨m, hm, hexports⟩ := hmade.exists_exportsName hcustom hn
    rw [hall]
    simpa using ⟨m, hm, hexports⟩
  · intro i hi
    rw [hall] at hi
    obtain ⟨m, hm, rfl⟩ := List.mem_map.1 hi
    have hname : n ∈ ownNames {} s m (sourceOf t m).text := by
      have hexports := (List.mem_filter.1 hm).2
      simp only [exportsName, decide_eq_true_eq] at hexports
      exact hexports.2
    exact List.count_eq_one_of_mem (nodup_ownNames m _) hname
  · rw [← filter_eq_singleton_iff (nodup_participants found), hall]
    simp [List.map_eq_singleton_iff]

/-- The site without a handler for tables. -/
def plainSettings : Settings :=
  { mixedSettings with custom := none }

theorem exported_name_is_brought_in_mixedSite :
    ∃ output st, (harvest {} plainSettings).Yields { tree := mixedSite } output st ∧
      "a".toList ∈ output.document.exports.names ∧
      ∃ found, List.Forall₂ (FindsInOrder {} plainSettings mixedSite) plainSettings.importRoots found ∧
        (∀ i ∈ output.document.importsOf "a".toList, i.names.count "a".toList = 1) ∧
        ((∃ i, output.document.importsOf "a".toList = [i]) ↔
          ∃! m, m ∈ plainSettings.participants found ∧
            exportsName {} plainSettings mixedSite "a".toList m = true) := by
  have hnames : ((harvest {} plainSettings).run { tree := mixedSite }).1.map
      (fun output => output.document.exports.names) =
      .ok ["shared".toList, "a".toList, "b".toList] := by
    decide +kernel
  obtain ⟨output, st, hyields, hnames⟩ := SyncM.exists_yields_of_map hnames
  have ha : "a".toList ∈ output.document.exports.names := by simp [hnames]
  obtain ⟨found, hfound, hall⟩ := exported_name_is_brought_in rfl hyields
  obtain ⟨-, -, hcount, hone⟩ := hall _ ha
  exact ⟨output, st, hyields, ha, found, hfound, hcount, hone⟩

/-- A name that two modules export is brought in twice. -/
theorem shared_name_is_brought_in_twice :
    ∃ output st, (harvest {} plainSettings).Yields { tree := mixedSite } output st ∧
      plainSettings.custom = none ∧ "shared".toList ∈ output.document.exports.names ∧
      output.document.importsOf "shared".toList =
        [.named "./a/a.js".toList ["shared".toList, "a".toList],
          .named "./b/b.js".toList ["b".toList, "shared".toList]] := by
  have hvalues : ((harvest {} plainSettings).run { tree := mixedSite }).1.map
      (fun output => (output.document.exports.names, output.document.importsOf "shared".toList)) =
      .ok (["shared".toList, "a".toList, "b".toList],
        [.named "./a/a.js".toList ["shared".toList, "a".toList],
          .named "./b/b.js".toList ["b".toList, "shared".toList]]) := by
    decide +kernel
  obtain ⟨output, st, hyields, hvalues⟩ := SyncM.exists_yields_of_map hvalues
  obtain ⟨hnames, himports⟩ := Prod.mk.inj hvalues
  exact ⟨output, st, hyields, rfl, by simp [hnames], himports⟩

end ImportSync
