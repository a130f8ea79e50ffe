import ImportSync.Proofs.Effects
import Mathlib.Data.List.Nodup

/-!
What a run that succeeds leaves behind. Every module of the modify roots has the import of the aggregator
that it is to have as its first line, whether it was written or not; the rest of a module that was written
is the end of what it was, without generated imports at its start; and no other file changes.

A module whose first line is as it is to be is not looked at any further. Generated imports that follow
that line therefore stay.
-/

namespace ImportSync

/-- The text of the file at a location. -/
def FileTree.HoldsText (t : FileTree) (l : Location) (text : Text) : Prop :=
  ∃ bytes, t.get? l = some (.file bytes) ∧ Utf8.decode? bytes = some text

/-- The module at a location is brought up to date: a modify root covers it, and it is a module other than
the aggregator that the filter, where it applies, lets pass. -/
structure Settings.Covers (s : Settings) (l : Location) : Prop where
  below : ∃ c ∈ s.modifyRoots, Path.cleanPieces (s.resolve c) <+: l
  isModified : s.isModified ⟨FileTree.pathOf l⟩ = true

/-- What follows the first line of a text that is not blank. -/
def afterHeadLine (code : Text) : Text :=
  (Text.afterLine? (Text.trimStart code)).getD []

variable {tools : Tools} {s : Settings} {exports : ExportSet} {t t' : FileTree}

/-! ### A site that was synchronised before -/

/-- A page whose first line is as it is to be, and whose second line is a generated import of old. -/
def oldPage : Text :=
  ("import \x7ba\x7d from './../../imports.js';\n" ++
    "import \x7bold\x7d from './../../imports.js';\nshow(a);\n").toList

/-- Where the page lies. -/
def pageLocation : Location := ["site".toList, "src".toList, "pages".toList, "home.js".toList]

/-- Where a malformed module lies. -/
def rawLocation : Location := ["site".toList, "src".toList, "raw".toList, "raw.js".toList]

/-- The small site with the old page and a module that is malformed. -/
def oldSite : FileTree where
  workingDir := []
  entries := [
    (["site".toList], .dir),
    (["site".toList, "src".toList], .dir),
    (["site".toList, "src".toList, "pages".toList], .dir),
    (pageLocation, .file (Utf8.encode oldPage)),
    (["site".toList, "src".toList, "raw".toList], .dir),
    (rawLocation, .file [0xFF]),
    (["site".toList, "src".toList, "resources".toList], .dir),
    (["site".toList, "src".toList, "resources".toList, "a.js".toList],
      .file (Utf8.encode "export const a = 1;\n".toList))]

/-- The settings of the site, where the malformed module is covered too. -/
def oldSettings : Settings :=
  { siteSettings with modifyRoots := Settings.usualModifyRoots ++ ["./src/raw/".toList] }

theorem isPlain_oldSite : oldSite.IsPlain :=
  FileTree.isPlain_of_entries (by decide +kernel) (by decide +kernel)

theorem no_backslash_oldSite (l : Location) (bytes : Utf8.Bytes)
    (h : oldSite.get? l = some (.file bytes)) : ∀ n ∈ l, '\\' ∉ n := by
  have hentries : ∀ entry ∈ oldSite.entries, ∀ n ∈ entry.1, '\\' ∉ n := by decide +kernel
  intro n hn
  exact hentries _ (FileTree.mem_entries_of_get? (List.ne_nil_of_mem hn) h) n hn

theorem harvest_oldSite (output : Harvest)
    (h : ((harvest {} oldSettings).run { tree := oldSite }).1 = .ok output) :
    output.document.exports.names = ["a".toList] := by
  have hnames : ((harvest {} oldSettings).run { tree := oldSite }).1.toOption.map
      (fun output => output.document.exports.names) = some ["a".toList] := by
    decide +kernel
  rw [h] at hnames
  exact Option.some.inj hnames

theorem sync_oldSite : ∃ r, (sync {} oldSettings oldSite).result = .ok r ∧
    r.consumers = [⟨⟨"/site/src/resources/a.js".toList⟩, .written⟩, ⟨homePage, .unchanged⟩] := by
  have hconsumers : (sync {} oldSettings oldSite).result.map (·.consumers) =
      .ok [⟨⟨"/site/src/resources/a.js".toList⟩, .written⟩, ⟨homePage, .unchanged⟩] := by
    decide +kernel
  exact map_eq_ok_iff.1 hconsumers

theorem newline_not_mem_oldSite (output : Harvest)
    (h : ((harvest {} oldSettings).run { tree := oldSite }).1 = .ok output) :
    ∀ n ∈ output.document.exports.names, '\n' ∉ n := by
  rw [harvest_oldSite output h]
  decide

theorem holdsText_oldSite : oldSite.HoldsText pageLocation oldPage :=
  ⟨Utf8.encode oldPage, by decide +kernel, Utf8.decode?_encode oldPage⟩

theorem below_oldSettings : ∀ c ∈ oldSettings.modifyRoots,
    Path.cleanPieces oldSettings.root <+: Path.cleanPieces (oldSettings.resolve c) := by
  decide +kernel

/-! ### What is drafted -/

/-- The draft of a module of the given text. -/
def draftFrom (tools : Tools) (s : Settings) (exports : ExportSet) (m : SourcePath) (text : Text) :
    Draft where
  path := m
  before := text
  after := importFor tools s exports m text ++ '\n' :: purge s.aggregator.references text

theorem draftOf_ofBytes {m : SourcePath} {bytes : Utf8.Bytes} {d : Draft} :
    draftOf tools s exports m (.ofBytes bytes) = some d ↔
      ∃ text, Utf8.decode? bytes = some text ∧ d = draftFrom tools s exports m text := by
  rw [draftOf_eq_some_iff, Source.ofBytes]
  cases hdecode : Utf8.decode? bytes with
  | none => simp
  | some text => simp [draftFrom]

/-- The drafts that are due are those of the well-formed modules that are covered. -/
theorem isDue_iff {d : Draft} :
    d.IsDue tools s exports s.modifyRoots t ↔
      ∃ l bytes text, s.Covers l ∧ l ≠ s.home ∧ t.get? l = some (.file bytes) ∧
        Utf8.decode? bytes = some text ∧
        d = draftFrom tools s exports ⟨FileTree.pathOf l⟩ text := by
  constructor
  · rintro ⟨hmodified, c, hc, l, bytes, hl, hholds, hdraft⟩
    obtain ⟨text, hdecode, hd⟩ := draftOf_ofBytes.1 hdraft
    have hpath : d.path = ⟨FileTree.pathOf l⟩ := SourcePath.eq_of_text hholds.path
    rw [hpath] at hmodified hd
    exact ⟨l, bytes, text, ⟨⟨c, hc, hl⟩, hmodified⟩, hholds.ne_home, hholds.get?, hdecode, hd⟩
  · rintro ⟨l, bytes, text, ⟨⟨c, hc, hl⟩, hmodified⟩, hne, hget, hdecode, rfl⟩
    exact ⟨hmodified, c, hc, l, bytes, hl, ⟨rfl, hne, hget⟩, draftOf_ofBytes.2 ⟨text, hdecode, rfl⟩⟩

/-- The aggregator is not covered where it is a file whose path is spelled in one way. -/
theorem Settings.Covers.ne_home (hs : ScansFromRoot tools s)
    (hbackslash : ∀ l bytes, t.get? l = some (.file bytes) → ∀ n ∈ l, '\\' ∉ n) {l : Location}
    (h : s.Covers l) {bytes : Utf8.Bytes} (hget : t.get? l = some (.file bytes)) : l ≠ s.home := by
  rintro rfl
  have hne : s.home ≠ [] := by
    intro hnil
    simp [hnil] at hget
  refine ne_sourcePath_of_isModified h.isModified ?_
  rw [hs.sourcePath_eq, FileTree.ofText_pathOf hne hs.isName_home (hbackslash _ _ hget)]

/-! ### What becomes of a module -/

namespace Runs

variable {output : Harvest} {consumers : List Update} {ds : List Draft}

/-- A module that was drafted holds what was drafted or what it held, as its draft says. -/
theorem get?_of_mem (h : Runs tools s t t' output consumers ds) {d : Draft} (hd : d ∈ ds)
    {l : Location} {bytes : Utf8.Bytes} (hholds : t.Holds s.home d.path l bytes) :
    t'.get? l = some (.file
      (if d.outcome s.mode = .written then Utf8.encode d.after else bytes)) := by
  split
  next hwritten => exact h.written hd hwritten hholds
  next hleft =>
    refine (h.frame hholds.ne_home (fun e he hwritten htext => hleft ?_) bytes).2 hholds.get?
    have hpath : e.path = d.path := SourcePath.eq_of_text (htext.trans hholds.path.symm)
    rw [← List.inj_on_of_nodup_map h.nodup he hd hpath]
    exact hwritten

/-- The text that is there after the run. -/
theorem holdsText_of_mem (h : Runs tools s t t' output consumers ds) {l : Location}
    {bytes : Utf8.Bytes} {text : Text} (hne : l ≠ s.home) (hget : t.get? l = some (.file bytes))
    (hdecode : Utf8.decode? bytes = some text) {d : Draft}
    (hd : d = draftFrom tools s output.document.exports ⟨FileTree.pathOf l⟩ text) (hmem : d ∈ ds) :
    t'.HoldsText l (if d.outcome s.mode = .written then d.after else text) := by
  have hholds : t.Holds s.home d.path l bytes := ⟨by rw [hd, draftFrom], hne, hget⟩
  refine ⟨_, h.get?_of_mem hmem hholds, ?_⟩
  split
  · exact Utf8.decode?_encode d.after
  · exact hdecode

theorem mem_consumers_iff (h : Runs tools s t t' output consumers ds) {u : Update} :
    u ∈ consumers ↔ ∃ d ∈ ds, d.update s.mode = u := by
  rw [h.consumers, List.mem_map]

end Runs

/-! ### The first line -/

/-- The names that a module of the given text exports itself; none if the text is ill-formed. -/
def ownNames (tools : Tools) (s : Settings) (m : SourcePath) (text : Text) : List Text :=
  (tools.extract m (purge s.aggregator.references text) s.collect).getD []

theorem importFor_eq (tools : Tools) (s : Settings) (exports : ExportSet) (m : SourcePath)
    (text : Text) :
    importFor tools s exports m text =
      (ImportLine.named (Path.reference m.dir s.aggregator.path)
        (exports.names.filter (· ∉ ownNames tools s m text))).render := by
  have hnames : (Findings.of tools.extract s.collect m
      (purge s.aggregator.references text)).names = ownNames tools s m text := by
    rw [Findings.of, ownNames]
    cases tools.extract m (purge s.aggregator.references text) s.collect with
    | none => rfl
    | some names => rfl
  have hwithout (own : List Text) : exports.without own = exports.names.filter (· ∉ own) := by
    simp [ExportSet.without]
  simp only [importFor, Settings.consumerImport, hnames, hwithout]
  rfl

theorem newline_not_mem_reference_of_path (hs : ScansFromRoot tools s)
    (hpath : '\n' ∉ s.aggregator.path) {dir : Text} (hdir : Path.isAbsolute dir = true) :
    '\n' ∉ Path.reference dir s.aggregator.path := by
  intro hmem
  rcases Path.mem_reference hdir hs.isAbsolute_path hmem with hc | hc | ⟨p, hp, hc⟩
  · exact absurd hc (by decide)
  · exact absurd hc (by decide)
  · rcases Path.mem_pieces_of_mem_cleanPieces (Path.mem_cleanPieces_of_mem_wayDown hp) with rfl | hp
    · exact absurd hc (by decide)
    · exact hpath (Path.mem_of_mem_pieces hp hc)

/-- In a run that writes, a module that was drafted has its import as the first line afterwards. -/
theorem headLine_of_draft (hmode : s.mode = .write) {m : SourcePath} {text : Text}
    (hline : '\n' ∉ Path.reference m.dir s.aggregator.path)
    (hexports : ∀ n ∈ exports.names, '\n' ∉ n) {d : Draft}
    (hd : d = draftFrom tools s exports m text) :
    headLine (if d.outcome s.mode = .written then d.after else text) =
      importFor tools s exports m text := by
  have hafter : headLine d.after = importFor tools s exports m text := by
    rw [hd]
    exact headLine_importFor hline hexports text _
  split
  next => exact hafter
  next hleft =>
    -- a module is left alone only where the first lines agree
    have hsame : headLine d.before = headLine d.after := by
      by_contra hdiffers
      simp [Draft.outcome, hmode, hdiffers] at hleft
    rw [← hafter, ← hsame, hd, draftFrom]

theorem Draft.outcome_write (d : Draft) :
    d.outcome .write = .written ∨ d.outcome .write = .unchanged := by
  by_cases h : headLine d.before = headLine d.after
  · simp [Draft.outcome, h]
  · simp [Draft.outcome, h]

/-- After a run that writes, every module that is covered starts with an import of exactly the exported
names that it does not export itself, in their order, from where the aggregator lies for it. This holds
of the modules that were written and of those that were left alone. -/
theorem sync_first_lines {extract : Extractor} {s : Settings} {name : Text} {previous : List Text}
    (hroot : Path.isAbsolute s.root = true)
    (haggregator : s.aggregator = .ofNames s.root name previous) (hpath : '\n' ∉ s.aggregator.path)
    (hmode : s.mode = .write) (hignore : s.respectIgnoreFiles = false) {t : FileTree}
    (ht : t.IsPlain) (hbackslash : ∀ l bytes, t.get? l = some (.file bytes) → ∀ n ∈ l, '\\' ∉ n)
    (hexports : ∀ output, ((harvest { extract } s).run { tree := t }).1 = .ok output →
      ∀ n ∈ output.document.exports.names, '\n' ∉ n)
    {r : RunReport} (h : (sync { extract } s t).result = .ok r) :
    ∃ output, ((harvest { extract } s).run { tree := t }).1 = .ok output ∧
      ∀ l text, s.Covers l → t.HoldsText l text → ∃ u ∈ r.consumers, ∃ text' names,
        u.path = ⟨FileTree.pathOf l⟩ ∧ (u.outcome = .written ∨ u.outcome = .unchanged) ∧
        (sync { extract } s t).tree.HoldsText l text' ∧
        headLine text' =
          (ImportLine.named (Path.reference u.path.dir s.aggregator.path) names).render ∧
        names = output.document.exports.names.filter (· ∉ ownNames { extract } s u.path text) ∧
        (∀ n ∈ ownNames { extract } s u.path text, n ∉ names) ∧
        ∀ n ∈ output.document.exports.names,
          n ∈ names ∨ n ∈ ownNames { extract } s u.path text := by
  have hs : ScansFromRoot { extract } s := ⟨rfl, hroot, ⟨name, previous, haggregator⟩⟩
  obtain ⟨output, ds, hruns⟩ := runs_of_sync hs ⟨ht, fun _ hget => hbackslash _ _ hget⟩ h
  refine ⟨output, hruns.harvest, ?_⟩
  rintro l text hcovers ⟨bytes, hget, hdecode⟩
  have hne := hcovers.ne_home hs hbackslash hget
  let d := draftFrom { extract } s output.document.exports ⟨FileTree.pathOf l⟩ text
  have hd : d ∈ ds := hruns.complete hignore
    (isDue_iff.2 ⟨l, bytes, text, hcovers, hne, hget, hdecode, rfl⟩)
  have hdir : Path.isAbsolute d.path.dir = true :=
    SourcePath.isAbsolute_dir (FileTree.isAbsolute_pathOf l)
  have hhead := headLine_of_draft hmode (newline_not_mem_reference_of_path hs hpath hdir)
    (hexports output hruns.harvest) (rfl : d = _)
  rw [importFor_eq] at hhead
  refine ⟨d.update s.mode, hruns.mem_consumers_iff.2 ⟨d, hd, rfl⟩, _, _, rfl, ?_,
    hruns.holdsText_of_mem hne hget hdecode rfl hd, hhead, rfl, ?_, ?_⟩
  · rw [hmode]
    exact d.outcome_write
  · intro n hown hn
    exact of_decide_eq_true (List.mem_filter.1 hn).2 hown
  · intro n hn
    by_cases hown : n ∈ ownNames { extract } s d.path text
    · exact .inr hown
    · exact .inl (List.mem_filter.2 ⟨hn, decide_eq_true hown⟩)

theorem sync_first_lines_oldSite :
    oldSettings.Covers pageLocation ∧ oldSite.HoldsText pageLocation oldPage ∧
      ∃ text, (sync {} oldSettings oldSite).tree.HoldsText pageLocation text ∧
        headLine text = "import \x7ba\x7d from './../../imports.js';".toList := by
  have hcovers : oldSettings.Covers pageLocation :=
    ⟨⟨"./src/pages/".toList, by decide, by decide +kernel⟩, by decide +kernel⟩
  obtain ⟨r, hr, -⟩ := sync_oldSite
  obtain ⟨output, houtput, hmodules⟩ := sync_first_lines (by decide) rfl (by decide +kernel) rfl rfl
    isPlain_oldSite no_backslash_oldSite newline_not_mem_oldSite hr
  obtain ⟨u, -, text, names, hpath, -, htext, hhead, hnames, -⟩ :=
    hmodules pageLocation oldPage hcovers holdsText_oldSite
  refine ⟨hcovers, holdsText_oldSite, text, htext, ?_⟩
  rw [hhead, hnames, harvest_oldSite output houtput, hpath]
  decide +kernel

/-! ### The rest of the files -/

/-- What a run leaves of the files other than the aggregator. -/
structure LeavesRest (s : Settings) (t t' : FileTree) (consumers : List Update) : Prop where
  /-- Where no module is covered, the files are those that were there. -/
  others : ∀ l bytes, l ≠ s.home → ¬ s.Covers l →
    (t'.get? l = some (.file bytes) ↔ t.get? l = some (.file bytes))
  /-- Malformed files stay, covered or not. -/
  malformed : ∀ l bytes, l ≠ s.home → t.get? l = some (.file bytes) → Utf8.decode? bytes = none →
    t'.get? l = some (.file bytes)
  /-- A module that was written is an import and the end of what it was. -/
  written : ∀ u ∈ consumers, u.outcome = .written → ∃ l old names rest,
    u.path = ⟨FileTree.pathOf l⟩ ∧ t.HoldsText l old ∧ rest <:+ old ∧
      t'.get? l = some (.file (Utf8.encode
        ((ImportLine.named (Path.reference u.path.dir s.aggregator.path) names).render ++
          '\n' :: rest)))
  /-- A module that was not written stays. -/
  kept : ∀ u ∈ consumers, u.outcome ≠ .written → ∃ l bytes,
    u.path = ⟨FileTree.pathOf l⟩ ∧ t.get? l = some (.file bytes) ∧ t'.get? l = some (.file bytes)
  /-- The modules that are reported are the well-formed ones among those that are covered. -/
  reported : ∀ m, m ∈ consumers.map (·.path) ↔
    ∃ l text, m = ⟨FileTree.pathOf l⟩ ∧ s.Covers l ∧ t.HoldsText l text
  /-- And each is reported once. -/
  nodup : (consumers.map (·.path)).Nodup

namespace Runs

variable {output : Harvest} {consumers : List Update} {ds : List Draft}

theorem paths (h : Runs tools s t t' output consumers ds) :
    consumers.map (·.path) = ds.map (·.path) := by
  rw [h.consumers, List.map_map]
  rfl

/-- A file for which nothing is due stays. -/
theorem get?_iff_of_not_due (h : Runs tools s t t' output consumers ds) (ht : t.IsPlain)
    {l : Location} (hl : ∀ n ∈ l, Path.IsName n) (hne : l ≠ s.home)
    (hnot : ∀ text, s.Covers l → ¬ t.HoldsText l text) (bytes : Utf8.Bytes) :
    t'.get? l = some (.file bytes) ↔ t.get? l = some (.file bytes) := by
  refine h.frame hne (fun d hd _ htext => ?_) bytes
  obtain ⟨k, old, text, hcovers, -, hget, hdecode, rfl⟩ := isDue_iff.1 (h.due d hd)
  obtain rfl : k = l := FileTree.pathOf_injective (ht.isName hget) hl htext
  exact hnot text hcovers ⟨old, hget, hdecode⟩

theorem get?_of_malformed (h : Runs tools s t t' output consumers ds) (ht : t.IsPlain)
    {l : Location} (hne : l ≠ s.home) {bytes : Utf8.Bytes} (hget : t.get? l = some (.file bytes))
    (hdecode : Utf8.decode? bytes = none) : t'.get? l = some (.file bytes) := by
  refine (h.get?_iff_of_not_due ht (ht.isName hget) hne ?_ bytes).2 hget
  rintro text - ⟨bytes', hget', hdecode'⟩
  rw [hget] at hget'
  cases hget'
  rw [hdecode] at hdecode'
  cases hdecode'

/-- What a module that is reported held before the run, and what it holds afterwards. -/
theorem exists_of_mem_consumers (h : Runs tools s t t' output consumers ds) {u : Update}
    (hu : u ∈ consumers) :
    ∃ l bytes text, u.path = ⟨FileTree.pathOf l⟩ ∧ t.get? l = some (.file bytes) ∧
      Utf8.decode? bytes = some text ∧
      t'.get? l = some (.file (if u.outcome = .written then
        Utf8.encode (draftFrom tools s output.document.exports u.path text).after else bytes)) := by
  obtain ⟨d, hd, rfl⟩ := h.mem_consumers_iff.1 hu
  obtain ⟨l, bytes, text, -, hne, hget, hdecode, hdraft⟩ := isDue_iff.1 (h.due d hd)
  have hpath : d.path = ⟨FileTree.pathOf l⟩ := by rw [hdraft, draftFrom]
  have hafter := h.get?_of_mem hd ⟨by rw [hpath], hne, hget⟩
  refine ⟨l, bytes, text, hpath, hget, hdecode, ?_⟩
  rw [Draft.update_path, Draft.update_outcome, hpath, ← hdraft]
  exact hafter

theorem mem_paths_iff (h : Runs tools s t t' output consumers ds) (hs : ScansFromRoot tools s)
    (hbackslash : ∀ l bytes, t.get? l = some (.file bytes) → ∀ n ∈ l, '\\' ∉ n)
    (hignore : s.respectIgnoreFiles = false) {m : SourcePath} :
    m ∈ consumers.map (·.path) ↔
      ∃ l text, m = ⟨FileTree.pathOf l⟩ ∧ s.Covers l ∧ t.HoldsText l text := by
  rw [h.paths, List.mem_map]
  constructor
  · rintro ⟨d, hd, rfl⟩
    obtain ⟨l, bytes, text, hcovers, -, hget, hdecode, rfl⟩ := isDue_iff.1 (h.due d hd)
    exact ⟨l, text, rfl, hcovers, bytes, hget, hdecode⟩
  · rintro ⟨l, text, rfl, hcovers, bytes, hget, hdecode⟩
    have hne := hcovers.ne_home hs hbackslash hget
    exact ⟨_, h.complete hignore
      (isDue_iff.2 ⟨l, bytes, text, hcovers, hne, hget, hdecode, rfl⟩), rfl⟩

end Runs

/-- A run in any mode that succeeds leaves the rest of the files, and the rest of every module, as they
were. -/
theorem sync_leaves_rest {extract : Extractor} {s : Settings} {name : Text} {previous : List Text}
    (hroot : Path.isAbsolute s.root = true)
    (haggregator : s.aggregator = .ofNames s.root name previous)
    (hignore : s.respectIgnoreFiles = false) {t : FileTree} (ht : t.IsPlain)
    (hbackslash : ∀ l bytes, t.get? l = some (.file bytes) → ∀ n ∈ l, '\\' ∉ n)
    {r : RunReport} (h : (sync { extract } s t).result = .ok r) :
    LeavesRest s t (sync { extract } s t).tree r.consumers := by
  have hs : ScansFromRoot { extract } s := ⟨rfl, hroot, ⟨name, previous, haggregator⟩⟩
  obtain ⟨output, ds, hruns⟩ := runs_of_sync hs ⟨ht, fun _ hget => hbackslash _ _ hget⟩ h
  refine ⟨?_, fun l bytes hne => hruns.get?_of_malformed ht hne, ?_, ?_,
    fun m => hruns.mem_paths_iff hs hbackslash hignore, ?_⟩
  · intro l bytes hne hnot
    by_cases hl : ∀ n ∈ l, Path.IsName n
    · exact hruns.get?_iff_of_not_due ht hl hne (fun _ hcovers => absurd hcovers hnot) bytes
    · -- locations that are not spelled in names hold nothing, before the run or after it
      constructor
      · intro hget
        exact absurd (hruns.isPlain.isName hget) hl
      · intro hget
        exact absurd (ht.isName hget) hl
  · intro u hu hwritten
    obtain ⟨l, bytes, text, hpath, hget, hdecode, hafter⟩ := hruns.exists_of_mem_consumers hu
    rw [if_pos hwritten, draftFrom, importFor_eq] at hafter
    exact ⟨l, text, _, _, hpath, ⟨bytes, hget, hdecode⟩, purge_suffix _ text, hafter⟩
  · intro u hu hleft
    obtain ⟨l, bytes, text, hpath, hget, -, hafter⟩ := hruns.exists_of_mem_consumers hu
    rw [if_neg hleft] at hafter
    exact ⟨l, bytes, hpath, hget, hafter⟩
  · rw [hruns.paths]
    exact hruns.nodup

theorem sync_leaves_rest_oldSite :
    ∃ r, (sync {} oldSettings oldSite).result = .ok r ∧
      r.consumers =
        [⟨⟨"/site/src/resources/a.js".toList⟩, .written⟩, ⟨homePage, .unchanged⟩] ∧
      LeavesRest oldSettings oldSite (sync {} oldSettings oldSite).tree r.consumers := by
  obtain ⟨r, hr, hconsumers⟩ := sync_oldSite
  exact ⟨r, hr, hconsumers,
    sync_leaves_rest (by decide) rfl rfl isPlain_oldSite no_backslash_oldSite hr⟩

/-! ### Generated text that is out of date -/

theorem afterHeadLine_importFor {m : SourcePath}
    (hline : '\n' ∉ Path.reference m.dir s.aggregator.path)
    (hexports : ∀ n ∈ exports.names, '\n' ∉ n) (text body : Text) :
    afterHeadLine (importFor tools s exports m text ++ '\n' :: body) = body := by
  have hnewline : '\n' ∉ importFor tools s exports m text :=
    newline_not_mem_importFor hline hexports text
  have htrim : Text.trimStart (importFor tools s exports m text ++ '\n' :: body) =
      importFor tools s exports m text ++ '\n' :: body := by
    rw [importFor_eq]
    obtain ⟨mid, hmid⟩ := ImportLine.render_named_ends
      (Path.reference m.dir s.aggregator.path)
      (exports.names.filter (· ∉ ownNames tools s m text))
    rw [hmid, List.cons_append]
    exact Text.trimStart_cons (by decide) _
  rw [afterHeadLine, htrim, Text.afterLine?_append_newline hnewline, Option.getD_some]

/-- What follows the first line of a module that was written is what the module purged to. A module that
was left alone is as it was. So what follows the first line starts with generated text after the run
exactly if it did before and the module was left alone. -/
theorem sync_rest_is_purged {extract : Extractor} {s : Settings} {name : Text}
    {previous : List Text} (hroot : Path.isAbsolute s.root = true)
    (haggregator : s.aggregator = .ofNames s.root name previous) (hname : '\n' ∉ s.aggregator.name)
    (hmode : s.mode = .write)
    (hbelow : ∀ c ∈ s.modifyRoots, Path.cleanPieces s.root <+: Path.cleanPieces (s.resolve c))
    {t : FileTree} (ht : t.IsPlain)
    (hbackslash : ∀ l bytes, t.get? l = some (.file bytes) → ∀ n ∈ l, '\\' ∉ n)
    (hexports : ∀ output, ((harvest { extract } s).run { tree := t }).1 = .ok output →
      ∀ n ∈ output.document.exports.names, '\n' ∉ n)
    {r : RunReport} (h : (sync { extract } s t).result = .ok r) {u : Update}
    (hu : u ∈ r.consumers) :
    ∃ l text text', u.path = ⟨FileTree.pathOf l⟩ ∧ t.HoldsText l text ∧
      (sync { extract } s t).tree.HoldsText l text' ∧
      (u.outcome = .written → afterHeadLine text' = purge s.aggregator.references text) ∧
      (u.outcome ≠ .written → text' = text) ∧
      (purge s.aggregator.references (afterHeadLine text') = afterHeadLine text' ↔
        u.outcome = .written ∨
          purge s.aggregator.references (afterHeadLine text) = afterHeadLine text) := by
  have hs : ScansFromRoot { extract } s := ⟨rfl, hroot, ⟨name, previous, haggregator⟩⟩
  obtain ⟨output, ds, hruns⟩ := runs_of_sync hs ⟨ht, fun _ hget => hbackslash _ _ hget⟩ h
  obtain ⟨d, hd, rfl⟩ := hruns.mem_consumers_iff.1 hu
  obtain ⟨l, bytes, text, hcovers, hne, hget, hdecode, hdraft⟩ := isDue_iff.1 (hruns.due d hd)
  have hpath : d.path = ⟨FileTree.pathOf l⟩ := by rw [hdraft, draftFrom]
  have hafter : d.outcome s.mode = .written →
      afterHeadLine d.after = purge s.aggregator.references text := by
    intro hwritten
    -- the aggregator is there, so that the way to it from a module below the root is within its name
    obtain ⟨agg, hhome⟩ := hruns.home hmode
    obtain ⟨c, hc, hl⟩ := hcovers.below
    have hlies : t.Holds s.home d.path l bytes := ⟨by rw [hpath], hne, hget⟩
    have hknown := isKnownFrom_of_holds hs hname hruns.isPlain.toWellFormed hhome
      (hlies.of_get? (hruns.get?_of_mem hd hlies)) ((hbelow c hc).trans hl)
    rw [hpath] at hknown
    rw [hdraft]
    exact afterHeadLine_importFor hknown.newline (hexports output hruns.harvest) text _
  refine ⟨l, text, _, hpath, ⟨bytes, hget, hdecode⟩,
    hruns.holdsText_of_mem hne hget hdecode hdraft hd, ?_⟩
  by_cases hwritten : d.outcome s.mode = .written
  · rw [if_pos hwritten, hafter hwritten]
    exact ⟨fun _ => rfl, fun hleft => absurd hwritten hleft, fun _ => .inl hwritten,
      fun _ => purge_purge _ text⟩
  · rw [if_neg hwritten]
    exact ⟨fun hw => absurd hw hwritten, fun _ => rfl, .inr, fun hw => hw.resolve_left hwritten⟩

theorem sync_rest_is_purged_oldSite :
    ∃ r, (sync {} oldSettings oldSite).result = .ok r ∧
      r.consumers =
        [⟨⟨"/site/src/resources/a.js".toList⟩, .written⟩, ⟨homePage, .unchanged⟩] ∧
      ∀ u ∈ r.consumers, ∃ l text text', u.path = ⟨FileTree.pathOf l⟩ ∧ oldSite.HoldsText l text ∧
        (sync {} oldSettings oldSite).tree.HoldsText l text' ∧
        (u.outcome = .written →
          afterHeadLine text' = purge oldSettings.aggregator.references text) ∧
        (u.outcome ≠ .written → text' = text) ∧
        (purge oldSettings.aggregator.references (afterHeadLine text') = afterHeadLine text' ↔
          u.outcome = .written ∨
            purge oldSettings.aggregator.references (afterHeadLine text) = afterHeadLine text) := by
  obtain ⟨r, hr, hconsumers⟩ := sync_oldSite
  exact ⟨r, hr, hconsumers, fun u hu => sync_rest_is_purged (by decide) rfl (by decide +kernel) rfl
    below_oldSettings isPlain_oldSite no_backslash_oldSite newline_not_mem_oldSite hr hu⟩

/-- A page that is left alone keeps the generated import that follows its first line. -/
theorem sync_keeps_stale_import :
    ∃ r, (sync {} oldSettings oldSite).result = .ok r ∧
      Path.isAbsolute oldSettings.root = true ∧ oldSettings.mode = .write ∧
      '\n' ∉ oldSettings.aggregator.name ∧
      (∀ c ∈ oldSettings.modifyRoots,
        Path.cleanPieces oldSettings.root <+: Path.cleanPieces (oldSettings.resolve c)) ∧
      (∃ u ∈ r.consumers, u.path = ⟨FileTree.pathOf pageLocation⟩) ∧
      (sync {} oldSettings oldSite).tree.HoldsText pageLocation oldPage ∧
      purge oldSettings.aggregator.references (afterHeadLine oldPage) ≠ afterHeadLine oldPage := by
  obtain ⟨r, hr, hconsumers⟩ := sync_oldSite
  have hkept : (sync {} oldSettings oldSite).tree.get? pageLocation =
      some (.file (Utf8.encode oldPage)) := by
    decide +kernel
  refine ⟨r, hr, by decide, rfl, by decide +kernel, below_oldSettings, ⟨⟨homePage, .unchanged⟩, ?_, ?_⟩,
    ⟨_, hkept, Utf8.decode?_encode oldPage⟩, by decide +kernel⟩
  · simp [hconsumers]
  · decide +kernel

end ImportSync
