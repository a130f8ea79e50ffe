import ImportSync.Proofs.Overlaps
import ImportSync.Proofs.OwnFile
import ImportSync.Proofs.Relative

/-!
What generated references denote. The way from a directory to a file goes up to the last directory that
both share and then down; joined to that directory and cleaned, it leads to the cleaned path of the
file, wherever the two lie. The aggregator's path is cleaned, and so is that of a file which is found in a
tree of names without backslashes. So every reference that is written denotes the file that it is
written for, and references to different files differ.
-/

namespace ImportSync

/-! ### Following a reference -/

namespace Path

section Absolute

variable {dir target : Text} (hdir : isAbsolute dir = true) (htarget : isAbsolute target = true)
include hdir htarget

theorem pieces_reference : pieces (reference dir target) = way target dir := by
  rw [pieces, splitOn_reference hdir htarget, List.filter_cons_of_neg (by simp)]
  split
  next hway => rw [hway, List.filter_cons_of_neg (by simp), List.filter_nil]
  next => exact filter_pieces fun p => isPiece_of_mem_way

theorem isAbsolute_reference : isAbsolute (reference dir target) = false := by
  rw [reference_absolute hdir htarget, Text.joinWith_cons (by split <;> simp_all)]
  rfl

theorem dot_slash_prefix_reference : "./".toList <+: reference dir target := by
  have hdot : "./".toList = here ++ ['/'] := by decide
  rw [reference_absolute hdir htarget, Text.joinWith_cons (by split <;> simp_all), hdot,
    ← List.append_assoc]
  exact List.prefix_append _ _

theorem cleanPieces_join_reference :
    cleanPieces (join dir (reference dir target)) = cleanPieces target := by
  obtain ⟨habs, hup, -⟩ := relativePieces?_eq_some_iff.1 (relativePieces?_absolute hdir htarget)
  rw [cleanPieces_join dir (isAbsolute_reference hdir htarget), pieces_reference hdir htarget,
    foldl_pushPiece_way habs hup, List.reverse_reverse]

/-- A reference leads from its directory to its target. -/
theorem clean_join_reference : clean (join dir (reference dir target)) = clean target := by
  rw [clean_absolute (isAbsolute_join hdir _), clean_absolute htarget,
    cleanPieces_join_reference hdir htarget]

end Absolute

end Path

/-! ### Files that are found -/

/-- In a tree of names without backslashes, every file that is found below an absolute root has an
absolute path that needs no cleaning. -/
theorem Settings.Finds.clean_text {s : Settings} (hroot : Path.isAbsolute s.root = true) {t : FileTree}
    (ht : t.WellFormed) (hbackslash : t.AllNames fun n => '\\' ∉ n) {configured : Text}
    {m : SourcePath} (h : s.Finds t configured m) :
    Path.isAbsolute m.text = true ∧ Path.clean m.text = m.text := by
  obtain ⟨files, hwalk, hm⟩ := h
  have habs := Settings.isAbsolute_resolve hroot configured
  have hnames : t.AllNames fun n => Path.IsName n ∧ '\\' ∉ n :=
    fun l e hget n hn => ⟨ht.isName hget n hn, hbackslash l e hget n hn⟩
  have hresolve : s.resolve configured =
      FileTree.pathOf (Path.cleanPieces (s.resolve configured)) :=
    clean_eq_pathOf (Path.isAbsolute_join hroot _)
  have hl : ∀ n ∈ Path.cleanPieces (s.resolve configured), Path.IsName n :=
    fun n => Path.isName_of_mem_cleanPieces habs
  rw [hresolve] at hwalk
  obtain ⟨hbelow, hfound⟩ := hnames.of_walk hl hwalk hm
  suffices hpath : ∃ k, k ≠ [] ∧ (∀ n ∈ k, Path.IsName n ∧ '\\' ∉ n) ∧
      m = .ofText (FileTree.pathOf k) by
    obtain ⟨k, hk, hkname, rfl⟩ := hpath
    have hkname' : ∀ n ∈ k, Path.IsName n := fun n hn => (hkname n hn).1
    rw [FileTree.ofText_pathOf hk hkname' fun n hn => (hkname n hn).2]
    refine ⟨rfl, ?_⟩
    rw [Path.clean_absolute (FileTree.isAbsolute_pathOf k), FileTree.pathOf,
      Path.cleanPieces_ofPieces hkname']
  rcases hfound with ⟨rfl, hne⟩ | ⟨names, hne, hnames', rfl⟩
  · exact ⟨_, hne, hbelow, rfl⟩
  · refine ⟨Path.cleanPieces (s.resolve configured) ++ names, by simp [hne], fun n hn => ?_, ?_⟩
    · exact (List.mem_append.1 hn).elim (hbelow n) (hnames' n)
    · rw [FileTree.join_pathOf hl hne fun n hn => (hnames' n hn).1]

/-! ### The generated module -/

/-- The file that an import refers to, if it is known. -/
def ImportLine.source? : ImportLine → Option Text
  | .named source _ => some source
  | .sideEffect source => some source
  | .raw _ => none

theorem Aggregator.clean_path (base name : Text) (previous : List Text) :
    Path.clean (Aggregator.ofNames base name previous).path =
      (Aggregator.ofNames base name previous).path :=
  Path.isClean_clean _

theorem Aggregator.isAbsolute_dir {base name : Text} {previous : List Text}
    (hbase : Path.isAbsolute base = true) :
    Path.isAbsolute (Aggregator.ofNames base name previous).dir = true := by
  have habs := Aggregator.isAbsolute_path hbase name previous
  rw [Aggregator.dir]
  cases hparent : Path.parent? (Aggregator.ofNames base name previous).path with
  | none =>
      -- the aggregator has a name, so it lies in some directory
      obtain ⟨above, own, -, hown, hpath, -⟩ := Aggregator.path_ends_in_name hbase name previous
      have hpieces : Path.pieces (Aggregator.ofNames base name previous).path = above ++ own := by
        rw [← hpath, ← Path.pieces_clean, Aggregator.clean_path]
      rw [Path.pieces_eq_nil_of_parent? habs hparent] at hpieces
      exact absurd (List.append_eq_nil_iff.1 hpieces.symm).2 hown
  | some dir => exact (Path.parent?_absolute habs hparent).1

variable {tools : Tools} {s : Settings} {t : FileTree}

/-- Modules and assets are referred to by where they lie. -/
theorem source?_importOf? (m : SourcePath) :
    (importOf? tools s t m).bind ImportLine.source? =
      if s.kindOf? m = some .script ∨ s.kindOf? m = some .asset then some (s.referenceTo m)
      else none := by
  rw [importOf?]
  cases s.kindOf? m with
  | none => rfl
  | some kind =>
      cases kind with
      | script => rfl
      | asset => rfl
      | custom => cases (s.entryOf m).importLine <;> rfl

theorem source?_importOf?_eq_some {m : SourcePath} {source : Text}
    (h : (importOf? tools s t m).bind ImportLine.source? = some source) :
    source = s.referenceTo m := by
  rw [source?_importOf?] at h
  split at h
  · exact (Option.some.inj h).symm
  · cases h

/-- References to different files differ, if each of them leads to its file. -/
theorem nodup_sources {h : Harvest} {files : List SourcePath}
    (hmade : h.IsMadeOf tools s t files) (hfiles : files.Nodup) (leads : Text → Text)
    (hleads : ∀ m ∈ files, leads (s.referenceTo m) = m.text) :
    (h.document.imports.filterMap ImportLine.source?).Nodup := by
  rw [hmade.imports, List.filterMap_filterMap, List.Nodup, List.pairwise_filterMap]
  refine hfiles.imp_of_mem fun {m m'} hm hm' hne source hsource source' hsource' heq => hne ?_
  have hreference : s.referenceTo m = s.referenceTo m' := by
    rw [← source?_importOf?_eq_some hsource, heq, source?_importOf?_eq_some hsource']
  apply SourcePath.eq_of_text
  rw [← hleads m hm, hreference, hleads m' hm']

/-! ### Modules that import from it -/

/-- The update comes from a draft that is made of its file and applied. -/
def Update.IsOf (tools : Tools) (s : Settings) (u : Update) (d : Draft) : Prop :=
  (∃ exports st st', (draftFor tools s exports u.path).Yields st (some d) st') ∧
    ∃ st st', (applyDraft s d).Yields st u st'

theorem exists_draft_of_modifyRoot (hwalk : tools.walk = FileTree.walk) {exports : ExportSet}
    {seen fresh : List SourcePath} {configured : Text} {updates : List Update}
    {st st' : SyncState}
    (h : (modifyRoot tools s exports seen configured).Yields st (fresh, updates) st') {u : Update}
    (hu : u ∈ updates) : (∃ d, u.IsOf tools s d) ∧ s.Finds st.tree configured u.path := by
  obtain ⟨files, drafts, mid, hfiles, rfl, hdrafts, hupdates⟩ := steps_of_yields_modifyRoot h
  obtain ⟨-, happlied, -⟩ := SyncM.yields_mapM (I := fun _ => True) (by simp) trivial hupdates
  obtain ⟨-, hdrafted, -⟩ := SyncM.yields_mapM (I := fun _ => True) (by simp) trivial hdrafts
  obtain ⟨d, hd, start, final, -, happlied⟩ := happlied u hu
  obtain ⟨d?, hd?, hsome⟩ := List.mem_filterMap.1 hd
  obtain rfl : d? = some d := hsome
  obtain ⟨m, hm, before, after, -, hdraft⟩ := hdrafted _ hd?
  have hpath : u.path = m := by
    obtain ⟨o, -, rfl⟩ := yields_applyDraft.1 happlied
    exact ((tells_draftFor m before _ after hdraft).2.2 d rfl).1
  subst hpath
  rw [hwalk] at hfiles
  refine ⟨⟨d, ⟨exports, before, after, hdraft⟩, start, final, happlied⟩, files, hfiles, ?_⟩
  exact SourcePath.mem_sort.1 (List.mem_filter.1 (mem_unseen.1 hm).1).1

theorem exists_draft_of_updateFrom (hwalk : tools.walk = FileTree.walk) {exports : ExportSet}
    {seen : List SourcePath} {roots : List Text} {updates : List Update} {st st' : SyncState}
    (h : (updateFrom tools s exports seen roots).Yields st updates st') {u : Update}
    (hu : u ∈ updates) :
    (∃ d, u.IsOf tools s d) ∧ ∃ tree configured, s.Finds tree configured u.path := by
  induction roots generalizing seen updates st with
  | nil =>
      obtain ⟨rfl, -⟩ := SyncM.yields_pure.1 h
      cases hu
  | cons configured others ih =>
      obtain ⟨⟨fresh, first⟩, mid, hroot, h⟩ := SyncM.yields_bind.1 h
      obtain ⟨later, last, hothers, h⟩ := SyncM.yields_bind.1 h
      obtain ⟨rfl, rfl⟩ := SyncM.yields_pure.1 h
      rcases List.mem_append.1 hu with hu | hu
      · obtain ⟨hdraft, hfinds⟩ := exists_draft_of_modifyRoot hwalk hroot hu
        exact ⟨hdraft, st.tree, configured, hfinds⟩
      · exact ih hothers hu

/-- What is drafted for a file below an absolute root starts with an import that leads to the
aggregator. -/
theorem Update.IsOf.leads {base name : Text} {previous : List Text}
    (hroot : Path.isAbsolute s.root = true) (hbase : Path.isAbsolute base = true)
    (haggregator : s.aggregator = .ofNames base name previous) {u : Update} {d : Draft}
    (h : u.IsOf tools s d) {configured : Text} (hfinds : s.Finds t configured u.path) :
    ∃ source names body, d.after = (ImportLine.named source names).render ++ '\n' :: body ∧
      "./".toList <+: source ∧
      Path.clean (Path.join u.path.dir source) = s.aggregator.path := by
  obtain ⟨⟨exports, st, st', hdraft⟩, -⟩ := h
  obtain ⟨-, ⟨bytes, hread⟩, names, body, hafter⟩ := (tells_draftFor u.path st _ st' hdraft).2.2 d rfl
  obtain ⟨files, hfiles, hm⟩ := hfinds
  have hdir : Path.isAbsolute u.path.dir = true := SourcePath.isAbsolute_dir
    (FileTree.isAbsolute_of_read? (Settings.isAbsolute_resolve hroot configured) hfiles hm hread)
  have hpath : Path.isAbsolute s.aggregator.path = true := by
    rw [haggregator]
    exact Aggregator.isAbsolute_path hbase name previous
  refine ⟨_, _, body, hafter, Path.dot_slash_prefix_reference hdir hpath, ?_⟩
  rw [← SourcePath.dir, Path.clean_join_reference hdir hpath, haggregator]
  exact Aggregator.clean_path base name previous

/-! ### All references -/

/-- In a tree of names without backslashes, from an absolute root, every generated reference starts with a
dot and a slash and leads where it has to. In the generated module, that is from the aggregator's directory
to the module or asset that is imported, and no two imports have the same source; in what is drafted for a
module, it is from the directory of the module to the aggregator. -/
theorem references_denote_files {extract : Extractor} {s : Settings} {base name : Text}
    {previous : List Text} (hroot : Path.isAbsolute s.root = true)
    (hbase : Path.isAbsolute base = true)
    (haggregator : s.aggregator = .ofNames base name previous) {t : FileTree} (ht : t.WellFormed)
    (hbackslash : t.AllNames fun n => '\\' ∉ n) :
    (∀ output st, (harvest { extract } s).Yields { tree := t } output st →
      ∃ found, List.Forall₂ (FindsInOrder { extract } s t) s.importRoots found ∧
        output.IsMadeOf { extract } s t (s.participants found) ∧
        (∀ m ∈ s.participants found, s.kindOf? m = some .script ∨ s.kindOf? m = some .asset →
          ∃ line source, importOf? { extract } s t m = some line ∧ line ∈ output.document.imports ∧
            line.source? = some source ∧ "./".toList <+: source ∧
            Path.clean (Path.join s.aggregator.dir source) = m.text) ∧
        (output.document.imports.filterMap ImportLine.source?).Nodup) ∧
    (∀ r, (sync { extract } s t).result = .ok r → ∀ u ∈ r.consumers,
      (∃ d, u.IsOf { extract } s d) ∧
      ∀ d, u.IsOf { extract } s d →
        ∃ source names body, d.after = (ImportLine.named source names).render ++ '\n' :: body ∧
          "./".toList <+: source ∧
          Path.clean (Path.join u.path.dir source) = s.aggregator.path) := by
  constructor
  · intro output st hyields
    obtain ⟨found, hfound, hmade⟩ := harvest_is_made_of_participants hyields
    have hdir : Path.isAbsolute s.aggregator.dir = true := by
      rw [haggregator]
      exact Aggregator.isAbsolute_dir hbase
    have hfile : ∀ m ∈ s.participants found, Path.isAbsolute m.text = true ∧
        Path.clean (Path.join s.aggregator.dir (s.referenceTo m)) = m.text := by
      intro m hm
      have hmem := (List.mem_filter.1 (List.mem_eraseDups.1 hm)).1
      obtain ⟨c, -, hfinds⟩ := (mem_flatten_iff_finds hfound).1 hmem
      obtain ⟨habs, hclean⟩ := hfinds.clean_text hroot ht hbackslash
      exact ⟨habs, (Path.clean_join_reference hdir habs).trans hclean⟩
    refine ⟨found, hfound, hmade, fun m hm hkind => ?_, ?_⟩
    · obtain ⟨habs, hleads⟩ := hfile m hm
      have hsource : (importOf? { extract } s t m).bind ImportLine.source? = some (s.referenceTo m) := by
        rw [source?_importOf?, if_pos hkind]
      obtain ⟨line, hline, hsource⟩ := Option.bind_eq_some_iff.1 hsource
      refine ⟨line, _, hline, ?_, hsource, Path.dot_slash_prefix_reference hdir habs, hleads⟩
      rw [hmade.imports]
      exact List.mem_filterMap.2 ⟨m, hm, hline⟩
    · exact nodup_sources hmade (nodup_participants found)
        (fun source => Path.clean (Path.join s.aggregator.dir source)) fun m hm => (hfile m hm).2
  · intro r hr u hu
    obtain ⟨st, hsteps, -⟩ := yields_of_sync hr
    obtain ⟨output, o, updates, st₁, st₂, -, -, -, -, -, hupdates, rfl⟩ := parts_of_syncSteps hsteps
    obtain ⟨hdraft, tree, configured, hfinds⟩ := exists_draft_of_updateFrom rfl hupdates hu
    exact ⟨hdraft, fun d hd => hd.leads hroot hbase haggregator hfinds⟩

/-- A site whose aggregator lies below the root, with a module beside the root that is also found
through a link. -/
def scatteredSite : FileTree where
  workingDir := []
  entries := [
    (["other".toList], .dir),
    (["other".toList, "a.js".toList], .file (Utf8.encode "export const a = 1;\n".toList)),
    (["site".toList], .dir),
    (["site".toList, "pages".toList], .dir),
    (["site".toList, "pages".toList, "home.js".toList], .file (Utf8.encode "show(a);\n".toList)),
    (["site".toList, "shared".toList], .link "../other".toList),
    (["site".toList, "style".toList], .dir),
    (["site".toList, "style".toList, "page.css".toList], .file [])]

def scatteredSettings : Settings :=
  { siteSettings with
    importRoots := ["../other".toList, "./shared/".toList, "./style/".toList]
    modifyRoots := ["./pages/".toList]
    aggregator := .ofNames "/site".toList "gen/imports".toList [] }

theorem references_denote_files_scatteredSite :
    (∃ output st, (harvest {} scatteredSettings).Yields { tree := scatteredSite } output st ∧
      output.document.imports.filterMap ImportLine.source? =
        ["./../../other/a.js".toList, "./../shared/a.js".toList, "./../style/page.css".toList] ∧
      ∃ found,
        List.Forall₂ (FindsInOrder {} scatteredSettings scatteredSite) scatteredSettings.importRoots
          found ∧
        output.IsMadeOf {} scatteredSettings scatteredSite (scatteredSettings.participants found) ∧
        (∀ m ∈ scatteredSettings.participants found,
          scatteredSettings.kindOf? m = some .script ∨ scatteredSettings.kindOf? m = some .asset →
          ∃ line source, importOf? {} scatteredSettings scatteredSite m = some line ∧
            line ∈ output.document.imports ∧ line.source? = some source ∧ "./".toList <+: source ∧
            Path.clean (Path.join scatteredSettings.aggregator.dir source) = m.text) ∧
        (output.document.imports.filterMap ImportLine.source?).Nodup) ∧
    ∃ r, (sync {} scatteredSettings scatteredSite).result = .ok r ∧
      r.consumers.map (·.path.text) = ["/site/pages/home.js".toList] ∧
      ∀ u ∈ r.consumers, (∃ d, u.IsOf {} scatteredSettings d) ∧
        ∀ d, u.IsOf {} scatteredSettings d → ∃ source names body,
          d.after = (ImportLine.named source names).render ++ '\n' :: body ∧
          "./".toList <+: source ∧
          Path.clean (Path.join u.path.dir source) = scatteredSettings.aggregator.path := by
  have hsources : ((harvest {} scatteredSettings).run { tree := scatteredSite }).1.map
      (fun output => output.document.imports.filterMap ImportLine.source?) =
      .ok ["./../../other/a.js".toList, "./../shared/a.js".toList, "./../style/page.css".toList] := by
    decide +kernel
  have hconsumers : (sync {} scatteredSettings scatteredSite).result.map
      (fun r => r.consumers.map (·.path.text)) = .ok ["/site/pages/home.js".toList] := by
    decide +kernel
  have htree : scatteredSite.WellFormed := FileTree.wellFormed_of_entries (by decide +kernel)
  have hentries : ∀ entry ∈ scatteredSite.entries, ∀ n ∈ entry.1, '\\' ∉ n := by decide +kernel
  have hbackslash : scatteredSite.AllNames fun n => '\\' ∉ n := by
    intro l e hget n hn
    exact hentries _ (FileTree.mem_entries_of_get? (List.ne_nil_of_mem hn) hget) n hn
  obtain ⟨hmodule, hmodules⟩ := @references_denote_files namesExported? scatteredSettings
    "/site".toList "gen/imports".toList [] rfl rfl rfl scatteredSite htree hbackslash
  obtain ⟨output, st, hyields, hsources⟩ := SyncM.exists_yields_of_map hsources
  obtain ⟨r, hr, hconsumers⟩ := map_eq_ok_iff.1 hconsumers
  exact ⟨⟨output, st, hyields, hsources, hmodule output st hyields⟩, r, hr, hconsumers, hmodules r hr⟩

end ImportSync
