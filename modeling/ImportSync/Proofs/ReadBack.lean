import ImportSync.Proofs.Reading
import ImportSync.Proofs.Scans

/-!
Reading the generated module back. Whatever export a name was collected from, it is spelled as a name,
and a file that is found is referred to by names that lie in the tree. So the text of the generated
module is well-formed up to the one thing that no scan looks at: a name that another module may export
can be a reserved word, and then it can neither be imported nor exported under that name.
-/

namespace ImportSync

open ImportSync.Syntax

/-! ### Paths that can be quoted -/

namespace Path

/-- What is made of slashes, dots and texts that can be quoted can be quoted. -/
theorem isQuotable_of_mem {t : Text}
    (h : ∀ c ∈ t, c = '/' ∨ c = '.' ∨ ∃ p, IsQuotable p ∧ c ∈ p) : IsQuotable t := by
  intro c hc
  rcases h c hc with rfl | rfl | ⟨p, hp, hc⟩
  · decide
  · decide
  · exact hp c hc

theorem isQuotable_here : IsQuotable here := by decide

theorem isQuotable_above : IsQuotable above := by decide

theorem isQuotable_normalize {p : Text} (h : IsQuotable p) : IsQuotable (normalize p) := by
  refine isQuotable_of_mem fun c hc => ?_
  rcases mem_normalize hc with hc | hc
  · exact .inl hc
  · exact .inr (.inr ⟨p, h, hc⟩)

theorem isQuotable_join {dir p : Text} (hdir : IsQuotable dir) (hp : IsQuotable p) :
    IsQuotable (join dir p) := by
  refine isQuotable_of_mem fun c hc => ?_
  rcases mem_join hc with hc | hc | hc
  · exact .inl hc
  · exact .inr (.inr ⟨dir, hdir, hc⟩)
  · exact .inr (.inr ⟨p, hp, hc⟩)

theorem isQuotable_ofPieces {absolute : Bool} {ps : List Text} (h : ∀ p ∈ ps, IsQuotable p) :
    IsQuotable (ofPieces absolute ps) := by
  refine isQuotable_of_mem fun c hc => ?_
  rcases mem_ofPieces hc with hc | ⟨p, hp, hc⟩
  · exact .inl hc
  · exact .inr (.inr ⟨p, h p hp, hc⟩)

theorem isQuotable_of_mem_cleanPieces {p q : Text} (h : IsQuotable p) (hq : q ∈ cleanPieces p) :
    IsQuotable q := by
  rcases mem_pieces_of_mem_cleanPieces hq with rfl | hq
  · exact isQuotable_above
  · exact fun c hc => h c (mem_of_mem_pieces hq hc)

theorem mem_of_relativePieces? {target base : Text} {ps : List Text}
    (h : relativePieces? target base = some ps) {p : Text} (hp : p ∈ ps) :
    p = above ∨ p ∈ cleanPieces target := by
  rw [relativePieces?] at h
  split at h
  · cases h
  · change (if (dropCommon (cleanPieces target) (cleanPieces base)).2.contains above then none
      else some (_ ++ wayDown target base)) = some ps at h
    split at h
    · cases h
    · obtain rfl := Option.some.inj h
      rcases List.mem_append.1 hp with hp | hp
      · obtain ⟨-, -, rfl⟩ := List.mem_map.1 hp
        exact .inl rfl
      · exact .inr (mem_cleanPieces_of_mem_wayDown hp)

/-- A reference to a path that can be quoted can be quoted, whichever directory it starts from. -/
theorem isQuotable_reference (dir : Text) {target : Text} (h : IsQuotable target) :
    IsQuotable (reference dir target) := by
  rw [reference]
  split
  next way hway =>
    obtain ⟨ps, hps, rfl⟩ := Option.map_eq_some_iff.1 hway
    have hpieces : ∀ p ∈ ps, IsQuotable p := by
      intro p hp
      rcases mem_of_relativePieces? hps hp with rfl | hp
      · exact isQuotable_above
      · exact isQuotable_of_mem_cleanPieces h hp
    have hway : IsQuotable (ofCleanPieces false ps) := by
      rw [ofCleanPieces]
      split
      · exact isQuotable_here
      · exact isQuotable_ofPieces hpieces
    have hopen : IsQuotable "./".toList := by decide
    intro c hc
    rcases List.mem_append.1 hc with hc | hc
    · exact hopen c hc
    · exact hway c hc
  next => exact isQuotable_normalize h

end Path

/-! ### Names in a tree -/

namespace FileTree

/-- Every name in the tree can be quoted as it stands. -/
def IsQuotable (t : FileTree) : Prop :=
  ∀ entry ∈ t.entries, ∀ n ∈ entry.1, Syntax.IsQuotable n

variable {t : FileTree}

theorem IsQuotable.of_get? (ht : t.IsQuotable) {l : Location} {e : Entry}
    (h : t.get? l = some e) : ∀ n ∈ l, Syntax.IsQuotable n := by
  intro n hn
  exact ht _ (mem_entries_of_get? (List.ne_nil_of_mem hn) h) n hn

/-- The path of a file that is found can be quoted. -/
theorem IsQuotable.of_mem_walk (ht : t.IsQuotable) {l : Location} (hl : ∀ n ∈ l, Path.IsName n)
    {respectIgnore : Bool} {files : List SourcePath}
    (h : t.walk (pathOf l) respectIgnore = .ok files) {m : SourcePath} (hm : m ∈ files) :
    Syntax.IsQuotable m.text := by
  have hnames : t.AllNames Syntax.IsQuotable := fun _ _ hget => ht.of_get? hget
  obtain ⟨hroot, hfound⟩ := hnames.of_walk hl h hm
  rcases hfound with ⟨rfl, -⟩ | ⟨names, -, hbelow, rfl⟩
  · apply Path.isQuotable_normalize
    exact Path.isQuotable_ofPieces hroot
  · apply Path.isQuotable_normalize
    apply Path.isQuotable_join (Path.isQuotable_ofPieces hroot)
    show Syntax.IsQuotable (Path.ofPieces false names)
    exact Path.isQuotable_ofPieces hbelow

end FileTree

/-! ### What files contribute -/

namespace ExportSet

theorem mem_insert {names : ExportSet} {m n : Text} :
    n ∈ (names.insert m).names ↔ n ∈ names.names ∨ n = m ∧ n ≠ [] := by
  rw [insert]
  split
  next hadmits =>
    have hm : m ≠ [] := by
      rintro rfl
      simp [admits] at hadmits
    rw [List.mem_append, List.mem_singleton]
    refine or_congr_right ⟨?_, And.left⟩
    rintro rfl
    exact ⟨rfl, hm⟩
  next hadmits =>
    refine (or_iff_left_of_imp ?_).symm
    rintro ⟨rfl, hn⟩
    by_contra hmem
    simp [admits, contains, hn, hmem] at hadmits

theorem mem_extend {names : ExportSet} {added : List Text} {n : Text} :
    n ∈ (names.extend added).names ↔ n ∈ names.names ∨ n ∈ added ∧ n ≠ [] := by
  induction added generalizing names with
  | nil => simp [extend]
  | cons m added ih =>
      show n ∈ ((names.insert m).extend added).names ↔ _
      rw [ih, mem_insert, List.mem_cons]
      tauto

end ExportSet

theorem Syntax.bringsOnly.mono {names names' : List Text} {i : ImportLine}
    (h : bringsOnly names i) (hsub : names ⊆ names') : bringsOnly names' i := by
  cases i with
  | named source brought => exact List.Subset.trans h hsub
  | sideEffect source => trivial
  | raw line => trivial

/-- The import of a share can be read and brings in names of the share, and these are spelled as
names. -/
structure Share.IsReadable (c : Share) : Prop where
  readable : ∀ i ∈ c.statement, Syntax.IsReadable i
  bringsOnly : ∀ i ∈ c.statement, Syntax.bringsOnly c.names i
  identifiers : ∀ n ∈ c.names, Text.isIdentifier n = true

theorem Harvest.isReadable_add {h : Harvest} {c : Share} (hh : h.document.IsReadable)
    (hc : c.IsReadable) : (h.add c).document.IsReadable := by
  -- the set takes in every name but the empty one, which is not spelled as a name
  have hnonempty : ∀ n ∈ c.names, n ≠ [] := by
    rintro n hn rfl
    exact absurd (hc.identifiers [] hn) (by decide)
  have hold : h.document.exports.names ⊆ (h.add c).document.exports.names := fun n hn =>
    ExportSet.mem_extend.2 (.inl hn)
  have hnew : c.names ⊆ (h.add c).document.exports.names := fun n hn =>
    ExportSet.mem_extend.2 (.inr ⟨hn, hnonempty n hn⟩)
  constructor
  · intro i hi
    rcases List.mem_append.1 hi with hi | hi
    · exact hh.readable i hi
    · exact hc.readable i (Option.mem_toList.1 hi)
  · intro i hi
    rcases List.mem_append.1 hi with hi | hi
    · exact (hh.bringsOnly i hi).mono hold
    · exact (hc.bringsOnly i (Option.mem_toList.1 hi)).mono hnew
  · intro n hn
    rcases ExportSet.mem_extend.1 hn with hn | ⟨hn, -⟩
    · exact hh.identifiers n hn
    · exact hc.identifiers n hn

theorem Harvest.isReadable_foldl {shares : List Share} (hshares : ∀ c ∈ shares, c.IsReadable)
    {h : Harvest} (hh : h.document.IsReadable) : (shares.foldl Harvest.add h).document.IsReadable := by
  induction shares generalizing h with
  | nil => exact hh
  | cons c shares ih =>
      apply ih
      · intro d hd
        exact hshares d (by simp [hd])
      · exact isReadable_add hh (hshares c (by simp))

variable {s : Settings} {t : FileTree}

theorem isIdentifier_of_mem_findings {o : CollectOptions} (m : SourcePath) (text : Text) :
    ∀ n ∈ (Findings.of namesExported? o m text).names, Text.isIdentifier n = true := by
  rw [Findings.of]
  cases hnames : namesExported? m text o with
  | none => simp
  | some names => exact isIdentifier_of_namesExported? hnames

/-- What a file of a quotable path contributes can be read, unless a custom handler has a say. -/
theorem isReadable_of_shareIn (hcustom : s.custom = none) {m : SourcePath} (hm : IsQuotable m.text)
    {c : Share} (h : shareIn {} s t m = .ok (some c)) : c.IsReadable := by
  have hreference : IsQuotable (s.referenceTo m) := Path.isQuotable_reference _ hm
  rw [shareIn] at h
  cases hkind : s.kindOf? m with
  | none => simp [hkind] at h
  | some kind =>
      cases kind with
      | script =>
          simp only [hkind] at h
          cases hsource : sourceIn t m with
          | error e =>
              rw [hsource] at h
              cases h
          | ok source =>
              rw [hsource] at h
              obtain rfl : scriptShareOf {} s m source = c := Option.some.inj (Except.ok.inj h)
              have hnames := isIdentifier_of_mem_findings (o := s.collect) m
                (purge s.aggregator.references source.text)
              constructor
              · rintro i ⟨⟩
                exact ⟨hreference, hnames⟩
              · rintro i ⟨⟩
                exact List.Subset.refl _
              · exact hnames
      | asset =>
          simp only [hkind, Except.ok.injEq, Option.some.injEq] at h
          subst h
          constructor
          · rintro i ⟨⟩
            exact hreference
          · rintro i ⟨⟩
            trivial
          · simp
      | custom => simp [hkind, Settings.customShare?, hcustom] at h

/-- Whatever a root adds comes from files that are found below it. -/
theorem exists_of_mem_importRootIn {tools : Tools} {seen fresh : List SourcePath}
    {configured : Text} {shares : List Share}
    (h : importRootIn tools s t seen configured = .ok (fresh, shares)) {c : Share} (hc : c ∈ shares) :
    ∃ files, tools.walk t (s.resolve configured) s.respectIgnoreFiles = .ok files ∧
      ∃ m ∈ files, shareIn tools s t m = .ok (some c) := by
  obtain ⟨files, given, hfiles, rfl, hgiven, rfl⟩ := importRootIn_eq_ok_iff.1 h
  obtain ⟨share, hshare, hsome⟩ := List.mem_filterMap.1 hc
  obtain rfl : share = some c := hsome
  obtain ⟨m, hm, hmc⟩ := mem_of_mapM_ok hgiven hshare
  have hfile := (List.mem_filter.1 (mem_unseen.1 hm).1).1
  exact ⟨files, hfiles, m, SourcePath.mem_sort.1 hfile, hmc⟩

/-- The generated module can be read, whatever the tree holds. -/
theorem isReadable_of_harvestFromIn (hs : ScansFromRoot {} s) (hcustom : s.custom = none)
    (ht : t.IsQuotable) {seen : List SourcePath} {h result : Harvest} (hh : h.document.IsReadable)
    {roots : List Text} (hresult : harvestFromIn {} s t seen h roots = .ok result) :
    result.document.IsReadable := by
  induction roots generalizing seen h with
  | nil =>
      obtain rfl : h = result := Except.ok.inj hresult
      exact hh
  | cons configured others ih =>
      obtain ⟨⟨fresh, shares⟩, hroot, hresult⟩ := bind_eq_ok_iff.1 hresult
      refine ih (Harvest.isReadable_foldl (fun c hc => ?_) hh) hresult
      obtain ⟨files, hwalk, m, hm, hshare⟩ := exists_of_mem_importRootIn hroot hc
      rw [hs.walk, hs.resolve_eq] at hwalk
      have hquotable := ht.of_mem_walk (hs.isName_resolve configured) hwalk hm
      exact isReadable_of_shareIn hcustom hquotable hshare

/-! ### The dialect of the generated module -/

theorem splitName_js (x : Text) :
    (Path.splitName (x ++ ['.', 'j', 's'])).2 = none ∨
      (Path.splitName (x ++ ['.', 'j', 's'])).2 = some ['j', 's'] := by
  simp only [Path.splitName]
  split
  · exact .inl rfl
  · right
    simp

/-- Where a path ends in the extension of aggregators, the text is not typed. -/
theorem extension?_js (p : Text) :
    Path.extension? (p ++ ['.', 'j', 's']) = none ∨
      Path.extension? (p ++ ['.', 'j', 's']) = some ['j', 's'] := by
  have hslash : '/' ∉ ['.', 'j', 's'] := by decide
  obtain ⟨init, x, hsplit⟩ := Text.splitOn_append_of_not_mem hslash p
  have hhere : x ++ ['.', 'j', 's'] ≠ Path.here := append_js_ne rfl x
  have habove : x ++ ['.', 'j', 's'] ≠ Path.above := append_js_ne rfl x
  have hname : Path.fileName? (p ++ ['.', 'j', 's']) = some (x ++ ['.', 'j', 's']) := by
    simp [Path.fileName?, Path.pieces, hsplit, hhere, habove]
  rw [Path.extension?, hname]
  exact splitName_js x

theorem sourcePath_ends (hs : ScansFromRoot {} s) :
    ∃ p, s.aggregator.sourcePath.text = p ++ ['.', 'j', 's'] := by
  obtain ⟨name, previous, haggregator⟩ := hs.aggregator
  obtain ⟨cleaned, x, hcleaned⟩ := cleanPieces_join_aggregatorFileName s.root name
  have hpath : ∃ p, s.aggregator.path = p ++ ['.', 'j', 's'] := by
    rw [haggregator]
    show ∃ p, Path.clean _ = _
    rw [Path.clean_absolute (Path.isAbsolute_join hs.root _), hcleaned]
    obtain ⟨before, hbefore⟩ := Path.suffix_ofPieces true cleaned (x ++ ['.', 'j', 's'])
    exact ⟨before ++ x, by rw [← hbefore, List.append_assoc]⟩
  obtain ⟨p, hp⟩ := hpath
  show ∃ q, Path.normalize s.aggregator.path = q ++ ['.', 'j', 's']
  rw [hp]
  exact ⟨p.map fun c => if c = '\\' then '/' else c, by simp [Path.normalize]⟩

/-- By the usual options, the generated module is read as a module without types. -/
theorem dialectOf_sourcePath (hs : ScansFromRoot {} s) :
    (DialectOptions.dialectOf {} s.aggregator.sourcePath).isModule = true ∧
      (DialectOptions.dialectOf {} s.aggregator.sourcePath).typed = false := by
  refine ⟨rfl, ?_⟩
  obtain ⟨p, hp⟩ := sourcePath_ends hs
  show typedExtensions.contains (Text.lowercase ((Path.extension? _).getD [])) = false
  rw [hp]
  rcases extension?_js p with h | h
  · rw [h]
    decide
  · rw [h]
    decide

/-! ### The generated module and what is read from it -/

/-- From the generated module exactly the names that were collected are read, in their order, unless one
of them is reserved. Then its text is ill-formed. -/
theorem harvest_reads_back {name : Text} {previous : List Text} (hroot : Path.isAbsolute s.root = true)
    (haggregator : s.aggregator = .ofNames s.root name previous) (hdialect : s.collect.dialect = {})
    (hcustom : s.custom = none) (ht : t.IsQuotable) {output : Harvest} {st : SyncState}
    (hharvest : (harvest {} s).Yields { tree := t } output st) :
    namesExported? s.aggregator.sourcePath output.document.render s.collect =
      if ∃ n ∈ output.document.exports.names, IsReserved n then none
      else some output.document.exports.names := by
  have hs : ScansFromRoot {} s := ⟨rfl, hroot, name, previous, haggregator⟩
  have hobserves : Observes {} s t (harvest {} s) (harvestFromIn {} s t [] {} s.importRoots) :=
    observes_harvestFrom [] {} s.importRoots
  obtain ⟨hresult, -⟩ := hobserves.of_yields rfl (NameCache.isTruthful_empty _ _) hharvest
  have hempty : (Harvest.document {}).IsReadable :=
    ⟨by simp, by simp, by simp [ExportSet.empty]⟩
  have hreadable := isReadable_of_harvestFromIn hs hcustom ht hempty hresult
  obtain ⟨hmodule, htyped⟩ := dialectOf_sourcePath hs
  rw [← hdialect] at hmodule htyped
  exact namesExported?_render hmodule htyped hreadable

/-- A module that exports one thing as the default one, by a list. -/
def defaultModule : Text :=
  "const x = 1;\nexport \x7bx as default\x7d;\nexport const y = 2;\n".toList

/-- A site with that module. -/
def defaultSite : FileTree where
  workingDir := []
  entries := [
    (["site".toList], .dir),
    (["site".toList, "src".toList], .dir),
    (["site".toList, "src".toList, "resources".toList], .dir),
    (["site".toList, "src".toList, "resources".toList, "a.js".toList],
      .file (Utf8.encode defaultModule))]

theorem harvest_defaultSite :
    ∃ output st, (harvest {} siteSettings).Yields { tree := defaultSite } output st ∧
      output.document.exports.names = ["default".toList, "y".toList] := by
  have hnames : ((harvest {} siteSettings).run { tree := defaultSite }).1.map
      (fun output => output.document.exports.names) = .ok ["default".toList, "y".toList] := by
    decide +kernel
  cases hrun : (harvest {} siteSettings).run { tree := defaultSite } with
  | mk result st =>
      rw [hrun] at hnames
      cases result with
      | error e => cases hnames
      | ok output => exact ⟨output, st, hrun, Except.ok.inj hnames⟩

/-- The default export of a list is collected under its name, which cannot be exported again. -/
theorem harvest_of_default_not_read_back :
    ∃ output st, (harvest {} siteSettings).Yields { tree := defaultSite } output st ∧
      output.document.exports.names = ["default".toList, "y".toList] ∧
      namesExported? siteSettings.aggregator.sourcePath output.document.render
        siteSettings.collect = none := by
  obtain ⟨output, st, hharvest, hnames⟩ := harvest_defaultSite
  have hquotable : defaultSite.IsQuotable := by
    show ∀ entry ∈ defaultSite.entries, ∀ n ∈ entry.1, Syntax.IsQuotable n
    decide +kernel
  refine ⟨output, st, hharvest, hnames, ?_⟩
  rw [harvest_reads_back rfl rfl rfl rfl hquotable hharvest, if_pos]
  exact ⟨"default".toList, by simp [hnames], by decide⟩

end ImportSync
