import ImportSync.Proofs.Recognition
import ImportSync.Proofs.Rerun
import Mathlib.Logic.Relation

/-!
Roots that lie in one another. What is found at or below a root that lies in an earlier one has been
seen when its turn comes: files are found where they lie, however the root is spelled, and all that
happened in between is that some of them were written anew. So such a root adds nothing, and the run
goes on from the same state as without it.
-/

namespace ImportSync

/-! ### Steps that leave the tree as it is -/

namespace SyncM

variable {α β : Type}

/-- Where the step ends well, the tree is as it was, and what is yielded is so of that tree. -/
def Tells (x : SyncM α) (Q : FileTree → α → Prop) : Prop :=
  ∀ st a st', x.Yields st a st' → st'.tree = st.tree ∧ Q st.tree a

theorem Tells.pure {Q : FileTree → α → Prop} {a : α} (h : ∀ t, Q t a) : Tells (pure a) Q := by
  intro st b st' hyields
  obtain ⟨rfl, rfl⟩ := yields_pure.1 hyields
  exact ⟨rfl, h _⟩

theorem Tells.bind {x : SyncM α} {f : α → SyncM β} {P : FileTree → α → Prop}
    {Q : FileTree → β → Prop} (hx : Tells x P)
    (hf : ∀ a, Tells (f a) fun t b => P t a → Q t b) : Tells (x >>= f) Q := by
  intro st b st' hyields
  obtain ⟨a, mid, hfirst, hsecond⟩ := yields_bind.1 hyields
  obtain ⟨hmid, hp⟩ := hx st a mid hfirst
  obtain ⟨hlast, hq⟩ := hf a mid b st' hsecond
  rw [hmid] at hlast hq
  exact ⟨hlast, hq hp⟩

/-- Whatever each step of a list keeps holds wherever one of them starts. There, every value of the list
comes from one of the steps, and every step yields one of the values. -/
theorem yields_mapM {I : SyncState → Prop} {f : α → SyncM β}
    (hf : ∀ a st b st', I st → (f a).Yields st b st' → I st') {xs : List α} {ys : List β}
    {st st' : SyncState} (hst : I st) (h : (xs.mapM f).Yields st ys st') :
    I st' ∧ (∀ y ∈ ys, ∃ x ∈ xs, ∃ mid mid', I mid ∧ (f x).Yields mid y mid') ∧
      ∀ x ∈ xs, ∃ y ∈ ys, ∃ mid mid', I mid ∧ (f x).Yields mid y mid' := by
  induction xs generalizing st ys with
  | nil =>
      obtain ⟨rfl, rfl⟩ := yields_pure.1 h
      simpa using hst
  | cons x xs ih =>
      rw [List.mapM_cons] at h
      obtain ⟨first, mid, hfirst, h⟩ := yields_bind.1 h
      obtain ⟨others, last, hothers, h⟩ := yields_bind.1 h
      obtain ⟨rfl, rfl⟩ := yields_pure.1 h
      obtain ⟨hlast, hys, hxs⟩ := ih (hf x st first mid hst hfirst) hothers
      refine ⟨hlast, fun y hy => ?_, fun x' hx' => ?_⟩
      · rcases List.mem_cons.1 hy with rfl | hy
        · exact ⟨x, by simp, st, mid, hst, hfirst⟩
        · obtain ⟨x', hx', hyields⟩ := hys y hy
          exact ⟨x', by simp [hx'], hyields⟩
      · rcases List.mem_cons.1 hx' with rfl | hx'
        · exact ⟨first, by simp, st, mid, hst, hfirst⟩
        · obtain ⟨y, hy, hyields⟩ := hxs x' hx'
          exact ⟨y, by simp [hy], hyields⟩

theorem Tells.mapM {f : α → SyncM β} {Q : α → FileTree → β → Prop} (hf : ∀ a, Tells (f a) (Q a))
    (xs : List α) : Tells (xs.mapM f) fun t ys =>
      (∀ y ∈ ys, ∃ x ∈ xs, Q x t y) ∧ ∀ x ∈ xs, ∃ y ∈ ys, Q x t y := by
  intro st ys st' h
  obtain ⟨htree, hys, hxs⟩ := yields_mapM (I := fun mid => mid.tree = st.tree)
    (fun a mid b mid' hmid hyields => (hf a mid b mid' hyields).1.trans hmid) rfl h
  refine ⟨htree, fun y hy => ?_, fun x hx => ?_⟩
  · obtain ⟨x, hx, mid, mid', hmid, hyields⟩ := hys y hy
    exact ⟨x, hx, hmid ▸ (hf x mid y mid' hyields).2⟩
  · obtain ⟨y, hy, mid, mid', hmid, hyields⟩ := hxs x hx
    exact ⟨y, hy, hmid ▸ (hf x mid y mid' hyields).2⟩

theorem run_bind_congr_left {x y : SyncM α} {st : SyncState} (h : x.run st = y.run st)
    (f : α → SyncM β) : (x >>= f).run st = (y >>= f).run st := by
  change ExceptT.bindCont f (x.run st).1 (x.run st).2 = ExceptT.bindCont f (y.run st).1 (y.run st).2
  rw [h]

/-- What follows a step matters only where the step ends well. -/
theorem run_bind_congr_right {x : SyncM α} {f g : α → SyncM β} {st : SyncState}
    (h : ∀ a mid, x.Yields st a mid → (f a).run mid = (g a).run mid) :
    (x >>= f).run st = (x >>= g).run st := by
  cases hx : x.run st with
  | mk result mid =>
      cases result with
      | error e => rw [run_bind_error hx, run_bind_error hx]
      | ok a =>
          rw [run_bind_ok hx, run_bind_ok hx]
          exact h a mid hx

end SyncM

variable {tools : Tools} {s : Settings} {exports : ExportSet}

theorem Source.decode?_of_lossy {bytes : Utf8.Bytes} (h : (ofBytes bytes).lossy = true) :
    Utf8.decode? bytes = none := by
  rw [ofBytes] at h
  split at h
  next => cases h
  next hbytes => exact hbytes

theorem tells_sourceAt (m : SourcePath) :
    (sourceAt m).Tells fun t source =>
      ∃ bytes, t.read? m.text = some bytes ∧ source = .ofBytes bytes := by
  intro st x st' h
  obtain ⟨warnings, hrun⟩ := run_sourceAt m st
  rw [SyncM.Yields, hrun] at h
  injection h with hresult hstate
  refine ⟨by rw [← hstate], ?_⟩
  rw [sourceIn] at hresult
  cases hread : st.tree.read? m.text with
  | none =>
      rw [hread] at hresult
      cases hresult
  | some bytes =>
      rw [hread] at hresult
      exact ⟨bytes, rfl, (Except.ok.inj hresult).symm⟩

theorem tells_findingsOf (m : SourcePath) (purged : Text) :
    (findingsOf tools s m purged).Tells fun _ _ => True := by
  intro st found st' h
  have hrun : (findingsOf tools s m purged).run st =
      (.ok (st.cache.findings id tools.extract s.collect m purged).1,
        { st with cache := (st.cache.findings id tools.extract s.collect m purged).2 }) := rfl
  rw [SyncM.Yields, hrun] at h
  injection h with _ hstate
  exact ⟨by rw [← hstate], trivial⟩

theorem tells_share? (m : SourcePath) : (share? tools s m).Tells fun _ _ => True := by
  rw [share?]
  cases s.kindOf? m with
  | none => exact .pure fun _ => trivial
  | some kind =>
      cases kind with
      | script =>
          change (scriptShare tools s m >>= fun share => pure (some share)).Tells _
          have hshare : (scriptShare tools s m).Tells fun _ _ => True := by
            refine (tells_sourceAt m).bind fun source => ?_
            exact (tells_findingsOf m _).bind fun found => .pure fun _ _ _ => trivial
          exact hshare.bind fun share => .pure fun _ _ => trivial
      | asset => exact .pure fun _ => trivial
      | custom => exact .pure fun _ => trivial

/-- A draft is made of a file that can be read, and starts with the import that is due. There is none
only for malformed bytes. -/
theorem tells_draftFor (m : SourcePath) :
    (draftFor tools s exports m).Tells fun t d? =>
      (d? = none → ∃ bytes, t.read? m.text = some bytes ∧ Utf8.decode? bytes = none) ∧
      ∀ d ∈ d?, d.path = m ∧ (∃ bytes, t.read? m.text = some bytes) ∧
        ∃ names body, d.after = (s.consumerImport m exports names).render ++ '\n' :: body := by
  refine (tells_sourceAt m).bind fun source => ?_
  split
  next hlossy =>
    have hwarn : (SyncM.warn (.leftUntouched m.text)).Tells fun _ _ => True := by
      intro st a st' h
      injection h with _ hstate
      exact ⟨by rw [← hstate], trivial⟩
    refine hwarn.bind fun _ => .pure fun t _ hread => ⟨fun _ => ?_, fun d hd => absurd hd (by simp)⟩
    obtain ⟨bytes, hread, rfl⟩ := hread
    exact ⟨bytes, hread, Source.decode?_of_lossy hlossy⟩
  next =>
    refine (tells_findingsOf m _).bind fun found => .pure fun t _ hread => ⟨by simp, fun d hd => ?_⟩
    obtain rfl := Option.some.inj hd
    obtain ⟨bytes, hread, -⟩ := hread
    exact ⟨rfl, ⟨bytes, hread⟩, found.names, _, rfl⟩

/-! ### Files that are written anew -/

namespace FileTree

/-- One file that was there is written anew. -/
def RewritesFile (t t' : FileTree) : Prop :=
  ∃ l old new, t.get? l = some (.file old) ∧ t' = t.set l (.file new)

/-- A tree that came from another one by writing files that were there anew, one after another. -/
def Rewritten : FileTree → FileTree → Prop :=
  Relation.ReflTransGen RewritesFile

namespace RewritesFile

variable {t t' : FileTree}

theorem wellFormed (h : t.RewritesFile t') (ht : t.WellFormed) : t'.WellFormed := by
  obtain ⟨l, old, new, hget, rfl⟩ := h
  have hl : l ≠ [] := by
    rintro rfl
    simp at hget
  exact ht.set hl (ht.isName hget) (ht.inDir hget) (.inr (by simp [isDirAt, hget]))

theorem isPlain (h : t.RewritesFile t') (ht : t.IsPlain) : t'.IsPlain := by
  obtain ⟨l, old, new, hget, rfl⟩ := h
  have hl : l ≠ [] := by
    rintro rfl
    simp at hget
  have hfile : t.isDirAt l = false := by simp [isDirAt, hget]
  exact ht.set hl (ht.isName hget) (ht.inDir hget) (.inr ⟨⟨new, rfl⟩, hfile⟩)

/-- At every location there lies what lay there, or a file where a file lay. -/
theorem get?_cases (h : t.RewritesFile t') (k : Location) :
    t'.get? k = t.get? k ∨
      ∃ old new, t.get? k = some (.file old) ∧ t'.get? k = some (.file new) := by
  obtain ⟨l, old, new, hget, rfl⟩ := h
  have hl : l ≠ [] := by
    rintro rfl
    simp at hget
  rw [get?_set t hl]
  by_cases hk : k = l
  · exact .inr ⟨old, new, hk ▸ hget, if_pos hk⟩
  · exact .inl (if_neg hk)

theorem read? (h : t.RewritesFile t') {p : Text} {bytes : Utf8.Bytes}
    (hread : t.read? p = some bytes) : ∃ bytes', t'.read? p = some bytes' := by
  obtain ⟨k, hlocate, hfile⟩ := read?_eq_some_iff.1 hread
  have hlocate' : t'.locate? p = some k := by
    obtain ⟨l, old, new, hget, rfl⟩ := h
    rw [locate?] at hlocate ⊢
    rw [follow_set_file hget]
    exact hlocate
  rcases h.get?_cases k with hsame | ⟨old, new, -, hnew⟩
  · exact ⟨bytes, read?_eq_some_iff.2 ⟨k, hlocate', hsame.trans hfile⟩⟩
  · exact ⟨new, read?_eq_some_iff.2 ⟨k, hlocate', hnew⟩⟩

end RewritesFile

namespace Rewritten

variable {t t' : FileTree}

theorem wellFormed (h : t.Rewritten t') (ht : t.WellFormed) : t'.WellFormed := by
  induction h with
  | refl => exact ht
  | tail _ hstep ih => exact hstep.wellFormed ih

theorem isPlain (h : t.Rewritten t') (ht : t.IsPlain) : t'.IsPlain := by
  induction h with
  | refl => exact ht
  | tail _ hstep ih => exact hstep.isPlain ih

/-- Whatever lay at a location, something lies there. -/
theorem exists_get? (h : t.Rewritten t') {l : Location} {e : Entry} (hl : t.get? l = some e) :
    ∃ e', t'.get? l = some e' := by
  induction h with
  | refl => exact ⟨e, hl⟩
  | tail _ hstep ih =>
      obtain ⟨e', he'⟩ := ih
      rcases hstep.get?_cases l with hsame | ⟨-, new, -, hnew⟩
      · exact ⟨e', hsame.trans he'⟩
      · exact ⟨_, hnew⟩

/-- Where a file lies, one lay before. -/
theorem exists_file (h : t.Rewritten t') {l : Location} {bytes : Utf8.Bytes}
    (hl : t'.get? l = some (.file bytes)) : ∃ old, t.get? l = some (.file old) := by
  induction h generalizing bytes with
  | refl => exact ⟨bytes, hl⟩
  | tail _ hstep ih =>
      rcases hstep.get?_cases l with hsame | ⟨old, -, hold, -⟩
      · exact ih (hsame.symm.trans hl)
      · exact ih hold

theorem read? (h : t.Rewritten t') {p : Text} {bytes : Utf8.Bytes}
    (hread : t.read? p = some bytes) : ∃ bytes', t'.read? p = some bytes' := by
  induction h with
  | refl => exact ⟨bytes, hread⟩
  | tail _ hstep ih =>
      obtain ⟨bytes', hread'⟩ := ih
      exact hstep.read? hread'

end Rewritten

end FileTree

/-- The draft is of a file that can be read. -/
def Draft.IsReadable (t : FileTree) (d : Draft) : Prop :=
  Path.isAbsolute d.path.text = true ∧ ∃ bytes, t.read? d.path.text = some bytes

/-- Applying a draft writes its file anew, if anything. -/
theorem rewritten_of_applyDraft {d : Draft} {u : Update} {st st' : SyncState}
    (ht : st.tree.WellFormed) (hd : d.IsReadable st.tree) (h : (applyDraft s d).Yields st u st') :
    st.tree.Rewritten st'.tree := by
  obtain ⟨o, hbring, -⟩ := yields_applyDraft.1 h
  cases hmode : s.mode with
  | check =>
      rw [hmode, yields_bringUpToDate_check] at hbring
      rw [hbring.2]
      exact .refl
  | write =>
      rw [hmode, yields_bringUpToDate] at hbring
      rcases hbring with ⟨-, -, rfl⟩ | ⟨-, -, hwrite⟩
      · exact .refl
      · obtain ⟨habs, bytes, hread⟩ := hd
        obtain ⟨l, hholds⟩ := FileTree.read?_eq_some_iff.1 hread
        have hanew := yields_writeText_of_holdsFile ht habs hholds d.after
        obtain ⟨-, rfl⟩ := hwrite.unique hanew
        exact .single ⟨l, bytes, _, hholds.get?, rfl⟩

theorem rewritten_of_applyDrafts {ds : List Draft} {us : List Update} {st st' : SyncState}
    (ht : st.tree.WellFormed) (hds : ∀ d ∈ ds, d.IsReadable st.tree)
    (h : (ds.mapM (applyDraft s)).Yields st us st') : st.tree.Rewritten st'.tree := by
  induction ds generalizing st us with
  | nil =>
      obtain ⟨-, rfl⟩ := SyncM.yields_pure.1 h
      exact .refl
  | cons d ds ih =>
      rw [List.mapM_cons] at h
      obtain ⟨u, mid, hfirst, h⟩ := SyncM.yields_bind.1 h
      obtain ⟨us, last, hothers, h⟩ := SyncM.yields_bind.1 h
      obtain ⟨-, rfl⟩ := SyncM.yields_pure.1 h
      have hmid := rewritten_of_applyDraft ht (hds d (by simp)) hfirst
      refine hmid.trans (ih (hmid.wellFormed ht) (fun e he => ?_) hothers)
      obtain ⟨habs, bytes, hread⟩ := hds e (by simp [he])
      exact ⟨habs, hmid.read? hread⟩

/-- A file that is found below an absolute root and can be read has an absolute path. -/
theorem FileTree.isAbsolute_of_read? {t t' : FileTree} {root : Text} {respectIgnore : Bool}
    {files : List SourcePath} (hroot : Path.isAbsolute root = true)
    (h : t.walk root respectIgnore = .ok files) {m : SourcePath} (hm : m ∈ files)
    {bytes : Utf8.Bytes} (hread : t'.read? m.text = some bytes) :
    Path.isAbsolute m.text = true := by
  refine (FileTree.isAbsolute_of_mem_walk hroot h hm).resolve_left fun hnil => ?_
  have hnothing : t'.read? [] = none := rfl
  rw [hnil, hnothing] at hread
  cases hread

/-! ### What a root adds -/

/-- The files that pass a test and that a root adds to those seen. -/
def AddsFiles (tools : Tools) (s : Settings) (p : SourcePath → Bool) (t : FileTree)
    (seen : List SourcePath) (configured : Text) (fresh : List SourcePath) : Prop :=
  ∃ files, tools.walk t (s.resolve configured) s.respectIgnoreFiles = .ok files ∧
    fresh = unseen seen ((SourcePath.sort files).filter p)

theorem addsFiles_of_importRoot {configured : Text} {seen fresh : List SourcePath}
    {shares : List Share} {st st' : SyncState}
    (h : (importRoot tools s seen configured).Yields st (fresh, shares) st') :
    AddsFiles tools s s.isImported st.tree seen configured fresh ∧ st'.tree = st.tree := by
  obtain ⟨sorted, mid, hsorted, h⟩ := SyncM.yields_bind.1 h
  obtain ⟨rfl, files, hfiles, rfl⟩ := walk_of_yields_filesUnder hsorted
  obtain ⟨given, last, hgiven, h⟩ := SyncM.yields_bind.1 h
  obtain ⟨hpair, rfl⟩ := SyncM.yields_pure.1 h
  obtain ⟨rfl, -⟩ := Prod.mk.inj hpair
  exact ⟨⟨files, hfiles, rfl⟩, (SyncM.Tells.mapM tells_share? _ _ _ _ hgiven).1⟩

theorem addsFiles_of_modifyRoot (hwalk : tools.walk = FileTree.walk)
    (hroot : Path.isAbsolute s.root = true) {configured : Text} {seen fresh : List SourcePath}
    {updates : List Update} {st st' : SyncState} (ht : st.tree.WellFormed)
    (h : (modifyRoot tools s exports seen configured).Yields st (fresh, updates) st') :
    AddsFiles tools s s.isModified st.tree seen configured fresh ∧
      st.tree.Rewritten st'.tree := by
  obtain ⟨files, drafts, mid, hfiles, rfl, hdrafts, hupdates⟩ := steps_of_yields_modifyRoot h
  obtain ⟨htree, hreadable, -⟩ := SyncM.Tells.mapM tells_draftFor _ _ _ _ hdrafts
  refine ⟨⟨files, hfiles, rfl⟩, ?_⟩
  rw [← htree] at ht ⊢
  refine rewritten_of_applyDrafts ht (fun d hd => ?_) hupdates
  obtain ⟨d?, hd?, hd⟩ := List.mem_filterMap.1 hd
  obtain ⟨m, hm, hpath⟩ := hreadable d? hd?
  obtain ⟨rfl, ⟨bytes, hread⟩, -⟩ := hpath.2 d hd
  rw [htree]
  refine ⟨?_, bytes, hread⟩
  have hfound := SourcePath.mem_sort.1 (List.mem_filter.1 (mem_unseen.1 hm).1).1
  rw [hwalk] at hfiles
  exact FileTree.isAbsolute_of_read? (Settings.isAbsolute_resolve hroot configured) hfiles hfound hread

/-! ### What has been seen -/

/-- All files at a location or below it that pass a test have been seen. -/
def AllSeen (p : SourcePath → Bool) (t : FileTree) (seen : List SourcePath) (l : Location) : Prop :=
  ∀ k bytes, l <+: k → t.get? k = some (.file bytes) →
    p (.ofText (FileTree.pathOf k)) = true → .ofText (FileTree.pathOf k) ∈ seen

section Seen

variable {p : SourcePath → Bool} {t t' : FileTree} {seen fresh : List SourcePath}

theorem AllSeen.below {l k : Location} (h : AllSeen p t seen l) (hk : l <+: k) :
    AllSeen p t seen k :=
  fun k' bytes hk' => h k' bytes (hk.trans hk')

theorem AllSeen.append {l : Location} (h : AllSeen p t seen l) (fresh : List SourcePath) :
    AllSeen p t (seen ++ fresh) l :=
  fun k bytes hk hget hp => List.mem_append_left fresh (h k bytes hk hget hp)

theorem AllSeen.rewritten {l : Location} (h : AllSeen p t seen l) (hrewritten : t.Rewritten t') :
    AllSeen p t' seen l := by
  intro k bytes hk hget hp
  obtain ⟨old, hold⟩ := hrewritten.exists_file hget
  exact h k old hk hold hp

/-- When a root had its turn, all that lies there has been seen. -/
theorem AddsFiles.allSeen (hs : ScansPlainly tools s) (ht : t.IsPlain) {configured : Text}
    (h : AddsFiles tools s p t seen configured fresh) :
    AllSeen p t (seen ++ fresh) (Path.cleanPieces (s.resolve configured)) := by
  obtain ⟨files, hwalk, rfl⟩ := h
  intro k bytes hk hget hp
  have hl := hs.isName_resolve configured
  rw [hs.walk, hs.ignore, hs.resolve_eq] at hwalk
  obtain ⟨e, he⟩ := FileTree.exists_get?_of_walk ht hl hwalk
  obtain ⟨files', hwalk', hmem⟩ := FileTree.walk_pathOf ht he
  obtain rfl := Except.ok.inj (hwalk.symm.trans hwalk')
  have hfound := (hmem _).2 ⟨k, bytes, hk, hget, rfl⟩
  by_cases hseen : SourcePath.ofText (FileTree.pathOf k) ∈ seen
  · exact List.mem_append_left _ hseen
  · refine List.mem_append_right seen (mem_unseen.2 ⟨?_, hseen⟩)
    exact List.mem_filter.2 ⟨SourcePath.mem_sort.2 hfound, hp⟩

/-- A root at which something lies, and all has been seen, adds nothing. -/
theorem AllSeen.addsFiles (hs : ScansPlainly tools s) (ht : t.IsPlain) {configured : Text} {e : Entry}
    (h : AllSeen p t seen (Path.cleanPieces (s.resolve configured)))
    (he : t.get? (Path.cleanPieces (s.resolve configured)) = some e) :
    AddsFiles tools s p t seen configured [] := by
  obtain ⟨files, hwalk, hmem⟩ := FileTree.walk_pathOf ht he
  rw [← hs.resolve_eq] at hwalk
  refine ⟨files, by rw [hs.walk, hs.ignore, hwalk], ?_⟩
  symm
  rw [List.eq_nil_iff_forall_not_mem]
  intro m hm
  obtain ⟨hfound, hnot⟩ := mem_unseen.1 hm
  obtain ⟨hfile, hp⟩ := List.mem_filter.1 hfound
  obtain ⟨k, bytes, hk, hget, rfl⟩ := (hmem m).1 (SourcePath.mem_sort.1 hfile)
  exact hnot (h k bytes hk hget hp)

end Seen

/-! ### A root that adds nothing -/

/-- A step that goes on with the files that a root adds goes on with the ones that it is known to add. -/
theorem run_filesUnder_bind_of_addsFiles {p : SourcePath → Bool} {configured : Text}
    {seen fresh : List SourcePath} {st : SyncState}
    (h : AddsFiles tools s p st.tree seen configured fresh) (goOn : List SourcePath → SyncM β) :
    (filesUnder tools s configured >>= fun files => goOn (unseen seen (files.filter p))).run st =
      (goOn fresh).run st := by
  obtain ⟨files, hwalk, rfl⟩ := h
  have hfiles : (filesUnder tools s configured).run st = _ := run_filesUnder configured st
  rw [hwalk] at hfiles
  exact SyncM.run_bind_ok hfiles _

section Insert

variable {root extra : Text} (hs : ScansPlainly tools s)
  (hbelow : Path.cleanPieces (s.resolve root) <+: Path.cleanPieces (s.resolve extra))
include hs hbelow

/-- An import root at which something lies, at or below an earlier one, makes no difference. Along the
roots before it, either the earlier one is yet to come or all that lies there has been seen. -/
theorem run_harvestFrom_insert {before : List Text} (after : List Text) {seen : List SourcePath}
    (h : Harvest) {st : SyncState} {e : Entry} (ht : st.tree.IsPlain)
    (he : st.tree.get? (Path.cleanPieces (s.resolve extra)) = some e)
    (hseen : root ∈ before ∨
      AllSeen s.isImported st.tree seen (Path.cleanPieces (s.resolve extra))) :
    (harvestFrom tools s seen h (before ++ extra :: after)).run st =
      (harvestFrom tools s seen h (before ++ after)).run st := by
  induction before generalizing seen h st with
  | nil =>
      have hadds := (hseen.resolve_left (by simp)).addsFiles hs ht he
      have hnone : (importRoot tools s seen extra).run st = (.ok ([], []), st) :=
        run_filesUnder_bind_of_addsFiles hadds fun fresh => do
          let shares ← fresh.mapM (share? tools s)
          return (fresh, shares.filterMap id)
      refine (SyncM.run_bind_ok hnone _).trans ?_
      show (harvestFrom tools s (seen ++ []) h after).run st = (harvestFrom tools s seen h after).run st
      rw [List.append_nil]
  | cons configured before ih =>
      refine SyncM.run_bind_congr_right fun added mid hyields => ?_
      obtain ⟨hadds, htree⟩ := addsFiles_of_importRoot hyields
      refine ih _ (htree ▸ ht) (htree ▸ he) ?_
      rw [htree]
      rcases hseen with hroot | hseen
      · rcases List.mem_cons.1 hroot with rfl | hroot
        · exact .inr ((hadds.allSeen hs ht).below hbelow)
        · exact .inl hroot
      · exact .inr (hseen.append added.1)

/-- A modify root at which something lies, at or below an earlier one, makes no difference. -/
theorem run_updateFrom_insert {before : List Text} (after : List Text) {seen : List SourcePath}
    {st : SyncState} {e : Entry} (ht : st.tree.IsPlain)
    (he : st.tree.get? (Path.cleanPieces (s.resolve extra)) = some e)
    (hseen : root ∈ before ∨
      AllSeen s.isModified st.tree seen (Path.cleanPieces (s.resolve extra))) :
    (updateFrom tools s exports seen (before ++ extra :: after)).run st =
      (updateFrom tools s exports seen (before ++ after)).run st := by
  induction before generalizing seen st e with
  | nil =>
      have hadds := (hseen.resolve_left (by simp)).addsFiles hs ht he
      have hnone : (modifyRoot tools s exports seen extra).run st = (.ok ([], []), st) :=
        run_filesUnder_bind_of_addsFiles hadds fun fresh => do
          let drafts ← fresh.mapM (draftFor tools s exports)
          let updates ← (drafts.filterMap id).mapM (applyDraft s)
          return (fresh, updates)
      refine (SyncM.run_bind_ok hnone _).trans ?_
      show (updateFrom tools s exports (seen ++ []) after >>= fun later => pure ([] ++ later)).run st =
        (updateFrom tools s exports seen after).run st
      rw [List.append_nil]
      simp only [List.nil_append, bind_pure]
  | cons configured before ih =>
      refine SyncM.run_bind_congr_right fun added mid hyields => ?_
      obtain ⟨hadds, hrewritten⟩ := addsFiles_of_modifyRoot hs.walk hs.root ht.toWellFormed hyields
      obtain ⟨e', he'⟩ := hrewritten.exists_get? he
      refine SyncM.run_bind_congr_left (ih (hrewritten.isPlain ht) he' ?_) _
      rcases hseen with hroot | hseen
      · rcases List.mem_cons.1 hroot with rfl | hroot
        · exact .inr (((hadds.allSeen hs ht).rewritten hrewritten).below hbelow)
        · exact .inl hroot
      · exact .inr ((hseen.rewritten hrewritten).append added.1)

end Insert

/-! ### Whole runs -/

/-- The aggregator is written where it has its place, and whatever lay in the tree before, something
lies there afterwards. -/
theorem kept_of_syncAggregator (hs : ScansFromRoot tools s) {d : Document} {o : Outcome}
    {st st' : SyncState} (ht : st.tree.IsPlain) (h : (syncAggregator s d).Yields st o st') :
    st'.tree.IsPlain ∧
      ∀ l e, st.tree.get? l = some e → ∃ e', st'.tree.get? l = some e' := by
  cases hmode : s.mode with
  | check =>
      rw [yields_syncAggregator_iff, hmode, yields_bringUpToDate_check] at h
      rw [h.2]
      exact ⟨ht, fun l e he => ⟨e, he⟩⟩
  | write =>
      obtain ⟨-, hrefreshed, -⟩ := holdsAggregator_of_yields hs hmode ht h
      exact ⟨hrefreshed.isPlain, fun l e he => hrefreshed.kept he⟩

theorem run_syncSteps_insert (hs : ScansPlainly tools s) {t : FileTree} (ht : t.IsPlain)
    {root extra : Text} {e : Entry} {before after : List Text}
    (hbelow : Path.cleanPieces (s.resolve root) <+: Path.cleanPieces (s.resolve extra))
    (he : t.get? (Path.cleanPieces (s.resolve extra)) = some e)
    (hroots : s.modifyRoots = before ++ after) (hroot : root ∈ before) :
    (syncSteps tools { s with modifyRoots := before ++ extra :: after }).run { tree := t } =
      (syncSteps tools s).run { tree := t } := by
  have hharvest : harvest tools { s with modifyRoots := before ++ extra :: after } =
      harvest tools s :=
    harvestFrom_with_roots_mode s.importRoots _ s.mode [] {} s.importRoots
  have hconsumers (exports : ExportSet) :
      updateConsumers tools { s with modifyRoots := before ++ extra :: after } exports =
        updateFrom tools s exports [] (before ++ extra :: after) :=
    updateFrom_with_roots s.importRoots _ exports [] _
  rw [syncSteps, syncSteps, hharvest]
  refine SyncM.run_bind_congr_right fun output st houtput => ?_
  obtain ⟨-, htree, -⟩ := (observes_harvestFrom [] {} s.importRoots).of_yields rfl
    (NameCache.isTruthful_empty _ _) houtput
  refine SyncM.run_bind_congr_right fun outcome st' haggregator => ?_
  change st.tree = t at htree
  rw [← htree] at ht he
  obtain ⟨ht', hkept⟩ := kept_of_syncAggregator hs.toScansFromRoot ht haggregator
  obtain ⟨e', he'⟩ := hkept _ _ he
  refine SyncM.run_bind_congr_left ?_ _
  rw [hconsumers, updateConsumers, hroots]
  exact run_updateFrom_insert hs hbelow after ht' he' (.inl hroot)

/-- A root at which something lies and that lies at or below an earlier one, however it is spelled,
makes no difference. The generated module is built from the same files, with any names remembered; and
the run ends with the same tree, the same report and the same warnings. -/
theorem overlapping_root_adds_nothing {extract : Extractor} {s : Settings} {name : Text}
    {previous : List Text} (hroot : Path.isAbsolute s.root = true)
    (haggregator : s.aggregator = .ofNames s.root name previous)
    (hignore : s.respectIgnoreFiles = false) {t : FileTree} (ht : t.IsPlain) {root extra : Text}
    (hbelow : Path.cleanPieces (s.resolve root) <+: Path.cleanPieces (s.resolve extra)) {e : Entry}
    (hexists : t.find? (s.resolve extra) = some e) {before : List Text} (hbefore : root ∈ before)
    (after : List Text) :
    (s.importRoots = before ++ after → ∀ st, st.tree = t →
      (harvest { extract } { s with importRoots := before ++ extra :: after }).run st =
        (harvest { extract } s).run st) ∧
    (s.modifyRoots = before ++ after →
      sync { extract } { s with modifyRoots := before ++ extra :: after } t =
        sync { extract } s t) := by
  have hs : ScansPlainly { extract } s :=
    ⟨⟨rfl, hroot, name, previous, haggregator⟩, hignore⟩
  have he : t.get? (Path.cleanPieces (s.resolve extra)) = some e := by
    rw [hs.resolve_eq] at hexists
    obtain ⟨l, hlocate, hget⟩ := Option.bind_eq_some_iff.1 hexists
    rwa [FileTree.eq_of_locate?_pathOf ht (hs.isName_resolve extra) hlocate] at hget
  constructor
  · rintro hroots st rfl
    have hharvest : harvest { extract } { s with importRoots := before ++ extra :: after } =
        harvestFrom { extract } s [] {} (before ++ extra :: after) :=
      harvestFrom_with_roots_mode _ s.modifyRoots s.mode [] {} _
    rw [hharvest, harvest, hroots]
    exact run_harvestFrom_insert hs hbelow after {} ht he (.inl hbefore)
  · intro hroots
    rw [sync, sync, run_syncSteps_insert hs ht hbelow he hroots hbefore]

theorem overlapping_root_adds_nothing_site :
    (sync {} siteSettings siteTree).result.map
        (fun r => (r.exportedNames, r.consumers.map (·.path.text))) =
      .ok (1, ["/site/src/resources/a.js".toList, "/site/src/pages/home.js".toList]) ∧
    (∀ st, st.tree = siteTree →
      (harvest {} { siteSettings with
          importRoots := ["./src/resources/".toList, "src/pages/../resources/a.js".toList] }).run st =
        (harvest {} siteSettings).run st) ∧
    sync {} { siteSettings with
        modifyRoots := ["./src/resources/".toList, "src/pages/../resources/a.js".toList,
          "./src/pages/".toList] } siteTree =
      sync {} siteSettings siteTree := by
  have hconsumers : (sync {} siteSettings siteTree).result.map
      (fun r => (r.exportedNames, r.consumers.map (·.path.text))) =
        .ok (1, ["/site/src/resources/a.js".toList, "/site/src/pages/home.js".toList]) := by
    decide +kernel
  have htree : siteTree.IsPlain :=
    FileTree.isPlain_of_entries (by decide +kernel) (by decide +kernel)
  have hbelow : Path.cleanPieces (siteSettings.resolve "./src/resources/".toList) <+:
      Path.cleanPieces (siteSettings.resolve "src/pages/../resources/a.js".toList) := by
    decide +kernel
  have hexists : siteTree.find? (siteSettings.resolve "src/pages/../resources/a.js".toList) =
      some (.file (Utf8.encode "export const a = 1;\n".toList)) := by
    decide +kernel
  have hadds := @overlapping_root_adds_nothing namesExported? siteSettings _ _ rfl rfl rfl siteTree
    htree _ _ hbelow _ hexists _ (List.mem_singleton.2 rfl)
  exact ⟨hconsumers, (hadds []).1 rfl, (hadds ["./src/pages/".toList]).2 rfl⟩

end ImportSync
