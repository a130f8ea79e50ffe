import ImportSync.Proofs.Conflicts
import ImportSync.Proofs.Reading
import ImportSync.Proofs.Steps

/-!
Texts that tell what they were made of. Names that have no comma, closing brace or line end in them can be
told apart in a list, and so can the names and the source of an import, the lines of a generated module,
and its imports and exports. Hence files that are compared by their text, blanks around it aside, or by
their first line are left alone only if nothing is to change.
-/

namespace ImportSync

/-! ### Lists of names -/

namespace Text

/-- Where a character stands for the first time, a text can be cut in one way. -/
theorem append_cons_inj {c : Char} {a b x y : Text} (ha : c ∉ a) (hb : c ∉ b) :
    a ++ c :: x = b ++ c :: y ↔ a = b ∧ x = y := by
  induction a generalizing b with
  | nil =>
      cases b with
      | nil => simp
      | cons d b =>
          have hne : c ≠ d := fun heq => hb (heq ▸ List.mem_cons_self)
          simp [hne]
  | cons e a ih =>
      have ha' : c ∉ a := fun h => ha (List.mem_cons_of_mem e h)
      cases b with
      | nil =>
          have hne : e ≠ c := fun heq => ha (heq ▸ List.mem_cons_self)
          simp [hne]
      | cons d b =>
          have hb' : c ∉ b := fun h => hb (List.mem_cons_of_mem d h)
          simp [ih ha' hb', and_assoc]

/-- A name that can be told from its neighbours in a list of names. Names without blanks, commas, braces
and quotes are such, unless they are empty. -/
structure IsListable (n : Text) : Prop where
  nonempty : n ≠ []
  no_comma : ',' ∉ n
  no_brace : '}' ∉ n
  no_newline : '\n' ∉ n

instance (n : Text) : Decidable n.IsListable :=
  decidable_of_iff (n ≠ [] ∧ ',' ∉ n ∧ '}' ∉ n ∧ '\n' ∉ n)
    ⟨fun ⟨hne, hcomma, hbrace, hline⟩ => ⟨hne, hcomma, hbrace, hline⟩,
      fun h => ⟨h.nonempty, h.no_comma, h.no_brace, h.no_newline⟩⟩

/-- Blanks at the start and a line end go when a text is trimmed. -/
theorem trim_line {lead mid : Text} {c d : Char} (hlead : ∀ b ∈ lead, isBlank b = true)
    (hc : isBlank c = false) (hd : isBlank d = false) :
    trim (lead ++ (c :: (mid ++ [d]) ++ ['\n'])) = c :: (mid ++ [d]) := by
  have hstart : trim (lead ++ (c :: (mid ++ [d]) ++ ['\n'])) = trim (c :: (mid ++ [d]) ++ ['\n']) := by
    rw [trim, trim, trimStart, trimStart, List.dropWhile_append_of_pos hlead]
  rw [hstart, trim_append_newline (by simp [trimStart_cons hc]), trim_cons_concat hc hd]

end Text

/-- A list of names is cut at its commas, after which there is a blank. -/
theorem splitOn_nameList {n : Text} {names : List Text} (hn : ',' ∉ n) (hnames : ∀ m ∈ names, ',' ∉ m) :
    List.splitOn ',' (nameList (n :: names)) = n :: names.map (' ' :: ·) := by
  have hjoin : nameList (n :: names) = Text.joinWith [','] (n :: names.map (' ' :: ·)) := by
    clear hn hnames
    induction names generalizing n with
    | nil => simp [nameList]
    | cons m names ih =>
        rw [Syntax.nameList_cons_cons, ih, List.map_cons, Text.joinWith_cons (p := n) (by simp)]
        cases names with
        | nil => simp
        | cons m' names => simp [Text.joinWith_cons]
  rw [hjoin]
  refine Text.splitOn_joinWith (by simp) fun p hp => ?_
  rcases List.mem_cons.1 hp with rfl | hp
  · exact hn
  · obtain ⟨m, hm, rfl⟩ := List.mem_map.1 hp
    simp [hnames m hm]

theorem nameList_inj {names names' : List Text} (h : ∀ n ∈ names, Text.IsListable n)
    (h' : ∀ n ∈ names', Text.IsListable n) (hsame : nameList names = nameList names') :
    names = names' := by
  have hne {n : Text} {names : List Text} (hn : Text.IsListable n) : nameList (n :: names) ≠ [] := by
    cases names with
    | nil => simpa [nameList] using hn.nonempty
    | cons m names => simp [Syntax.nameList_cons_cons]
  cases names with
  | nil =>
      cases names' with
      | nil => rfl
      | cons n' names' => exact absurd hsame.symm (hne (h' n' (by simp)))
  | cons n names =>
      cases names' with
      | nil => exact absurd hsame (hne (h n (by simp)))
      | cons n' names' =>
          have hcut := congrArg (List.splitOn ',') hsame
          rw [splitOn_nameList (h n (by simp)).no_comma fun m hm => (h m (by simp [hm])).no_comma,
            splitOn_nameList (h' n' (by simp)).no_comma fun m hm => (h' m (by simp [hm])).no_comma] at hcut
          obtain ⟨rfl, hmap⟩ := List.cons.inj hcut
          rw [List.map_injective_iff.2 (List.cons_injective) hmap]

/-- Before a closing brace, a list of names can be told from what follows. -/
theorem nameList_brace_inj {names names' : List Text} (h : ∀ n ∈ names, Text.IsListable n)
    (h' : ∀ n ∈ names', Text.IsListable n) {rest rest' : Text}
    (hsame : nameList names ++ '}' :: rest = nameList names' ++ '}' :: rest') :
    names = names' ∧ rest = rest' := by
  have hbrace := not_mem_nameList (by decide) fun n hn => (h n hn).no_brace
  have hbrace' := not_mem_nameList (by decide) fun n hn => (h' n hn).no_brace
  obtain ⟨hnames, hrest⟩ := (Text.append_cons_inj hbrace hbrace').1 hsame
  exact ⟨nameList_inj h h' hnames, hrest⟩

/-! ### Imports -/

namespace ImportLine

/-- An import on one line whose names can be told apart. A line given as it stands is none. -/
def IsSeparable : ImportLine → Prop
  | .named source names => '\n' ∉ source ∧ ∀ n ∈ names, Text.IsListable n
  | .sideEffect source => '\n' ∉ source
  | .raw _ => False

instance (i : ImportLine) : Decidable i.IsSeparable :=
  match i with
  | .named source names => inferInstanceAs (Decidable ('\n' ∉ source ∧ ∀ n ∈ names, Text.IsListable n))
  | .sideEffect source => inferInstanceAs (Decidable ('\n' ∉ source))
  | .raw _ => inferInstanceAs (Decidable False)

theorem render_named_eq (source : Text) (names : List Text) :
    (named source names).render =
      ['i', 'm', 'p', 'o', 'r', 't'] ++
        (' ' :: '{' :: (nameList names ++ '}' :: Syntax.fromSource source [])) := by
  rw [← Syntax.render_named_append, List.append_nil]

theorem render_sideEffect_eq (source : Text) :
    (sideEffect source).render = Syntax.bareImport source [] := by
  rw [← Syntax.render_sideEffect_append, List.append_nil]

variable {i i' : ImportLine}

theorem IsSeparable.no_newline (h : i.IsSeparable) : '\n' ∉ i.render := by
  cases i with
  | named source names => exact newline_not_mem_render h.1 fun n hn => (h.2 n hn).no_newline
  | sideEffect source =>
      have hsource : '\n' ∉ source := h
      simp [render_sideEffect_eq, Syntax.bareImport, hsource]
  | raw line => exact h.elim

theorem IsSeparable.render_ends (h : i.IsSeparable) : ∃ mid, i.render = 'i' :: (mid ++ [';']) := by
  cases i with
  | named source names => exact render_named_ends source names
  | sideEffect source =>
      refine ⟨['m', 'p', 'o', 'r', 't', ' ', '\''] ++ source ++ ['\''], ?_⟩
      simp [render_sideEffect_eq, Syntax.bareImport]
  | raw line => exact h.elim

theorem render_named_ne_sideEffect (source source' : Text) (names : List Text) :
    (named source names).render ≠ (sideEffect source').render := by
  rw [render_named_eq, render_sideEffect_eq]
  simp [Syntax.bareImport]

/-- An import is told by its text. -/
theorem IsSeparable.eq_of_render (h : i.IsSeparable) (h' : i'.IsSeparable)
    (hsame : i.render = i'.render) : i = i' := by
  cases i with
  | raw line => exact h.elim
  | named source names =>
      cases i' with
      | raw line => exact h'.elim
      | named source' names' =>
          rw [render_named_eq, render_named_eq] at hsame
          have hlist := (List.cons.inj (List.cons.inj (List.append_cancel_left hsame)).2).2
          obtain ⟨rfl, hfrom⟩ := nameList_brace_inj h.2 h'.2 hlist
          simp only [Syntax.fromSource, List.cons_append, List.nil_append, List.cons.injEq,
            true_and] at hfrom
          rw [List.append_cancel_right hfrom]
      | sideEffect source' => exact absurd hsame (render_named_ne_sideEffect source source' names)
  | sideEffect source =>
      cases i' with
      | raw line => exact h'.elim
      | named source' names' => exact absurd hsame.symm (render_named_ne_sideEffect source' source names')
      | sideEffect source' =>
          rw [render_sideEffect_eq, render_sideEffect_eq] at hsame
          simp only [Syntax.bareImport, List.cons_append, List.nil_append, List.cons.injEq,
            true_and] at hsame
          rw [List.append_cancel_right hsame]

end ImportLine

/-! ### Generated modules -/

/-- A generated module on whose lines everything can be told apart. -/
structure Document.IsSeparable (d : Document) : Prop where
  imports : ∀ i ∈ d.imports, i.IsSeparable
  exports : ∀ n ∈ d.exports.names, Text.IsListable n

instance (d : Document) : Decidable d.IsSeparable :=
  decidable_of_iff ((∀ i ∈ d.imports, i.IsSeparable) ∧ ∀ n ∈ d.exports.names, Text.IsListable n)
    ⟨fun ⟨himports, hexports⟩ => ⟨himports, hexports⟩, fun h => ⟨h.imports, h.exports⟩⟩

section ModuleText

variable {imports imports' : List ImportLine} {names names' : List Text}

theorem moduleText_inj (hi : ∀ i ∈ imports, i.IsSeparable) (hi' : ∀ i ∈ imports', i.IsSeparable)
    (hn : ∀ n ∈ names, Text.IsListable n) (hn' : ∀ n ∈ names', Text.IsListable n)
    (hsame : Syntax.moduleText imports names = Syntax.moduleText imports' names') :
    imports = imports' ∧ names = names' := by
  -- an empty line ends the imports, and no import starts like one
  have hends {i : ImportLine} (h : i.IsSeparable) (rest rest' : Text) :
      '\n' :: rest ≠ i.render ++ rest' := by
    obtain ⟨mid, hmid⟩ := h.render_ends
    simp [hmid]
  induction imports generalizing imports' with
  | nil =>
      cases imports' with
      | nil =>
          simp only [Syntax.moduleText, Syntax.exportText, List.flatMap_nil, List.nil_append,
            List.cons_append, List.cons.injEq, true_and] at hsame
          exact ⟨rfl, (nameList_brace_inj hn hn' hsame).1⟩
      | cons i' imports' =>
          rw [Syntax.moduleText_cons] at hsame
          exact absurd hsame (hends (hi' i' (by simp)) _ _)
  | cons i imports ih =>
      cases imports' with
      | nil =>
          rw [Syntax.moduleText_cons] at hsame
          exact absurd hsame.symm (hends (hi i (by simp)) _ _)
      | cons i' imports' =>
          have hsep := hi i (by simp)
          have hsep' := hi' i' (by simp)
          rw [Syntax.moduleText_cons, Syntax.moduleText_cons,
            Text.append_cons_inj hsep.no_newline hsep'.no_newline] at hsame
          obtain ⟨rfl, rfl⟩ := ih (fun j hj => hi j (by simp [hj])) (fun j hj => hi' j (by simp [hj]))
            hsame.2
          exact ⟨by rw [hsep.eq_of_render hsep' hsame.1], rfl⟩

/-- A generated module starts with an import, or with an empty line and its export. -/
theorem moduleText_ends (hi : ∀ i ∈ imports, i.IsSeparable) (names : List Text) :
    ∃ lead c mid, (lead, c) ∈ [([], 'i'), (['\n'], 'e')] ∧
      Syntax.moduleText imports names = lead ++ (c :: (mid ++ [';']) ++ ['\n']) := by
  cases imports with
  | nil =>
      refine ⟨['\n'], 'e', ['x', 'p', 'o', 'r', 't', ' ', '{'] ++ nameList names ++ ['}'], by simp, ?_⟩
      simp [Syntax.moduleText, Syntax.exportText]
  | cons i imports =>
      obtain ⟨mid, hmid⟩ := (hi i (by simp)).render_ends
      refine ⟨[], 'i', mid ++ ';' :: '\n' :: (imports.flatMap (fun i => i.render ++ ['\n']) ++
        '\n' :: (['e', 'x', 'p', 'o', 'r', 't', ' ', '{'] ++ nameList names ++ ['}'])), by simp, ?_⟩
      rw [Syntax.moduleText_cons, hmid]
      simp [Syntax.moduleText, Syntax.exportText]

/-- The first character that is kept tells which blanks stood before it. -/
theorem moduleText_eq_of_trim (hi : ∀ i ∈ imports, i.IsSeparable)
    (hi' : ∀ i ∈ imports', i.IsSeparable)
    (hsame : Text.trim (Syntax.moduleText imports names) =
      Text.trim (Syntax.moduleText imports' names')) :
    Syntax.moduleText imports names = Syntax.moduleText imports' names' := by
  have hblank {lead : Text} {c : Char} (h : (lead, c) ∈ [([], 'i'), (['\n'], 'e')]) :
      (∀ b ∈ lead, Text.isBlank b = true) ∧ Text.isBlank c = false := by
    simp only [List.mem_cons, Prod.mk.injEq, List.not_mem_nil, or_false] at h
    rcases h with ⟨rfl, rfl⟩ | ⟨rfl, rfl⟩
    · exact ⟨by simp, by decide⟩
    · exact ⟨List.forall_mem_singleton.2 (by decide), by decide⟩
  obtain ⟨lead, c, mid, hlead, htext⟩ := moduleText_ends hi names
  obtain ⟨lead', c', mid', hlead', htext'⟩ := moduleText_ends hi' names'
  rw [htext, htext', Text.trim_line (hblank hlead).1 (hblank hlead).2 (by decide),
    Text.trim_line (hblank hlead').1 (hblank hlead').2 (by decide)] at hsame
  obtain ⟨rfl, hmid⟩ := List.cons.inj hsame
  have hsameLead : lead = lead' := by
    simp only [List.mem_cons, Prod.mk.injEq, List.not_mem_nil, or_false] at hlead hlead'
    rcases hlead with ⟨rfl, rfl⟩ | ⟨rfl, rfl⟩ <;> simpa [eq_comm] using hlead'
  rw [htext, htext', hmid, hsameLead]

end ModuleText

/-- A generated module is told by its text, blanks around it aside. -/
theorem Document.IsSeparable.trim_render_eq_iff {d d' : Document} (h : d.IsSeparable)
    (h' : d'.IsSeparable) : Text.trim d.render = Text.trim d'.render ↔ d = d' := by
  refine ⟨fun hsame => ?_, fun heq => by rw [heq]⟩
  rw [Syntax.render_eq_moduleText, Syntax.render_eq_moduleText] at hsame
  obtain ⟨himports, hexports⟩ := moduleText_inj h.imports h'.imports h.exports h'.exports
    (moduleText_eq_of_trim h.imports h'.imports hsame)
  obtain ⟨imports, ⟨names, hnodup, hnonempty⟩⟩ := d
  obtain ⟨imports', ⟨names', hnodup', hnonempty'⟩⟩ := d'
  cases himports
  cases hexports
  rfl

theorem ImportLine.IsSeparable.headLine_eq_iff {i i' : ImportLine} (h : i.IsSeparable)
    (h' : i'.IsSeparable) (body body' : Text) :
    headLine (i.render ++ '\n' :: body) = headLine (i'.render ++ '\n' :: body') ↔ i = i' := by
  rw [headLine_of_ends h.render_ends h.no_newline, headLine_of_ends h'.render_ends h'.no_newline]
  exact ⟨h.eq_of_render h', congrArg render⟩

/-! ### Files that are left alone -/

theorem yields_bringUpToDate_unchanged {c : Comparison} {old new p : Text} {mode : Mode}
    {st st' : SyncState} :
    (bringUpToDate p new old c mode).Yields st .unchanged st' ↔ c.differs old new = false ∧ st' = st := by
  cases mode with
  | check =>
      rw [yields_bringUpToDate_check]
      cases c.differs old new <;> simp
  | write =>
      rw [yields_bringUpToDate]
      simp

/-- Two generated modules that count as the same one are the same, and so are the imports of two files
that count as the same one, whatever follows them. Hence a file is left as it is only if nothing would
change. -/
theorem update_hides_no_change :
    (∀ d d' : Document, d.IsSeparable → d'.IsSeparable →
      (Text.trim d.render = Text.trim d'.render ↔ d = d') ∧
      ∀ (p : Text) (mode : Mode) (st st' : SyncState),
        (bringUpToDate p d'.render d.render .whole mode).Yields st .unchanged st' ↔ d = d' ∧ st' = st) ∧
    ∀ i i' : ImportLine, i.IsSeparable → i'.IsSeparable → ∀ body body' : Text,
      (headLine (i.render ++ '\n' :: body) = headLine (i'.render ++ '\n' :: body') ↔ i = i') ∧
      ∀ (p : Text) (mode : Mode) (st st' : SyncState),
        (bringUpToDate p (i'.render ++ '\n' :: body') (i.render ++ '\n' :: body) .headLine mode).Yields st
          .unchanged st' ↔ i = i' ∧ st' = st := by
  refine ⟨fun d d' h h' => ?_, fun i i' h h' body body' => ?_⟩
  · have hsame := h.trim_render_eq_iff h'
    refine ⟨hsame, fun p mode st st' => ?_⟩
    rw [yields_bringUpToDate_unchanged, ← hsame]
    simp [Comparison.differs]
  · have hsame := h.headLine_eq_iff h' body body'
    refine ⟨hsame, fun p mode st st' => ?_⟩
    rw [yields_bringUpToDate_unchanged, ← hsame]
    simp [Comparison.differs]

/-- A module that loads a file for what loading it does. -/
def loadingModule : Document where
  imports := [.named "./a".toList ["x".toList, "y".toList], .sideEffect "./b".toList]
  exports := .ofList ["x".toList, "y".toList]

/-- A module that brings no name in from the same file. -/
def namelessModule : Document where
  imports := [.named "./a".toList ["x".toList, "y".toList], .named "./b".toList []]
  exports := .ofList ["x".toList, "y".toList]

theorem update_hides_no_change_loadingModule :
    loadingModule.IsSeparable ∧ namelessModule.IsSeparable ∧
      Text.trim loadingModule.render ≠ Text.trim namelessModule.render ∧
      (∀ (p : Text) (mode : Mode) (st st' : SyncState),
        ¬ (bringUpToDate p namelessModule.render loadingModule.render .whole mode).Yields st .unchanged
          st') ∧
      ∀ body body' : Text,
        headLine ((ImportLine.named "./a".toList ["x".toList]).render ++ '\n' :: body) =
          headLine ((ImportLine.named "./a".toList ["x".toList]).render ++ '\n' :: body') ∧
        headLine ((ImportLine.named "./a".toList ["x".toList]).render ++ '\n' :: body) ≠
          headLine ((ImportLine.named "./a".toList ["x".toList, "y".toList]).render ++ '\n' :: body') := by
  have hloading : loadingModule.IsSeparable := by decide
  have hnameless : namelessModule.IsSeparable := by decide
  have hne : loadingModule ≠ namelessModule := fun h => absurd (congrArg Document.imports h) (by decide)
  obtain ⟨htrim, hyields⟩ := update_hides_no_change.1 _ _ hloading hnameless
  refine ⟨hloading, hnameless, fun h => hne (htrim.1 h),
    fun p mode st st' h => hne ((hyields p mode st st').1 h).1, fun body body' => ⟨?_, ?_⟩⟩
  · exact (update_hides_no_change.2 _ _ (by decide) (by decide) body body').1.2 rfl
  · exact fun h => absurd ((update_hides_no_change.2 _ _ (by decide) (by decide) body body').1.1 h)
      (by decide)

end ImportSync
