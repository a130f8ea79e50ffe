import ImportSync.Exports

/-!
Every name that is collected from a module text is spelled as a name, whatever form of export it comes
from. A place in the text carries the spelling of its word, so that only the parsers that hand names on
have to be looked at; what the others read in between does not matter.
-/

namespace ImportSync

namespace Syntax

/-! ### What parsers yield -/

namespace Parser

variable {α β : Type}

/-- Whatever the parser yields, wherever it starts, has the property. -/
def Gives (p : Parser α) (P : α → Prop) : Prop :=
  ∀ scope cursor a after, p scope cursor = some (a, after) → P a

theorem gives_pure {P : α → Prop} {a : α} (h : P a) : Gives (pure a) P := by
  intro scope cursor b after hrun
  obtain ⟨rfl, -⟩ := Prod.mk.inj (Option.some.inj hrun)
  exact h

theorem gives_failure {P : α → Prop} : Gives failure P := by
  intro scope cursor a after hrun
  cases hrun

theorem Gives.mono {P Q : α → Prop} {p : Parser α} (h : p.Gives P) (hPQ : ∀ a, P a → Q a) :
    p.Gives Q :=
  fun _ _ _ _ hrun => hPQ _ (h _ _ _ _ hrun)

theorem Gives.bind {P : β → Prop} {Q : α → Prop} {p : Parser α} {f : α → Parser β} (h : p.Gives Q)
    (hf : ∀ a, Q a → (f a).Gives P) : (p >>= f).Gives P := by
  intro scope cursor b after hrun
  obtain ⟨⟨a, mid⟩, ha, hb⟩ := Option.bind_eq_some_iff.1 hrun
  exact hf a (h _ _ _ _ ha) _ _ _ _ hb

/-- What comes first may be left out of account. -/
theorem gives_bind {P : β → Prop} {p : Parser α} {f : α → Parser β} (hf : ∀ a, (f a).Gives P) :
    (p >>= f).Gives P :=
  Gives.bind (Q := fun _ => True) (fun _ _ _ _ _ => trivial) fun a _ => hf a

theorem gives_withReader {P : α → Prop} {p : Parser α} (h : p.Gives P) (f : Scope → Scope) :
    Gives (withReader f p) P :=
  fun _ _ _ _ hrun => h _ _ _ _ hrun

theorem gives_rounds {P : α → Prop} {step : Parser (Option α)} (h : step.Gives (∀ a ∈ ·, P a))
    (n : Nat) : (rounds step n).Gives (∀ a ∈ ·, P a) := by
  induction n with
  | zero => exact gives_failure
  | succ n ih =>
      refine h.bind fun found hfound => ?_
      cases found with
      | none => exact gives_pure (by simp)
      | some a =>
          refine ih.bind fun later hlater => gives_pure ?_
          intro b hb
          rcases List.mem_cons.1 hb with rfl | hb
          · exact hfound b rfl
          · exact hlater b hb

theorem gives_many {P : α → Prop} {step : Parser (Option α)} (h : step.Gives (∀ a ∈ ·, P a)) :
    (many step).Gives (∀ a ∈ ·, P a) :=
  gives_bind fun _ => gives_rounds h _

theorem gives_itemsUntil {P : α → Prop} {item : Parser α} (h : item.Gives P) (close : Symbol) :
    (itemsUntil close item).Gives (∀ a ∈ ·, P a) := by
  refine Gives.bind (Q := (∀ a ∈ ·, P a)) (gives_many ?_) fun items hitems => ?_
  · refine gives_bind fun atEnd => ?_
    cases atEnd with
    | true => exact gives_pure (by simp)
    | false =>
        refine h.bind fun a ha => gives_bind fun closes => ?_
        cases closes with
        | true => exact gives_pure (by simpa using ha)
        | false => exact gives_bind fun _ => gives_pure (by simpa using ha)
  · exact gives_bind fun _ => gives_pure hitems

theorem gives_itemsSeparated {P : α → Prop} {item : Parser α} (h : item.Gives P) :
    (itemsSeparated item).Gives (∀ a ∈ ·, P a) := by
  refine h.bind fun first hfirst => ?_
  refine Gives.bind (Q := (∀ a ∈ ·, P a)) (gives_many ?_) fun others hothers => ?_
  · refine gives_bind fun goesOn => ?_
    cases goesOn with
    | true => exact h.bind fun a ha => gives_pure (by simpa using ha)
    | false => exact gives_pure (by simp)
  · refine gives_pure fun a ha => ?_
    rcases List.mem_cons.1 ha with rfl | ha
    · exact hfirst
    · exact hothers a ha

/-! ### Words -/

theorem gives_token : token.Gives (·.isSpelled = true) := by
  intro scope cursor t after hrun
  obtain ⟨rfl, -⟩ := Prod.mk.inj (Option.some.inj hrun)
  exact cursor.spelled

theorem gives_name : name.Gives (Text.isIdentifier ·.toList = true) := by
  refine gives_token.bind fun t ht => ?_
  split
  · exact gives_bind fun _ => gives_bind fun _ => gives_bind fun _ => gives_pure ht
  · exact gives_failure

theorem gives_anyWord : anyWord.Gives (Text.isIdentifier ·.toList = true) := by
  refine gives_token.bind fun t ht => ?_
  split
  · exact gives_bind fun _ => gives_pure ht
  · exact gives_failure

end Parser

open ImportSync.Syntax.Parser

/-! ### Exported names -/

/-- An exported name that is not quoted is spelled as a name. -/
def ExportName.IsSpelled (e : ExportName) : Prop :=
  ∀ id ∈ e.identifier?, Text.isIdentifier id = true

namespace Grammar

variable {g : Grammar}

theorem gives_exportName : exportName.Gives ExportName.IsSpelled := by
  refine gives_bind fun t => ?_
  split
  · split
    · exact gives_bind fun _ => gives_pure (by simp [ExportName.IsSpelled, ExportName.identifier?])
    · exact gives_failure
  · refine gives_anyWord.bind fun w hw => gives_pure ?_
    simpa [ExportName.IsSpelled, ExportName.identifier?] using hw

theorem gives_renamed {left : ExportName} (h : left.IsSpelled) :
    (renamed left).Gives (·.2.IsSpelled) := by
  refine gives_bind fun renames => ?_
  split
  · exact gives_exportName.bind fun right hright => gives_pure hright
  · exact gives_pure h

theorem gives_specifier : specifier.Gives (·.2.IsSpelled) := by
  have has : (ExportName.identifier "as".toList).IsSpelled := by
    intro id hid
    obtain rfl := Option.some.inj hid
    decide
  refine gives_bind fun isTyped => gives_bind fun isMark => ?_
  refine gives_exportName.bind fun first hfirst => ?_
  split
  · exact gives_renamed hfirst
  · refine gives_bind fun follows => ?_
    split
    · refine gives_bind fun follows => ?_
      split
      · refine gives_bind fun isNamed => ?_
        split
        · exact gives_exportName.bind fun right hright => gives_pure hright
        · exact gives_pure has
      · refine gives_bind fun isNamed => ?_
        split
        · exact gives_exportName.bind fun right hright => gives_pure hright
        · exact gives_pure has
    · refine gives_bind fun isNamed => ?_
      split
      · exact gives_exportName.bind fun second hsecond => gives_renamed hsecond
      · exact gives_pure hfirst

end Grammar

/-- Every name that is collected of the statement is spelled as a name. -/
def Statement.IsSpelled (s : Statement) : Prop :=
  ∀ includeDeclarations, ∀ n ∈ s.collectedNames includeDeclarations, Text.isIdentifier n = true

theorem Statement.isSpelled_plain : Statement.plain.IsSpelled := by
  intro includeDeclarations n hn
  simp [Statement.collectedNames] at hn

namespace Grammar

variable {g : Grammar}

theorem gives_exportListRest : exportListRest.Gives Statement.IsSpelled := by
  refine gives_bind fun _ => ?_
  refine (gives_itemsUntil gives_specifier .rbrace).bind fun specifiers hspecifiers => ?_
  have hnames : (Statement.exportList (specifiers.map (·.2))).IsSpelled := by
    intro includeDeclarations n hn
    obtain ⟨e, he, hid⟩ := List.mem_filterMap.1 hn
    obtain ⟨pair, hpair, rfl⟩ := List.mem_map.1 he
    exact hspecifiers pair hpair n hid
  refine gives_bind fun isFrom => ?_
  split
  · exact gives_bind fun _ => gives_bind fun _ => gives_pure hnames
  · exact gives_bind fun _ => gives_bind fun _ => gives_pure hnames

theorem gives_exportAllRest : exportAllRest.Gives Statement.IsSpelled := by
  have hspelled (given : Option ExportName) (hgiven : ∀ e ∈ given, e.IsSpelled) :
      (Statement.exportAll given).IsSpelled := by
    intro includeDeclarations n hn
    cases given with
    | none => simp [Statement.collectedNames] at hn
    | some e => exact hgiven e rfl n (by simpa [Statement.collectedNames] using hn)
  refine gives_bind fun _ => gives_bind fun isNamed => ?_
  split
  · refine gives_exportName.bind fun e he => ?_
    refine Gives.bind (gives_pure (P := (∀ e ∈ ·, ExportName.IsSpelled e)) (by simpa using he)) ?_
    exact fun given hgiven => gives_bind fun _ => gives_bind fun _ => gives_pure (hspelled given hgiven)
  · refine Gives.bind (gives_pure (P := (∀ e ∈ ·, ExportName.IsSpelled e)) (by simp)) ?_
    exact fun given hgiven => gives_bind fun _ => gives_bind fun _ => gives_pure (hspelled given hgiven)

end Grammar

/-! ### Patterns -/

/-- Every name that the pattern binds, however deep, is spelled as a name. -/
def Pattern.IsSpelled (p : Pattern) : Prop :=
  ∀ n ∈ p.boundNames, Text.isIdentifier n = true

theorem mem_boundNamesOfAll {n : Text} {ps : List Pattern} :
    n ∈ boundNamesOfAll ps ↔ ∃ p ∈ ps, n ∈ p.boundNames := by
  induction ps with
  | nil => simp [boundNamesOfAll]
  | cons p ps ih => simp [boundNamesOfAll, ih]

/-- A pattern of several others is spelled if they are. -/
theorem isSpelled_of_all {ps : List Pattern} (h : ∀ p ∈ ps, p.IsSpelled) :
    ∀ n ∈ boundNamesOfAll ps, Text.isIdentifier n = true := by
  intro n hn
  obtain ⟨p, hp, hn⟩ := mem_boundNamesOfAll.1 hn
  exact h p hp n hn

theorem Pattern.isSpelled_name {id : Text} (h : Text.isIdentifier id = true) :
    (Pattern.name id).IsSpelled := by
  intro n hn
  obtain rfl : n = id := by simpa [Pattern.boundNames] using hn
  exact h

theorem mem_boundNames_of_name? {p : Pattern} {n : Text} (h : n ∈ p.name?) : n ∈ p.boundNames := by
  cases p <;> simp_all [Pattern.name?, Pattern.boundNames]

theorem mem_boundNames_of_filterMap {ps : List Pattern} {n : Text}
    (h : n ∈ ps.filterMap Pattern.name?) : n ∈ boundNamesOfAll ps := by
  obtain ⟨p, hp, hn⟩ := List.mem_filterMap.1 h
  exact mem_boundNamesOfAll.2 ⟨p, hp, mem_boundNames_of_name? hn⟩

/-- The names at the surface are among all that are bound. -/
theorem mem_boundNames_of_surface {ps : List Pattern} {n : Text} (h : n ∈ surfaceNames ps) :
    n ∈ boundNamesOfAll ps := by
  simp only [surfaceNames, List.mem_append, List.mem_flatMap] at h
  rcases h with (h | ⟨p, hp, hn⟩) | ⟨p, hp, hn⟩
  · exact mem_boundNames_of_filterMap h
  · refine mem_boundNamesOfAll.2 ⟨p, hp, ?_⟩
    cases p with
    | array items => exact mem_boundNames_of_filterMap hn
    | _ => simp [Pattern.arrayNames] at hn
  · refine mem_boundNamesOfAll.2 ⟨p, hp, ?_⟩
    cases p with
    | object items => exact mem_boundNames_of_filterMap hn
    | _ => simp [Pattern.objectNames] at hn

/-- The grammar reads patterns that are spelled. -/
def Grammar.SpellsPatterns (g : Grammar) : Prop :=
  g.pattern.Gives Pattern.IsSpelled

namespace Grammar

variable {g : Grammar}

theorem gives_bindingElement (hg : g.SpellsPatterns) : g.bindingElement.Gives Pattern.IsSpelled := by
  refine Gives.bind hg fun target htarget => gives_bind fun hasDefault => ?_
  split
  · refine gives_pure fun n hn => htarget n ?_
    simpa [Pattern.boundNames] using hn
  · exact gives_pure htarget

theorem gives_arrayElement (hg : g.SpellsPatterns) :
    g.arrayElement.Gives (∀ p ∈ ·, Pattern.IsSpelled p) := by
  refine gives_bind fun isHole => ?_
  split
  · exact gives_pure (by simp)
  · refine gives_bind fun isRest => ?_
    split
    · refine Gives.bind hg fun target htarget => gives_bind fun _ => gives_bind fun _ => gives_pure ?_
      rintro p ⟨⟩ n hn
      exact htarget n (by simpa [Pattern.boundNames] using hn)
    · exact (gives_bindingElement hg).bind fun p hp => gives_pure (by simpa using hp)

theorem gives_propertyName : g.propertyName.Gives
    (∀ w, · = PropertyName.word w → Text.isIdentifier w.toList = true) := by
  refine gives_token.bind fun t ht => ?_
  split
  · refine gives_bind fun _ => gives_pure ?_
    rintro w ⟨⟩
    exact ht
  · exact gives_bind fun _ => gives_pure (by simp)
  · exact gives_bind fun _ => gives_pure (by simp)
  · exact gives_bind fun _ => gives_bind fun _ => gives_bind fun _ => gives_pure (by simp)
  · exact gives_failure

theorem gives_objectElement (hg : g.SpellsPatterns) : g.objectElement.Gives Pattern.IsSpelled := by
  refine gives_bind fun isRest => ?_
  split
  · refine gives_name.bind fun id hid => gives_bind fun _ => gives_bind fun _ => gives_pure ?_
    intro n hn
    exact Pattern.isSpelled_name hid n (by simpa [Pattern.boundNames] using hn)
  · refine gives_propertyName.bind fun property hproperty => gives_bind fun hasTarget => ?_
    split
    · exact gives_bindingElement hg
    · split
      next id =>
        have hid := Pattern.isSpelled_name (hproperty id rfl)
        refine gives_bind fun _ => gives_bind fun _ => gives_bind fun hasDefault => ?_
        split
        · refine gives_pure fun n hn => hid n ?_
          simpa [Pattern.boundNames] using hn
        · exact gives_pure hid
      next => exact gives_failure

theorem gives_patternBody (hg : g.SpellsPatterns) : g.patternBody.Gives Pattern.IsSpelled := by
  refine gives_bind fun t => ?_
  split
  · refine gives_bind fun _ => ?_
    refine Gives.bind (gives_withReader (gives_itemsUntil (gives_arrayElement hg) .rbracket) _)
      fun items hitems => gives_pure ?_
    intro n hn
    refine isSpelled_of_all (fun p hp => ?_) n (by simpa [Pattern.boundNames] using hn)
    obtain ⟨item, hitem, hp⟩ := List.mem_filterMap.1 hp
    exact hitems item hitem p hp
  · refine gives_bind fun _ => ?_
    refine Gives.bind (gives_withReader (gives_itemsUntil (gives_objectElement hg) .rbrace) _)
      fun items hitems => gives_pure ?_
    intro n hn
    exact isSpelled_of_all hitems n (by simpa [Pattern.boundNames] using hn)
  · exact gives_name.bind fun id hid => gives_pure (Pattern.isSpelled_name hid)

end Grammar

/-- Patterns are spelled at any depth, since those inside are. -/
theorem spellsPatterns_ofDepth (n : Nat) : (Grammar.ofDepth n).SpellsPatterns := by
  induction n with
  | zero => exact gives_failure
  | succ n ih => exact Grammar.gives_patternBody ih

/-! ### Declarations -/

/-- Every name that the declaration brings in is spelled as a name. -/
def Declaration.IsSpelled (d : Declaration) : Prop :=
  ∀ n ∈ d.boundNames, Text.isIdentifier n = true

theorem Declaration.IsSpelled.statement {d : Declaration} (h : d.IsSpelled) :
    (Statement.exportDeclaration d).IsSpelled := by
  intro includeDeclarations n hn
  refine h n ?_
  cases d with
  | «variables» targets => exact mem_boundNames_of_surface hn
  | function id => cases includeDeclarations <;> simp_all [Statement.collectedNames,
      Declaration.collectedNames, Declaration.boundNames]
  | «class» id => cases includeDeclarations <;> simp_all [Statement.collectedNames,
      Declaration.collectedNames, Declaration.boundNames]
  | typeLevel => simp [Statement.collectedNames, Declaration.collectedNames] at hn

theorem Declaration.isSpelled_typeLevel : Declaration.typeLevel.IsSpelled := by
  simp [Declaration.IsSpelled, Declaration.boundNames]

namespace Grammar

variable {g : Grammar}

theorem gives_variableRest (hg : g.SpellsPatterns) (isConstant : Bool) :
    (g.variableRest isConstant).Gives Declaration.IsSpelled := by
  have hdeclarator : g.declarator.Gives (·.1.IsSpelled) := by
    refine Gives.bind hg fun target htarget => gives_bind fun isTyped => ?_
    split
    · exact gives_bind fun _ => gives_bind fun _ => gives_bind fun _ => gives_pure htarget
    · exact gives_bind fun _ => gives_bind fun _ => gives_pure htarget
  refine (gives_itemsSeparated hdeclarator).bind fun declarators hdeclarators => ?_
  refine gives_bind fun _ => gives_bind fun _ => gives_bind fun _ => gives_pure ?_
  refine isSpelled_of_all fun p hp => ?_
  obtain ⟨d, hd, rfl⟩ := List.mem_map.1 hp
  exact hdeclarators d hd

theorem gives_functionDeclaration :
    (g.functionDeclaration false).Gives (Text.isIdentifier ·.toList = true) := by
  refine gives_bind fun kind => gives_bind fun isNamed => ?_
  split
  next hnot => simp at hnot
  next => exact gives_name.bind fun id hid => gives_bind fun _ => gives_pure hid

theorem gives_classRest : (g.classRest false).Gives (Text.isIdentifier ·.toList = true) := by
  refine gives_bind fun isTyped => gives_bind fun isMark => ?_
  split <;> refine gives_bind fun _ => gives_bind fun isUnnamed => ?_
  all_goals
    simp only [Bool.false_and, Bool.false_eq_true, if_false]
    refine gives_name.bind fun id hid => ?_
    -- whatever the class consists of, its name is what is yielded
    repeat' first
      | exact gives_pure hid
      | refine gives_bind fun _ => ?_
      | split

theorem Declaration.isSpelled_function {id : String} (h : Text.isIdentifier id.toList = true) :
    (Declaration.function id.toList).IsSpelled := by
  simp [Declaration.IsSpelled, Declaration.boundNames, h]

theorem Declaration.isSpelled_class {id : String} (h : Text.isIdentifier id.toList = true) :
    (Declaration.class id.toList).IsSpelled := by
  simp [Declaration.IsSpelled, Declaration.boundNames, h]

theorem gives_typedDeclarationBody :
    g.typedDeclarationBody.Gives Declaration.IsSpelled := by
  have htype {p : Parser Unit} : (p >>= fun _ => pure Declaration.typeLevel).Gives
      Declaration.IsSpelled :=
    gives_bind fun _ => gives_pure Declaration.isSpelled_typeLevel
  refine gives_bind fun w => ?_
  split
  · exact htype
  · exact htype
  · exact htype
  · exact htype
  · exact htype
  · exact htype
  · exact gives_bind fun _ => htype
  · refine gives_bind fun _ => gives_classRest.bind fun id hid => gives_pure ?_
    exact Declaration.isSpelled_class hid
  · exact gives_failure

theorem gives_plainDeclaration (hg : g.SpellsPatterns) :
    g.plainDeclaration.Gives Declaration.IsSpelled := by
  have hfunction : (g.functionDeclaration false >>= fun id =>
      pure (Declaration.function id.toList)).Gives Declaration.IsSpelled :=
    gives_functionDeclaration.bind fun id hid => gives_pure (Declaration.isSpelled_function hid)
  refine gives_bind fun isTyped => ?_
  split
  · exact gives_typedDeclarationBody
  · refine gives_bind fun t => ?_
    split
    · exact gives_bind fun _ => gives_variableRest hg false
    · exact gives_bind fun _ => gives_variableRest hg false
    · exact gives_bind fun _ => gives_variableRest hg true
    · exact hfunction
    · exact gives_bind fun _ => gives_bind fun _ => hfunction
    · refine gives_bind fun _ => gives_classRest.bind fun id hid => gives_pure ?_
      exact Declaration.isSpelled_class hid
    · exact gives_failure

theorem gives_declaration (hg : g.SpellsPatterns) : g.declaration.Gives Declaration.IsSpelled := by
  refine gives_bind fun isDescribed => ?_
  split
  · exact gives_withReader (gives_plainDeclaration hg) _
  · exact gives_plainDeclaration hg

/-! ### Statements -/

theorem gives_exportRest (hg : g.SpellsPatterns) (decorated : Bool) :
    (g.exportRest decorated).Gives Statement.IsSpelled := by
  refine gives_bind fun isTyped => gives_bind fun after => gives_bind fun t => ?_
  split
  · exact gives_exportAllRest
  · exact gives_exportListRest
  · refine gives_bind fun _ => gives_bind fun _ => gives_pure ?_
    simp [Statement.IsSpelled, Statement.collectedNames]
  · refine gives_bind fun _ => gives_bind fun _ => gives_bind fun _ => gives_bind fun _ => ?_
    exact gives_pure Statement.isSpelled_plain
  · refine gives_bind fun _ => gives_bind fun _ => gives_bind fun isMark => ?_
    have htype := Declaration.isSpelled_typeLevel.statement
    split
    · exact gives_bind fun _ => gives_bind fun _ => gives_bind fun _ => gives_bind fun _ =>
        gives_pure htype
    · exact gives_bind fun _ => gives_bind fun _ => gives_bind fun _ => gives_pure htype
  · refine gives_bind fun _ => gives_bind fun _ => gives_bind fun _ => gives_bind fun _ => ?_
    exact gives_bind fun _ => gives_pure Statement.isSpelled_plain
  · refine gives_bind fun _ => gives_bind fun _ => (gives_declaration hg).bind fun d hd => ?_
    split
    · exact gives_pure hd.statement
    · exact gives_failure
  · refine gives_bind fun isMark => ?_
    split
    · exact gives_bind fun _ => gives_exportListRest
    · refine gives_bind fun isMark => ?_
      split
      · exact gives_bind fun _ => gives_exportAllRest
      · exact (gives_declaration hg).bind fun d hd => gives_pure hd.statement

theorem gives_exportDeclaration (hg : g.SpellsPatterns) (decorated : Bool) :
    (g.exportDeclaration decorated).Gives Statement.IsSpelled :=
  gives_bind fun _ => gives_exportRest hg decorated

theorem gives_wordStatement (hg : g.SpellsPatterns) (place : Place) (w : String) :
    (g.wordStatement place w).Gives Statement.IsSpelled := by
  have hplain {p : Parser Unit} : (p >>= fun _ => pure Statement.plain).Gives
      Statement.IsSpelled :=
    gives_bind fun _ => gives_pure Statement.isSpelled_plain
  simp only [wordStatement]
  split
  -- only an export yields names; every other word starts a statement that exports nothing
  case h_13 => exact gives_exportDeclaration hg false
  case h_14 | h_16 | h_20 =>
    refine gives_bind fun _ => ?_
    split <;> exact hplain
  case h_21 =>
    refine gives_bind fun declares => ?_
    split
    · exact hplain
    · refine gives_bind fun _ => ?_
      split <;> exact hplain
  all_goals exact hplain

theorem gives_decoratedStatement (hg : g.SpellsPatterns) (place : Place) :
    (g.decoratedStatement place).Gives Statement.IsSpelled := by
  refine gives_bind fun _ => gives_bind fun _ => gives_bind fun isExport => ?_
  split
  · exact gives_exportDeclaration hg true
  · refine gives_bind fun d => ?_
    split
    · exact gives_pure Statement.isSpelled_plain
    · exact gives_failure

theorem gives_statementBody (hg : g.SpellsPatterns) (place : Place) :
    (g.statementBody place).Gives Statement.IsSpelled := by
  refine gives_bind fun t => ?_
  split
  · exact gives_bind fun _ => gives_pure Statement.isSpelled_plain
  · exact gives_bind fun _ => gives_pure Statement.isSpelled_plain
  · exact gives_decoratedStatement hg place
  · exact gives_wordStatement hg place _
  · exact gives_bind fun _ => gives_pure Statement.isSpelled_plain

end Grammar

theorem gives_statement_ofDepth (n : Nat) (place : Place) :
    ((Grammar.ofDepth n).statement place).Gives Statement.IsSpelled := by
  cases n with
  | zero => exact gives_failure
  | succ n => exact Grammar.gives_statementBody (spellsPatterns_ofDepth n) place

theorem gives_statements (n : Nat) :
    (statements (Grammar.ofDepth n)).Gives (∀ s ∈ ·, Statement.IsSpelled s) := by
  refine gives_many (gives_bind fun t => ?_)
  split
  · exact gives_pure (by simp)
  · exact (gives_statement_ofDepth n .list).bind fun s hs => gives_pure (by simpa using hs)

end Syntax

/-- Every name that is found in a module text is spelled as a name. -/
theorem isIdentifier_of_namesExported? {m : SourcePath} {source : Text} {o : CollectOptions}
    {names : List Text} (h : namesExported? m source o = some names) :
    ∀ n ∈ names, Text.isIdentifier n = true := by
  obtain ⟨found, hparse, rfl⟩ := Option.map_eq_some_iff.1 h
  obtain ⟨hstatements, -⟩ := Option.filter_eq_some_iff.1 hparse
  obtain ⟨⟨found', after⟩, hrun, rfl⟩ := Option.map_eq_some_iff.1 hstatements
  have hspelled := Syntax.gives_statements _ _ _ _ _ hrun
  intro n hn
  simp only [Syntax.collectNames, List.mem_filter, List.mem_eraseDups, List.mem_flatMap] at hn
  obtain ⟨⟨s, hs, hn⟩, -⟩ := hn
  exact hspelled s hs _ n hn

end ImportSync
