import ImportSync.Proofs.Order
import ImportSync.Proofs.Purge
import ImportSync.Proofs.Spelling
import ImportSync.Proofs.Tokens

/-!
Reading what was rendered. The imports and the export list of a generated module are read token by token,
and each construct leaves the text that follows it. The rendered names stand in lists where any word is
read, but the names that an import binds, and those that a list exports from here, must not be reserved;
that is the only way in which reading can fail.
-/

namespace ImportSync.Syntax

open ImportSync.Text ImportSync.Syntax.Parser

/-! ### Steps of parsers -/

section Steps

variable {α β : Type} {scope : Scope} {cursor : Cursor}

@[simp] theorem run_pure (a : α) : (pure a : Parser α) scope cursor = some (a, cursor) := rfl

@[simp] theorem run_bind (p : Parser α) (f : α → Parser β) :
    (p >>= f) scope cursor = (p scope cursor).bind fun r => f r.1 scope r.2 := rfl

@[simp] theorem run_map (f : α → β) (p : Parser α) :
    (f <$> p) scope cursor = (p scope cursor).map fun r => (f r.1, r.2) := by
  change (p scope cursor).bind (fun r => some (f r.1, r.2)) = _
  cases p scope cursor <;> rfl

@[simp] theorem run_discard (p : Parser α) :
    (discard p) scope cursor = (p scope cursor).map fun r => ((), r.2) :=
  run_map _ p

@[simp] theorem run_token : token scope cursor = some (cursor.token, cursor) := rfl

@[simp] theorem run_afterLineEnd :
    afterLineEnd scope cursor = some (cursor.afterLineEnd, cursor) := rfl

@[simp] theorem run_typed : typed scope cursor = some (scope.dialect.typed, cursor) := rfl

@[simp] theorem run_next :
    next scope cursor = some (Cursor.at (!scope.dialect.isModule) false cursor.rest, cursor) := rfl

@[simp] theorem run_isAt (s : Symbol) :
    isAt s scope cursor = some (cursor.token == .symbol s, cursor) := rfl

@[simp] theorem run_isAtWord (w : String) :
    isAtWord w scope cursor = some (cursor.token == .word w false, cursor) := rfl

@[simp] theorem run_advance :
    advance scope cursor = some ((), Cursor.at (!scope.dialect.isModule) false cursor.rest) := rfl

@[simp] theorem run_ensure (b : Bool) :
    ensure b scope cursor = if b then some ((), cursor) else none := by
  cases b <;> rfl

@[simp] theorem run_eat (s : Symbol) :
    eat s scope cursor =
      if cursor.token = .symbol s then
        some (true, Cursor.at (!scope.dialect.isModule) false cursor.rest)
      else some (false, cursor) := by
  rw [eat]
  by_cases h : cursor.token = .symbol s
  · simp [h]
  · simp [h]

@[simp] theorem run_eatWord (w : String) :
    eatWord w scope cursor =
      if cursor.token = .word w false then
        some (true, Cursor.at (!scope.dialect.isModule) false cursor.rest)
      else some (false, cursor) := by
  rw [eatWord]
  by_cases h : cursor.token = .word w false
  · simp [h]
  · simp [h]

@[simp] theorem run_expect (s : Symbol) :
    expect s scope cursor =
      if cursor.token = .symbol s then
        some ((), Cursor.at (!scope.dialect.isModule) false cursor.rest)
      else none := by
  rw [expect]
  by_cases h : cursor.token = .symbol s
  · simp [h]
  · simp [h]

@[simp] theorem run_expectWord (w : String) :
    expectWord w scope cursor =
      if cursor.token = .word w false then
        some ((), Cursor.at (!scope.dialect.isModule) false cursor.rest)
      else none := by
  rw [expectWord]
  by_cases h : cursor.token = .word w false
  · simp [h]
  · simp [h]

theorem run_endStatement (h : cursor.token = .symbol .semicolon) :
    endStatement scope cursor =
      some ((), Cursor.at (!scope.dialect.isModule) false cursor.rest) := by
  simp [endStatement, h]

end Steps

/-- The rules at the top of a module without types. -/
structure Scope.IsPlainModule (scope : Scope) : Prop where
  typed : scope.dialect.typed = false
  isModule : scope.dialect.isModule = true
  awaits : scope.awaits = true
  yields : scope.yields = false

/-! ### Names in braces -/

/-- A text that starts with a token other than the word `as`, where a name may end. -/
structure ClosesName (rest : Text) : Prop where
  ends : EndsName rest
  starts : ∃ token after, Starts rest token after ∧ token ≠ .word "as" false

variable {scope : Scope}

theorem run_specifier (hscope : scope.IsPlainModule) {n rest : Text} (hn : isIdentifier n = true)
    (hrest : ClosesName rest) (lineEnded : Bool) :
    Grammar.specifier scope (Cursor.at false lineEnded (n ++ rest)) =
      some ((.identifier n, .identifier n), Cursor.at false false rest) := by
  have hword := starts_word hn hrest.ends
  obtain ⟨token, after, hstarts, hne⟩ := hrest.starts
  simp [Grammar.specifier, Grammar.exportName, Grammar.renamed, anyWord, hscope.typed,
    hscope.isModule, hword.token_eq, hword.rest_eq, hstarts.token_eq, hne]

theorem closesName_rbrace (rest : Text) : ClosesName ('}' :: rest) where
  ends := endsName_cons (by decide) rest
  starts := ⟨_, _, starts_rbrace rest, by simp⟩

theorem closesName_comma (rest : Text) : ClosesName (',' :: rest) where
  ends := endsName_cons (by decide) rest
  starts := ⟨_, _, starts_comma rest, by simp⟩

/-- One item of a list and what follows it, unless the list ends here. -/
def itemStep {α : Type} (close : Symbol) (item : Parser α) : Parser (Option α) := do
  if ← isAt close then
    return none
  let a ← item
  unless ← isAt close do
    expect .comma
  return some a

theorem itemsUntil_eq {α : Type} (close : Symbol) (item : Parser α) :
    itemsUntil close item = do
      let items ← many (itemStep close item)
      expect close
      return items :=
  rfl

/-- A name on both sides of a specifier. -/
def sameName (n : Text) : ExportName × ExportName :=
  (.identifier n, .identifier n)

theorem run_itemStep_close (rest : Text) :
    itemStep .rbrace Grammar.specifier scope (Cursor.at false false ('}' :: rest)) =
      some (none, Cursor.at false false ('}' :: rest)) := by
  simp [itemStep, (starts_rbrace rest).token_eq]

theorem run_itemStep_last (hscope : scope.IsPlainModule) {n : Text} (hn : isIdentifier n = true)
    (rest : Text) :
    itemStep .rbrace Grammar.specifier scope (Cursor.at false false (n ++ '}' :: rest)) =
      some (some (sameName n), Cursor.at false false ('}' :: rest)) := by
  have hitem := run_specifier hscope hn (closesName_rbrace rest) false
  have hword := starts_word hn (closesName_rbrace rest).ends
  simp [itemStep, hitem, hword.token_eq, (starts_rbrace rest).token_eq, sameName]

theorem run_itemStep_comma (hscope : scope.IsPlainModule) {n : Text} (hn : isIdentifier n = true)
    {more after : Text} {token : Token} (hmore : Starts more token after) :
    itemStep .rbrace Grammar.specifier scope (Cursor.at false false (n ++ ',' :: ' ' :: more)) =
      some (some (sameName n), Cursor.at false false more) := by
  have hitem := run_specifier hscope hn (closesName_comma (' ' :: more)) false
  have hword := starts_word hn (closesName_comma (' ' :: more)).ends
  have hcomma := starts_comma (' ' :: more)
  simp [itemStep, hitem, hword.token_eq, hcomma.token_eq, hcomma.rest_eq, hscope.isModule,
    hmore.at_space, sameName]

theorem nameList_cons_cons (n m : Text) (names : List Text) :
    nameList (n :: m :: names) = n ++ ',' :: ' ' :: nameList (m :: names) := by
  have hcomma : ", ".toList = [',', ' '] := by decide
  rw [nameList, hcomma, joinWith_cons (by simp)]
  rfl

theorem starts_nameList {n : Text} (hn : isIdentifier n = true) (names : List Text) (rest : Text) :
    ∃ token after, Starts (nameList (n :: names) ++ '}' :: rest) token after := by
  cases names with
  | nil =>
      rw [nameList, joinWith_singleton]
      exact ⟨_, _, starts_word hn (closesName_rbrace rest).ends⟩
  | cons m names =>
      rw [nameList_cons_cons, List.append_assoc]
      exact ⟨_, _, starts_word hn (closesName_comma _).ends⟩

/-- The names of a list are read one after the other. -/
theorem run_rounds_nameList (hscope : scope.IsPlainModule) {names : List Text}
    (hnames : ∀ n ∈ names, isIdentifier n = true) (rest : Text) {fuel : Nat}
    (hfuel : names.length < fuel) :
    rounds (itemStep .rbrace Grammar.specifier) fuel scope
        (Cursor.at false false (nameList names ++ '}' :: rest)) =
      some (names.map sameName, Cursor.at false false ('}' :: rest)) := by
  induction names generalizing fuel with
  | nil =>
      obtain ⟨fuel, rfl⟩ : ∃ k, fuel = k + 1 := ⟨fuel - 1, by simp at hfuel; omega⟩
      simp [rounds, nameList, run_itemStep_close]
  | cons n names ih =>
      obtain ⟨fuel, rfl⟩ : ∃ k, fuel = k + 1 := ⟨fuel - 1, by omega⟩
      have hn := hnames n (by simp)
      have hlater := @ih (fun m hm => hnames m (by simp [hm])) fuel (by simpa using hfuel)
      cases names with
      | nil =>
          rw [nameList, joinWith_singleton]
          rw [nameList, joinWith_nil, List.nil_append] at hlater
          simp [rounds, run_itemStep_last hscope hn, hlater]
      | cons m names =>
          obtain ⟨token, after, hmore⟩ := starts_nameList (hnames m (by simp)) names rest
          rw [nameList_cons_cons, List.append_assoc]
          simp only [List.cons_append]
          simp [rounds, run_itemStep_comma hscope hn hmore, hlater]

theorem length_le_length_nameList {names : List Text} (hnames : ∀ n ∈ names, isIdentifier n = true) :
    names.length ≤ (nameList names).length := by
  induction names with
  | nil => simp
  | cons n names ih =>
      have hlater := ih fun m hm => hnames m (by simp [hm])
      have hn : n.length ≠ 0 := by
        intro hlength
        have hone := hnames n (by simp)
        rw [List.length_eq_zero_iff.1 hlength] at hone
        simp [isIdentifier] at hone
      cases names with
      | nil =>
          rw [nameList, joinWith_singleton]
          simp only [List.length_cons, List.length_nil]
          omega
      | cons m names =>
          rw [nameList_cons_cons]
          simp only [List.length_append, List.length_cons] at hlater ⊢
          omega

theorem start_of_not_gap {c : Char} (hgap : c.toNat ∉ gapCodes) (hslash : c ≠ '/')
    (lineEnded : Bool) (t : Text) : (Cursor.at false lineEnded (c :: t)).start = c :: t := by
  rw [at_of_skipGap (skipGap_of_not_gap hgap hslash lineEnded t)]

theorem start_nameList {names : List Text} (hnames : ∀ n ∈ names, isIdentifier n = true)
    (rest : Text) :
    (Cursor.at false false (nameList names ++ '}' :: rest)).start = nameList names ++ '}' :: rest := by
  cases names with
  | nil => exact start_of_not_gap (by decide) (by decide) false rest
  | cons n names =>
      have hn := hnames n (by simp)
      cases n with
      | nil => simp [isIdentifier] at hn
      | cons c n =>
          simp only [isIdentifier, Bool.and_eq_true] at hn
          obtain ⟨hgap, hslash⟩ := not_gap_of_isNameStart hn.1
          have hlist : ∃ tail, nameList ((c :: n) :: names) = c :: tail := by
            cases names with
            | nil => exact ⟨n, by rw [nameList, joinWith_singleton]⟩
            | cons m names => exact ⟨_, nameList_cons_cons (c :: n) m names⟩
          obtain ⟨tail, htail⟩ := hlist
          rw [htail]
          exact start_of_not_gap hgap hslash false _

/-- The names in braces are read up to the closing brace. -/
theorem run_nameList (hscope : scope.IsPlainModule) {names : List Text}
    (hnames : ∀ n ∈ names, isIdentifier n = true) (rest : Text) :
    itemsUntil .rbrace Grammar.specifier scope
        (Cursor.at false false (nameList names ++ '}' :: rest)) =
      some (names.map sameName, Cursor.at false false rest) := by
  have hlength := length_le_length_nameList hnames
  have hfuel : names.length < (nameList names ++ '}' :: rest).length + 1 := by
    simp only [List.length_append, List.length_cons]
    omega
  have hmany : many (itemStep .rbrace Grammar.specifier) scope
      (Cursor.at false false (nameList names ++ '}' :: rest)) =
        some (names.map sameName, Cursor.at false false ('}' :: rest)) := by
    change rounds _ ((Cursor.at false false (nameList names ++ '}' :: rest)).start.length + 1) scope _
      = _
    rw [start_nameList hnames]
    exact run_rounds_nameList hscope hnames rest hfuel
  have hclose := starts_rbrace rest
  rw [itemsUntil_eq]
  simp [hmany, hclose.token_eq, hclose.rest_eq, hscope.isModule]

/-! ### Imports -/

/-- Whether a word may be bound at the top of a module. -/
def isBindable (w : String) : Bool :=
  if w == "await" then false else if w == "yield" then true else !reservedWords.contains w

theorem run_canBeName (hscope : scope.IsPlainModule) (w : String) (cursor : Cursor) :
    canBeName w scope cursor = some (isBindable w, cursor) := by
  have hread : (read : Parser Scope) scope cursor = some (scope, cursor) := rfl
  by_cases hawait : w = "await"
  · simp [canBeName, isBindable, hread, hawait, hscope.awaits]
  · by_cases hyield : w = "yield"
    · simp [canBeName, isBindable, hread, hyield, hscope.yields]
    · simp [canBeName, isBindable, hread, hawait, hyield]

/-- Whether what a specifier binds may be bound. -/
def bindsName (pair : ExportName × ExportName) : Parser Bool :=
  match pair.2 with
  | .identifier id => canBeName (String.ofList id)
  | .quoted _ => pure false

theorem run_mapM_bindsName (hscope : scope.IsPlainModule) (names : List Text) (cursor : Cursor) :
    (names.map sameName).mapM bindsName scope cursor =
      some (names.map fun n => isBindable (String.ofList n), cursor) := by
  induction names with
  | nil => rfl
  | cons n names ih =>
      have hone : bindsName (sameName n) scope cursor = some (isBindable (String.ofList n), cursor) :=
        run_canBeName hscope _ cursor
      rw [List.map_cons, List.mapM_cons]
      simp only [run_bind, hone, ih, Option.bind_some, run_pure, List.map_cons]

theorem run_importAttributes {cursor : Cursor} (h : cursor.token = .symbol .semicolon) :
    Grammar.importAttributes scope cursor = some ((), cursor) := by
  simp [Grammar.importAttributes, h]

/-- A quoted source and the end of the statement. -/
theorem run_quoted (hscope : scope.IsPlainModule) {t : Text} (ht : IsQuotable t) (rest : Text) :
    quoted scope (Cursor.at false false (' ' :: '\'' :: (t ++ '\'' :: rest))) =
      some (t.map .char, Cursor.at false false rest) := by
  have hstring := (starts_string ht rest).space
  simp [quoted, hstring.token_eq, hstring.rest_eq, hscope.isModule]

/-- The text of a source, from the word before it to the end of the statement. -/
def fromSource (t rest : Text) : Text :=
  ' ' :: (['f', 'r', 'o', 'm'] ++ ' ' :: '\'' :: (t ++ '\'' :: ';' :: rest))

theorem run_source (hscope : scope.IsPlainModule) {t : Text} (ht : IsQuotable t) (rest : Text) :
    Grammar.source scope (Cursor.at false false (fromSource t rest)) =
      some ((), Cursor.at false false (';' :: rest)) := by
  have hfrom : Starts (fromSource t rest) (.word "from" false)
      (' ' :: '\'' :: (t ++ '\'' :: ';' :: rest)) :=
    (starts_keyword (by decide) (by decide) _).space
  have hattributes : Grammar.importAttributes scope (Cursor.at false false (';' :: rest)) =
      some ((), Cursor.at false false (';' :: rest)) :=
    run_importAttributes ((starts_semicolon rest).token_eq false)
  simp only [Grammar.source, run_bind, run_expectWord, hfrom.token_eq, if_true, Option.bind_some,
    hfrom.rest_eq, hscope.isModule, Bool.not_true, run_discard, run_quoted hscope ht, Option.map_some,
    hattributes]

theorem render_named_append (t : Text) (names : List Text) (rest : Text) :
    (ImportLine.named t names).render ++ rest =
      ['i', 'm', 'p', 'o', 'r', 't'] ++ (' ' :: '{' :: (nameList names ++ '}' :: fromSource t rest)) := by
  simp only [ImportLine.render_named, ImportLine.lead, fromSource, List.append_assoc,
    List.cons_append, List.nil_append]

/-- What follows the first word of an import of names is read up to its end if the names may be bound,
and fails otherwise. -/
theorem run_importRest (hscope : scope.IsPlainModule) {names : List Text}
    (hnames : ∀ n ∈ names, isIdentifier n = true) {t : Text} (ht : IsQuotable t) (rest : Text) :
    Grammar.importRest scope
        (Cursor.at false false (' ' :: '{' :: (nameList names ++ '}' :: fromSource t rest))) =
      if names.all fun n => isBindable (String.ofList n) then some ((), Cursor.at false false rest)
      else none := by
  have hbrace := (starts_lbrace (nameList names ++ '}' :: fromSource t rest)).space
  have hsemicolon := starts_semicolon rest
  have hend : endStatement scope (Cursor.at false false (';' :: rest)) =
      some ((), Cursor.at false false rest) := by
    rw [run_endStatement (hsemicolon.token_eq false), hsemicolon.rest_eq, hscope.isModule]
    rfl
  have hbool (b : Bool) : toBool b = b := rfl
  simp only [Grammar.importRest, isAtName, andM, orM, hbool, run_bind, run_token, run_pure, run_advance,
    hbrace.token_eq, hbrace.rest_eq, hscope.isModule, run_nameList hscope hnames, Option.bind_some,
    Bool.false_eq_true, if_false, if_true, Bool.not_false, Bool.not_true]
  refine (congrArg (Option.bind · _) (run_mapM_bindsName hscope names _)).trans ?_
  have hall : (names.map fun n => isBindable (String.ofList n)).all id =
      names.all fun n => isBindable (String.ofList n) := by
    rw [List.all_map]
    rfl
  simp only [Option.bind_some, hall, run_ensure]
  split
  · simp only [Option.bind_some, run_source hscope ht, hend]
  · rfl

/-- An import of names is read up to its end if the names may be bound, and fails otherwise. -/
theorem run_importDeclaration_named (hscope : scope.IsPlainModule) {names : List Text}
    (hnames : ∀ n ∈ names, isIdentifier n = true) {t : Text} (ht : IsQuotable t) (rest : Text)
    {cursor : Cursor} (htoken : cursor.token = .word "import" false)
    (hrest : cursor.rest = ' ' :: '{' :: (nameList names ++ '}' :: fromSource t rest)) :
    Grammar.importDeclaration scope cursor =
      if names.all fun n => isBindable (String.ofList n) then some ((), Cursor.at false false rest)
      else none := by
  have hbrace := (starts_lbrace (nameList names ++ '}' :: fromSource t rest)).space
  rw [← run_importRest hscope hnames ht]
  simp [Grammar.importDeclaration, Grammar.isAtImportMark, htoken, hrest, hscope.isModule,
    hscope.typed, hbrace.token_eq]

/-- An import without names is read up to its end. -/
theorem run_importDeclaration_bare (hscope : scope.IsPlainModule) {t : Text} (ht : IsQuotable t)
    (rest : Text) {cursor : Cursor} (htoken : cursor.token = .word "import" false)
    (hrest : cursor.rest = ' ' :: '\'' :: (t ++ '\'' :: ';' :: rest)) :
    Grammar.importDeclaration scope cursor = some ((), Cursor.at false false rest) := by
  have hstring := (starts_string ht (';' :: rest)).space
  have hsemicolon := starts_semicolon rest
  have hattributes : Grammar.importAttributes scope (Cursor.at false false (';' :: rest)) =
      some ((), Cursor.at false false (';' :: rest)) :=
    run_importAttributes (hsemicolon.token_eq false)
  simp [Grammar.importDeclaration, htoken, hrest, hscope.isModule, hstring.token_eq, hstring.rest_eq,
    hattributes, run_endStatement, hsemicolon.token_eq, hsemicolon.rest_eq]

/-! ### Lines of a generated module -/

/-- The line imports from a source that can be quoted names that are spelled as names. -/
def IsReadable : ImportLine → Prop
  | .named t names => IsQuotable t ∧ ∀ n ∈ names, isIdentifier n = true
  | .sideEffect t => IsQuotable t
  | .raw _ => False

/-- Whether the names that a line brings in may be bound. -/
def bindsAll : ImportLine → Bool
  | .named _ names => names.all fun n => isBindable (String.ofList n)
  | _ => true

/-- The text of an import without names. -/
def bareImport (t rest : Text) : Text :=
  ['i', 'm', 'p', 'o', 'r', 't'] ++ ' ' :: '\'' :: (t ++ '\'' :: ';' :: rest)

theorem render_sideEffect_append (t rest : Text) :
    (ImportLine.sideEffect t).render ++ rest = bareImport t rest := by
  have hopen : "import '".toList = ['i', 'm', 'p', 'o', 'r', 't', ' ', '\''] := by decide
  have hclose : "';".toList = ['\'', ';'] := by decide
  change "import '".toList ++ t ++ "';".toList ++ rest = _
  simp only [hopen, hclose, bareImport, List.append_assoc, List.cons_append, List.nil_append]

theorem starts_render {line : ImportLine} (h : IsReadable line) (rest : Text) :
    ∃ after, Starts (line.render ++ rest) (.word "import" false) after := by
  cases line with
  | named t names =>
      rw [render_named_append]
      exact ⟨_, starts_keyword (by decide) (by decide) _⟩
  | sideEffect t =>
      rw [render_sideEffect_append]
      exact ⟨_, starts_keyword (by decide) (by decide) _⟩
  | raw line => exact h.elim

/-- The statement at the word `import` is a declaration unless a call or a property follows. -/
theorem run_statementBody_import (g : Grammar) (hscope : scope.IsPlainModule) {cursor : Cursor}
    (hword : cursor.token = .word "import" false) {token : Token} {after : Text}
    (hafter : Starts cursor.rest token after) (hcall : token ≠ .symbol .lparen)
    (hproperty : token ≠ .symbol .dot) :
    g.statementBody .list scope cursor =
      (Grammar.importDeclaration scope cursor).map fun r => (.plain, r.2) := by
  have hrule : g.wordStatement .list "import" = do
      let after ← next
      if after.token == .symbol .lparen || after.token == .symbol .dot then
        g.expressionStatement
        return .plain
      else
        Grammar.importDeclaration
        return .plain := by
    rfl
  simp [Grammar.statementBody, hword, hrule, hscope.isModule, hafter.token_eq, hcall, hproperty]

/-- An import is read up to its end if what it brings in may be bound, and fails otherwise. -/
theorem run_statement_import (hscope : scope.IsPlainModule) {line : ImportLine}
    (h : IsReadable line) (rest : Text) (lineEnded : Bool) (depth : Nat) :
    (Grammar.ofDepth (depth + 1)).statement .list scope
        (Cursor.at false lineEnded (line.render ++ rest)) =
      if bindsAll line then some (.plain, Cursor.at false false rest) else none := by
  change (Grammar.ofDepth depth).statementBody .list scope _ = _
  cases line with
  | named t names =>
      rw [render_named_append]
      have hword : Starts (['i', 'm', 'p', 'o', 'r', 't'] ++
          (' ' :: '{' :: (nameList names ++ '}' :: fromSource t rest))) (.word "import" false) _ :=
        starts_keyword (by decide) (by decide) _
      have hbrace := (starts_lbrace (nameList names ++ '}' :: fromSource t rest)).space
      rw [← hword.rest_eq lineEnded] at hbrace
      rw [run_statementBody_import _ hscope (hword.token_eq _) hbrace (by simp) (by simp),
        run_importDeclaration_named hscope h.2 h.1 rest (hword.token_eq _) (hword.rest_eq _)]
      exact apply_ite (Option.map _) _ _ _
  | sideEffect t =>
      rw [render_sideEffect_append]
      have hword : Starts (bareImport t rest) (.word "import" false) _ :=
        starts_keyword (by decide) (by decide) _
      have hstring := (starts_string h (';' :: rest)).space
      rw [← hword.rest_eq lineEnded] at hstring
      rw [run_statementBody_import _ hscope (hword.token_eq _) hstring (by simp) (by simp),
        run_importDeclaration_bare hscope h rest (hword.token_eq _) (hword.rest_eq _)]
      rfl
  | raw line => exact h.elim

/-- The text of an export list. -/
def exportText (names : List Text) (rest : Text) : Text :=
  ['e', 'x', 'p', 'o', 'r', 't'] ++ (' ' :: '{' :: (nameList names ++ '}' :: ';' :: rest))

theorem starts_exportText (names : List Text) (rest : Text) :
    Starts (exportText names rest) (.word "export" false)
      (' ' :: '{' :: (nameList names ++ '}' :: ';' :: rest)) :=
  starts_keyword (by decide) (by decide) _

/-- An export list is read up to its end if no name of it is reserved, and fails otherwise. -/
theorem run_statement_export (hscope : scope.IsPlainModule) {names : List Text}
    (hnames : ∀ n ∈ names, isIdentifier n = true) (rest : Text) (lineEnded : Bool) (depth : Nat) :
    (Grammar.ofDepth (depth + 1)).statement .list scope
        (Cursor.at false lineEnded (exportText names rest)) =
      if names.all fun n => Grammar.isLocalName (.identifier n) then
        some (.exportList (names.map .identifier), Cursor.at false false rest)
      else none := by
  have hexport := starts_exportText names rest
  have hbrace := (starts_lbrace (nameList names ++ '}' :: ';' :: rest)).space
  have hsemicolon := starts_semicolon rest
  have hrule (g : Grammar) : g.wordStatement .list "export" = g.exportDeclaration false := rfl
  have hleft : ((names.map sameName).all fun x => Grammar.isLocalName x.1) =
      names.all fun n => Grammar.isLocalName (.identifier n) := by
    rw [List.all_map]
    rfl
  have hright : (names.map sameName).map (fun x => x.2) = names.map .identifier := by
    rw [List.map_map]
    rfl
  have hfrom : (Token.symbol .semicolon == .word "from" false) = false := by decide
  change (Grammar.ofDepth depth).statementBody .list scope _ = _
  simp only [Grammar.statementBody, run_bind, run_token, hexport.token_eq, Option.bind_some, hrule,
    Grammar.exportDeclaration, run_expectWord, if_true, hexport.rest_eq, hscope.isModule,
    Bool.not_true, Grammar.exportRest, run_typed, run_next, hbrace.token_eq]
  simp only [Grammar.exportListRest, run_bind, run_expect, hbrace.token_eq, if_true, hbrace.rest_eq,
    hscope.isModule, Bool.not_true, Option.bind_some, run_nameList hscope hnames, run_isAtWord,
    hsemicolon.token_eq, hfrom, Bool.false_eq_true, if_false, run_ensure, hleft, hright]
  split
  · simp [run_endStatement, hsemicolon.token_eq, hsemicolon.rest_eq, hscope.isModule]
  · rfl

/-! ### Generated modules -/

/-- The text of a generated module with the given imports and exported names. -/
def moduleText (imports : List ImportLine) (names : List Text) : Text :=
  imports.flatMap (fun i => i.render ++ ['\n']) ++ '\n' :: exportText names ['\n']

theorem render_eq_moduleText (d : Document) :
    d.render = moduleText d.imports d.exports.names := by
  have hopen : "export \x7b".toList = ['e', 'x', 'p', 'o', 'r', 't', ' ', '{'] := by decide
  have hclose : "\x7d;\n".toList = ['}', ';', '\n'] := by decide
  rw [Document.render, hopen, hclose, moduleText, exportText]
  simp only [List.cons_append, List.nil_append]

theorem moduleText_cons (i : ImportLine) (imports : List ImportLine) (names : List Text) :
    moduleText (i :: imports) names = i.render ++ '\n' :: moduleText imports names := by
  simp [moduleText]

theorem starts_moduleText {imports : List ImportLine} (h : ∀ i ∈ imports, IsReadable i)
    (names : List Text) :
    ∃ token after, Starts (moduleText imports names) token after ∧ token ≠ .eof := by
  cases imports with
  | nil => exact ⟨_, _, (starts_exportText names ['\n']).newline, by simp⟩
  | cons i imports =>
      rw [moduleText_cons]
      obtain ⟨after, hstarts⟩ := starts_render (h i (by simp)) ('\n' :: moduleText imports names)
      exact ⟨_, after, hstarts, by simp⟩

/-- One statement, unless the text ends here. -/
def statementStep (g : Grammar) : Parser (Option Statement) := do
  if (← token) == .eof then
    return none
  return some (← g.statement .list)

theorem statements_eq (g : Grammar) : statements g = many (statementStep g) := rfl

theorem run_rounds_statement (g : Grammar) (fuel : Nat) {cursor : Cursor}
    (h : cursor.token ≠ .eof) :
    rounds (statementStep g) (fuel + 1) scope cursor =
      (g.statement .list scope cursor).bind fun first =>
        (rounds (statementStep g) fuel scope first.2).map fun more =>
          (first.1 :: more.1, more.2) := by
  have hstep : statementStep g scope cursor =
      (g.statement .list scope cursor).map fun r => (some r.1, r.2) := by
    simp [statementStep, h]
  cases hfirst : g.statement .list scope cursor with
  | none => simp [rounds, hstep, hfirst]
  | some first => simp [rounds, hstep, hfirst]

theorem run_rounds_end (g : Grammar) (fuel : Nat) :
    rounds (statementStep g) (fuel + 1) scope (Cursor.at false false ['\n']) =
      some ([], Cursor.at false false ['\n']) := by
  have htoken : (Cursor.at false false ['\n']).token = .eof := by decide
  simp [rounds, statementStep, htoken]

/-- The statements that the text of a generated module is read as. -/
def moduleStatements (imports : List ImportLine) (names : List Text) : List Statement :=
  imports.map (fun _ => .plain) ++ [.exportList (names.map .identifier)]

/-- Whether all names of a generated module stand where they may. -/
def isWellNamed (imports : List ImportLine) (names : List Text) : Bool :=
  imports.all bindsAll && names.all fun n => Grammar.isLocalName (.identifier n)

theorem isWellNamed_cons (i : ImportLine) (imports : List ImportLine) (names : List Text) :
    isWellNamed (i :: imports) names = (bindsAll i && isWellNamed imports names) := by
  simp [isWellNamed, Bool.and_assoc]

/-- The imports are read one after the other, and then the export list. -/
theorem run_rounds_moduleText (hscope : scope.IsPlainModule) {imports : List ImportLine}
    (himports : ∀ i ∈ imports, IsReadable i) {names : List Text}
    (hnames : ∀ n ∈ names, isIdentifier n = true) (depth : Nat) {fuel : Nat}
    (hfuel : imports.length + 1 < fuel) :
    rounds (statementStep (Grammar.ofDepth (depth + 1))) fuel scope
        (Cursor.at false true (moduleText imports names)) =
      if isWellNamed imports names then
        some (moduleStatements imports names, Cursor.at false false ['\n'])
      else none := by
  induction imports generalizing fuel with
  | nil =>
      obtain ⟨fuel, rfl⟩ : ∃ k, fuel = k + 2 := ⟨fuel - 2, by simp at hfuel; omega⟩
      have hexport := starts_exportText names ['\n']
      have htext : moduleText [] names = '\n' :: exportText names ['\n'] := rfl
      rw [htext, hexport.at_newline, run_rounds_statement _ _ (by simp [hexport.token_eq]),
        run_statement_export hscope hnames]
      by_cases hlocal : (names.all fun n => Grammar.isLocalName (.identifier n)) = true
      · simp [hlocal, isWellNamed, run_rounds_end, moduleStatements]
      · simp [hlocal, isWellNamed]
  | cons i imports ih =>
      obtain ⟨fuel, rfl⟩ : ∃ k, fuel = k + 1 := ⟨fuel - 1, by omega⟩
      have hmore : ∀ j ∈ imports, IsReadable j := fun j hj => himports j (by simp [hj])
      have hlater := @ih hmore fuel (by simpa using hfuel)
      have hi := himports i (by simp)
      obtain ⟨after, hword⟩ := starts_render hi ('\n' :: moduleText imports names)
      obtain ⟨token, later, hstarts, -⟩ := starts_moduleText hmore names
      rw [moduleText_cons, run_rounds_statement _ _ (by simp [hword.token_eq]),
        run_statement_import hscope hi]
      by_cases hbinds : bindsAll i = true
      · by_cases hwell : isWellNamed imports names = true
        · simp [hbinds, hstarts.at_newline, hlater, hwell, isWellNamed_cons, moduleStatements]
        · simp [hbinds, hstarts.at_newline, hlater, hwell, isWellNamed_cons]
      · simp [hbinds, isWellNamed_cons]

theorem render_append_eq_cons {line : ImportLine} (h : IsReadable line) (rest : Text) :
    ∃ tail, line.render ++ rest = 'i' :: tail := by
  cases line with
  | named t names => exact ⟨_, render_named_append t names rest⟩
  | sideEffect t => exact ⟨_, render_sideEffect_append t rest⟩
  | raw line => exact h.elim

theorem dropInterpreterLine_moduleText {imports : List ImportLine}
    (h : ∀ i ∈ imports, IsReadable i) (names : List Text) :
    dropInterpreterLine (moduleText imports names) = moduleText imports names := by
  have hmark : "#!".toList = ['#', '!'] := by decide
  cases imports with
  | nil => simp [dropInterpreterLine, hmark, moduleText]
  | cons i imports =>
      obtain ⟨tail, htail⟩ :=
        render_append_eq_cons (h i (by simp)) ('\n' :: moduleText imports names)
      simp [dropInterpreterLine, hmark, moduleText_cons, htail]

theorem length_le_length_moduleText (imports : List ImportLine) (names : List Text) :
    imports.length + 1 ≤ (moduleText imports names).length := by
  induction imports with
  | nil => simp [moduleText]
  | cons i imports ih =>
      simp only [moduleText_cons, List.length_append, List.length_cons]
      omega

/-- A module has at least as many characters from its first token on as it has statements. -/
theorem length_le_length_start {imports : List ImportLine} (h : ∀ i ∈ imports, IsReadable i)
    (names : List Text) :
    imports.length + 1 ≤ (Cursor.at false true (moduleText imports names)).start.length := by
  cases imports with
  | nil =>
      have htext : moduleText [] names = '\n' :: exportText names ['\n'] := rfl
      have hexport : exportText names ['\n'] = 'e' :: _ := rfl
      rw [htext, (starts_exportText names ['\n']).at_newline, hexport,
        start_of_not_gap (by decide) (by decide)]
      simp
  | cons i imports =>
      have hlength := length_le_length_moduleText (i :: imports) names
      obtain ⟨tail, htail⟩ :=
        render_append_eq_cons (h i (by simp)) ('\n' :: moduleText imports names)
      rw [moduleText_cons, htail] at hlength ⊢
      rw [start_of_not_gap (by decide) (by decide)]
      exact hlength

/-- The text of a generated module is read as its statements if its names may stand where they do, and
is ill-formed otherwise. -/
theorem parseStatements?_moduleText {d : Dialect} (hmodule : d.isModule = true)
    (htyped : d.typed = false) {imports : List ImportLine} (himports : ∀ i ∈ imports, IsReadable i)
    {names : List Text} (hnames : ∀ n ∈ names, isIdentifier n = true) :
    parseStatements? d (moduleText imports names) =
      if isWellNamed imports names then some (moduleStatements imports names) else none := by
  have hscope : Scope.IsPlainModule { dialect := d, awaits := d.isModule } :=
    ⟨htyped, hmodule, hmodule, rfl⟩
  obtain ⟨depth, hdepth⟩ : ∃ k, 8 * ((moduleText imports names).length + 2) = k + 1 :=
    ⟨8 * ((moduleText imports names).length + 2) - 1, by omega⟩
  have hrun := run_rounds_moduleText hscope himports hnames depth
    (Nat.lt_succ_of_le (length_le_length_start himports names))
  simp only [parseStatements?, dropInterpreterLine_moduleText himports, hmodule, Bool.not_true, hdepth,
    statements_eq]
  change Option.map _ (rounds _ _ _ _) = _
  rw [hmodule] at hrun
  rw [hrun]
  exact apply_ite (Option.map _) _ _ _

theorem exportedNames_moduleStatements (imports : List ImportLine) (names : List Text) :
    (moduleStatements imports names).flatMap Statement.exportedNames = names := by
  have hnames : (names.map ExportName.identifier).map ExportName.text = names := by
    rw [List.map_map]
    exact List.map_id names
  induction imports with
  | nil => simpa [moduleStatements, Statement.exportedNames] using hnames
  | cons i imports ih => exact ih

theorem collectedNames_moduleStatements (includeDeclarations : Bool) (imports : List ImportLine)
    (names : List Text) :
    (moduleStatements imports names).flatMap (Statement.collectedNames includeDeclarations) =
      names := by
  have hnames : (names.map ExportName.identifier).filterMap ExportName.identifier? = names := by
    rw [List.filterMap_map]
    exact List.filterMap_some
  induction imports with
  | nil => simpa [moduleStatements, Statement.collectedNames] using hnames
  | cons i imports ih => exact ih

/-- A word that no module may bind. -/
def IsReserved (n : Text) : Prop :=
  String.ofList n ∈ reservedWords ++ strictReservedWords

instance : DecidablePred IsReserved :=
  fun n => inferInstanceAs (Decidable (String.ofList n ∈ _))

theorem isLocalName_iff {n : Text} :
    Grammar.isLocalName (.identifier n) = true ↔ ¬ IsReserved n := by
  simp [Grammar.isLocalName, IsReserved]

theorem isBindable_of_not_isReserved {n : Text} (h : ¬ IsReserved n) :
    isBindable (String.ofList n) = true := by
  rw [IsReserved, List.mem_append, not_or] at h
  have hawait : String.ofList n ≠ "await" := by
    intro heq
    simp [heq, reservedWords] at h
  have hyield : String.ofList n ≠ "yield" := by
    intro heq
    simp [heq, reservedWords] at h
  simp [isBindable, hawait, hyield, h.1]

/-- Whether an import brings in no name beyond the given ones. -/
def bringsOnly (names : List Text) : ImportLine → Prop
  | .named _ brought => brought ⊆ names
  | _ => True

/-- Where the imports bring in what is exported, the export list alone decides. -/
theorem isWellNamed_iff {imports : List ImportLine} {names : List Text}
    (h : ∀ i ∈ imports, bringsOnly names i) :
    isWellNamed imports names = true ↔ ¬ ∃ n ∈ names, IsReserved n := by
  rw [isWellNamed, Bool.and_eq_true, List.all_eq_true, List.all_eq_true]
  simp only [isLocalName_iff, not_exists, not_and]
  refine and_iff_right_of_imp fun hfree i hi => ?_
  cases i with
  | named t brought =>
      refine List.all_eq_true.2 fun n hn => ?_
      exact isBindable_of_not_isReserved (hfree n (h _ hi hn))
  | sideEffect t => rfl
  | raw line => rfl

end ImportSync.Syntax

namespace ImportSync

open ImportSync.Syntax

/-- The imports can be read and bring in names that are exported, and these are spelled as names. -/
structure Document.IsReadable (d : Document) : Prop where
  readable : ∀ i ∈ d.imports, Syntax.IsReadable i
  bringsOnly : ∀ i ∈ d.imports, Syntax.bringsOnly d.exports.names i
  identifiers : ∀ n ∈ d.exports.names, Text.isIdentifier n = true

/-- The names that a generated module exports are read from its text, unless one of them is reserved:
then the text is ill-formed. -/
theorem namesExported?_render {m : SourcePath} {o : CollectOptions}
    (hmodule : (o.dialect.dialectOf m).isModule = true)
    (htyped : (o.dialect.dialectOf m).typed = false) {d : Document} (hd : d.IsReadable) :
    namesExported? m d.render o =
      if ∃ n ∈ d.exports.names, IsReserved n then none else some d.exports.names := by
  have hread := parseStatements?_moduleText hmodule htyped hd.readable hd.identifiers
  have honce : exportsOnce (moduleStatements d.imports d.exports.names) = true := by
    simp [exportsOnce, exportedNames_moduleStatements, eraseDups_of_nodup d.exports.nodup]
  have hcollect : collectNames o.includeDeclarations
      (moduleStatements d.imports d.exports.names) = d.exports.names := by
    rw [collectNames, collectedNames_moduleStatements, eraseDups_of_nodup d.exports.nodup,
      List.filter_eq_self]
    intro n hn
    simpa using d.exports.nonempty n hn
  simp only [namesExported?, parse?, render_eq_moduleText, hread, htyped, isWellNamed_iff hd.bringsOnly,
    ite_not]
  split
  · rfl
  · simp [Option.filter, honce, hcollect]

end ImportSync
