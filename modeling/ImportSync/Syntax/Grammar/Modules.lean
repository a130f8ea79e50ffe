import ImportSync.Syntax.Grammar.Declarations

/-!
Imports and exports.
-/

namespace ImportSync.Syntax.Grammar

open ImportSync.Syntax.Parser

variable (g : Grammar)

/-! ### Names and sources -/

/-- A name as one module knows another module's binding: any word, or a quoted text in which no half of
a pair stands alone. -/
def exportName : Parser ExportName := do
  match ← token with
  | .string value =>
    match Text.ofUnits? value with
    | some text =>
      advance
      return .quoted text
    | none => failure
  | _ => return .identifier (← anyWord).toList

def isAtExportName : Parser Bool := do
  match ← token with
  | .string _ => return true
  | .word _ _ => return true
  | _ => return false

def renamed (left : ExportName) : Parser (ExportName × ExportName) := do
  if ← eatWord "as" then
    return (left, ← exportName)
  return (left, left)

/-- One specifier in braces: the name on the left of `as` and the one on its right. Where the dialect
has types, `type` before a name marks the specifier and is no name itself. -/
def specifier : Parser (ExportName × ExportName) := do
  let marked := (← typed) && (← isAtWord "type")
  let first ← exportName
  if !marked then
    renamed first
  else if ← eatWord "as" then
    let word := ExportName.identifier "as".toList
    if ← eatWord "as" then
      if ← isAtExportName then
        return (word, ← exportName)
      return (first, word)
    else if ← isAtExportName then
      return (first, ← exportName)
    else
      return (word, word)
  else if ← isAtExportName then
    renamed (← exportName)
  else
    return (first, first)

def attributeKey : Parser (List Text.Unit16) := do
  match ← token with
  | .string _ => quoted
  | _ => return (← anyWord).toList.map .char

/-- The attributes of an import, if there are any. A key may stand once, quoted or not. -/
def importAttributes : Parser Unit := do
  if (← isAtWord "with") || (← isAtWord "assert") && !(← afterLineEnd) then
    advance
    expect .lbrace
    let keys ← itemsUntil .rbrace do
      let key ← attributeKey
      expect .colon
      discard quoted
      return key
    ensure (decide keys.Nodup)

def source : Parser Unit := do
  expectWord "from"
  discard quoted
  importAttributes

/-! ### Imports -/

/-- Whether this word only says how an import is meant, and the names follow. -/
def isAtImportMark (w : String) (follows : Token → Bool) : Parser Bool := do
  unless ← isAtWord w do
    return false
  let after ← next
  match after.token with
  | .word "from" false =>
    let third ← ahead do
      advance
      advance
      token
    return third == some (.word "from" false)
  | t => return follows t

/-- What is imported, after the first word and its mark: names with the module they come from or,
where the dialect has types, one name and what it stands for. -/
def importRest : Parser Unit := do
  let isDefault ← isAtName
  if isDefault then
    discard name
  if ← pure isDefault <&&> typed <&&> eat .assign then
    importAliasRest
  else
    if ← pure !isDefault <||> eat .comma then
      match ← token with
      | .symbol .star =>
        advance
        expectWord "as"
        discard name
      | .symbol .lbrace =>
        advance
        let specifiers ← itemsUntil .rbrace specifier
        let bound ← specifiers.mapM fun (_, local_) =>
          match local_ with
          | .identifier id => canBeName (String.ofList id)
          | .quoted _ => pure false
        ensure (bound.all id)
      | _ => failure
    source
    endStatement

def importDeclaration : Parser Unit := do
  expectWord "import"
  match ← token with
  | .string _ =>
    advance
    importAttributes
    endStatement
  | _ =>
    let isName : Token → Bool := fun
      | .word _ _ => true
      | _ => false
    let isTypeMark ← isAtImportMark "type" fun t =>
      isName t || t == .symbol .lbrace || t == .symbol .star
    let isPhase ← do
      if ← isAtImportMark "defer" (· == .symbol .star) then
        pure true
      else
        isAtImportMark "source" isName
    if (← typed) && isTypeMark || isPhase then
      advance
    importRest

/-! ### Exports -/

/-- Whether a name may be exported by a list that names no other module. -/
def isLocalName : ExportName → Bool
  | .identifier id =>
    !reservedWords.contains (String.ofList id) && !strictReservedWords.contains (String.ofList id)
  | .quoted _ => false

def exportListRest : Parser Statement := do
  expect .lbrace
  let specifiers ← itemsUntil .rbrace specifier
  if ← isAtWord "from" then
    source
  else
    ensure (specifiers.all fun (left, _) => isLocalName left)
  endStatement
  return .exportList (specifiers.map (·.2))

def exportAllRest : Parser Statement := do
  expect .star
  let given ← do
    if ← eatWord "as" then
      pure (some (← exportName))
    else
      pure none
  source
  endStatement
  return .exportAll given

def exportDefaultRest : Parser Unit := do
  discard g.decorators
  let isInterface ← do
    if (← isAtWord "interface") then isAtTypedDeclaration else pure false
  let isAbstract ← do
    if (← isAtWord "abstract") then isAtTypedDeclaration else pure false
  if isInterface then
    advance
    g.interfaceRest
  else
    if isAbstract then
      advance
    match ← token with
    | .word "class" false =>
      advance
      discard <| g.classRest true
    | _ =>
      ensure (!isAbstract)
      if (← isAtWord "function") || (← isAtAsyncFunction) then
        discard <| g.functionDeclaration true
      else
        discard g.assigned
        endStatement

/-- An export after its first word, where decorators may have stood before that word. -/
def exportRest (decorated : Bool) : Parser Statement := do
  let isTyped ← typed
  let after ← next
  match ← token with
  | .symbol .star => exportAllRest
  | .symbol .lbrace => exportListRest
  | .word "default" false =>
    advance
    g.exportDefaultRest
    return .exportDefault
  | .symbol .assign =>
    ensure isTyped
    advance
    discard g.evaluated
    endStatement
    return .plain
  | .word "import" false =>
    ensure isTyped
    advance
    if ← isAtImportMark "type" (fun t => t != .symbol .assign) then
      advance
    discard name
    expect .assign
    importAliasRest
    return .exportDeclaration .typeLevel
  | .word "as" false =>
    ensure isTyped
    advance
    expectWord "namespace"
    discard name
    endStatement
    return .plain
  | .symbol .at =>
    ensure (!decorated)
    discard g.decorators
    let d ← g.declaration
    match d with
    | .class _ => return .exportDeclaration d
    | _ => failure
  | _ =>
    if isTyped && (← isAtWord "type") && after.token == .symbol .lbrace then
      advance
      exportListRest
    else if isTyped && (← isAtWord "type") && after.token == .symbol .star then
      advance
      exportAllRest
    else
      return .exportDeclaration (← g.declaration)

def exportDeclaration (decorated : Bool) : Parser Statement := do
  expectWord "export"
  g.exportRest decorated

end ImportSync.Syntax.Grammar
