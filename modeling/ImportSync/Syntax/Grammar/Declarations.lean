import ImportSync.Syntax.Grammar.Classes
import ImportSync.Syntax.Grammar.Signatures

/-!
Binding patterns (a name, or an array or object pattern of further patterns) and declarations:
variables, functions, classes, and what the dialect with types adds to them.
-/

namespace ImportSync.Syntax.Grammar

/-! ### Patterns -/

open ImportSync.Syntax.Parser

variable (g : Grammar)

def bindingElement : Parser Pattern := do
  let target ← g.pattern
  if ← g.initializer then
    return .withDefault target
  return target

/-- One element of an array pattern; none for a hole. A pattern that takes all remaining elements
ends the array. -/
def arrayElement : Parser (Option Pattern) := do
  if ← isAt .comma then
    return none
  if ← eat .ellipsis then
    let target ← g.pattern
    ensure (← isAt .rbracket)
    return some (.rest target)
  return some (← g.bindingElement)

/-- One property of an object pattern. A name that takes all remaining properties ends the
object. -/
def objectElement : Parser Pattern := do
  if ← eat .ellipsis then
    let id ← name
    ensure (← isAt .rbrace)
    return .rest (.name id.toList)
  let property ← g.propertyName
  if ← eat .colon then
    g.bindingElement
  else
    match property with
    | .word id =>
      ensure (← canBeName id)
      if ← g.initializer then
        return .withDefault (.name id.toList)
      return .name id.toList
    | _ => failure

def patternBody : Parser Pattern := do
  match ← token with
  | .symbol .lbracket =>
    advance
    let items ← enclosed (itemsUntil .rbracket g.arrayElement)
    return .array (items.filterMap id)
  | .symbol .lbrace =>
    advance
    let items ← enclosed (itemsUntil .rbrace g.objectElement)
    return .object items
  | _ => return .name (← name).toList

open ImportSync.Syntax.Parser

variable (g : Grammar)

/-! ### Variables -/

def takesApart : Pattern → Bool
  | .array _ => true
  | .object _ => true
  | _ => false

def declarator : Parser (Pattern × Bool) := do
  let target ← g.pattern
  if ← typed then
    discard <| eat .bang
  discard g.annotation
  return (target, ← g.initializer)

/-- Whether the declarators may do without the initial values they lack. A constant has one, and so
has everything that is taken apart, unless the declaration only describes. -/
def areInitialized (isConstant : Bool) (declarators : List (Pattern × Bool)) : Parser Bool := do
  let scope ← read
  return scope.ambient ||
    declarators.all fun (target, hasValue) => hasValue || !(isConstant || takesApart target)

def variableRest (isConstant : Bool) : Parser Declaration := do
  let declarators ← itemsSeparated g.declarator
  ensure (← areInitialized isConstant declarators)
  endStatement
  return .variables (declarators.map (·.1))

/-! ### Declarations of the dialect with types -/

/-- The name of a member of an enumeration: a word, a quoted text, or either kind of quoted text in
brackets. -/
def enumMemberName : Parser Unit := do
  match ← token with
  | .word _ _ => advance
  | .string _ => advance
  | _ =>
    expect .lbracket
    match ← token with
    | .string _ => advance
    | .template _ _ => ensure (← template failure)
    | _ => failure
    expect .rbracket

def enumRest : Parser Unit := do
  discard name
  expect .lbrace
  discard <| itemsUntil .rbrace do
    enumMemberName
    discard g.initializer

def interfaceRest : Parser Unit := do
  discard name
  g.optionalTypeParameters
  if ← eatWord "extends" then
    discard <| itemsSeparated g.heritageType
  g.typeMembers

def aliasRest : Parser Unit := do
  discard name
  g.optionalTypeParameters
  expect .assign
  g.type
  endStatement

/-- A namespace after the word that starts it: names joined by dots, or the quoted name of a module,
which may go without a body. -/
def namespaceRest : Parser Unit := do
  match ← token with
  | .string _ =>
    advance
    if ← isAt .lbrace then
      g.block
    else
      endStatement
  | _ =>
    discard name
    dottedNames
    g.block

/-- What a name imported from a namespace stands for, after the sign that says so. -/
def importAliasRest : Parser Unit := do
  let isRequired ← ahead do
    expectWord "require"
    expect .lparen
  if isRequired.isSome then
    advance
    expect .lparen
    discard quoted
    expect .rparen
  else
    discard anyWord
    dottedNames
  endStatement

def describableWords : List String :=
  ["var", "let", "const", "function", "async", "class", "abstract", "interface", "type", "enum",
   "namespace", "module", "global"]

/-- Whether a declaration starts here that only the dialect with types has. -/
def isAtTypedDeclaration : Parser Bool := do
  unless ← typed do
    return false
  match ← token with
  | .word w false =>
    let after ← next
    let sameLine := !after.afterLineEnd
    let named ← do
      match after.token with
      | .word id _ => canBeName id
      | _ => pure false
    match w with
    | "interface" => return named && sameLine
    | "type" => return named && sameLine
    | "namespace" => return named && sameLine
    | "module" =>
      match after.token with
      | .string _ => return sameLine
      | _ => return named && sameLine
    | "global" => return after.token == .symbol .lbrace
    | "enum" => return named
    | "const" => return after.token == .word "enum" false
    | "abstract" => return after.token == .word "class" false && sameLine
    | "declare" =>
      match after.token with
      | .word id false => return describableWords.contains id && sameLine
      | _ => return false
    | _ => return false
  | _ => return false

/-- A declaration that starts with `declare` is read after that word. -/
def describedWord : Parser Bool := do
  if (← isAtTypedDeclaration) && (← isAtWord "declare") then
    advance
    return true
  return false

def typedDeclarationBody : Parser Declaration := do
  match ← anyWord with
  | "interface" =>
    g.interfaceRest
    return .typeLevel
  | "type" =>
    g.aliasRest
    return .typeLevel
  | "namespace" =>
    g.namespaceRest
    return .typeLevel
  | "module" =>
    g.namespaceRest
    return .typeLevel
  | "global" =>
    g.block
    return .typeLevel
  | "enum" =>
    g.enumRest
    return .typeLevel
  | "const" =>
    expectWord "enum"
    g.enumRest
    return .typeLevel
  | "abstract" =>
    expectWord "class"
    return .class (← g.classRest false).toList
  | _ => failure

/-- A declaration, which may have to be one that describes. -/
def plainDeclaration : Parser Declaration := do
  if ← isAtTypedDeclaration then
    g.typedDeclarationBody
  else
    match ← token with
    | .word "var" false =>
      advance
      g.variableRest false
    | .word "let" false =>
      advance
      g.variableRest false
    | .word "const" false =>
      advance
      g.variableRest true
    | .word "function" false => return .function (← g.functionDeclaration false).toList
    | .word "async" false =>
      ensure (← isAtAsyncFunction)
      return .function (← g.functionDeclaration false).toList
    | .word "class" false =>
      advance
      return .class (← g.classRest false).toList
    | _ => failure

def declaration : Parser Declaration := do
  if ← describedWord then
    describing g.plainDeclaration
  else
    g.plainDeclaration

end ImportSync.Syntax.Grammar
