import ImportSync.Syntax.Grammar.Functions

/-!
Classes and their members.
-/

namespace ImportSync.Syntax.Grammar

open ImportSync.Syntax.Parser

variable (g : Grammar)

def typedModifiers : List String :=
  accessModifiers ++ ["readonly", "abstract", "override", "declare"]

/-- Whether this word is a modifier of the member that follows it, rather than the member's name. -/
def isAtMemberModifier : Parser Bool := do
  match ← token with
  | .word w false =>
    let after ← next
    let named := startsPropertyName after.token
    let follows := named || after.token == .symbol .star
    if w == "static" then
      return follows
    else if w == "async" then
      return follows && !after.afterLineEnd
    else if w == "accessor" then
      return named && !after.afterLineEnd
    else
      return (← typed) && typedModifiers.contains w && follows && !after.afterLineEnd
  | _ => return false

/-- Passes over the modifiers of a member and yields them. After one `static`, a second one is the
member's name. -/
def memberModifiers : Parser (List String) := do
  let modifiers ← extendAll (fun seen => do
    let isName := seen.contains "static" && (← isAtWord "static")
    if (← isAtMemberModifier) && !isName then
      return some (seen ++ [← anyWord])
    return none) []
  ensure (areOrdered modifiers)
  return modifiers

/-- Whether a name is the given one and is neither computed nor hidden. -/
def PropertyName.spells : PropertyName → String → Bool
  | .word w, s => w == s
  | .quoted value, s => value == s.toList.map .char
  | _, _ => false

def fieldRest : Parser Unit := do
  if ← typed then
    discard <| (eat .question) <||> (eat .bang)
  discard g.annotation
  withReader (fun s => { s with awaits := false, yields := false, allowIn := true }) do
    discard g.initializer
  endStatement

def namedMember (modifiers : List String) : Parser Unit := do
  let isStatic := modifiers.contains "static"
  let isAsync := modifiers.contains "async"
  let isAccessor ← do
    if !isAsync && ((← isAtWord "get") || (← isAtWord "set"))
        && startsPropertyName (← next).token then
      advance
      pure true
    else
      pure false
  let isGenerator ← eat .star
  let property ← g.memberName
  let isSpecial := isAsync || isAccessor || isGenerator
  match property with
  | .hidden w => ensure (w != "constructor")
  | _ => pure ()
  ensure !(isStatic && property.spells "prototype")
  let optional ← do
    if (← typed) && (← isAt .question)
        && ((← next).token == .symbol .lparen || (← next).token == .symbol .less) then
      advance
      pure true
    else
      pure false
  if (← isAt .lparen) || (← typed) && (← isAt .less) then
    ensure !(modifiers.contains "accessor")
    ensure !(!isStatic && isSpecial && property.spells "constructor")
    g.functionRest { isAsync, isGenerator } true
  else
    ensure !(isSpecial || optional || property.spells "constructor")
    g.fieldRest

def classMember : Parser Unit := do
  if ← eat .semicolon then
    return
  discard g.decorators
  if (← isAtWord "static") && (← next).token == .symbol .lbrace then
    advance
    withReader
      (fun s => { s with allowIn := true, awaits := true, yields := false, returns := false })
      g.block
  else
    let modifiers ← memberModifiers
    let isIndex ← do
      if (← typed) && (← isAt .lbracket) then
        pure (← attempt g.indexSignature).isSome
      else
        pure false
    if isIndex then
      endStatement
    else
      g.namedMember modifiers

def heritageType : Parser Unit := do
  discard <| g.leftHand true
  if ← isAtAngle then
    g.typeArguments

/-- A class after the word that starts it. Yields its name, which may be left out. -/
def classRest (optionalName : Bool) : Parser String := do
  let isUnnamed ← do
    if (← typed) && (← isAtWord "implements") then
      pure (startsPropertyName (← next).token)
    else
      pure !(← isAtName)
  let id ← if optionalName && isUnnamed then pure "" else name
  g.optionalTypeParameters
  if ← eatWord "extends" then
    discard <| g.leftHand true
    if (← typed) && (← isAtAngle) then
      g.typeArguments
  if ← typed <&&> eatWord "implements" then
    discard <| itemsSeparated g.heritageType
  expect .lbrace
  discard <| many do
    if ← isAt .rbrace then
      return none
    g.classMember
    return some ()
  expect .rbrace
  return id

def classExpression : Parser Unit := do
  discard g.decorators
  expectWord "class"
  discard <| g.classRest true

end ImportSync.Syntax.Grammar
