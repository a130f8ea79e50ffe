import ImportSync.Syntax.Grammar.Signatures

/-!
Types. Nothing depends on what a type is, so these parsers only pass over it.
-/

namespace ImportSync.Syntax.Grammar

open ImportSync.Syntax.Parser

variable (g : Grammar)

/-- Reads a type in which `extends` starts a condition again. -/
def nestedType : Parser Unit :=
  withReader (fun s => { s with noConditionalType := false }) g.type

/-- Passes over an opening angle bracket, also where a second one follows at once. -/
def openAngle : Parser Unit := do
  match ← token with
  | .symbol .less => advance
  | .symbol .shiftLeft => resume (← get).start.tail
  | _ => failure

def isAtAngle : Parser Bool :=
  return (← isAt .less) || (← isAt .shiftLeft)

def typeArguments : Parser Unit := do
  openAngle
  discard <| itemsSeparated g.nestedType
  expect .greater

/-- Type arguments on the same line, if there are any. -/
def optionalTypeArguments : Parser Unit := do
  if (← isAtAngle) && !(← afterLineEnd) then
    g.typeArguments

def typeParameter : Parser Unit := do
  discard <| many do
    match ← token with
    | .word w false =>
      if w == "const" || w == "in" || w == "out" then
        match (← next).token with
        | .word _ _ => advance; return some ()
        | _ => return none
      return none
    | _ => return none
  discard name
  if ← eatWord "extends" then
    g.nestedType
  if ← eat .assign then
    g.nestedType

def typeParameters : Parser Unit := do
  openAngle
  let items ← itemsUntil .greater g.typeParameter
  ensure (!items.isEmpty)

def optionalTypeParameters : Parser Unit := do
  if (← typed) && (← isAt .less) then
    g.typeParameters

/-- Whether the word is followed, on its line, by a name or `this`. -/
def precedesSubject : Parser Bool := do
  let after ← next
  match after.token with
  | .word w _ => return !after.afterLineEnd && w != "is" && (w == "this" || (← canBeName w))
  | _ => return false

/-- Whether this word and the next one start a statement about a parameter. -/
def isAtPredicate : Parser Bool := do
  match ← token with
  | .word w _ =>
    let after ← next
    return (w == "this" || (← canBeName w)) && after.token == .word "is" false
      && !after.afterLineEnd
  | _ => return false

/-- The type of a result, which may also be a statement about a parameter. -/
def resultType : Parser Unit := do
  if ← isAtPredicate then
    advance
    advance
    g.nestedType
  else
    g.type

def resultAnnotation : Parser Bool := do
  if (← typed) && (← isAt .colon) then
    advance
    g.resultType
    return true
  return false

def signature : Parser Unit := do
  g.optionalTypeParameters
  g.parameters
  discard g.resultAnnotation

/-- Ends a member of a type: by a semicolon, a comma, a line end or the closing brace. -/
def endTypeMember : Parser Unit := do
  unless ← eat .semicolon <||> eat .comma do
    ensure (← canEndStatement)

/-- An index signature: a named key in brackets and the type of what it finds. -/
def indexSignature : Parser Unit := do
  expect .lbracket
  discard name
  expect .colon
  g.nestedType
  expect .rbracket
  ensure (← g.annotation)

/-- Whether this word is a modifier of the property name that follows it on the same line. -/
def isModifierOfName : Parser Bool := do
  let after ← next
  return startsPropertyName after.token && !after.afterLineEnd

def typeMember : Parser Unit := do
  match ← token with
  | .symbol .lparen => g.signature
  | .symbol .less => g.signature
  | _ =>
    let isConstructor ← ahead do
      expectWord "new"
      ensure ((← isAt .lparen) || (← isAt .less))
    if isConstructor.isSome then
      advance
      g.signature
    else
      discard <| many do
        match ← token with
        | .word w false =>
          if parameterModifiers.contains w && (← isModifierOfName) then
            advance
            return some ()
          return none
        | _ => return none
      match ← attempt g.indexSignature with
      | some _ => pure ()
      | none =>
        let isAccessor := (← isAtWord "get") || (← isAtWord "set")
        if isAccessor && startsPropertyName (← next).token then
          advance
          discard g.memberName
          g.signature
        else
          discard g.memberName
          discard <| eat .question
          if (← isAt .lparen) || (← isAt .less) then
            g.signature
          else
            discard g.annotation
  endTypeMember

def typeMembers : Parser Unit := do
  expect .lbrace
  discard <| many do
    if ← isAt .rbrace then
      return none
    g.typeMember
    return some ()
  expect .rbrace

/-- The start of a mapped type, up to the word before its key type. -/
def mappedTypeStart : Parser Unit := do
  expect .lbrace
  if ← eat .plus <||> eat .minus then
    expectWord "readonly"
  else if (← isAtWord "readonly") && (← next).token == .symbol .lbracket then
    advance
  expect .lbracket
  discard name
  expectWord "in"

def mappedTypeRest : Parser Unit := do
  g.nestedType
  if ← eatWord "as" then
    g.nestedType
  expect .rbracket
  if ← eat .plus <||> eat .minus then
    expect .question
  else
    discard <| eat .question
  discard g.annotation
  discard <| eat .semicolon <||> eat .comma
  expect .rbrace

/-- One element of a tuple type, which may be named, optional or stand for many. -/
def tupleElement : Parser Unit := do
  discard <| eat .ellipsis
  discard <| attempt do
    discard anyWord
    discard <| eat .question
    expect .colon
  g.nestedType
  discard <| eat .question

def dottedNames : Parser Unit := do
  discard <| many do
    if ← eat .dot then
      discard anyWord
      return some ()
    return none

def importType : Parser Unit := do
  expectWord "import"
  expect .lparen
  g.nestedType
  if ← eat .comma then
    unless ← isAt .rparen do
      discard g.assigned
      discard <| eat .comma
  expect .rparen
  dottedNames
  g.optionalTypeArguments

/-- The names of types that take no arguments. -/
def basicTypes : List String :=
  ["any", "bigint", "boolean", "never", "number", "object", "string", "symbol", "undefined",
   "unknown"]

def namedType : Parser Unit := do
  let isBasic ← do
    match ← token with
    | .word w false => pure (basicTypes.contains w && (← next).token != .symbol .dot)
    | _ => pure false
  discard name
  unless isBasic do
    dottedNames
    g.optionalTypeArguments

/-- The type of the value that a function is called on, or a statement about it. -/
def thisType : Parser Unit := do
  expectWord "this"
  if (← isAtWord "is") && !(← afterLineEnd) then
    advance
    g.nestedType

def primaryType : Parser Unit := do
  match ← token with
  | .symbol .lbrace =>
    match ← attempt mappedTypeStart with
    | some _ => g.mappedTypeRest
    | none => g.typeMembers
  | .symbol .lbracket =>
    advance
    discard <| itemsUntil .rbracket g.tupleElement
  | .symbol .lparen =>
    advance
    g.nestedType
    expect .rparen
  | .string _ => advance
  | .number => advance
  | .symbol .minus =>
    advance
    ensure ((← token) == .number)
    advance
  | .template _ _ => discard <| template g.nestedType
  | .word "import" false => g.importType
  | .word "typeof" false =>
    advance
    if ← isAtWord "import" then
      g.importType
    else
      discard anyWord
      dottedNames
      g.optionalTypeArguments
  | .word "this" false => g.thisType
  | .word "asserts" false =>
    if ← precedesSubject then
      advance
      advance
      if ← eatWord "is" then
        g.nestedType
    else
      g.namedType
  | .word w false =>
    if ["void", "null", "true", "false"].contains w then
      advance
    else
      g.namedType
  | .word _ true => g.namedType
  | _ => failure

def postfixType : Parser Unit := do
  g.primaryType
  discard <| many do
    if (← isAt .lbracket) && !(← afterLineEnd) then
      advance
      unless ← isAt .rbracket do
        g.nestedType
      expect .rbracket
      return some ()
    return none

/-- The bound of an inferred type. It is left alone where it would start a condition. -/
def inferredBound : Parser Unit := do
  expectWord "extends"
  withReader (fun s => { s with noConditionalType := true }) g.type
  ensure ((← read).noConditionalType || !(← isAt .question))

def operatorType : Parser Unit := do
  discard <| many do
    if (← isAtWord "keyof") || (← isAtWord "unique") || (← isAtWord "readonly") then
      advance
      return some ()
    return none
  if ← eatWord "infer" then
    discard name
    discard <| attempt g.inferredBound
  else
    g.postfixType

/-- Types joined by one operator, which may also stand before the first. -/
def joinedTypes (operator : Symbol) (operand : Parser Unit) : Parser Unit := do
  discard <| eat operator
  operand
  discard <| many do
    if ← eat operator then
      operand
      return some ()
    return none

def unionType : Parser Unit :=
  joinedTypes .bitOr (joinedTypes .bitAnd g.operatorType)

def functionTypeRest : Parser Unit := do
  expect .arrow
  g.resultType

/-- A type that is not the type of a function, with the condition after it if there is one. -/
def conditionalType : Parser Unit := do
  g.unionType
  let scope ← read
  if !scope.noConditionalType && !(← afterLineEnd) && (← isAtWord "extends") then
    advance
    withReader (fun s => { s with noConditionalType := true }) g.type
    expect .question
    g.nestedType
    expect .colon
    g.type

def typeBody : Parser Unit := do
  match ← token with
  | .symbol .less =>
    g.typeParameters
    g.parameters
    g.functionTypeRest
  | .symbol .lparen =>
    match ← attempt (do g.parameters; expect .arrow) with
    | some _ => g.resultType
    | none => g.conditionalType
  | .word "new" false =>
    advance
    g.optionalTypeParameters
    g.parameters
    g.functionTypeRest
  | .word "abstract" false =>
    if (← next).token == .word "new" false then
      advance
      advance
      g.optionalTypeParameters
      g.parameters
      g.functionTypeRest
    else
      g.conditionalType
  | _ => g.conditionalType

end ImportSync.Syntax.Grammar
