import ImportSync.Syntax.Grammar.Types

/-!
Functions: their signatures, their bodies, and the three ways to write them.
-/

namespace ImportSync.Syntax.Grammar

open ImportSync.Syntax.Parser

variable (g : Grammar)

structure FunctionKind where
  isAsync : Bool := false
  isGenerator : Bool := false

def FunctionKind.scoped (kind : FunctionKind) (p : Parser α) : Parser α :=
  withReader
    (fun s => { s with
      allowIn := true, awaits := kind.isAsync, yields := kind.isGenerator, returns := true,
      inDecorator := false })
    p

def block : Parser Unit := do
  expect .lbrace
  discard <| many do
    if ← isAt .rbrace then
      return none
    discard <| g.statement .list
    return some ()
  expect .rbrace

/-- A function from its parameters to the end of its body. With `optionalBody`, a typed function may
also end after its signature. -/
def functionRest (kind : FunctionKind) (optionalBody : Bool) : Parser Unit := do
  kind.scoped g.signature
  if (← isAt .lbrace) || !(optionalBody && (← typed)) then
    kind.scoped g.block
  else
    endStatement

def functionStart : Parser FunctionKind := do
  let isAsync ← eatWord "async"
  expectWord "function"
  let isGenerator ← eat .star
  return { isAsync, isGenerator }

def functionExpression : Parser Unit := do
  let kind ← functionStart
  kind.scoped do
    if ← isAtName then
      discard name
  g.functionRest kind false

/-- A function that is a declaration. Its name may be left out where it is exported by default. -/
def functionDeclaration (optionalName : Bool) : Parser String := do
  let kind ← functionStart
  let id ←
    if optionalName && !(← isAtName) then
      pure ""
    else
      name
  g.functionRest kind true
  return id

def isAtAsyncFunction : Parser Bool := do
  let after ← next
  return (← isAtWord "async") && after.token == .word "function" false && !after.afterLineEnd

def arrowBody (isAsync allowResultType : Bool) : Parser Unit := do
  let scope ← read
  let kind : FunctionKind := { isAsync }
  if ← isAt .lbrace then
    kind.scoped g.block
  else
    withReader
      (fun s => { s with awaits := isAsync, yields := false, allowIn := scope.allowIn }) do
        discard (← g.assignment allowResultType).settle

/-- The part of an arrow function before its body when it starts with a parenthesis or with type
parameters. Yields whether it is asynchronous, and whether it states the type of its result. -/
def arrowHead : Parser (Bool × Bool) := do
  let isAsync ← do
    let after ← next
    let paramsFollow := after.token == .symbol .lparen || after.token == .symbol .less
    if (← isAtWord "async") && paramsFollow && !after.afterLineEnd then
      advance
      pure true
    else
      pure false
  let kind : FunctionKind := { isAsync, isGenerator := (← read).yields }
  let hasResultType ← kind.scoped do
    g.optionalTypeParameters
    g.parameters
    g.resultAnnotation
  ensure ((← isAt .arrow) && !(← afterLineEnd))
  advance
  return (isAsync, hasResultType)

/-- Whether an angle bracket here may start the type parameters of an arrow function. Where markup
is allowed too, it may only if a comma, a default or a bound follows the first name. -/
def mayStartGenericArrow : Parser Bool := do
  unless (← typed) && (← isAt .less) do
    return false
  unless (← read).dialect.markup do
    return true
  let found ← ahead do
    advance
    if (← isAtWord "const") then
      let after ← next
      match after.token with
      | .word _ _ => advance
      | _ => pure ()
    discard name
    match ← token with
    | .symbol .comma => pure ()
    | .symbol .assign => pure ()
    | .word "extends" false =>
      advance
      match ← token with
      | .symbol .assign => failure
      | .symbol .greater => failure
      | .symbol .slash => failure
      | _ => pure ()
    | _ => failure
  return found.isSome

/-- An arrow function with its parameters in parentheses, if one starts here. In the middle of a
conditional expression, a colon after the parameters belongs to the conditional unless another one
follows the body. -/
def parenthesizedArrow (allowResultType : Bool) : Parser Bool := do
  let mayStart ← do
    match ← token with
    | .symbol .lparen => pure true
    | .symbol .less => mayStartGenericArrow
    | .word "async" false => pure true
    | _ => pure false
  unless mayStart do
    return false
  match ← ahead g.arrowHead with
  | none => return false
  | some (isAsync, hasResultType) =>
    let whole : Parser Unit := do
      discard g.arrowHead
      g.arrowBody isAsync allowResultType
    if hasResultType && !allowResultType then
      let read ← attempt do
        whole
        ensure (← isAt .colon)
      return read.isSome
    else
      whole
      return true

def asyncNameArrow (allowResultType : Bool) : Parser Bool := do
  unless ← isAtWord "async" do
    return false
  let started ← attempt do
    advance
    ensure !(← afterLineEnd)
    discard name
    ensure ((← isAt .arrow) && !(← afterLineEnd))
    advance
  if started.isSome then
    g.arrowBody true allowResultType
    return true
  return false

end ImportSync.Syntax.Grammar
