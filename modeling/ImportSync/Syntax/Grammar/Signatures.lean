import ImportSync.Syntax.Grammar

/-!
What functions, classes and types have in common: property names, decorators and parameter lists.
-/

namespace ImportSync.Syntax.Grammar

open ImportSync.Syntax.Parser

variable (g : Grammar)

/-- How a property is named, as far as the rest of its definition depends on it. -/
inductive PropertyName where
  /-- A word, which may also stand for the property's value. -/
  | word (spelling : String)
  /-- A name after `#`. -/
  | hidden (spelling : String)
  | quoted (value : List Text.Unit16)
  /-- A number or a computed name. -/
  | other

def propertyName : Parser PropertyName := do
  match ← token with
  | .word w _ =>
    advance
    return .word w
  | .string value =>
    advance
    return .quoted value
  | .number =>
    advance
    return .other
  | .symbol .lbracket =>
    advance
    discard <| enclosed g.assigned
    expect .rbracket
    return .other
  | _ => failure

def memberName : Parser PropertyName := do
  match ← token with
  | .privateName w =>
    advance
    return .hidden w
  | _ => g.propertyName

def startsPropertyName : Token → Bool
  | .word _ _ => true
  | .string _ => true
  | .number => true
  | .privateName _ => true
  | .symbol .lbracket => true
  | _ => false

/-- Decorators, in any number. Yields whether there are any. -/
def decorators : Parser Bool := do
  let found ← many do
    if ← eat .at then
      discard <| withReader (fun s => { s with inDecorator := true }) (g.leftHand true)
      return some ()
    return none
  return !found.isEmpty

/-! ### Modifiers -/

def accessModifiers : List String :=
  ["public", "private", "protected"]

/-- The modifiers that may not stand before the given one. -/
def modifiersAfter (w : String) : List String :=
  match w with
  | "static" => ["override", "readonly", "accessor", "async"]
  | "abstract" => ["override", "accessor"]
  | "override" => ["readonly", "accessor", "async"]
  | _ =>
    if accessModifiers.contains w then
      accessModifiers ++ ["static", "abstract", "override", "readonly", "accessor", "async"]
    else
      []

/-- Whether modifiers stand in their order, none of them twice. -/
def areOrdered (modifiers : List String) : Bool :=
  decide (modifiers.Pairwise fun earlier later =>
    earlier ≠ later ∧ earlier ∉ modifiersAfter later)

/-- The words that turn a constructor's parameter into a property. -/
def parameterModifiers : List String :=
  accessModifiers ++ ["readonly", "override"]

/-- Passes over the modifiers of a parameter. A modifier that nothing follows which could be bound
is the parameter's name. -/
def skipParameterModifiers : Parser Unit := do
  if ← typed then
    let modifiers ← many do
      match ← token with
      | .word w false =>
        if parameterModifiers.contains w then
          match (← next).token with
          | .word _ _ => advance; return some w
          | .symbol .lbrace => advance; return some w
          | .symbol .lbracket => advance; return some w
          | _ => return none
        return none
      | _ => return none
    ensure (areOrdered modifiers)

/-! ### Parameters -/

/-- One parameter. Yields whether it takes all remaining arguments. -/
def parameter : Parser Bool := do
  discard g.decorators
  skipParameterModifiers
  let isRest ← eat .ellipsis
  if (← typed) && (← isAtWord "this") then
    advance
  else
    discard g.pattern
  if (← typed) && (← isAt .question) then
    advance
  discard g.annotation
  unless isRest do
    discard g.initializer
  return isRest

/-- A parameter list in parentheses. A parameter that takes all remaining arguments ends it. -/
def parameters : Parser Unit := enclosed do
  expect .lparen
  discard <| many do
    if ← isAt .rparen then
      return none
    let isRest ← g.parameter
    if isRest then
      ensure (← isAt .rparen)
    else unless ← isAt .rparen do
      expect .comma
    return some ()
  expect .rparen

end ImportSync.Syntax.Grammar
