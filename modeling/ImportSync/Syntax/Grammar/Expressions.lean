import ImportSync.Syntax.Grammar.Classes
import ImportSync.Syntax.Grammar.Markup

/-!
Expressions, from literals up to assignments. A literal is read once, whether it turns out to be a
value or the left side of an assignment: its shape says whether it may be assigned to, and a default
that only an assignment allows stays pending until one is found.
-/

namespace ImportSync.Syntax.Grammar

open ImportSync.Syntax.Parser

variable (g : Grammar)

/-! ### Literals -/

/-- An element of an array or object literal, as far as assigning to the literal depends on it. -/
structure Element where
  target : Bool
  /-- Whether it takes all that remains. -/
  isRest : Bool := false
  commaAfter : Bool := false
  pending : Bool := false

def elementsUntil (close : Symbol) (item : Parser Element) : Parser (List Element) := do
  let items ← many do
    if ← isAt close then
      return none
    let e ← item
    if ← isAt close then
      return some e
    expect .comma
    return some { e with commaAfter := true }
  expect close
  return items

/-- Whether every element may be assigned to, and one that takes all that remains is the last, with
no comma after it. -/
def areTargets : List Element → Bool
  | [] => true
  | [e] => e.target && !(e.isRest && e.commaAfter)
  | e :: others => e.target && !e.isRest && areTargets others

def literalOf (elements : List Element) : Expr :=
  { shape := .literal (areTargets elements), pending := elements.any (·.pending) }

def arrayItem : Parser Element := do
  if ← isAt .comma then
    return { target := true }
  let isRest ← eat .ellipsis
  let e ← g.assignment true
  return { target := if isRest then e.isTarget else e.isElementTarget, isRest, pending := e.pending }

def methodItem (kind : FunctionKind) : Parser Element := do
  g.functionRest kind false
  return { target := false }

def objectItem : Parser Element := do
  if ← eat .ellipsis then
    let e ← g.assignment true
    return { target := e.isSimpleTarget, isRest := true, pending := e.pending }
  let after ← next
  let named := startsPropertyName after.token
  let isAsync :=
    (← isAtWord "async") && !after.afterLineEnd && (named || after.token == .symbol .star)
  let isAccessor := ((← isAtWord "get") || (← isAtWord "set")) && named
  if isAsync || isAccessor then
    advance
  let isGenerator ← eat .star
  let property ← g.propertyName
  if (← isAt .lparen) || (← typed) && (← isAt .less) then
    g.methodItem { isAsync, isGenerator }
  else
    ensure !(isAsync || isAccessor || isGenerator)
    if ← eat .colon then
      let e ← g.assignment true
      return { target := e.isElementTarget, pending := e.pending }
    match property with
    | .word id =>
      ensure (← canBeName id)
      let hasDefault ← g.initializer
      return { target := true, pending := hasDefault }
    | _ => failure

def arrayLiteral : Parser Expr := do
  expect .lbracket
  return literalOf (← enclosed (elementsUntil .rbracket g.arrayItem))

def objectLiteral : Parser Expr := do
  expect .lbrace
  return literalOf (← enclosed (elementsUntil .rbrace g.objectItem))

def regularExpression : Parser Expr := do
  match scanRegularExpression (← get).start with
  | some after =>
    resume after
    return Expr.value
  | none => failure

/-! ### Operands -/

def arguments : Parser Unit := enclosed do
  expect .lparen
  discard <| itemsUntil .rparen do
    discard <| eat .ellipsis
    discard g.assigned

def group : Parser Expr := enclosed do
  expect .lparen
  let inner ← g.evaluated
  expect .rparen
  return { shape := .group inner.isSimpleTarget }

/-- The import of a module as a value, or a property of the module itself. -/
def importExpression : Parser Expr := do
  expectWord "import"
  if ← eat .dot then
    if ← eatWord "meta" then
      return Expr.value
    ensure (← eatWord "defer" <||> eatWord "source")
    ensure (← isAt .lparen)
  let items ← enclosed do
    expect .lparen
    itemsUntil .rparen g.assigned
  ensure (items.length == 1 || items.length == 2)
  return Expr.value

/-- The creation of an object, or the question what is being created. -/
def newExpression : Parser Expr := do
  expectWord "new"
  if ← eat .dot then
    expectWord "target"
    return Expr.value
  ensure !(← isAtWord "import")
  discard <| (← g.leftHand false).settle
  if ← isAt .lparen then
    g.arguments
  return Expr.value

def primary : Parser Expr := do
  match ← token with
  | .number =>
    advance
    return Expr.value
  | .string _ =>
    advance
    return Expr.value
  | .template _ _ =>
    ensure (← template (discard <| enclosed g.evaluated))
    return Expr.value
  | .symbol .slash => regularExpression
  | .symbol .slashAssign => regularExpression
  | .symbol .lbracket => g.arrayLiteral
  | .symbol .lbrace => g.objectLiteral
  | .symbol .lparen => g.group
  | .symbol .less =>
    ensure (← read).dialect.markup
    g.element
    advance
    return Expr.value
  | .symbol .at =>
    g.classExpression
    return Expr.value
  | .word "function" false =>
    g.functionExpression
    return Expr.value
  | .word "class" false =>
    g.classExpression
    return Expr.value
  | .word "new" false => g.newExpression
  | .word "import" false => g.importExpression
  | .word "super" false =>
    advance
    ensure ((← isAt .dot) || (← isAt .lbracket) || (← isAt .lparen))
    return Expr.value
  | .word w escaped =>
    if !escaped && ["this", "null", "true", "false"].contains w then
      advance
      return Expr.value
    if ← isAtAsyncFunction then
      g.functionExpression
      return Expr.value
    discard name
    return { shape := .reference }
  | _ => failure

/-- How tightly an operator between two operands binds; larger is tighter. -/
def strength? : Token → Option Nat
  | .symbol .coalesce => some 1
  | .symbol .orOr => some 2
  | .symbol .andAnd => some 3
  | .symbol .bitOr => some 4
  | .symbol .bitXor => some 5
  | .symbol .bitAnd => some 6
  | .symbol .equal => some 7
  | .symbol .notEqual => some 7
  | .symbol .same => some 7
  | .symbol .notSame => some 7
  | .symbol .less => some 8
  | .symbol .greater => some 8
  | .symbol .lessEq => some 8
  | .symbol .greaterEq => some 8
  | .word "in" false => some 8
  | .word "instanceof" false => some 8
  | .symbol .shiftLeft => some 9
  | .symbol .shiftRight => some 9
  | .symbol .shiftRightZero => some 9
  | .symbol .plus => some 10
  | .symbol .minus => some 10
  | .symbol .star => some 11
  | .symbol .slash => some 11
  | .symbol .percent => some 11
  | .symbol .power => some 12
  | _ => none

def startsExpression : Token → Bool
  | .word w _ =>
    !reservedWords.contains w ||
      ["this", "super", "null", "true", "false", "function", "class", "new", "delete", "typeof",
       "void", "await", "yield", "import"].contains w
  | .privateName _ => true
  | .number => true
  | .string _ => true
  | .template _ _ => true
  | .symbol s =>
    [.lparen, .lbracket, .lbrace, .slash, .slashAssign, .plus, .minus, .tilde, .bang, .increment,
     .decrement, .less, .at].contains s
  | .eof => false
  | .invalid => false

/-- Whether what precedes can be type arguments, by the token after them. -/
def canFollowTypeArguments : Parser Bool := do
  let t ← token
  match t with
  | .symbol .lparen => return true
  | .template _ _ => return true
  | .symbol .less => return false
  | .symbol .greater => return false
  | .symbol .plus => return false
  | .symbol .minus => return false
  | _ =>
    let joins := (strength? t).isSome || (← isAtWord "as") || (← isAtWord "satisfies")
    return (← afterLineEnd) || joins || !startsExpression t

/-- Type arguments in an expression. They are taken for comparisons unless what follows rules that
out. -/
def expressionTypeArguments : Parser Unit := do
  openAngle
  discard <| itemsSeparated g.nestedType
  ensure ((← isAt .greater) && (← get).rest.head? != some '=')
  advance
  ensure (← canFollowTypeArguments)

structure Operand where
  expr : Expr
  /-- Whether an access that may find nothing is among what has been read. -/
  optional : Bool := false

/-- What may follow after `?.`: a name, an index or a call. -/
def optionalAccess : Parser Unit := do
  match ← token with
  | .word _ _ => advance
  | .privateName _ => advance
  | .symbol .lbracket =>
    advance
    discard <| enclosed g.evaluated
    expect .rbracket
  | .symbol .lparen => g.arguments
  | .symbol .less =>
    ensure (← typed)
    g.typeArguments
    g.arguments
  | _ => failure

def operandStep (calls : Bool) (o : Operand) : Parser (Option Operand) := do
  match ← token with
  | .symbol .dot =>
    discard o.expr.settle
    advance
    match ← token with
    | .word _ _ => advance
    | .privateName _ => advance
    | _ => failure
    return some { o with expr := { shape := .access } }
  | .symbol .questionDot =>
    discard o.expr.settle
    ensure calls
    advance
    g.optionalAccess
    return some { expr := Expr.value, optional := true }
  | .symbol .lbracket =>
    if (← read).inDecorator then
      return none
    discard o.expr.settle
    advance
    discard <| enclosed g.evaluated
    expect .rbracket
    return some { o with expr := { shape := .access } }
  | .symbol .bang =>
    if (← typed) && !(← afterLineEnd) then
      advance
      return some { o with expr := if o.expr.isSimpleTarget then { shape := .access } else Expr.value }
    return none
  | .template _ _ =>
    discard o.expr.settle
    ensure (!o.optional)
    discard <| template (discard <| enclosed g.evaluated)
    return some { o with expr := Expr.value }
  | .symbol .lparen =>
    if calls then
      discard o.expr.settle
      g.arguments
      return some { o with expr := Expr.value }
    return none
  | _ =>
    if (← typed) && (← isAtAngle) then
      match ← attempt g.expressionTypeArguments with
      | some _ =>
        discard o.expr.settle
        return some { o with expr := Expr.value }
      | none => return none
    return none

/-- An operand with its accesses and, if `calls` says so, its calls. -/
def leftHandBody (calls : Bool) : Parser Expr := do
  let first ← g.primary
  let whole ← extendAll (g.operandStep calls) { expr := first }
  return if whole.optional then Expr.value else whole.expr

/-! ### Operators -/

/-- Whether `await` is an operator here. Where it may only be a name, an operand after it makes the
text ill-formed. -/
def isAtAwait : Parser Bool := do
  unless ← isAtWord "await" do
    return false
  if (← read).awaits then
    return true
  let after ← next
  match after.token with
  | .word _ _ => ensure after.afterLineEnd
  | .number => ensure after.afterLineEnd
  | .string _ => ensure after.afterLineEnd
  | _ => pure ()
  return false

/-- An operator before its operand, to which no power may be applied. -/
def unaryOperation : Parser Expr := do
  advance
  discard <| (← g.unary).settle
  ensure !(← isAt .power)
  return Expr.value

def typeAssertion : Parser Expr := do
  expect .less
  unless ← eatWord "const" do
    g.nestedType
  expect .greater
  let operand ← (← g.unary).settle
  ensure !(← isAt .power)
  return if operand.isSimpleTarget then { shape := .access } else Expr.value

def unaryBody : Parser Expr := do
  if ← isAtAwait then
    return ← g.unaryOperation
  match ← token with
  | .symbol .plus => g.unaryOperation
  | .symbol .minus => g.unaryOperation
  | .symbol .tilde => g.unaryOperation
  | .symbol .bang => g.unaryOperation
  | .word "delete" false => g.unaryOperation
  | .word "void" false => g.unaryOperation
  | .word "typeof" false => g.unaryOperation
  | .symbol .increment =>
    advance
    ensure (← g.unary).isSimpleTarget
    return Expr.value
  | .symbol .decrement =>
    advance
    ensure (← g.unary).isSimpleTarget
    return Expr.value
  | .symbol .less =>
    if (← read).dialect.markup then
      g.leftHandBody true
    else
      ensure (← typed)
      g.typeAssertion
  | _ =>
    let operand ← g.leftHandBody true
    if ((← isAt .increment) || (← isAt .decrement)) && !(← afterLineEnd) then
      ensure operand.isSimpleTarget
      advance
      return Expr.value
    return operand

/-- Puts together an operator that starts with a closing angle bracket. -/
def joinGreater : Parser Unit := do
  let cursor ← get
  if cursor.token == .symbol .greater then
    match longestSymbol? greaterSpellings cursor.start with
    | some (s, rest) => set { cursor with token := .symbol s, rest, spelled := rfl }
    | none => pure ()

/-- The shape of two operands joined by an operator. Coalescing does not mix with the other logical
operators unless parentheses keep them apart. -/
def joinedShape (operator : Token) (left right : Expr) : Parser Shape := do
  match operator with
  | .symbol .coalesce =>
    ensure (left.shape != .logical && right.shape != .logical)
    return .coalescing
  | .symbol .orOr =>
    ensure (left.shape != .coalescing && right.shape != .coalescing)
    return .logical
  | .symbol .andAnd =>
    ensure (left.shape != .coalescing && right.shape != .coalescing)
    return .logical
  | _ => return .value

def binaryStep (least : Nat) (left : Expr) : Parser (Option Expr) := do
  joinGreater
  let operator ← token
  if (← typed) && ((← isAtWord "as") || (← isAtWord "satisfies")) then
    if (← afterLineEnd) || least ≥ 8 then
      return none
    discard left.settle
    advance
    unless ← eatWord "const" do
      g.nestedType
    return some (if left.isSimpleTarget then { shape := .access } else Expr.value)
  match strength? operator with
  | none => return none
  | some s =>
    if s < least || s == least && operator != .symbol .power then
      return none
    if operator == .word "in" false && !(← read).allowIn then
      return none
    discard left.settle
    advance
    let right ← (← g.binary s).settle
    return some { shape := ← joinedShape operator left right }

/-- An expression whose operators bind tighter than `least`. A hidden name may stand on the left of
`in`. -/
def binaryBody (least : Nat) : Parser Expr := do
  let left ← do
    match ← token with
    | .privateName _ =>
      advance
      ensure ((← isAtWord "in") && (← read).allowIn && least < 8)
      pure Expr.value
    | _ => g.unaryBody
  extendAll (g.binaryStep least) left

def yieldExpression : Parser Expr := do
  expectWord "yield"
  unless ← afterLineEnd do
    let isDelegated ← eat .star
    let isBare ← do
      match ← token with
      | .eof => pure true
      | .symbol s =>
        pure ([.semicolon, .rbrace, .rparen, .rbracket, .colon, .comma].contains s)
      | .word "in" false => pure true
      | _ => pure false
    if isDelegated || !isBare then
      discard g.assigned
  return Expr.value

def assignmentBody (allowResultType : Bool) : Parser Expr := do
  if (← isAtWord "yield") && (← read).yields then
    return ← g.yieldExpression
  if ← g.parenthesizedArrow allowResultType then
    return Expr.value
  if ← g.asyncNameArrow allowResultType then
    return Expr.value
  let left ← g.binaryBody 0
  joinGreater
  match ← token with
  | .symbol .arrow =>
    ensure (left.shape == .reference && !(← afterLineEnd))
    advance
    g.arrowBody false allowResultType
    return Expr.value
  | .symbol .assign =>
    ensure left.isTarget
    advance
    discard (← g.assignment allowResultType).settle
    return { shape := .assignment }
  | .symbol .compoundAssign =>
    ensure left.isSimpleTarget
    advance
    discard (← g.assignment allowResultType).settle
    return Expr.value
  | .symbol .slashAssign =>
    ensure left.isSimpleTarget
    advance
    discard (← g.assignment allowResultType).settle
    return Expr.value
  | .symbol .question =>
    discard left.settle
    advance
    discard <| enclosed do
      (← g.assignment false).settle
    expect .colon
    discard (← g.assignment allowResultType).settle
    return Expr.value
  | _ => return left

end ImportSync.Syntax.Grammar
