import ImportSync.Syntax.Grammar.Expressions
import ImportSync.Syntax.Grammar.Modules

/-!
Statements and whole modules. Here the constructs of the grammar are given to one another, to a depth that
no text of the given length exhausts, and the one rule about a module as a whole is checked: it exports no
name twice, except where the dialect has types.
-/

namespace ImportSync.Syntax.Grammar

open ImportSync.Syntax.Parser

variable (g : Grammar)

def condition : Parser Unit := do
  expect .lparen
  discard <| enclosed g.evaluated
  expect .rparen

def loopBody : Parser Unit :=
  discard <| g.statement .body

/-! ### Loops -/

def countingRest : Parser Unit := do
  expect .semicolon
  unless ← isAt .semicolon do
    discard g.evaluated
  expect .semicolon
  unless ← isAt .rparen do
    discard g.evaluated
  expect .rparen
  g.loopBody

/-- The rest of a loop over a collection, from the word before the collection. -/
def collectionRest : Parser Unit := do
  if ← eatWord "of" then
    discard g.assigned
  else
    expectWord "in"
    discard g.evaluated
  expect .rparen
  g.loopBody

def isAtCollection : Parser Bool :=
  return (← isAtWord "of") || (← isAtWord "in")

/-- Whether a declaration starts at this word `let` in the head of a loop, by the token after it. It
may declare a variable of the name `of`. -/
def letDeclares (after : Token) : Bool :=
  match after with
  | .word w _ => w != "in" && w != "instanceof"
  | .symbol .lbracket => true
  | .symbol .lbrace => true
  | _ => false

/-- Whether resources are declared at this word `using`. -/
def isAtUsing : Parser Bool := do
  unless ← isAtWord "using" do
    return false
  let after ← next
  match after.token with
  | .word w _ => return !after.afterLineEnd && w != "of" && (← canBeName w)
  | _ => return false

/-- The word or words that start a declaration in the head of a loop, if one does. Yields whether
what it declares is constant. -/
def loopDeclarationStart : Parser (Option Bool) := do
  if ← eatWord "var" then
    return some false
  if ← eatWord "const" then
    return some true
  if (← isAtWord "let") && letDeclares (← next).token then
    advance
    return some false
  if ← isAtUsing then
    advance
    return some true
  let isAwaited ← ahead do
    ensure (← read).awaits
    expectWord "await"
    ensure (← isAtUsing)
  if isAwaited.isSome then
    advance
    advance
    return some true
  return none

/-- A `for` loop. What a loop over a collection assigns to starts neither with `let` nor, unless the loop
awaits, with `async of`. -/
def forLoop : Parser Unit := do
  expectWord "for"
  let isAwaited ← eatWord "await"
  ensure (!isAwaited || (← read).awaits)
  expect .lparen
  if ← isAt .semicolon then
    ensure (!isAwaited)
    enclosed g.countingRest
  else
    match ← loopDeclarationStart with
    | some isConstant =>
      let declarators ← withoutIn (itemsSeparated g.declarator)
      if ← isAtCollection then
        ensure (declarators.length == 1)
        ensure (!isAwaited || (← isAtWord "of"))
        enclosed g.collectionRest
      else
        ensure (!isAwaited)
        ensure (← areInitialized isConstant declarators)
        enclosed g.countingRest
    | none =>
      let startsLet ← isAtWord "let"
      let startsAsyncOf := (← isAtWord "async") && (← next).token == .word "of" false
      let head ← withoutIn g.expression
      if ← isAtCollection then
        ensure head.isTarget
        if ← isAtWord "of" then
          ensure (!startsLet && (isAwaited || !startsAsyncOf))
        else
          ensure (!isAwaited)
        enclosed g.collectionRest
      else
        ensure (!isAwaited)
        discard head.settle
        enclosed g.countingRest

/-! ### Branches -/

def caseStatements : Parser Unit := do
  discard <| many do
    if (← isAt .rbrace) || (← isAtWord "case") || (← isAtWord "default") then
      return none
    discard <| g.statement .list
    return some ()

def switchStatement : Parser Unit := do
  expectWord "switch"
  g.condition
  expect .lbrace
  let cases ← many do
    if ← isAt .rbrace then
      return none
    let isDefault ← eatWord "default"
    unless isDefault do
      expectWord "case"
      discard <| enclosed g.evaluated
    expect .colon
    g.caseStatements
    return some isDefault
  ensure ((cases.filter id).length ≤ 1)
  expect .rbrace

def tryStatement : Parser Unit := do
  expectWord "try"
  g.block
  let handled ← eatWord "catch"
  if handled then
    if ← eat .lparen then
      discard g.pattern
      discard g.annotation
      expect .rparen
    g.block
  let finalized ← eatWord "finally"
  if finalized then
    g.block
  ensure (handled || finalized)

def ifStatement : Parser Unit := do
  expectWord "if"
  g.condition
  discard <| g.statement .branch
  if ← eatWord "else" then
    discard <| g.statement .branch

/-! ### Jumps -/

/-- A jump out of a loop, to a label if one is given on the same line. -/
def jump : Parser Unit := do
  advance
  unless ← canEndStatement do
    discard name
  endStatement

def returnStatement : Parser Unit := do
  ensure (← read).returns
  expectWord "return"
  unless ← canEndStatement do
    discard g.evaluated
  endStatement

/-- A `throw`, with what is thrown on the same line. -/
def throwStatement : Parser Unit := do
  expectWord "throw"
  ensure !(← afterLineEnd)
  discard g.evaluated
  endStatement

/-! ### The rest -/

/-- An expression, or a statement with a label before it. -/
def expressionStatement : Parser Unit := do
  let isLabel ← do
    if ← isAtName then
      pure ((← next).token == .symbol .colon)
    else
      pure false
  if isLabel then
    advance
    advance
    discard <| g.statement .labelled
  else
    discard g.evaluated
    endStatement

/-- Whether this word `let` starts a declaration of variables, by the token after it. -/
def letStartsStatement (place : Place) (after : Token) : Bool :=
  if (Grammar.strength? after).isSome then
    false
  else
    match after with
    | .symbol s =>
      s == .lbracket || place == .list &&
        !([.assign, .compoundAssign, .slashAssign, .dot, .lparen, .semicolon].contains s)
    | _ => place == .list

/-- A function among statements. Only in a list of statements may it be asynchronous or a generator,
and a loop cannot consist of one. -/
def functionStatement (place : Place) : Parser Unit := do
  ensure (place != .body)
  if place != .list then
    ensure ((← isAtWord "function") && (← next).token != .symbol .star)
  discard <| g.functionDeclaration false

def decoratedStatement (place : Place) : Parser Statement := do
  ensure (place == .list)
  discard g.decorators
  if ← isAtWord "export" then
    g.exportDeclaration true
  else
    match ← g.declaration with
    | .class _ => return .plain
    | _ => failure

def wordStatement (place : Place) (w : String) : Parser Statement := do
  let plain (p : Parser Unit) : Parser Statement := do
    p
    return .plain
  match w with
  | "if" => plain g.ifStatement
  | "for" => plain g.forLoop
  | "while" => plain do
    advance
    g.condition
    g.loopBody
  | "do" => plain do
    advance
    g.loopBody
    expectWord "while"
    g.condition
    discard <| eat .semicolon
  | "with" => plain do
    advance
    g.condition
    g.loopBody
  | "switch" => plain g.switchStatement
  | "try" => plain g.tryStatement
  | "break" => plain jump
  | "continue" => plain jump
  | "return" => plain g.returnStatement
  | "throw" => plain g.throwStatement
  | "debugger" => plain do
    advance
    endStatement
  | "export" => g.exportDeclaration false
  | "import" =>
    let after ← next
    if after.token == .symbol .lparen || after.token == .symbol .dot then
      plain g.expressionStatement
    else
      plain importDeclaration
  | "function" => plain (g.functionStatement place)
  | "async" =>
    if ← isAtAsyncFunction then
      plain (g.functionStatement place)
    else
      plain g.expressionStatement
  | "var" => plain (discard g.declaration)
  | "class" => plain do
    ensure (place == .list)
    discard g.declaration
  | "const" => plain do
    ensure (place == .list)
    discard g.declaration
  | "let" =>
    if letStartsStatement place (← next).token then
      plain do
        ensure (place == .list)
        discard g.declaration
    else
      plain g.expressionStatement
  | _ =>
    match ← loopDeclarationStart with
    | some isConstant => plain do
      ensure (place == .list)
      discard <| g.variableRest isConstant
    | none =>
      if ← isAtTypedDeclaration then
        plain (discard g.declaration)
      else
        plain g.expressionStatement

def statementBody (place : Place) : Parser Statement := do
  match ← token with
  | .symbol .lbrace =>
    g.block
    return .plain
  | .symbol .semicolon =>
    advance
    return .plain
  | .symbol .at => g.decoratedStatement place
  | .word w false => g.wordStatement place w
  | _ =>
    g.expressionStatement
    return .plain

end ImportSync.Syntax.Grammar

namespace ImportSync.Syntax

/-! ### Modules -/

/-- The grammar in which constructs may be nested to the given depth. -/
def Grammar.ofDepth : Nat → Grammar
  | 0 => Grammar.empty
  | n + 1 =>
    { type := fun scope cursor => (ofDepth n).typeBody scope cursor
      pattern := fun scope cursor => (ofDepth n).patternBody scope cursor
      assignment := fun allow scope cursor => (ofDepth n).assignmentBody allow scope cursor
      binary := fun least scope cursor => (ofDepth n).binaryBody least scope cursor
      unary := fun scope cursor => (ofDepth n).unaryBody scope cursor
      leftHand := fun calls scope cursor => (ofDepth n).leftHandBody calls scope cursor
      element := fun scope cursor => (ofDepth n).elementBody scope cursor
      statement := fun place scope cursor => (ofDepth n).statementBody place scope cursor }

def statements (g : Grammar) : Parser (List Statement) :=
  Parser.many do
    if (← Parser.token) == .eof then
      return none
    return some (← g.statement .list)

/-- A text without the line that names its interpreter. -/
def dropInterpreterLine (t : Text) : Text :=
  if "#!".toList.isPrefixOf t then t.dropWhile (!isLineEnd ·) else t

/-- The statements of a text, by the grammar alone. -/
def parseStatements? (d : Dialect) (t : Text) : Option (List Statement) :=
  let body := dropInterpreterLine t
  let scope : Scope := { dialect := d, awaits := d.isModule }
  let start := Cursor.at (!d.isModule) true body
  let depth := 8 * (body.length + 2)
  (statements (Grammar.ofDepth depth) scope start).map (·.1)

def exportsOnce (statements : List Statement) : Bool :=
  let names := statements.flatMap Statement.exportedNames
  names.eraseDups.length == names.length

def parse? (d : Dialect) (t : Text) : Option (List Statement) :=
  (parseStatements? d t).filter fun statements => d.typed || exportsOnce statements

end ImportSync.Syntax
