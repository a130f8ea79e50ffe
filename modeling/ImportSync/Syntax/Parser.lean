import ImportSync.Syntax.Scan

/-!
Parsers that read one token ahead. A parser either fails or yields a value and moves on; there is one
kind of failure, since a text that breaks any rule exports nothing. Where the grammar needs to look
further ahead, it tries one reading and takes the other when the first one fails, from the same place.
-/

namespace ImportSync.Syntax

/-- What a module text may contain beyond plain ECMAScript, and whether it is a module at all. -/
structure Dialect where
  /-- Type annotations and the other additions of TypeScript. -/
  typed : Bool
  /-- Markup elements in expressions. -/
  markup : Bool
  /-- A module rather than a script: `await` is reserved at the top level, and `<!--` starts no
  comment. -/
  isModule : Bool
  deriving DecidableEq, Repr

/-- A place in the text: the token that starts there, and the texts from its start and after its
end. A word that starts there is spelled as a name. -/
structure Cursor where
  /-- Whether a line ended between the token before and this one. -/
  afterLineEnd : Bool
  token : Token
  start : Text
  rest : Text
  spelled : token.isSpelled = true

structure Scope where
  dialect : Dialect
  /-- Whether `in` is an operator. -/
  allowIn : Bool := true
  /-- Whether `yield` is an operator. -/
  yields : Bool := false
  /-- Whether `await` is an operator. -/
  awaits : Bool := false
  /-- Whether `return` may stand here. -/
  returns : Bool := false
  /-- Whether the expression is that of a decorator, which a bracket does not continue. -/
  inDecorator : Bool := false
  /-- Whether `extends` after a type is left to the construct around it. -/
  noConditionalType : Bool := false
  /-- Whether declarations only describe what exists elsewhere. -/
  ambient : Bool := false

abbrev Parser := ReaderT Scope (StateT Cursor Option)

def Cursor.at (scriptComments lineEnded : Bool) (t : Text) : Cursor :=
  match skipGap scriptComments .blanks lineEnded t with
  | some (ended, start) =>
    let scanned := scanToken start
    { afterLineEnd := ended
      token := scanned.1
      start
      rest := scanned.2
      spelled := isSpelled_scanToken start }
  | none =>
    { afterLineEnd := false, token := .invalid, start := t, rest := t, spelled := rfl }

namespace Parser

/-! ### Looking -/

def token : Parser Token :=
  return (← get).token

def afterLineEnd : Parser Bool :=
  return (← get).afterLineEnd

def typed : Parser Bool :=
  return (← read).dialect.typed

def next : Parser Cursor :=
  return Cursor.at (!(← read).dialect.isModule) false (← get).rest

def isAt (s : Symbol) : Parser Bool :=
  return (← token) == .symbol s

/-- Whether this token is the word, spelled without escapes. -/
def isAtWord (w : String) : Parser Bool :=
  return (← token) == .word w false

/-- The answer of a parser, or none where it fails; either way the place stays. -/
def ahead (p : Parser α) : Parser (Option α) := fun scope cursor =>
  some ((p scope cursor).map (·.1), cursor)

/-- The answer of a parser, or none and no move where it fails. -/
def attempt (p : Parser α) : Parser (Option α) := fun scope cursor =>
  match p scope cursor with
  | some (a, after) => some (some a, after)
  | none => some (none, cursor)

/-! ### Moving -/

def advance : Parser Unit := do
  set (← next)

def resume (t : Text) : Parser Unit := do
  set (Cursor.at (!(← read).dialect.isModule) false t)

def ensure (condition : Bool) : Parser Unit :=
  if condition then pure () else failure

def eat (s : Symbol) : Parser Bool := do
  if ← isAt s then
    advance
    return true
  return false

def eatWord (w : String) : Parser Bool := do
  if ← isAtWord w then
    advance
    return true
  return false

def expect (s : Symbol) : Parser Unit := do
  ensure (← eat s)

def expectWord (w : String) : Parser Unit := do
  ensure (← eatWord w)

/-- Whether a statement may end here without a semicolon. -/
def canEndStatement : Parser Bool := do
  match ← token with
  | .symbol .semicolon => return true
  | .symbol .rbrace => return true
  | .eof => return true
  | _ => afterLineEnd

def endStatement : Parser Unit := do
  unless ← eat .semicolon do
    ensure (← canEndStatement)

/-! ### Repeating

Every round of a repetition reads at least one token, so the length of the text that is left bounds
the number of rounds. -/

def rounds (step : Parser (Option α)) : Nat → Parser (List α)
  | 0 => failure
  | n + 1 => do
    match ← step with
    | some a => return a :: (← rounds step n)
    | none => return []

/-- Repeats a step until it declines. -/
def many (step : Parser (Option α)) : Parser (List α) := do
  rounds step ((← get).start.length + 1)

def extend (step : α → Parser (Option α)) : Nat → α → Parser α
  | 0, _ => failure
  | n + 1, a => do
    match ← step a with
    | some b => extend step n b
    | none => return a

/-- Extends a value by a step until the step declines. -/
def extendAll (step : α → Parser (Option α)) (a : α) : Parser α := do
  extend step ((← get).start.length + 1) a

/-- Items with commas between them up to a closing symbol, which is passed over; a comma may also
stand after the last one. -/
def itemsUntil (close : Symbol) (item : Parser α) : Parser (List α) := do
  let items ← many do
    if ← isAt close then
      return none
    let a ← item
    unless ← isAt close do
      expect .comma
    return some a
  expect close
  return items

def itemsSeparated (item : Parser α) : Parser (List α) := do
  let first ← item
  let others ← many do
    if ← eat .comma then
      return some (← item)
    return none
  return first :: others

/-! ### Scopes -/

/-- Reads as inside brackets, where `in` is an operator again. -/
def enclosed (p : Parser α) : Parser α :=
  withReader (fun s => { s with allowIn := true, inDecorator := false }) p

def withoutIn (p : Parser α) : Parser α :=
  withReader (fun s => { s with allowIn := false }) p

def describing (p : Parser α) : Parser α :=
  withReader (fun s => { s with ambient := true }) p

/-! ### Words as names -/

/-- Whether the word may be the name of a binding or refer to one. -/
def canBeName (w : String) : Parser Bool := do
  let scope ← read
  if w == "await" then
    return !scope.awaits
  if w == "yield" then
    return !scope.yields
  return !reservedWords.contains w

def isAtName : Parser Bool := do
  match ← token with
  | .word w _ => canBeName w
  | _ => return false

def name : Parser String := do
  match ← token with
  | .word w _ =>
    ensure (← canBeName w)
    advance
    return w
  | _ => failure

def anyWord : Parser String := do
  match ← token with
  | .word w _ =>
    advance
    return w
  | _ => failure

def quoted : Parser (List Text.Unit16) := do
  match ← token with
  | .string value =>
    advance
    return value
  | _ => failure

/-! ### Templates -/

/-- A template with its holes. Yields whether all its escapes mean something. -/
def template (hole : Parser Unit) : Parser Bool := do
  match ← token with
  | .template valid closed =>
    let (valid, _) ← extendAll (fun (valid, closed) => do
      if closed then
        return none
      advance
      hole
      ensure (← isAt .rbrace)
      match scanTemplate true 0 (← get).rest with
      | some (pieceValid, closed, after) =>
        modify fun cursor => { cursor with rest := after }
        return some (valid && pieceValid, closed)
      | none => failure) (valid, closed)
    advance
    return valid
  | _ => failure

end Parser

end ImportSync.Syntax
