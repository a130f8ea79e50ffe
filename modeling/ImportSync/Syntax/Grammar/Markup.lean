import ImportSync.Syntax.Grammar.Types

/-!
Markup elements. Between the tags of an element the text is not made of tokens, so these parsers
work on the text after the current token. They stop on the token that ends an element and leave it
to their caller to go on from there, by a token or in the text of an element around it.
-/

namespace ImportSync.Syntax.Grammar

open ImportSync.Syntax.Parser

variable (g : Grammar)

/-- A name in markup, which may contain hyphens. -/
def markupWord : Parser Text := do
  let cursor ← get
  match cursor.token with
  | .word _ _ =>
    let belongs (c : Char) : Bool := Text.isNamePart c || c == '-'
    resume (cursor.start.dropWhile belongs)
    return cursor.start.takeWhile belongs
  | _ => failure

/-- The name of an element: words joined by dots, or two words joined by a colon. -/
def tagName : Parser Text := do
  let first ← markupWord
  if ← eat .colon then
    return first ++ ':' :: (← markupWord)
  let others ← many do
    if ← eat .dot then
      return some ('.' :: (← markupWord))
    return none
  return first ++ others.flatten

/-- A quoted attribute value, in which nothing is escaped. -/
def attributeText : Parser Unit := do
  match (← get).start with
  | quote :: body =>
    ensure (quote == '"' || quote == '\'')
    match body.dropWhile (· != quote) with
    | _ :: after => resume after
    | [] => failure
  | [] => failure

def attributeValue : Parser Unit := do
  match ← token with
  | .symbol .lbrace =>
    advance
    discard <| enclosed g.evaluated
    expect .rbrace
  | .symbol .less =>
    g.element
    advance
  | _ => attributeText

/-- One attribute, or the properties of a value in its place. -/
def tagAttribute : Parser Unit := do
  if ← eat .lbrace then
    expect .ellipsis
    discard <| enclosed g.assigned
    expect .rbrace
  else
    discard markupWord
    if ← eat .colon then
      discard markupWord
    if ← eat .assign then
      g.attributeValue

inductive Contents where
  | ongoing
  /-- The closing tag, with its name if it has one. -/
  | closed (tag : Option Text)

/-- One piece of the contents of an element: text, an expression in braces, an element, or the
closing tag. -/
def contentsStep : Contents → Parser (Option Contents)
  | .closed _ => return none
  | .ongoing => do
    let raw := (← get).rest
    match raw with
    | [] => failure
    | '<' :: _ =>
      resume raw
      if (← next).token == .symbol .slash then
        advance
        advance
        if ← isAt .greater then
          return some (.closed none)
        let tag ← tagName
        ensure (← isAt .greater)
        return some (.closed (some tag))
      else
        g.element
        return some .ongoing
    | '{' :: _ =>
      resume raw
      advance
      unless ← isAt .rbrace do
        discard <| eat .ellipsis
        discard <| enclosed g.evaluated
        ensure (← isAt .rbrace)
      return some .ongoing
    | c :: _ =>
      let isText (c : Char) : Bool := c != '<' && c != '{' && c != '>' && c != '}'
      ensure (isText c)
      modify fun cursor => { cursor with rest := raw.dropWhile isText }
      return some .ongoing

/-- The contents of an element from after its opening tag up to the end of its closing tag, whose
name is yielded. -/
def contents : Parser (Option Text) := do
  match ← extendAll g.contentsStep .ongoing with
  | .closed tag => return tag
  | .ongoing => failure

def elementBody : Parser Unit := do
  expect .less
  if ← isAt .greater then
    ensure (← g.contents).isNone
  else
    let tag ← tagName
    if (← typed) && (← isAt .less) then
      g.typeArguments
    discard <| many do
      if (← isAt .slash) || (← isAt .greater) then
        return none
      g.tagAttribute
      return some ()
    if ← eat .slash then
      ensure (← isAt .greater)
    else
      ensure (← isAt .greater)
      ensure ((← g.contents) == some tag)

end ImportSync.Syntax.Grammar
