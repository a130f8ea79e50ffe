import ImportSync.Text.Basic

/-!
JSON values, records read from them, and JSON text. A record is written as an object or as an array of
its first fields in order. Keys it does not know are passed over, and a key it knows may stand once. The
grammar of the text is the strict one: no comments, no commas before a closing bracket, no control
characters in strings.
-/

namespace ImportSync

/-- A JSON value. Numbers are not told apart, since no option is a number. A string that contains
half of a character pair has no text. -/
inductive Json where
  | null
  | bool (b : Bool)
  | number
  | string (text : Option Text)
  | array (items : List Json)
  | object (entries : List (Option Text × Json))

namespace Json

def bool? : Json → Option Bool
  | .bool b => some b
  | _ => none

def text? : Json → Option Text
  | .string t => t
  | _ => none

def listOf? (item : Json → Option α) : Json → Option (List α)
  | .array items => items.mapM item
  | _ => none

def optional? (value : Json → Option α) : Json → Option (Option α)
  | .null => some none
  | j => (value j).map some

/-- The value of a field among the entries of an object: none if the field is not there. The field
may be written under several keys, but only once. -/
def field? (keys : List Text) (entries : List (Text × Json)) : Option (Option Json) :=
  match entries.filter fun e => keys.contains e.1 with
  | [] => some none
  | [e] => some (some e.2)
  | _ => none

/-- The values of the fields of a record, in order, each under the keys given for it. -/
def fields? (keys : List (List Text)) : Json → Option (List (Option Json))
  | .object entries => do
    let texts ← entries.mapM fun e => e.1.map (·, e.2)
    keys.mapM (field? · texts)
  | .array items =>
    if items.length ≤ keys.length then
      some (items.map some ++ List.replicate (keys.length - items.length) none)
    else
      none
  | _ => none

def orDefault (value : Json → Option α) (byDefault : α) : Option Json → Option α
  | some j => value j
  | none => some byDefault

end Json

end ImportSync

namespace ImportSync.Json

/-! ### Text -/

def isBlank (c : Char) : Bool :=
  c == ' ' || c == '\n' || c == '\t' || c == '\r'

def skipBlanks (t : Text) : Text :=
  t.dropWhile isBlank

def fourDigits? : Text → Option Nat
  | a :: b :: c :: d :: _ => Text.hexValue? [a, b, c, d]
  | _ => none

def shortEscape? : Char → Option Char
  | '"' => some '"'
  | '\\' => some '\\'
  | '/' => some '/'
  | 'b' => some '\x08'
  | 'f' => some '\x0c'
  | 'n' => some '\n'
  | 'r' => some '\r'
  | 't' => some '\t'
  | _ => none

/-- Reads a string after its opening quote, passing over some characters first. -/
def scanString : Nat → Text → Option (List Text.Unit16 × Text)
  | _, [] => none
  | skip + 1, _ :: rest => scanString skip rest
  | 0, c :: rest =>
    if c = '"' then
      some ([], rest)
    else if c = '\\' then
      match rest with
      | 'u' :: digits =>
        (fourDigits? digits).bind fun n =>
          (scanString 5 rest).map fun (units, after) => (Text.Unit16.ofNat n :: units, after)
      | letter :: _ =>
        (shortEscape? letter).bind fun meaning =>
          (scanString 1 rest).map fun (units, after) => (.char meaning :: units, after)
      | [] => none
    else if c.toNat < 0x20 then
      none
    else
      (scanString 0 rest).map fun (units, after) => (.char c :: units, after)

def skipDigits (t : Text) : Option Text :=
  if t.head?.any Char.isDigit then some (t.dropWhile Char.isDigit) else none

/-- Drops the whole part of a number, which starts with no needless zero. -/
def skipWhole : Text → Option Text
  | '0' :: rest => if rest.head?.any Char.isDigit then none else some rest
  | t => skipDigits t

def skipFraction : Text → Option Text
  | '.' :: rest => skipDigits rest
  | t => some t

def skipExponent : Text → Option Text
  | e :: rest =>
    if e = 'e' ∨ e = 'E' then
      match rest with
      | '+' :: digits => skipDigits digits
      | '-' :: digits => skipDigits digits
      | digits => skipDigits digits
    else
      some (e :: rest)
  | [] => some []

def skipNumber (t : Text) : Option Text :=
  let unsigned := match t with
    | '-' :: rest => rest
    | t => t
  (skipWhole unsigned).bind fun t => (skipFraction t).bind skipExponent

def skipWord (word : String) (t : Text) : Option Text :=
  if word.toList.isPrefixOf t then some (t.drop word.toList.length) else none

inductive Goal where
  | value
  /-- Items of an array that is open, each with a comma before it. -/
  | items
  /-- Entries of an object that is open, each with a comma before it. -/
  | entries
  | entry

def Goal.Result : Goal → Type
  | .value => Json
  | .items => List Json
  | .entries => List (Option Text × Json)
  | .entry => Option Text × Json

/-- Reads what is looked for at the start of a text, after blanks. Every step reads at least one
character, so the length of the text bounds their number. -/
def read? : Nat → (goal : Goal) → Text → Option (goal.Result × Text)
  | 0, _, _ => none
  | n + 1, .value, t =>
    match skipBlanks t with
    | '"' :: rest =>
      (scanString 0 rest).map fun (units, after) => (.string (Text.ofUnits? units), after)
    | '[' :: rest =>
      match skipBlanks rest with
      | ']' :: after => some (.array [], after)
      | _ => do
        let (first, rest) ← read? n .value rest
        let (others, after) ← read? n .items rest
        return (.array (first :: others), after)
    | '{' :: rest =>
      match skipBlanks rest with
      | '}' :: after => some (.object [], after)
      | _ => do
        let (first, rest) ← read? n .entry rest
        let (others, after) ← read? n .entries rest
        return (.object (first :: others), after)
    | t =>
      ((skipWord "null" t).map (.null, ·))
        <|> ((skipWord "true" t).map (.bool true, ·))
        <|> ((skipWord "false" t).map (.bool false, ·))
        <|> ((skipNumber t).map (.number, ·))
  | n + 1, .items, t =>
    match skipBlanks t with
    | ']' :: after => some ([], after)
    | ',' :: rest => do
      let (first, rest) ← read? n .value rest
      let (others, after) ← read? n .items rest
      return (first :: others, after)
    | _ => none
  | n + 1, .entries, t =>
    match skipBlanks t with
    | '}' :: after => some ([], after)
    | ',' :: rest => do
      let (first, rest) ← read? n .entry rest
      let (others, after) ← read? n .entries rest
      return (first :: others, after)
    | _ => none
  | n + 1, .entry, t =>
    match skipBlanks t with
    | '"' :: rest => do
      let (units, rest) ← scanString 0 rest
      match skipBlanks rest with
      | ':' :: rest => do
        let (value, after) ← read? n .value rest
        return ((Text.ofUnits? units, value), after)
      | _ => none
    | _ => none

def parse? (t : Text) : Option Json := do
  let (j, after) ← read? (2 * t.length + 2) .value t
  if (skipBlanks after).isEmpty then some j else none

end ImportSync.Json
