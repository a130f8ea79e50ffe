import ImportSync.Syntax.Token
import ImportSync.Text.Identifier

/-!
Scanners. Each one takes the text at which something starts and yields what it found together with
the text after it, by recursion on the text. A scanner that has read several characters at once
goes on with a count of characters still to be passed over.
-/

namespace ImportSync.Syntax

open Text

/-! ### Between tokens -/

def isLineEnd (c : Char) : Bool :=
  c == '\n' || c == '\r' || c == '\u2028' || c == '\u2029'

def isSpace (c : Char) : Bool :=
  c == ' ' || c == '\t' ||
    inRanges
      [(0x0B, 0x0C), (0x85, 0x85), (0xA0, 0xA0), (0x1680, 0x1680), (0x2000, 0x200B),
       (0x202F, 0x202F), (0x205F, 0x205F), (0x3000, 0x3000), (0xFEFF, 0xFEFF)]
      c.toNat

inductive Gap where
  | blanks
  | lineComment
  | blockComment
  deriving DecidableEq

/-- Passes over blanks and comments. Yields whether a line end was among them, and the text of the
next token; nothing if a comment does not end. With `scriptComments`, the two markup comment signs
start line comments as well, the closing one only as the first thing on a line. -/
def skipGap (scriptComments : Bool) : Gap → Bool → Text → Option (Bool × Text)
  | .blanks, lineEnded, [] => some (lineEnded, [])
  | .blanks, lineEnded, c :: rest =>
    if isLineEnd c then
      skipGap scriptComments .blanks true rest
    else if isSpace c then
      skipGap scriptComments .blanks lineEnded rest
    else if "//".toList.isPrefixOf (c :: rest) then
      skipGap scriptComments .lineComment lineEnded rest
    else if "/*".toList.isPrefixOf (c :: rest) then
      match rest with
      | _ :: inner => skipGap scriptComments .blockComment lineEnded inner
      | [] => none
    else if scriptComments
        && ("<!--".toList.isPrefixOf (c :: rest)
          || lineEnded && "-->".toList.isPrefixOf (c :: rest)) then
      skipGap scriptComments .lineComment lineEnded rest
    else
      some (lineEnded, c :: rest)
  | .lineComment, lineEnded, [] => some (lineEnded, [])
  | .lineComment, lineEnded, c :: rest =>
    if isLineEnd c then
      skipGap scriptComments .blanks true rest
    else
      skipGap scriptComments .lineComment lineEnded rest
  | .blockComment, _, [] => none
  | .blockComment, lineEnded, c :: rest =>
    match c, rest with
    | '*', '/' :: after => skipGap scriptComments .blanks lineEnded after
    | c, rest => skipGap scriptComments .blockComment (lineEnded || isLineEnd c) rest

/-! ### Escapes -/

/-- Reads what follows `\u`: the code point, and how many characters it takes. -/
def unicodeEscape? : Text → Option (Nat × Nat)
  | '{' :: rest =>
    let digits := rest.takeWhile (· != '}')
    if digits.isEmpty || digits.length == rest.length then
      none
    else
      (hexValue? digits).bind fun n =>
        if n ≤ 0x10FFFF then some (n, digits.length + 2) else none
  | a :: b :: c :: d :: _ => (hexValue? [a, b, c, d]).map (·, 4)
  | _ => none

/-- Reads what follows a backslash in a quoted text: what it stands for, and how many characters it
takes. -/
def quotedEscape? : Text → Option (List Unit16 × Nat)
  | [] => none
  | '\r' :: '\n' :: _ => some ([], 2)
  | 'u' :: rest => (unicodeEscape? rest).map fun (n, taken) => ([.ofNat n], taken + 1)
  | 'x' :: a :: b :: _ => (hexValue? [a, b]).map fun n => ([.ofNat n], 3)
  | 'x' :: _ => none
  | c :: _ =>
    if isLineEnd c then some ([], 1)
    else
      let meaning :=
        match c with
        | 'n' => '\n'
        | 't' => '\t'
        | 'r' => '\r'
        | 'b' => '\x08'
        | 'v' => '\x0b'
        | 'f' => '\x0c'
        | '0' => '\x00'
        | other => other
      some ([.char meaning], 1)

/-! ### Tokens of many characters -/

/-- Reads on in a name. Yields its characters with escapes resolved, whether there were escapes, and
the text after it. -/
def scanNameTail : Nat → Text → Option (Text × Bool × Text)
  | _, [] => some ([], false, [])
  | skip + 1, _ :: rest => scanNameTail skip rest
  | 0, c :: rest =>
    if c = '\\' then
      match rest with
      | 'u' :: escape =>
        match unicodeEscape? escape with
        | some (n, taken) =>
          if isNamePart (Char.ofNat n) then
            (scanNameTail (taken + 1) rest).map fun (name, _, after) =>
              (Char.ofNat n :: name, true, after)
          else
            none
        | none => none
      | _ => none
    else if isNamePart c then
      (scanNameTail 0 rest).map fun (name, escaped, after) => (c :: name, escaped, after)
    else
      some ([], false, c :: rest)

def scanName (t : Text) : Option (String × Bool × Text) :=
  match scanNameTail 0 t with
  | some (c :: name, escaped, after) =>
    if isNameStart c then some (String.ofList (c :: name), escaped, after) else none
  | _ => none

theorem all_isNamePart_of_scanNameTail {skip : Nat} {t name after : Text} {escaped : Bool}
    (h : scanNameTail skip t = some (name, escaped, after)) : name.all isNamePart = true := by
  induction t generalizing skip name escaped after with
  | nil =>
    simp only [scanNameTail, Option.some.injEq, Prod.mk.injEq] at h
    simp [← h.1]
  | cons c rest ih =>
    cases skip with
    | succ skip => exact ih h
    | zero =>
      simp only [scanNameTail] at h
      split at h
      · split at h
        · split at h
          · split at h
            · rename_i part
              obtain ⟨found, tail, eq⟩ := Option.map_eq_some_iff.1 h
              simp only [Prod.mk.injEq] at eq
              rw [← eq.1, List.all_cons, part, ih tail]
              rfl
            · simp at h
          · simp at h
        · simp at h
      · split at h
        · rename_i part
          obtain ⟨found, tail, eq⟩ := Option.map_eq_some_iff.1 h
          simp only [Prod.mk.injEq] at eq
          rw [← eq.1, List.all_cons, part, ih tail]
          rfl
        · simp only [Option.some.injEq, Prod.mk.injEq] at h
          simp [← h.1]

theorem isIdentifier_of_scanName {t after : Text} {name : String} {escaped : Bool}
    (h : scanName t = some (name, escaped, after)) : isIdentifier name.toList = true := by
  simp only [scanName] at h
  split at h
  · rename_i c tail escaped' after' found
    split at h
    · rename_i start
      have parts := all_isNamePart_of_scanNameTail found
      simp only [Option.some.injEq, Prod.mk.injEq] at h
      simp only [List.all_cons, Bool.and_eq_true] at parts
      simp [← h.1, isIdentifier, start, parts.2]
    · simp at h
  · simp at h

/-- Passes over digits that single underscores may separate; `inside` tells whether a digit stands
before. -/
def skipDigits (digit : Char → Bool) : Bool → Text → Option Text
  | _, [] => some []
  | inside, c :: rest =>
    if digit c then
      skipDigits digit true rest
    else if c = '_' then
      if inside && (rest.head?.any digit) then skipDigits digit false rest else none
    else
      some (c :: rest)

def skipSomeDigits (digit : Char → Bool) (t : Text) : Option Text :=
  if t.head?.any digit then skipDigits digit false t else none

def skipExponent : Text → Option Text
  | e :: rest =>
    if e = 'e' ∨ e = 'E' then
      match rest with
      | '+' :: digits => skipSomeDigits Char.isDigit digits
      | '-' :: digits => skipSomeDigits Char.isDigit digits
      | digits => skipSomeDigits Char.isDigit digits
    else
      some (e :: rest)
  | [] => some []

def skipFraction : Text → Option Text
  | '.' :: rest =>
    if rest.head?.any Char.isDigit then
      (skipSomeDigits Char.isDigit rest).bind skipExponent
    else if rest.head? = some '_' then
      none
    else
      skipExponent rest
  | t => skipExponent t

def skipBigSuffix : Text → Text
  | 'n' :: rest => rest
  | t => t

def scanDigits : Text → Option Text
  | '0' :: c :: rest =>
    if c = 'x' ∨ c = 'X' then
      (skipSomeDigits (fun d => (hexDigit? d).isSome) rest).map skipBigSuffix
    else if c = 'o' ∨ c = 'O' then
      (skipSomeDigits (fun d => '0' ≤ d && d ≤ '7') rest).map skipBigSuffix
    else if c = 'b' ∨ c = 'B' then
      (skipSomeDigits (fun d => d == '0' || d == '1') rest).map skipBigSuffix
    else if c.isDigit then
      let digits := (c :: rest).takeWhile Char.isDigit
      let after := (c :: rest).dropWhile Char.isDigit
      if digits.all fun d => '0' ≤ d && d ≤ '7' then some after else skipFraction after
    else if c = '_' then
      none
    else if c = 'n' then
      some rest
    else
      skipFraction (c :: rest)
  | '.' :: rest => (skipSomeDigits Char.isDigit rest).bind skipExponent
  | t =>
    (skipSomeDigits Char.isDigit t).bind fun after =>
      match after with
      | 'n' :: rest => some rest
      | _ => skipFraction after

/-- Passes over a number, which neither a name nor a digit may follow at once. -/
def scanNumber (t : Text) : Option Text :=
  (scanDigits t).bind fun after =>
    if after.head?.any fun c => isNamePart c || c == '\\' then none else some after

def scanQuoted (quote : Char) : Nat → Text → Option (List Unit16 × Text)
  | _, [] => none
  | skip + 1, _ :: rest => scanQuoted quote skip rest
  | 0, c :: rest =>
    if c = quote then
      some ([], rest)
    else if c = '\\' then
      (quotedEscape? rest).bind fun (meaning, taken) =>
        (scanQuoted quote taken rest).map fun (units, after) => (meaning ++ units, after)
    else if c = '\n' ∨ c = '\r' then
      none
    else
      (scanQuoted quote 0 rest).map fun (units, after) => (.char c :: units, after)

def isTemplateEscape : Text → Bool
  | '0' :: rest => !rest.head?.any Char.isDigit
  | c :: rest => !c.isDigit && (quotedEscape? (c :: rest)).isSome
  | [] => false

/-- Reads a template from after its opening quote or the end of a hole up to its closing quote or
the next hole. Yields whether all escapes mean something, whether the template ends there, and the
text after. -/
def scanTemplate : Bool → Nat → Text → Option (Bool × Bool × Text)
  | _, _, [] => none
  | valid, skip + 1, _ :: rest => scanTemplate valid skip rest
  | valid, 0, c :: rest =>
    if c = '`' then
      some (valid, true, rest)
    else if c = '$' ∧ rest.head? = some '{' then
      some (valid, false, rest.tail)
    else if c = '\\' then
      scanTemplate (valid && isTemplateEscape rest) 1 rest
    else
      scanTemplate valid 0 rest

def scanExpressionBody : Bool → Bool → Text → Option Text
  | _, _, [] => none
  | inClass, escaped, c :: rest =>
    if isLineEnd c then
      none
    else if escaped then
      scanExpressionBody inClass false rest
    else if c = '\\' then
      scanExpressionBody inClass true rest
    else if c = '[' then
      scanExpressionBody true false rest
    else if c = ']' then
      scanExpressionBody false false rest
    else if c = '/' ∧ !inClass then
      some rest
    else
      scanExpressionBody inClass false rest

/-- Passes over a regular expression from its opening slash to the end of its flags, each of which
may stand once. -/
def scanRegularExpression : Text → Option Text
  | '/' :: rest =>
    (scanExpressionBody false false rest).bind fun after =>
      let flags := after.takeWhile isNamePart
      if flags.all ("dgimsuvy".toList.contains ·) && flags.eraseDups.length == flags.length then
        some (after.dropWhile isNamePart)
      else
        none
  | _ => none

/-! ### The next token -/

/-- Reads punctuation. A question mark and a dot before a digit are two symbols. -/
def scanSymbol? (t : Text) : Option (Symbol × Text) :=
  match t with
  | '?' :: '.' :: rest =>
    if rest.head?.any Char.isDigit then some (.question, '.' :: rest)
    else some (.questionDot, rest)
  | _ => longestSymbol? symbolSpellings t

def scanToken (t : Text) : Token × Text :=
  match t with
  | [] => (.eof, [])
  | c :: rest =>
    let found : Option (Token × Text) :=
      if isNameStart c || c == '\\' then
        (scanName t).map fun (name, escaped, after) => (.word name escaped, after)
      else if c.isDigit || c == '.' && rest.head?.any Char.isDigit then
        (scanNumber t).map (.number, ·)
      else if c == '"' || c == '\'' then
        (scanQuoted c 0 rest).map fun (units, after) =>
          (.string (Unit16.joinHalves units), after)
      else if c == '`' then
        (scanTemplate true 0 rest).map fun (valid, closed, after) => (.template valid closed, after)
      else if c == '#' then
        (scanName rest).map fun (name, _, after) => (.privateName name, after)
      else if "/*".toList.isPrefixOf t then
        none
      else
        (scanSymbol? t).map fun (s, after) => (.symbol s, after)
    found.getD (.invalid, t)

/-- Whether a token, if it is a word, is spelled as a name. -/
def Token.isSpelled : Token → Bool
  | .word w _ => isIdentifier w.toList
  | _ => true

theorem isSpelled_scanToken (t : Text) : (scanToken t).1.isSpelled = true := by
  cases t with
  | nil => rfl
  | cons c rest =>
    simp only [scanToken]
    split
    · cases found : scanName (c :: rest) with
      | none => rfl
      | some word => exact isIdentifier_of_scanName found
    · split
      · cases scanNumber (c :: rest) <;> rfl
      · split
        · cases scanQuoted c 0 rest <;> rfl
        · split
          · cases scanTemplate true 0 rest <;> rfl
          · split
            · cases scanName rest <;> rfl
            · split
              · rfl
              · cases scanSymbol? (c :: rest) <;> rfl

end ImportSync.Syntax
