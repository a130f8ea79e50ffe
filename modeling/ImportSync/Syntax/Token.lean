import ImportSync.Text.Basic

/-!
Tokens of module text. A closing angle bracket is always a token of its own; the operators that
begin with one are put together where an operator is expected, since the same characters may close
several type argument lists.
-/

namespace ImportSync.Syntax

/-- Punctuation. The compound assignments are one symbol, `/=` apart: where an expression is
expected, that one starts a regular expression. -/
inductive Symbol where
  | lbrace | rbrace | lparen | rparen | lbracket | rbracket
  | dot | ellipsis | semicolon | comma | colon | question | questionDot | arrow | at
  | less | greater | lessEq | greaterEq | equal | notEqual | same | notSame
  | plus | minus | star | slash | percent | power | increment | decrement
  | shiftLeft | shiftRight | shiftRightZero | bitAnd | bitOr | bitXor | bang | tilde
  | andAnd | orOr | coalesce
  | assign | compoundAssign | slashAssign
  deriving DecidableEq, Repr

/-- A token as the scanner sees it, without regard to where it stands. -/
inductive Token where
  /-- A name or keyword, with its escapes resolved. -/
  | word (spelling : String) (escaped : Bool)
  /-- A name after `#`. -/
  | privateName (spelling : String)
  | number
  | string (value : List Text.Unit16)
  /-- A template up to its end or its first hole; `valid` tells whether its escapes mean anything. -/
  | template (valid closed : Bool)
  | symbol (s : Symbol)
  | eof
  /-- Characters that no token starts with, or a token that does not end. -/
  | invalid
  deriving DecidableEq, Repr

/-- The spellings of punctuation, longer ones before their own beginnings. -/
def symbolSpellings : List (Text × Symbol) :=
  [("...".toList, .ellipsis), ("===".toList, .same), ("!==".toList, .notSame),
   ("**=".toList, .compoundAssign), ("<<=".toList, .compoundAssign),
   ("&&=".toList, .compoundAssign), ("||=".toList, .compoundAssign),
   ("??=".toList, .compoundAssign),
   ("=>".toList, .arrow), ("==".toList, .equal), ("!=".toList, .notEqual),
   ("<=".toList, .lessEq), ("<<".toList, .shiftLeft),
   ("+=".toList, .compoundAssign), ("-=".toList, .compoundAssign), ("*=".toList, .compoundAssign),
   ("/=".toList, .slashAssign), ("%=".toList, .compoundAssign), ("&=".toList, .compoundAssign),
   ("|=".toList, .compoundAssign), ("^=".toList, .compoundAssign),
   ("++".toList, .increment), ("--".toList, .decrement), ("**".toList, .power),
   ("&&".toList, .andAnd), ("||".toList, .orOr), ("??".toList, .coalesce),
   ("?.".toList, .questionDot),
   ("\x7b".toList, .lbrace), ("\x7d".toList, .rbrace), ("(".toList, .lparen), (")".toList, .rparen),
   ("[".toList, .lbracket), ("]".toList, .rbracket), (".".toList, .dot), (";".toList, .semicolon),
   (",".toList, .comma), (":".toList, .colon), ("?".toList, .question), ("@".toList, .at),
   ("<".toList, .less), (">".toList, .greater), ("+".toList, .plus), ("-".toList, .minus),
   ("*".toList, .star), ("/".toList, .slash), ("%".toList, .percent), ("&".toList, .bitAnd),
   ("|".toList, .bitOr), ("^".toList, .bitXor), ("!".toList, .bang), ("~".toList, .tilde),
   ("=".toList, .assign)]

/-- The operators that begin with a closing angle bracket, longer ones first. -/
def greaterSpellings : List (Text × Symbol) :=
  [(">>>=".toList, .compoundAssign), (">>>".toList, .shiftRightZero),
   (">>=".toList, .compoundAssign), (">>".toList, .shiftRight), (">=".toList, .greaterEq)]

def longestSymbol? (table : List (Text × Symbol)) (t : Text) : Option (Symbol × Text) :=
  (table.find? fun entry => entry.1.isPrefixOf t).map fun entry => (entry.2, t.drop entry.1.length)

def reservedWords : List String :=
  ["await", "break", "case", "catch", "class", "const", "continue", "debugger", "default", "delete",
   "do", "else", "enum", "export", "extends", "false", "finally", "for", "function", "if", "import",
   "in", "instanceof", "new", "null", "return", "super", "switch", "this", "throw", "true", "try",
   "typeof", "var", "void", "while", "with", "yield"]

def strictReservedWords : List String :=
  ["implements", "interface", "let", "package", "private", "protected", "public", "static"]

end ImportSync.Syntax
