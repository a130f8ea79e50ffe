import ImportSync.Text.Basic

/-!
Arguments of the command line. Tokens are read from left to right. An option's value stands in the
same token after an equals sign or in the next token; in the second case it is taken up only when the
next option or the end is reached, so that an unknown token in between is reported first.
-/

namespace ImportSync

structure Arguments where
  root : Option Text := none
  config : Option Text := none
  importRoots : List Text := []
  modifyRoots : List Text := []
  outputName : Option Text := none
  previousOutputNames : List Text := []
  scriptExtensions : List Text := []
  assetExtensions : List Text := []
  wanted : List Text := []
  unwanted : List Text := []
  filterModify : Bool := false
  respectIgnore : Bool := false
  includeDeclarations : Bool := false
  check : Bool := false
  deriving DecidableEq, Repr

/-- Why arguments are rejected; asking for help is among the reasons. -/
inductive ArgumentError where
  /-- A token that is no option, or no token of this command at all. -/
  | unknownArgument
  /-- An option without its value, or with a value it cannot have. -/
  | invalidValue
  /-- An option that may stand once stands again. -/
  | argumentConflict
  | tooManyValues
  | displayHelp
  deriving DecidableEq, Repr

namespace Arguments

inductive ValueOption where
  | root
  | config
  | importRoot
  | modifyRoot
  | outputName
  | previousOutputName
  | scriptExtension
  | assetExtension
  | wanted
  | unwanted
  deriving DecidableEq, Repr

inductive Flag where
  | filterModify
  | respectIgnore
  | includeDeclarations
  | check
  deriving DecidableEq, Repr

/-- How an option with a value is spelled, after two dashes. -/
def ValueOption.spelling : ValueOption → Text
  | .root => "root".toList
  | .config => "config".toList
  | .importRoot => "import".toList
  | .modifyRoot => "modify".toList
  | .outputName => "output-name".toList
  | .previousOutputName => "previous-output-name".toList
  | .scriptExtension => "js-extension".toList
  | .assetExtension => "other-extension".toList
  | .wanted => "include".toList
  | .unwanted => "exclude".toList

def Flag.spelling : Flag → Text
  | .filterModify => "filter-modify".toList
  | .respectIgnore => "respect-ignore".toList
  | .includeDeclarations => "include-declarations".toList
  | .check => "check".toList

def valueOptions : List ValueOption :=
  [.root, .config, .importRoot, .modifyRoot, .outputName, .previousOutputName, .scriptExtension,
   .assetExtension, .wanted, .unwanted]

def flags : List Flag :=
  [.filterModify, .respectIgnore, .includeDeclarations, .check]

/-- What a token names after two dashes. -/
inductive Named where
  | value (o : ValueOption)
  | flag (f : Flag)
  | help

def named? (spelling : Text) : Option Named :=
  ((valueOptions.find? fun o => o.spelling == spelling).map Named.value)
    <|> ((flags.find? fun f => f.spelling == spelling).map Named.flag)
    <|> (if spelling == "help".toList then some .help else none)

def once (present : Option Text) (stored : Arguments) : Except ArgumentError Arguments :=
  if present.isSome then .error .argumentConflict else .ok stored

/-- Stores the value of an option. The paths among the values cannot be empty. -/
def store (a : Arguments) (o : ValueOption) (v : Text) : Except ArgumentError Arguments :=
  match o with
  | .root => do
    let stored ← once a.root { a with root := some v }
    if v.isEmpty then .error .invalidValue else .ok stored
  | .config => do
    let stored ← once a.config { a with config := some v }
    if v.isEmpty then .error .invalidValue else .ok stored
  | .outputName => once a.outputName { a with outputName := some v }
  | .importRoot => .ok { a with importRoots := a.importRoots ++ [v] }
  | .modifyRoot => .ok { a with modifyRoots := a.modifyRoots ++ [v] }
  | .previousOutputName => .ok { a with previousOutputNames := a.previousOutputNames ++ [v] }
  | .scriptExtension => .ok { a with scriptExtensions := a.scriptExtensions ++ [v] }
  | .assetExtension => .ok { a with assetExtensions := a.assetExtensions ++ [v] }
  | .wanted => .ok { a with wanted := a.wanted ++ [v] }
  | .unwanted => .ok { a with unwanted := a.unwanted ++ [v] }

def isSet (a : Arguments) : Flag → Bool
  | .filterModify => a.filterModify
  | .respectIgnore => a.respectIgnore
  | .includeDeclarations => a.includeDeclarations
  | .check => a.check

def set (a : Arguments) (f : Flag) : Except ArgumentError Arguments :=
  if a.isSet f then
    .error .argumentConflict
  else
    match f with
    | .filterModify => .ok { a with filterModify := true }
    | .respectIgnore => .ok { a with respectIgnore := true }
    | .includeDeclarations => .ok { a with includeDeclarations := true }
    | .check => .ok { a with check := true }

/-- What has been read so far: the arguments, an option whose value stands in a token of its own, with
the value once it is known, and operands, of which there may be so many. -/
structure Reading where
  arguments : Arguments := {}
  pending : Option (ValueOption × Option Text) := none
  operands : List Text := []
  operandLimit : Nat := 0

/-- Takes up the option that waits for it. -/
def Reading.settle (r : Reading) : Except ArgumentError Reading :=
  match r.pending with
  | none => .ok r
  | some (_, none) => .error .invalidValue
  | some (o, some v) => do
    return { r with arguments := ← r.arguments.store o v, pending := none }

def Reading.operand (r : Reading) (value : Text) : Except ArgumentError Reading :=
  if r.operands.length < r.operandLimit then do
    let r ← r.settle
    return { r with operands := r.operands ++ [value] }
  else
    .error .unknownArgument

/-- A token, as far as it can be told by itself. -/
inductive ArgumentToken where
  /-- Two dashes alone: no option follows. -/
  | endOfOptions
  /-- Two dashes and a name, and a value after an equals sign. -/
  | long (spelling : Text) (value : Option Text)
  /-- One dash and letters, of which the first decides. -/
  | short (letter : Char)
  /-- Anything else, a single dash included. -/
  | plain (value : Text)

def ArgumentToken.ofText : Text → ArgumentToken
  | ['-', '-'] => .endOfOptions
  | '-' :: '-' :: rest =>
    let spelling := rest.takeWhile (· != '=')
    .long spelling (if spelling.length == rest.length then none
      else some (rest.drop (spelling.length + 1)))
  | '-' :: letter :: _ => .short letter
  | t => .plain t

def Reading.option (r : Reading) (spelling : Text) (value : Option Text) :
    Except ArgumentError Reading :=
  match named? spelling, value with
  | none, _ => .error .unknownArgument
  | some (.value o), some v => do
    let r ← r.settle
    return { r with arguments := ← r.arguments.store o v }
  | some (.value o), none => do
    return { ← r.settle with pending := some (o, none) }
  | some (.flag _), some _ => .error .tooManyValues
  | some (.flag f), none => do
    let r ← r.settle
    return { r with arguments := ← r.arguments.set f }
  | some .help, some _ => .error .tooManyValues
  | some .help, none => do
    discard r.settle
    .error .displayHelp

def Reading.token (r : Reading) : ArgumentToken → Except ArgumentError Reading
  | .endOfOptions => .ok r
  | .long spelling value => r.option spelling value
  | .short letter => if letter = 'h' then r.option "help".toList none else .error .unknownArgument
  | .plain value =>
    match r.pending with
    | some (o, none) => .ok { r with pending := some (o, some value) }
    | _ => r.operand value

/-- Reads the tokens from left to right. After the end of the options there are only operands. -/
def readFrom (r : Reading) : List Text → Except ArgumentError Reading
  | [] => r.settle
  | t :: ts =>
    match ArgumentToken.ofText t with
    | .endOfOptions => do (← ts.foldlM Reading.operand r).settle
    | token => do readFrom (← r.token token) ts

/-- The arguments that the tokens of a command line say, and their operands, of which there may be so
many. -/
def ofTokensWith (operandLimit : Nat) (tokens : List Text) :
    Except ArgumentError (Arguments × List Text) := do
  let r ← readFrom { operandLimit } tokens
  return (r.arguments, r.operands)

def ofTokens (tokens : List Text) : Except ArgumentError Arguments := do
  return (← ofTokensWith 0 tokens).1

end Arguments

end ImportSync
