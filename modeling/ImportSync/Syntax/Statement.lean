import ImportSync.Text.Basic

/-!
Top-level statements of a module, in as much detail as its exported names depend on. Everything
that exports nothing is one statement, `plain`.
-/

namespace ImportSync.Syntax

/-- What a declarator binds. Holes of an array pattern are left out, and a property of an object
pattern stands for its value alone. -/
inductive Pattern where
  | name (id : Text)
  | array (items : List Pattern)
  | object (items : List Pattern)
  | withDefault (target : Pattern)
  | rest (target : Pattern)

/-- A name on either side of an export specifier: an identifier, or a quoted text. -/
inductive ExportName where
  | identifier (id : Text)
  | quoted (value : Text)
  deriving DecidableEq

inductive Declaration where
  | variables (targets : List Pattern)
  | function (id : Text)
  | class (id : Text)
  /-- A declaration of a type, an enumeration, a namespace or an alias of one. -/
  | typeLevel

inductive Statement where
  | plain
  /-- `export {…}`, from here or from another module; the names are those on the exported side. -/
  | exportList (names : List ExportName)
  | exportDeclaration (declaration : Declaration)
  /-- `export *`, under one name if it is given one. -/
  | exportAll (given : Option ExportName)
  | exportDefault

def ExportName.text : ExportName → Text
  | .identifier id => id
  | .quoted value => value

mutual

def Pattern.boundNames : Pattern → List Text
  | .name id => [id]
  | .array items => boundNamesOfAll items
  | .object items => boundNamesOfAll items
  | .withDefault target => target.boundNames
  | .rest target => target.boundNames

def boundNamesOfAll : List Pattern → List Text
  | [] => []
  | p :: ps => p.boundNames ++ boundNamesOfAll ps

end

def Declaration.boundNames : Declaration → List Text
  | .variables targets => boundNamesOfAll targets
  | .function id => [id]
  | .class id => [id]
  | .typeLevel => []

/-- All names under which a statement exports something, `default` included. -/
def Statement.exportedNames : Statement → List Text
  | .plain => []
  | .exportList names => names.map ExportName.text
  | .exportDeclaration d => d.boundNames
  | .exportAll given => given.toList.map ExportName.text
  | .exportDefault => ["default".toList]

end ImportSync.Syntax
