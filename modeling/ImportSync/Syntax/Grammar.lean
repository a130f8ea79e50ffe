import ImportSync.Syntax.Parser
import ImportSync.Syntax.Statement

/-!
The parts of the grammar that contain one another. Each construct is written as a parser that is
given the others as a `Grammar`; the knot is tied once, where a module is parsed.
-/

namespace ImportSync.Syntax

/-- What an expression is, as far as the tokens after it can ask. -/
inductive Shape where
  /-- A name that stands alone. -/
  | reference
  | access
  /-- An array or object literal; `target` tells whether it may be assigned to. -/
  | literal (target : Bool)
  | assignment
  /-- An expression in parentheses; `target` tells whether it may be assigned to. -/
  | group (target : Bool)
  | logical
  /-- An expression joined by the coalescing operator. -/
  | coalescing
  | value
  deriving DecidableEq

/-- An expression: its shape, and whether it contains a shorthand property with a default, which is
well formed only if the literal around it turns out to be assigned to. -/
structure Expr where
  shape : Shape
  pending : Bool := false

namespace Expr

def value : Expr :=
  { shape := .value }

/-- Whether an operator that changes a variable applies to the expression. -/
def isSimpleTarget (e : Expr) : Bool :=
  match e.shape with
  | .reference => true
  | .access => true
  | .group target => target
  | _ => false

def isTarget (e : Expr) : Bool :=
  match e.shape with
  | .literal target => target
  | _ => e.isSimpleTarget

/-- Whether the expression may be an element of a literal that is assigned to, with a default or
without. -/
def isElementTarget (e : Expr) : Bool :=
  match e.shape with
  | .assignment => true
  | _ => e.isTarget

/-- Fails if the expression contains a default that only an assignment allows. -/
def settle (e : Expr) : Parser Expr := do
  Parser.ensure (!e.pending)
  return e

end Expr

inductive Place where
  | list
  | branch
  | labelled
  | body
  deriving DecidableEq

structure Grammar where
  type : Parser Unit
  /-- What a declarator or parameter binds. -/
  pattern : Parser Pattern
  /-- An assignment expression. The argument tells whether an arrow function may state the type of
  its result here, which it may not in the middle of a conditional expression. -/
  assignment : Bool → Parser Expr
  /-- An expression whose operators all bind tighter than the given strength. -/
  binary : Nat → Parser Expr
  /-- An operand with the operators before and after it. -/
  unary : Parser Expr
  /-- An operand with its property accesses and, if the argument says so, its calls. -/
  leftHand : Bool → Parser Expr
  /-- A markup element, up to the token that ends it and without passing over it. -/
  element : Parser Unit
  statement : Place → Parser Statement

namespace Grammar

def empty : Grammar where
  type := failure
  pattern := failure
  assignment _ := failure
  binary _ := failure
  unary := failure
  leftHand _ := failure
  element := failure
  statement _ := failure

variable (g : Grammar)

/-- An assignment expression whose value is used. -/
def assigned : Parser Expr := do
  (← g.assignment true).settle

def expression : Parser Expr := do
  let first ← g.assignment true
  if ← Parser.isAt .comma then
    discard first.settle
    discard <| Parser.many do
      if ← Parser.eat .comma then
        return some (← g.assigned)
      return none
    return Expr.value
  return first

def evaluated : Parser Expr := do
  (← g.expression).settle

def initializer : Parser Bool := do
  if ← Parser.eat .assign then
    discard g.assigned
    return true
  return false

def annotation : Parser Bool := do
  if (← Parser.typed) && (← Parser.isAt .colon) then
    Parser.advance
    g.type
    return true
  return false

end Grammar

end ImportSync.Syntax
