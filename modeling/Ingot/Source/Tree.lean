import Ingot.Source.Position

/-!
# Trees

The tree of a source text: functions over 32-bit numbers, whose bodies are statements.
Every node carries the position of its own token: the operator of an operation, the name
of a call or a variable, the first word of a binding or a return statement. Parentheses
leave no node.
-/

namespace Ingot.Source

/-- An operation with two operands. -/
inductive BinaryOp where
  /-- `+`. -/
  | add
  /-- `-`. -/
  | sub
  /-- `*`. -/
  | mul
  /-- `/`. -/
  | div
  /-- `%`. -/
  | rem
  deriving DecidableEq, Repr

/-- An expression. -/
inductive Expr where
  /-- A number. -/
  | number (value : Int) (position : Position)
  /-- A parameter or a bound name. -/
  | var (name : String) (position : Position)
  /-- The negative of an expression. -/
  | neg (operand : Expr) (position : Position)
  /-- An operation on two expressions. -/
  | binary (op : BinaryOp) (left right : Expr) (position : Position)
  /-- A call of a function. -/
  | call (function : String) (arguments : List Expr) (position : Position)
  deriving Repr, Inhabited

/-- The position of an expression is that of its outermost node. -/
def Expr.position : Expr → Position
  | number _ p => p
  | var _ p => p
  | neg _ p => p
  | binary _ _ _ p => p
  | call _ _ p => p

/-- A statement. -/
inductive Statement where
  /-- Binds a name to a value for the statements that follow. -/
  | bind (name : String) (value : Expr) (position : Position)
  /-- Ends the function with a value. -/
  | result (value : Expr) (position : Position)
  /-- Evaluates an expression for its calls. -/
  | effect (value : Expr)
  deriving Repr

/-- The position of a statement; that of an expression on its own is the expression's. -/
def Statement.position : Statement → Position
  | bind _ _ p => p
  | result _ p => p
  | effect value => value.position

/-- A parameter of a function. -/
structure Parameter where
  /-- The name of the parameter. -/
  name : String
  /-- Where the parameter stands. -/
  position : Position
  deriving DecidableEq, Repr

/-- A function. -/
structure Function where
  /-- The name of the function. -/
  name : String
  /-- The parameters, in order. -/
  parameters : List Parameter
  /-- The statements, in order. -/
  body : List Statement
  /-- Where the function starts. -/
  position : Position
  deriving Repr

/-- The number of parameters. -/
def Function.arity (f : Function) : Nat := f.parameters.length

/-- A program: the functions of one source text, in order. -/
structure Program where
  /-- The functions. -/
  functions : List Function
  deriving Repr

end Ingot.Source
