import Ingot.Proofs.Meaning.Calling
import Ingot.Source.Tree

/-!
# The meaning of trees

What a function of a program computes, said on its tree alone. Statements are taken in
order, operands and arguments from left to right; a binding counts until the next one of the
same name; a body without a return statement has the value zero. Sums, differences and
products are those of whole numbers, brought back to 32 bits; a quotient is rounded toward
zero. Where the divisor is zero, or the quotient is no number of 32 bits, neither the
division nor its remainder has a result.
-/

namespace Ingot.Source

open Meaning Meaning.Calling

/-- Whether the quotient of two numbers, rounded toward zero, is a number of 32 bits. -/
def hasQuotient (a b : Int32) : Bool :=
  b.toInt != 0 && decide (a.toInt.tdiv b.toInt ≤ Int32.maxValue.toInt)

/-- The result of an operation, if it has one. -/
def BinaryOp.result? : BinaryOp → Int32 → Int32 → Option Int32
  | add, a, b => some (.ofInt (a.toInt + b.toInt))
  | sub, a, b => some (.ofInt (a.toInt - b.toInt))
  | mul, a, b => some (.ofInt (a.toInt * b.toInt))
  | div, a, b => if hasQuotient a b then some (.ofInt (a.toInt.tdiv b.toInt)) else none
  | rem, a, b => if hasQuotient a b then some (.ofInt (a.toInt.tmod b.toInt)) else none

/-- Names and their values; the first entry of a name counts. -/
abbrev Environment : Type := List (String × Int32)

mutual

/-- The value of an expression. -/
def Expr.value (oracle : Oracle) (env : Environment) : Expr → Calling Int32
  | .number n _ => pure (.ofInt n)
  | .var name _ => orElse .stuck (env.lookup name)
  | .neg operand _ => do
    let a ← operand.value oracle env
    pure (.ofInt (0 - a.toInt))
  | .binary op left right _ => do
    let a ← left.value oracle env
    let b ← right.value oracle env
    orElse .fault (op.result? a b)
  | .call function arguments _ => do
    let values ← argumentValues oracle env arguments
    ask oracle ⟨function, values⟩

/-- The values of arguments, from left to right. -/
def argumentValues (oracle : Oracle) (env : Environment) : List Expr → Calling (List Int32)
  | [] => pure []
  | argument :: more => do
    let a ← argument.value oracle env
    let rest ← argumentValues oracle env more
    pure (a :: rest)

end

/-- The value of the statements of a function. -/
def bodyValue (oracle : Oracle) : Environment → List Statement → Calling Int32
  | _, [] => pure 0
  | env, .bind name value _ :: more => do
    let a ← value.value oracle env
    bodyValue oracle ((name, a) :: env) more
  | env, .effect value :: more => do
    let _ ← value.value oracle env
    bodyValue oracle env more
  | env, .result value _ :: _ => value.value oracle env

/-- The value of a function for arguments. -/
def Function.value (f : Function) (oracle : Oracle) (arguments : List Int32) : Calling Int32 :=
  bodyValue oracle ((f.parameters.map Parameter.name).zip arguments) f.body

end Ingot.Source
