/-!
# Straight-line code

The code a program is lowered to, as data and as text: a module of functions, each one
block of instructions over 32-bit numbers. An instruction that computes something puts it
into a temporary of its own; no temporary is set twice, so an operand always means one
value.
-/

namespace Ingot.Code

/-! ### Code as data -/

/-- What an instruction works on. -/
inductive Operand where
  /-- A number. -/
  | constant (value : Int)
  /-- A parameter of the function. -/
  | parameter (name : String)
  /-- The result of an earlier instruction. -/
  | temporary (index : Nat)
  deriving DecidableEq, Repr

/-- An operation of the machine on two 32-bit numbers. -/
inductive Operation where
  /-- Addition that wraps around. -/
  | add
  /-- Subtraction that wraps around. -/
  | sub
  /-- Multiplication that wraps around. -/
  | mul
  /-- Division toward zero. -/
  | sdiv
  /-- The remainder of the division toward zero. -/
  | srem
  deriving DecidableEq, Repr

/-- An instruction. -/
inductive Instruction where
  /-- Sets a temporary to the result of an operation. -/
  | compute (target : Nat) (operation : Operation) (left right : Operand)
  /-- Sets a temporary to the result of a call. -/
  | call (target : Nat) (function : String) (arguments : List Operand)
  /-- Ends the function with a value. -/
  | ret (value : Operand)
  deriving DecidableEq, Repr

/-- The code of a function. -/
structure FunctionCode where
  /-- The name of the function. -/
  name : String
  /-- The names of the parameters. -/
  parameters : List String
  /-- The instructions, in order. -/
  body : List Instruction
  deriving DecidableEq, Repr

/-- A function that is called and defined elsewhere. -/
structure Declaration where
  /-- The name of the function. -/
  name : String
  /-- The number of its parameters. -/
  arity : Nat
  deriving DecidableEq, Repr

/-- The code of a module. -/
structure ModuleCode where
  /-- The name of the module. -/
  name : String
  /-- The name of the file the module was made from. -/
  sourceName : String
  /-- The functions, in order. -/
  functions : List FunctionCode
  /-- The functions the module calls and does not define, by name. -/
  declarations : List Declaration
  deriving DecidableEq, Repr

/-! ### Code as text -/

/-- The written form of an operand. The dot keeps parameters apart from temporaries and
from the label of the block. -/
def Operand.text : Operand → String
  | constant value => toString value
  | parameter name => s!"%p.{name}"
  | temporary index => s!"%t{index}"

/-- The word for an operation. -/
def Operation.word : Operation → String
  | add => "add"
  | sub => "sub"
  | mul => "mul"
  | sdiv => "sdiv"
  | srem => "srem"

/-- Operands with their types, as a call lists them. -/
def argumentText (operands : List Operand) : String :=
  ", ".intercalate (operands.map fun operand => "i32 " ++ operand.text)

/-- The line of an instruction. -/
def Instruction.text : Instruction → String
  | compute target operation left right =>
    s!"  %t{target} = {operation.word} i32 {left.text}, {right.text}\n"
  | call target function arguments =>
    s!"  %t{target} = call i32 @{function}({argumentText arguments})\n"
  | ret value => s!"  ret i32 {value.text}\n"

/-- The lines of a function. -/
def FunctionCode.text (f : FunctionCode) : String :=
  s!"define i32 @{f.name}({argumentText (f.parameters.map .parameter)}) \x7b\nentry:\n"
    ++ String.join (f.body.map Instruction.text) ++ "\x7d\n"

/-- The line of a declaration. -/
def Declaration.text (d : Declaration) : String :=
  let types := ", ".intercalate (List.replicate d.arity "i32")
  s!"declare i32 @{d.name}({types})\n"

/-- The text of a module: two lines of names, each function behind an empty line, and the
declarations, if there are any, behind one more. -/
def ModuleCode.text (m : ModuleCode) : String :=
  s!"; ModuleID = '{m.name}'\nsource_filename = \"{m.sourceName}\"\n"
    ++ String.join (m.functions.map fun f => "\n" ++ f.text)
    ++ (if m.declarations.isEmpty then ""
        else "\n" ++ String.join (m.declarations.map Declaration.text))

end Ingot.Code
