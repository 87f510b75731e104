import Ingot.Code.Instruction
import Ingot.Source.Parsing
import Ingot.Source.Lexing

/-!
# Lowering a program

`lower` turns a program into code. A bound name stands for the operand of its value, so a
binding costs no instruction and a later binding of the same name shadows an earlier one.
Operands and arguments are lowered from left to right; a body that does not end in a
return statement returns zero. A function that is called and not defined is declared, with
the number of arguments of its first call, and every later call has to agree.
-/

namespace Ingot.Code

open Ingot.Source

/-- The instruction of an operation. -/
def Operation.ofBinary : BinaryOp → Operation
  | .add => .add
  | .sub => .sub
  | .mul => .mul
  | .div => .sdiv
  | .rem => .srem

/-! ### The state of lowering -/

/-- The names a function can see and what they stand for; the first entry of a name counts. -/
abbrev Scope : Type := List (String × Operand)

/-- The names of functions and their numbers of parameters. -/
abbrev Arities : Type := List (String × Nat)

/-- What lowering has produced so far. -/
structure Progress where
  /-- The number of temporaries in use. -/
  temporaries : Nat
  /-- The instructions of the function at hand. -/
  body : Array Instruction
  /-- The functions called and not defined, in the order of their first calls. -/
  declared : Arities

/-- A step of lowering: it may stop with a fault. -/
abbrev Lower (α : Type) : Type := StateT Progress (Except Fault) α

/-- Stops with a fault of meaning. -/
def reject {α : Type} (p : Position) (fault : MeaningFault) : Lower α :=
  throw (.meaning p fault)

/-- Appends an instruction. -/
def emit (instruction : Instruction) : Lower Unit :=
  modify fun progress => { progress with body := progress.body.push instruction }

/-- Appends an instruction that sets a new temporary; the answer is that temporary. -/
def emitTo (instruction : Nat → Instruction) : Lower Operand := fun progress =>
  .ok (.temporary progress.temporaries,
    { progress with
      temporaries := progress.temporaries + 1
      body := progress.body.push (instruction progress.temporaries) })

/-- The number of parameters of a function that is called with `supplied` arguments. The
first call of a function that is not defined declares it. -/
def expectedArity (defined : Arities) (function : String) (supplied : Nat) : Lower Nat :=
  fun progress =>
    match defined.lookup function with
    | some arity => .ok (arity, progress)
    | none =>
      match progress.declared.lookup function with
      | some arity => .ok (arity, progress)
      | none =>
        .ok (supplied, { progress with declared := progress.declared ++ [(function, supplied)] })

/-! ### Expressions and statements -/

mutual

/-- Lowers an expression; the answer is the operand that holds its value. -/
def lowerExpr (defined : Arities) (scope : Scope) : Expr → Lower Operand
  | .number value _ => pure (.constant value)
  | .var name p =>
    match scope.lookup name with
    | some operand => pure operand
    | none => reject p (.unboundName name)
  | .neg operand _ => do
    let value ← lowerExpr defined scope operand
    emitTo (.compute · .sub (.constant 0) value)
  | .binary op left right _ => do
    let l ← lowerExpr defined scope left
    let r ← lowerExpr defined scope right
    emitTo (.compute · (.ofBinary op) l r)
  | .call function arguments p => do
    let supplied := arguments.length
    let expected ← expectedArity defined function supplied
    if expected = supplied then
      let operands ← lowerArguments defined scope arguments
      emitTo (.call · function operands)
    else reject p (.wrongArity function expected supplied)

/-- Lowers arguments from left to right. -/
def lowerArguments (defined : Arities) (scope : Scope) : List Expr → Lower (List Operand)
  | [] => pure []
  | argument :: more => do
    let operand ← lowerExpr defined scope argument
    let operands ← lowerArguments defined scope more
    pure (operand :: operands)

end

/-- Lowers the statements of a function. -/
def lowerBody (defined : Arities) (scope : Scope) : List Statement → Lower Unit
  | [] => emit (.ret (.constant 0))
  | .bind name value _ :: more => do
    let operand ← lowerExpr defined scope value
    lowerBody defined ((name, operand) :: scope) more
  | .effect value :: more => do
    let _ ← lowerExpr defined scope value
    lowerBody defined scope more
  | .result value _ :: more => do
    let operand ← lowerExpr defined scope value
    emit (.ret operand)
    match more with
    | [] => pure ()
    | behind :: _ => reject behind.position .unreachable

/-! ### Functions and programs -/

/-- The scope of parameters, which must have different names. -/
def parameterScope (scope : Scope) : List Parameter → Except Fault Scope
  | [] => .ok scope
  | parameter :: more =>
    if (scope.lookup parameter.name).isSome then
      .error (.meaning parameter.position (.repeatedParameter parameter.name))
    else parameterScope ((parameter.name, .parameter parameter.name) :: scope) more

/-- Lowers a function; the answer has the functions declared so far. -/
def lowerFunction (defined declared : Arities) (f : Function) :
    Except Fault (FunctionCode × Arities) := do
  let scope ← parameterScope [] f.parameters
  let ((), progress) ← lowerBody defined scope f.body ⟨0, #[], declared⟩
  pure (⟨f.name, f.parameters.map Parameter.name, progress.body.toList⟩, progress.declared)

/-- Lowers functions one after the other. -/
def lowerFunctions (defined : Arities) :
    Arities → List Function → Except Fault (List FunctionCode × Arities)
  | declared, [] => .ok ([], declared)
  | declared, f :: more => do
    let (code, declared) ← lowerFunction defined declared f
    let (codes, declared) ← lowerFunctions defined declared more
    pure (code :: codes, declared)

/-- The functions of a program and their numbers of parameters; names must be different. -/
def definedArities (seen : Arities) : List Function → Except Fault Arities
  | [] => .ok seen
  | f :: more =>
    if (seen.lookup f.name).isSome then .error (.meaning f.position (.repeatedFunction f.name))
    else definedArities ((f.name, f.arity) :: seen) more

/-- Lowers a program to the code of a module. -/
def lower (name sourceName : String) (program : Program) : Except Fault ModuleCode := do
  let defined ← definedArities [] program.functions
  let (functions, declared) ← lowerFunctions defined [] program.functions
  let declarations := declared.map fun (function, arity) => ⟨function, arity⟩
  pure ⟨name, sourceName, functions,
    declarations.mergeSort fun a b => decide (a.name ≤ b.name)⟩

/-- Compiles a source text to the code of a module. -/
def compile (name sourceName source : String) : Except Fault ModuleCode := do
  let tokens ← Source.tokens source
  let program ← Source.parse tokens
  lower name sourceName program

end Ingot.Code
