import Ingot.Proofs.Meaning.Calling
import Mathlib.Data.List.Nodup

/-!
# Executing the text of a function

A machine that reads the text of a function line by line, as the assembler of the target
does, and runs the lines. It knows nothing of how the text was made: the name of a value is
whatever stands behind a percent sign, and a name may be set only once. What it cannot read
and what has no meaning leaves it stuck.

Arithmetic is that of 32-bit words, which wraps around. A division by zero faults, and so
does the one whose quotient overflows, with its remainder.
-/

namespace Ingot.Machine

open Meaning Meaning.Calling

/-! ### Lines -/

/-- A character between the words of a line. -/
def isBreak (c : Char) : Bool := c == ' ' || c == ',' || c == '(' || c == ')'

/-- The words of a line. -/
def wordsOf (line : List Char) : List String :=
  ((line.splitOnP isBreak).filter fun word => !word.isEmpty).map String.ofList

/-- A line of code; operands and targets are kept as they are written. -/
inductive Line where
  /-- Sets a name to the result of an operation. -/
  | compute (target operation left right : String)
  /-- Sets a name to the result of a call. -/
  | call (target function : String) (arguments : List String)
  /-- Ends the function with a value. -/
  | ret (value : String)
  deriving DecidableEq, Repr

/-- What stands behind a mark at the front of a word. -/
def afterMark? (mark : Char) (word : String) : Option String :=
  match word.toList with
  | [] => none
  | c :: rest => if c = mark then some (String.ofList rest) else none

/-- The words in a row of words each of which has its type before it. -/
def typedWords : List String → Option (List String)
  | [] => some []
  | [_] => none
  | type :: word :: more => if type = "i32" then (typedWords more).map (word :: ·) else none

/-- The line of some words. -/
def Line.ofWords? : List String → Option Line
  | ["ret", "i32", value] => some (.ret value)
  | target :: "=" :: "call" :: "i32" :: function :: arguments =>
    match afterMark? '@' function, typedWords arguments with
    | some function, some arguments => some (.call target function arguments)
    | _, _ => none
  | [target, "=", operation, "i32", left, right] => some (.compute target operation left right)
  | _ => none

/-- The lines of a block, up to the brace that closes it. -/
def readLines : List (List Char) → Option (List Line)
  | [] => none
  | line :: rest =>
    if line = ['}'] then some []
    else
      match Line.ofWords? (wordsOf line), readLines rest with
      | some first, some more => some (first :: more)
      | _, _ => none

/-- The code of a function. -/
structure Routine where
  /-- The name of the function. -/
  name : String
  /-- The names of the parameters, as they are written. -/
  parameters : List String
  /-- The lines, in order. -/
  lines : List Line
  deriving DecidableEq, Repr

/-- Reads the text of a function: a line that names it and its parameters, the label of its
only block, and the lines of that. -/
def Routine.read? (text : String) : Option Routine :=
  match text.toList.splitOn '\n' with
  | opening :: label :: rest =>
    match wordsOf opening, readLines rest with
    | "define" :: "i32" :: function :: words, some lines =>
      match afterMark? '@' function, typedWords words.dropLast with
      | some name, some parameters =>
        if words.getLast? = some "\x7b" ∧ label = "entry:".toList then
          some ⟨name, parameters, lines⟩
        else none
      | _, _ => none
    | _, _ => none
  | _ => none

/-! ### Running -/

/-- The names that have a value. -/
abbrev Registers : Type := String → Option Int32

/-- The value of an operand: that of a name, or of a number. -/
def Registers.read (regs : Registers) (operand : String) : Option Int32 :=
  if operand.toList.head? = some '%' then regs operand else operand.toInt?.map Int32.ofInt

/-- Gives a name a value, which it must not have yet. -/
def Registers.define? (regs : Registers) (target : String) (value : Int32) : Option Registers :=
  match regs target with
  | some _ => none
  | none => some fun name => if name = target then some value else regs name

/-- Whether a division of words overflows or has no result. -/
def divisionFaults (a b : Int32) : Bool := b == 0 || (a == Int32.minValue && b == -1)

/-- The operation that a word names. -/
def operation? : String → Option (Int32 → Int32 → Option Int32)
  | "add" => some fun a b => some (a + b)
  | "sub" => some fun a b => some (a - b)
  | "mul" => some fun a b => some (a * b)
  | "sdiv" => some fun a b => if divisionFaults a b then none else some (a / b)
  | "srem" => some fun a b => if divisionFaults a b then none else some (a % b)
  | _ => none

/-- Runs lines; the last of them, and only it, ends the function. -/
def run (oracle : Oracle) : List Line → Registers → Calling Int32
  | [], _ => throw .stuck
  | .compute target operation left right :: rest, regs => do
    let f ← orElse .stuck (operation? operation)
    let a ← orElse .stuck (regs.read left)
    let b ← orElse .stuck (regs.read right)
    let value ← orElse .fault (f a b)
    let regs ← orElse .stuck (regs.define? target value)
    run oracle rest regs
  | .call target function arguments :: rest, regs => do
    let values ← orElse .stuck (arguments.mapM regs.read)
    let value ← ask oracle ⟨function, values⟩
    let regs ← orElse .stuck (regs.define? target value)
    run oracle rest regs
  | .ret value :: rest, regs =>
    if rest.isEmpty then orElse .stuck (regs.read value) else throw .stuck

/-- Runs a routine; its parameters have different names and as many arguments. -/
def Routine.run (r : Routine) (oracle : Oracle) (arguments : List Int32) : Calling Int32 :=
  if r.parameters.Nodup ∧ r.parameters.length = arguments.length then
    Machine.run oracle r.lines fun name => (r.parameters.zip arguments).lookup name
  else throw .stuck

/-- Runs the text of a function. -/
def runText (oracle : Oracle) (text : String) (arguments : List Int32) : Calling Int32 := do
  let routine ← orElse .stuck (Routine.read? text)
  routine.run oracle arguments

end Ingot.Machine
