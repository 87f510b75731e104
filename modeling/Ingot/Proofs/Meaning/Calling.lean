import Ingot.Proofs.Outcome

/-!
# Computations that call functions

What a function of a program computes depends on the functions it calls, and these may be
anywhere: in the same file, in another one, or outside of all of them. Here a call is
answered by an *oracle*, which knows the calls made before; the answer is a number of 32
bits, or there is none, which is a fault. A computation makes calls one after the other and
then has a value, faults, or is stuck. Being stuck is kept apart from a fault: it is how a
reader of nonsense ends, be it a name without a meaning or a body without an end.

Two computations mean the same if from every row of earlier calls on they make the same
calls with the same arguments in the same order, and end alike: if their outcomes are equal.
-/

namespace Ingot.Meaning

/-- A call of a function with its arguments. -/
structure Call where
  /-- The name of the function. -/
  function : String
  /-- The arguments, in order. -/
  arguments : List Int32
  deriving DecidableEq, Repr

/-- What answers a call, given the calls before it; no answer is a fault. -/
abbrev Oracle : Type := List Call → Call → Option Int32

/-- Why a computation has no value. -/
inductive Trouble where
  /-- An operation or a call has no result. -/
  | fault
  /-- What should be computed has no meaning. -/
  | stuck
  deriving DecidableEq, Repr

/-- A computation that makes calls; its state are the calls made so far. -/
abbrev Calling (α : Type) : Type := Effect Trouble (List Call) α

namespace Calling

open Effect

variable {α β : Type}

/-- Makes a call. -/
def ask (oracle : Oracle) (call : Call) : Calling Int32 := do
  let before ← get
  set (before ++ [call])
  match oracle before call with
  | some answer => pure answer
  | none => throw .fault

/-- A value that may be missing; a missing one is the given trouble. -/
def orElse (trouble : Trouble) : Option α → Calling α
  | some a => pure a
  | none => throw trouble

@[simp] theorem orElse_some (trouble : Trouble) (a : α) : orElse trouble (some a) = pure a := rfl

theorem outcome_ask (oracle : Oracle) (call : Call) (calls : List Call) :
    outcome (ask oracle call) calls =
      (match oracle calls call with
        | some answer => .ok answer
        | none => .error .fault, calls ++ [call]) := by
  show outcome (match oracle calls call with
    | some answer => (pure answer : Calling Int32)
    | none => throw .fault) (calls ++ [call]) = _
  cases oracle calls call <;> rfl

end Calling

end Ingot.Meaning
