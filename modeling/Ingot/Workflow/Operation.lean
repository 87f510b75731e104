import Ingot.Text.Blank

/-!
# Operations

What the user can ask for. An operation is named in any mixture of small and capital
letters, and white space around the name does not matter.
-/

namespace Ingot.Workflow

/-- What to do. -/
inductive Operation where
  /-- Give a package a new manifest. -/
  | init
  /-- Compile a package into files. -/
  | build
  /-- Compile a package and run it. -/
  | run
  deriving DecidableEq, Repr

/-- The name of an operation. -/
def Operation.name : Operation → String
  | init => "init"
  | build => "build"
  | run => "run"

/-- Whether an operation is about a package that has a manifest. -/
def Operation.needsProject : Operation → Bool
  | init => false
  | build => true
  | run => true

/-- The operation of a name. -/
def Operation.ofName? (name : String) : Option Operation :=
  let plain := String.ofList ((Text.trimBlank name).toList.map Char.toLower)
  [init, build, run].find? fun operation => operation.name == plain

/-- What is done with compiled units. -/
inductive Engine where
  /-- They are written to files. -/
  | build
  /-- They are written to files, and an interpreter runs them. -/
  | run
  deriving DecidableEq, Repr

/-- What an operation does with compiled units, if it compiles any. -/
def Operation.engine? : Operation → Option Engine
  | init => none
  | build => some .build
  | run => some .run

end Ingot.Workflow
