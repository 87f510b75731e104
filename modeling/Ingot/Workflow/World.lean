import Ingot.Command
import Ingot.Console
import Ingot.Workflow.Failure

/-!
# Acts

The work of an invocation is a row of acts on the files and on what the user is told. An
act either gives a value or fails; in both cases it leaves the files as they are then, and
all that the user was told.
-/

namespace Ingot.Workflow

open Console (Event Level Status)

/-- The files, and what the user was told so far. -/
structure World where
  /-- The files. -/
  files : FileSystem
  /-- What the user was told, in order. -/
  told : List Event

/-- A step of an invocation. -/
abbrev Act : Type → Type := ExceptT Failure (StateM World)

namespace Act

/-- The value or failure of an act, and the world after it. -/
def perform {α : Type} (act : Act α) (w : World) : Except Failure α × World :=
  Id.run ((ExceptT.run act).run w)

/-- The files. -/
def files : Act FileSystem := do return (← get).files

/-- Puts other files in the place of the files. -/
def setFiles (fs : FileSystem) : Act Unit := modify fun w => { w with files := fs }

/-- Tells the user something. -/
def tell (event : Event) : Act Unit := modify fun w => { w with told := w.told ++ [event] }

/-- Tells the user a line with a label. -/
def line (status : Status) (message : String) : Act Unit := tell (.line status message)

/-- Tells the user a line about a single file. -/
def detail (status : Status) (message : String) : Act Unit := tell (.detail status message)

/-- Leaves a note on a step, and on the part of the program it belongs to. -/
def note (topic message : String) : Act Unit := tell (.note .debug topic message)

/-- The value of a result, or a failure. -/
def orFail {ε α : Type} (wrap : ε → Failure) : Except ε α → Act α
  | .ok a => pure a
  | .error e => throw (wrap e)

/-- Changes the files, or fails. -/
def change (wrap : IoFault → Failure) (f : FileSystem → Except IoFault FileSystem) : Act Unit := do
  setFiles (← orFail wrap (f (← files)))

end Act

end Ingot.Workflow
