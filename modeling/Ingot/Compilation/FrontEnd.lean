import Ingot.Bitcode.Container
import Ingot.Code.Lowering
import Ingot.Compilation.Project

/-!
# Front ends

A front end makes a unit from a source. All that the other parts know of it is that it is a
function of the files and of the path of the source. `standardFrontEnd` is the one for the
language of this library: it reads the text, lowers it, and gives a module that holds code.
-/

namespace Ingot.Compilation

open Source (Position)

/-- Why a front end gives no unit. -/
inductive FrontEndFault where
  /-- The source cannot be read. -/
  | unreadable (fault : IoFault)
  /-- The text does not follow the grammar. -/
  | grammar (position : Position) (message : String)
  /-- The text has no meaning. -/
  | meaning (position : Position) (message : String)
  deriving DecidableEq, Repr

namespace FrontEndFault

/-- The fault of a front end for a fault in a source text. -/
def ofFault : Source.Fault → FrontEndFault
  | .grammar position fault => grammar position fault.message
  | .meaning position fault => meaning position fault.message

/-- A fault in words. -/
def message : FrontEndFault → String
  | unreadable fault => s!"failed to read source: {fault.message}"
  | grammar position text => s!"{position.text}: {text}"
  | meaning position text => s!"{position.text}: {text}"

/-- Where in the source the fault is, if it is in the text. -/
def position? : FrontEndFault → Option Position
  | unreadable _ => none
  | grammar position _ => some position
  | meaning position _ => some position

end FrontEndFault

/-- What makes a unit from a source, given the directory of all sources and the path of
this one. -/
abbrev FrontEnd : Type := FileSystem → String → String → Except FrontEndFault CompiledUnit

/-! ### The standard front end -/

/-- A module that is written as its text and as the container of it. -/
def moduleOf (m : Bitcode.Module) : CompiledModule where
  identifier := m.identifier
  writeText fs path :=
    match fs.writeText path m.text with
    | .error fault => (fs, .error fault.message)
    | .ok fs => (fs, .ok ())
  writeBinary fs path :=
    match fs.writeBytes path ⟨(Bitcode.encode m).toArray⟩ with
    | .error fault => ⟨fs, 1, some fault⟩
    | .ok fs => ⟨fs, 0, none⟩

/-- Compiles the text of a source. -/
def compileText (name sourceName text : String) : Except FrontEndFault Bitcode.Module :=
  match Code.compile name sourceName text with
  | .error fault => .error (.ofFault fault)
  | .ok code => .ok ⟨name, code.text⟩

/-- The text of a source, compiled. -/
def generate (fs : FileSystem) (root file : String) : Except FrontEndFault Bitcode.Module :=
  match fs.readText file with
  | .error fault => .error (.unreadable fault)
  | .ok text =>
    let name := unitName root file
    compileText name (((Path.fileName? file).map Raw.shown).getD name) text

/-- The front end for the language of this library. -/
def standardFrontEnd : FrontEnd := fun fs root file =>
  (generate fs root file).map fun m => ⟨unitName root file, file, moduleOf m⟩

end Ingot.Compilation
