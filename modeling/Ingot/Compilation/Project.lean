import Ingot.FileSystem.Access

/-!
# Units and projects

A unit is what comes of one source: it has a name, the path of the source, and a module
that can be written to files in two forms. A project is a row of units in the order in
which they were compiled.
-/

namespace Ingot.Compilation

/-! ### Names -/

/-- The name of a unit of which nothing else is left. -/
def namelessUnit : String := "unnamed"

/-- The name of the unit of a source: the names that lead to it from the directory of the
sources, as they are shown, with dots between them and without the ending. -/
def unitName (root file : String) : String :=
  match Path.names (Path.withoutExtension (Path.componentsBelow root file)) with
  | [] => namelessUnit
  | names => ".".intercalate (names.map Raw.shown)

/-! ### Modules -/

/-- What comes of writing the binary form of a module. -/
structure BinaryOutcome where
  /-- The file system afterwards. -/
  files : FileSystem
  /-- Zero if the module was written. -/
  status : Int
  /-- Why it was not written, if that is known. -/
  fault : Option IoFault

/-- A module that was compiled. Nothing is known of what is in it; it can be written to a
file as text, where a failure is told in words, and in the binary form, where a failure is
told by a number. -/
structure CompiledModule where
  /-- The name of the module. -/
  identifier : String
  /-- Writes the text to the file at a path. -/
  writeText : FileSystem → String → FileSystem × Except String Unit
  /-- Writes the binary form to the file at a path. -/
  writeBinary : FileSystem → String → BinaryOutcome

/-! ### Units -/

/-- What comes of one source. -/
structure CompiledUnit where
  /-- The name of the unit. -/
  name : String
  /-- The path of the source. -/
  source : String
  /-- The module. -/
  module : CompiledModule

/-- A row of units. -/
structure Project where
  /-- The units, in order. -/
  units : List CompiledUnit

namespace Project

/-- A project without units. -/
def empty : Project := ⟨[]⟩

/-- The number of units. -/
def size (p : Project) : Nat := p.units.length

/-- Whether there are no units. -/
def isEmpty (p : Project) : Bool := p.units.isEmpty

/-- A project with one unit more at its end. -/
def push (p : Project) (unit : CompiledUnit) : Project := ⟨p.units ++ [unit]⟩

/-- The first unit of a name. -/
def unit? (p : Project) (name : String) : Option CompiledUnit :=
  p.units.find? fun unit => unit.name == name

/-- The names of the units. -/
def names (p : Project) : List String := p.units.map CompiledUnit.name

end Project

end Ingot.Compilation
