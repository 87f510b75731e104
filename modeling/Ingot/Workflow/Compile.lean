import Ingot.Workflow.World

/-!
# Compiling the sources of a package

The sources are compiled one after the other. Once one has failed, those behind it are
skipped. What was made of all sources is then collected: the first failure counts, and no
two units may have the same name.
-/

namespace Ingot.Workflow

open Compilation (CompiledUnit FrontEnd FrontEndFault Project)

/-- What was made of a source. -/
inductive Slot where
  /-- It was skipped. -/
  | skipped
  /-- It does not compile. -/
  | failed (file : String) (fault : FrontEndFault)
  /-- It was compiled. -/
  | done (unit : CompiledUnit)

/-- The part of the program that the notes on compiling belong to. -/
def compileTopic : String := "ion::ops::coordinator"

/-- Compiles a source. -/
def compileSource (frontEnd : FrontEnd) (fs : FileSystem) (root file : String) : Slot :=
  match frontEnd fs root file with
  | .error fault => .failed file fault
  | .ok unit => .done unit

/-- Compiles sources one after the other until one fails. -/
def compileInOrder (frontEnd : FrontEnd) (root : String) : List String → Act (List Slot)
  | [] => pure []
  | file :: files => do
    Act.detail .compiling s!"{Raw.shown (Path.relativeTo root file)} ..."
    match compileSource frontEnd (← Act.files) root file with
    | .done unit => return .done unit :: (← compileInOrder frontEnd root files)
    | slot => return slot :: files.map fun _ => .skipped

/-- Puts what was made of sources behind the units of a project. -/
def collect : Project → List Slot → Except Failure Project
  | project, [] => .ok project
  | _, .skipped :: _ => .error (.internal "compilation skipped a file before any failure")
  | _, .failed file fault :: _ => .error (.compile file fault)
  | project, .done unit :: slots =>
    match project.units.find? fun other => other.name == unit.name with
    | some first => .error (.repeatedUnit unit.name first.source unit.source)
    | none => collect (project.push unit) slots

/-- What makes a project of sources, which lie in a directory. -/
abbrev Compiler : Type := String → List String → Act Project

/-- Compiles the sources of a package. -/
def compileSources (frontEnd : FrontEnd) : Compiler := fun root files => do
  let slots ← compileInOrder frontEnd root files
  let project ← Act.orFail id (collect .empty slots)
  Act.note compileTopic s!"Processed {project.size} file(s)."
  return project

end Ingot.Workflow
