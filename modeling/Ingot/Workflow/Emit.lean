import Ingot.Digest.Sha256
import Ingot.Workflow.World

/-!
# Artifacts

An artifact is a unit in a file. Its name is that of the unit with the ending of its form;
all artifacts stand side by side in one directory. After it is written an artifact is read
again, so that its size and digest are those of what is really in the file.
-/

namespace Ingot.Workflow

open Compilation (CompiledUnit)

/-- A unit in a file. -/
structure Artifact where
  /-- The name of the unit. -/
  unit : String
  /-- The path of the file. -/
  path : String
  /-- The form. -/
  form : ArtifactForm
  /-- What is in the file. -/
  content : ByteArray

namespace Artifact

/-- The number of bytes. -/
def size (a : Artifact) : Nat := a.content.size

/-- The digest of the bytes. -/
def digest (a : Artifact) : String := Digest.sha256Hex a.content

end Artifact

/-- The path of the artifact of a unit. -/
def artifactPath (output : String) (form : ArtifactForm) (unit : String) : String :=
  Path.join output s!"{Raw.ofText unit}.{form.ending}"

/-- The part of the program that the notes on writing the binary form belong to. -/
def emitTopic : String := "ion::backend::ir"

/-- Writes a unit to its file. -/
def writeUnit (form : ArtifactForm) (path : String) (unit : CompiledUnit) : Act Unit := do
  match form with
  | .text =>
    let (fs, outcome) := unit.module.writeText (← Act.files) path
    Act.setFiles fs
    Act.orFail (fun message => .emit .text path message) outcome
  | .bitcode =>
    let outcome := unit.module.writeBinary (← Act.files) path
    Act.setFiles outcome.files
    match outcome.fault with
    | some fault => Act.note emitTopic s!"bitcode write to {Raw.shown path} failed: {fault.message}"
    | none => pure ()
    if outcome.status ≠ 0 then
      throw (.emit .bitcode path s!"writer returned status {outcome.status}")

/-- Writes a unit to a file in a directory, and reads it again. -/
def emitUnit (output : String) (form : ArtifactForm) (unit : CompiledUnit) : Act Artifact := do
  let path := artifactPath output form unit.name
  writeUnit form path unit
  let content ← Act.orFail (.artifactUnreadable path) ((← Act.files).readBytes path)
  return ⟨unit.name, path, form, content⟩

end Ingot.Workflow
