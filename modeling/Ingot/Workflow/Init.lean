import Ingot.Workflow.World

/-!
# New manifests

A package gets a new manifest by a copy of a template. A manifest that is there already is
removed first.
-/

namespace Ingot.Workflow

open Package (hasManifest manifestPath templateName)

/-- Where the template of manifests is. -/
structure TemplateSource where
  /-- Whether it is in the working directory. -/
  inWorkingDirectory : Bool
  /-- The directory of the installation. -/
  baseDirectory : String
  /-- The working directory. -/
  workingDirectory : String
  deriving DecidableEq, Repr

/-- The path of the template. -/
def TemplateSource.path (s : TemplateSource) : String :=
  Path.join (if s.inWorkingDirectory then s.workingDirectory else s.baseDirectory) templateName

/-- What became of the manifest. -/
inductive Initialization where
  /-- There is one now. -/
  | created
  /-- There is another one now. -/
  | replaced
  deriving DecidableEq, Repr

/-- What became of the manifest, in words. -/
def Initialization.message : Initialization → String
  | created => "a default package manifest file"
  | replaced => "existing package manifest (re-initialized)"

/-- The part of the program that the notes on new manifests belong to. -/
def initTopic : String := "ion::ops::ion_init"

/-- Removes a manifest. -/
def removeManifest (obstacles : Obstacles) (path : String) : Act Unit := do
  Act.change (.staleManifest path) fun fs => fs.removeFile obstacles path
  if (← Act.files).isThere path then
    throw (.staleManifest path (.other "file still present after deletion"))

/-- Copies a template to the place of a manifest. -/
def copyTemplate (obstacles : Obstacles) (template root : String) : Act Unit := do
  let target := manifestPath root
  let (fs, outcome) := (← Act.files).copyFile obstacles template target
  Act.setFiles fs
  Act.orFail (fun fault => .manifestNotCreated target (some fault)) outcome
  if !hasManifest (← Act.files) root then throw (.manifestNotCreated target none)

/-- Gives a package a new manifest. -/
def initializePackage (obstacles : Obstacles) (root : String) (source : TemplateSource) :
    Act Initialization := do
  let template := source.path
  if !(← Act.files).isFile template then throw (.noTemplate template)
  Act.note initTopic s!"Using manifest template: {Raw.shown template}"
  let target := manifestPath root
  let outcome ← do
    if (← Act.files).isThere target then
      Act.note initTopic "Package manifest already exists, re-initializing."
      removeManifest obstacles target
      Act.note initTopic "Existing package manifest was deleted."
      pure Initialization.replaced
    else pure Initialization.created
  copyTemplate obstacles template root
  return outcome

end Ingot.Workflow
