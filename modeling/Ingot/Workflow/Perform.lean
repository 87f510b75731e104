import Ingot.Workflow.Compile
import Ingot.Workflow.Engine
import Ingot.Workflow.Init
import Ingot.Workflow.Operation

/-!
# Performing an invocation

The stages of an invocation, each of which may be the last: the operation is looked up,
the tools are checked, the directory of the package is found. A package that is initialized
gets its manifest; for all else the manifest is read, the sources are found and compiled,
and what was compiled is built or run.
-/

namespace Ingot.Workflow

open Package (Manifest hasManifest readManifest)
open Compilation (FrontEnd)

/-- The part of the program that the notes on the stages belong to. -/
def performTopic : String := "ion::ops::driver"

/-! ### Stages -/

/-- The operation of a name. -/
def resolveOperation (name : String) : Except Failure Operation :=
  match Operation.ofName? name with
  | none => .error (.unknownOperation name)
  | some operation => .ok operation

/-- The path of the working directory, which may have been removed. -/
def workingPath (fs : FileSystem) : Except Failure String :=
  if (fs.node? fs.workingDirectory).any Node.isDirectory then .ok fs.workingPath
  else .error (.noWorkingDirectory .notFound)

/-- The directory of the package: the one that is asked for, or the base. -/
def resolveRoot (fs : FileSystem) (asked : Option String) (base : String) :
    Except Failure String :=
  let root := match asked with
    | some path => if path.isEmpty then base else Path.join base path
    | none => base
  if fs.isDirectory root then .ok (fs.canonicalOr root) else .error (.noRoot root)

/-- The directory of the sources of a package. -/
def resolveSourceRoot (root : String) (manifest : Manifest) : Act String := do
  match manifest.sourceRoot with
  | none => return root
  | some directory =>
    let path := (← Act.files).canonicalOr (Path.join root directory)
    if !(← Act.files).isDirectory path then throw (.noSourceRoot path)
    Act.note performTopic s!"Using source root directory from package manifest: {Raw.shown path}"
    return path

/-- The part of the program that the notes on finding sources belong to. -/
def scanTopic : String := "ion::ops::scanner"

/-- The sources in a scope. -/
def findSources (scope : Sources.Scope) : Act (List String) := do
  let fs ← Act.files
  (scope.leftOut fs).forM fun path => Act.note scanTopic s!"excluded {Raw.shown path}"
  Act.orFail .ofScan (scope.scan fs)

/-- Makes the directory for what is built. -/
def ensureOutput (path : String) : Act Unit := do
  let (fs, outcome) := (← Act.files).ensureDirectory path
  Act.setFiles fs
  let isNew ← Act.orFail (.noOutputDirectory path) outcome
  if isNew then Act.note performTopic "Created output directory."

/-! ### The whole -/

/-- Why an invocation stops before its end without a failure. -/
inductive Advisory where
  /-- There are no sources. -/
  | noSources
  deriving DecidableEq, Repr

/-- Why an invocation stops, in words. -/
def Advisory.message : Advisory → String
  | noSources => "No matching files discovered."

/-- What an invocation came to. -/
inductive Outcome where
  /-- The package has a new manifest. -/
  | initialized (what : Initialization)
  /-- There was nothing to do. -/
  | stopped (why : Advisory)
  /-- The package is built. -/
  | built (report : BuildReport)
  /-- The package ran. -/
  | ran (report : RunReport)

/-- Does with a project what an operation asks for. -/
def dispatch (host : Host) (options : Options) (operation : Operation) (manifest : Manifest)
    (places : Places) (project : Compilation.Project) : Act Outcome :=
  match operation.engine? with
  | none => throw (.internal s!"no engine handles operation `{operation.name}`")
  | some .build => do
    return .built (← buildProject manifest places options.form project)
  | some .run => do
    return .ran (← runProject host options manifest places project)

/-- Compiles the package in a directory and builds or runs it. -/
def performProject (host : Host) (compiler : Compiler) (options : Options)
    (operation : Operation) (root : String) : Act Outcome := do
  if !hasManifest (← Act.files) root then throw (.noManifest root)
  let manifest ← Act.orFail .badManifest (readManifest (← Act.files) root)
  Act.note performTopic "Package manifest file loaded."
  let sourceRoot ← resolveSourceRoot root manifest
  let places : Places := ⟨root, sourceRoot, options.outputDirectory root⟩
  let patterns ← Act.orFail .ofScan (Sources.readPatterns sourceRoot manifest.exclude)
  let files ← findSources ⟨sourceRoot, some places.output, patterns⟩
  if files.isEmpty then
    Act.line .warning Advisory.noSources.message
    return .stopped .noSources
  ensureOutput places.output
  let project ← compiler sourceRoot files
  dispatch host options operation manifest places project

/-- Performs an invocation with something that compiles sources. -/
def performWith (host : Host) (compiler : Compiler) (options : Options) : Act Outcome := do
  Act.note performTopic s!"Using operation: {options.operation}"
  let operation ← Act.orFail id (resolveOperation options.operation)
  Act.note performTopic "Requested operation is valid."
  let _ ← checkInstallation host.platform options.toolsDirectory options.noIntegrity
  let base ← Act.orFail id (workingPath (← Act.files))
  let root ← Act.orFail id (resolveRoot (← Act.files) options.root base)
  Act.note performTopic s!"Using root directory: {Raw.shown root}"
  if operation = .init then
    let template : TemplateSource := ⟨options.debug, options.baseDirectory, base⟩
    let outcome ← initializePackage host.obstacles root template
    Act.line .created outcome.message
    return .initialized outcome
  else performProject host compiler options operation root

/-- Performs an invocation, where the sources are compiled one after the other. -/
def perform (host : Host) (frontEnd : FrontEnd) (options : Options) : Act Outcome :=
  performWith host (compileSources frontEnd) options

end Ingot.Workflow
