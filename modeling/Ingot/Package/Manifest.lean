import Ingot.Text.Blank
import Ingot.Toml.Schema
import Ingot.Version.Requirement

/-!
# Manifests

The manifest of a package says what the package is called, which version it has, how often
it was built, what it depends on, and how it is compiled. `Manifest.parse` reads the text
of one; it must be a TOML document, its fields must have their types, and names and
versions must be well formed.
-/

namespace Ingot.Package

open Toml (Data DocumentFault Record)

/-! ### What a manifest says -/

/-- The name of the file that holds the manifest of a package. -/
def manifestName : String := "Ion.toml"

/-- The name of the file that new manifests are copied from. -/
def templateName : String := "Ion.default.toml"

/-- The unit that runs if a manifest names none. -/
def defaultEntry : String := "main"

/-- Another package that a package uses. -/
structure Dependency where
  /-- The name of the other package. -/
  name : String
  /-- The versions of it that will do. -/
  version : String
  deriving DecidableEq, Repr

/-- How a package is compiled. -/
structure CompileOptions where
  /-- The directory of the sources, relative to the package. -/
  sourceRoot : Option String
  /-- The unit that runs. -/
  entry : Option String
  /-- Patterns of sources that are left out. -/
  exclude : List String
  deriving DecidableEq, Repr

/-- A manifest. -/
structure Manifest where
  /-- The name of the package. -/
  name : String
  /-- What the package is for. -/
  description : Option String
  /-- The version of the package. -/
  version : String
  /-- How often the package was built. -/
  build : Nat
  /-- Who wrote the package. -/
  author : Option String
  /-- The packages it uses, in order. -/
  dependencies : List Dependency
  /-- How it is compiled. -/
  options : Option CompileOptions
  deriving DecidableEq, Repr

namespace Manifest

/-- The version of a package as a version. -/
def versionNumber (m : Manifest) : Option Version.Number := (Version.parse m.version).toOption

/-- The directory of the sources, if the manifest names one. -/
def sourceRoot (m : Manifest) : Option String := m.options.bind CompileOptions.sourceRoot

/-- The unit that runs. -/
def entry (m : Manifest) : String := (m.options.bind CompileOptions.entry).getD defaultEntry

/-- The patterns of sources that are left out. -/
def exclude (m : Manifest) : List String := (m.options.map CompileOptions.exclude).getD []

end Manifest

/-! ### Schemas -/

/-- How a dependency is read. -/
def dependencyRecord : Record Dependency where
  name := "Dependency"
  fields := ["name", "version"]
  required := ["name"]
  start := ⟨"", "*"⟩
  field name data d :=
    match name with
    | "name" => data.asString.map fun s => { d with name := s }
    | "version" => data.asString.map fun s => { d with version := s }
    | _ => .ok d

/-- How the options of a package are read. -/
def optionsRecord : Record CompileOptions where
  name := "PackageOptions"
  fields := ["source-root", "entry", "exclude"]
  required := []
  start := ⟨none, none, []⟩
  field name data o :=
    match name with
    | "source-root" => data.asPath.map fun s => { o with sourceRoot := some s }
    | "entry" => data.asString.map fun s => { o with entry := some s }
    | "exclude" => (data.asList Data.asString).map fun xs => { o with exclude := xs }
    | _ => .ok o

/-- A manifest without anything in it. -/
def Manifest.blank : Manifest := ⟨"", none, "", 0, none, [], none⟩

/-- How the part of a manifest that describes the package itself is read. -/
def packageRecord : Record Manifest where
  name := "RawPackage"
  fields := ["name", "description", "version", "build", "author"]
  required := ["name", "version"]
  start := .blank
  field name data m :=
    match name with
    | "name" => data.asString.map fun s => { m with name := s }
    | "description" => data.asString.map fun s => { m with description := some s }
    | "version" => data.asString.map fun s => { m with version := s }
    | "build" => (data.asNat "u64").map fun n => { m with build := n }
    | "author" => data.asString.map fun s => { m with author := some s }
    | _ => .ok m

/-- How a whole manifest is read. -/
def manifestRecord : Record Manifest where
  name := "RawManifest"
  fields := ["package", "dependencies", "options"]
  required := ["package"]
  start := .blank
  field name data m :=
    match name with
    | "package" => (packageRecord.read data).map fun p =>
        { p with dependencies := m.dependencies, options := m.options }
    | "dependencies" => (data.asList dependencyRecord.read).map fun ds =>
        { m with dependencies := ds }
    | "options" => (optionsRecord.read data).map fun o => { m with options := some o }
    | _ => .ok m

/-! ### Faults -/

/-- What is wrong with the text of a manifest. -/
inductive ManifestFault where
  /-- It cannot be read. -/
  | document (fault : DocumentFault)
  /-- The package has no name. -/
  | emptyName
  /-- The version is none. -/
  | invalidVersion (version : String) (fault : Version.Fault)
  /-- The requirement of a dependency is none. -/
  | invalidRequirement (dependency version : String) (fault : Version.Fault)
  /-- The unit that runs has no name. -/
  | emptyEntry
  /-- There is no table for the package. -/
  | noPackageTable
  /-- The build counter is no whole number, or negative. -/
  | invalidCounter
  /-- The build counter is as large as it can be. -/
  | fullCounter
  /-- A fault that someone else found, in words. -/
  | inWords (readable : Bool) (message : String)
  deriving DecidableEq, Repr

/-- A fault in words. -/
def ManifestFault.message : ManifestFault → String
  | document fault => fault.message
  | emptyName => "package name cannot be empty"
  | invalidVersion version fault => s!"invalid version `{version}`: {fault.message}"
  | invalidRequirement dependency version fault =>
    s!"dependency `{dependency}` has invalid version requirement `{version}`: {fault.message}"
  | emptyEntry => "options.entry cannot be empty"
  | noPackageTable => "missing [package] table"
  | invalidCounter => "package.build must be a non-negative integer"
  | fullCounter => "package.build cannot be incremented any further"
  | inWords _ message => message

/-- Whether the text could be read at all, though it is not a good manifest. -/
def ManifestFault.isReadable : ManifestFault → Bool
  | document _ => false
  | inWords readable _ => readable
  | _ => true

/-! ### Reading -/

/-- Checks the requirement of a dependency. -/
def Dependency.check (d : Dependency) : Except ManifestFault Unit :=
  match Version.Requirement.parse d.version with
  | .error fault => .error (.invalidRequirement d.name d.version fault)
  | .ok _ => .ok ()

/-- Checks names and versions. -/
def Manifest.check (m : Manifest) : Except ManifestFault Unit := do
  if (Text.trimBlank m.name).isEmpty then throw .emptyName
  match Version.parse m.version with
  | .error fault => throw (.invalidVersion m.version fault)
  | .ok _ => pure ()
  m.dependencies.forM Dependency.check
  match m.options.bind CompileOptions.entry with
  | some entry => if (Text.trimBlank entry).isEmpty then throw .emptyEntry
  | none => pure ()

/-- Reads the text of a manifest. -/
def Manifest.parse (text : String) : Except ManifestFault Manifest :=
  match manifestRecord.parse text with
  | .error fault => .error (.document fault)
  | .ok m =>
    match m.check with
    | .error fault => .error fault
    | .ok () => .ok m

end Ingot.Package
