import Ingot.FileSystem.Access
import Ingot.Package.BuildCounter

/-!
# Manifests in files

The manifest of a package is a file in the directory of the package. Here it is looked for,
read, and changed when a build is counted.
-/

namespace Ingot.Package

/-- What is wrong with the file of a manifest. -/
inductive ManifestError where
  /-- The file cannot be read. -/
  | unreadable (path : String) (fault : IoFault)
  /-- The text in it is no good manifest. -/
  | faulty (path : String) (fault : ManifestFault)
  /-- The file cannot be written. -/
  | unwritable (path : String) (fault : IoFault)
  deriving DecidableEq, Repr

/-- An error in words. -/
def ManifestError.message : ManifestError → String
  | unreadable path _ => s!"failed to read manifest `{Raw.shown path}`"
  | faulty path fault =>
    if fault.isReadable then s!"invalid manifest `{Raw.shown path}`: {fault.message}"
    else s!"failed to parse manifest `{Raw.shown path}`: {fault.message}"
  | unwritable path _ => s!"failed to write manifest `{Raw.shown path}`"

/-- The fault of the system behind an error. -/
def ManifestError.cause : ManifestError → Option IoFault
  | unreadable _ fault => some fault
  | faulty _ _ => none
  | unwritable _ fault => some fault

/-- The path of the manifest in the directory of a package. -/
def manifestPath (root : String) : String := Path.join root manifestName

/-- Whether a package has a manifest. -/
def hasManifest (fs : FileSystem) (root : String) : Bool := fs.isFile (manifestPath root)

/-- Reads the text of a manifest; the path is for the messages. -/
def Manifest.parseAt (path text : String) : Except ManifestError Manifest :=
  (Manifest.parse text).mapError (.faulty path)

/-- Reads the manifest in the directory of a package. -/
def readManifest (fs : FileSystem) (root : String) : Except ManifestError Manifest :=
  let path := manifestPath root
  match fs.readText path with
  | .error fault => .error (.unreadable path fault)
  | .ok text => Manifest.parseAt path text

/-- Counts a build in the manifest of a package; the answer is the number of builds. -/
def countBuildIn (fs : FileSystem) (root : String) : Except ManifestError (Nat × FileSystem) :=
  let path := manifestPath root
  match fs.readText path with
  | .error fault => .error (.unreadable path fault)
  | .ok text =>
    match countBuild text with
    | .error fault => .error (.faulty path fault)
    | .ok (count, text) =>
      match fs.writeText path text with
      | .error fault => .error (.unwritable path fault)
      | .ok fs => .ok (count, fs)

end Ingot.Package
