import Ingot.FileSystem.Resolve

/-!
# Reading and changing files

The operations on a file system. Each answers with the fault that stops it, and then
changes nothing; but making a row of directories may leave those that were made before the
fault, and a copy that is cut short leaves a beginning.
-/

namespace Ingot

/-- How a copy is cut short. -/
inductive Interruption where
  /-- The file for the copy cannot be opened. -/
  | atOnce (fault : IoFault)
  /-- Only some bytes find room in it. -/
  | after (size : Nat) (fault : IoFault)
  deriving DecidableEq, Repr

/-- What is in the way of changes besides the files themselves: the permissions of
directories, and the room on the disk. -/
structure Obstacles where
  /-- Why an entry cannot be removed. -/
  removal : FileSystem → Location → Option IoFault
  /-- Why a copy cannot be made, or not to its end. -/
  copy : FileSystem → Location → Option Interruption

/-- Nothing is in the way. -/
def Obstacles.none : Obstacles := ⟨fun _ _ => .none, fun _ _ => .none⟩

end Ingot

namespace Ingot.FileSystem

/-! ### Files -/

/-- The bytes of the file that a path leads to. -/
def readBytes (fs : FileSystem) (path : String) : Except IoFault ByteArray :=
  match fs.find true path with
  | .error fault => .error fault
  | .ok (_, .file content permissions) =>
    if permissions.readable then .ok content else .error .notPermitted
  | .ok (_, _) => .error .isDirectory

/-- The text of the file that a path leads to. -/
def readText (fs : FileSystem) (path : String) : Except IoFault String :=
  match fs.readBytes path with
  | .error fault => .error fault
  | .ok bytes =>
    match String.fromUTF8? bytes with
    | none => .error .notText
    | some text => .ok text

/-- Makes a file hold bytes, as a new file if there is none; a file that is there keeps its
permissions. -/
def writeWith (fs : FileSystem) (fresh : Permissions) (path : String) (content : ByteArray) :
    Except IoFault FileSystem :=
  if path.toList.getLast? = some '/' then .error .isDirectory
  else
    match fs.resolve true path with
    | .error fault => .error fault
    | .ok (.vacant location) => .ok (fs.put location (.file content fresh))
    | .ok (.found location (.file _ permissions)) =>
      if permissions.writable then .ok (fs.put location (.file content permissions))
      else .error .notPermitted
    | .ok (.found _ _) => .error .isDirectory

/-- Makes a file hold bytes. -/
def writeBytes (fs : FileSystem) (path : String) (content : ByteArray) :
    Except IoFault FileSystem :=
  fs.writeWith .ordinary path content

/-- Makes a file hold a text. -/
def writeText (fs : FileSystem) (path text : String) : Except IoFault FileSystem :=
  fs.writeBytes path text.toUTF8

/-- Removes a file or a link. -/
def removeFile (fs : FileSystem) (obstacles : Obstacles) (path : String) :
    Except IoFault FileSystem :=
  match fs.find false path with
  | .error fault => .error fault
  | .ok (location, node) =>
    match obstacles.removal fs location with
    | some fault => .error fault
    | none => if node.isDirectory then .error .isDirectory else .ok (fs.drop location)

/-- Fills the file at a location, as a new file if there is none. The answer has the file
system as it is afterwards, also after a fault. -/
def fillFile (fs : FileSystem) (obstacles : Obstacles) (location : Location)
    (content : ByteArray) (permissions : Permissions) : FileSystem × Except IoFault Unit :=
  match obstacles.copy fs location with
  | none => (fs.put location (.file content permissions), .ok ())
  | some (.atOnce fault) => (fs, .error fault)
  | some (.after size fault) =>
    (fs.put location (.file (content.extract 0 size) permissions), .error fault)

/-- Copies a file with its permissions over another one. The answer has the file system as
it is afterwards, also after a fault. -/
def copyFile (fs : FileSystem) (obstacles : Obstacles) (source target : String) :
    FileSystem × Except IoFault Unit :=
  match fs.find true source with
  | .error fault => (fs, .error fault)
  | .ok (origin, .file content permissions) =>
    if !permissions.readable then (fs, .error .notPermitted)
    else
      match fs.resolve true target with
      | .error fault => (fs, .error fault)
      | .ok (.vacant location) => fs.fillFile obstacles location content permissions
      | .ok (.found location (.file _ old)) =>
        if !old.writable then (fs, .error .notPermitted)
        else if location = origin then fs.fillFile obstacles location .empty permissions
        else fs.fillFile obstacles location content permissions
      | .ok (.found _ _) => (fs, .error .isDirectory)
  | .ok (_, _) => (fs, .error .notRegular)

/-! ### Directories -/

/-- Makes a directory. -/
def makeDirectory (fs : FileSystem) (path : String) : Except IoFault FileSystem :=
  match checkPath path with
  | .error fault => .error fault
  | .ok () =>
    let names := Path.segments path
    let start := startOf fs.workingDirectory path
    match names.getLast? with
    | none => .error .alreadyThere
    | some last =>
      if last = "." ∨ last = ".." then
        match fs.walk true linkLimit start (names.dropLast ++ ["."]) with
        | .error fault => .error fault
        | .ok _ => .error .alreadyThere
      else
        match fs.walk false linkLimit start names with
        | .error fault => .error fault
        | .ok (.found _ _) => .error .alreadyThere
        | .ok (.vacant location) => .ok (fs.put location .directory)

/-- Makes a directory that may be there already; what is asked is `depth` directories that
may have to be made first. The answer has the file system as it is afterwards, also after a
fault. -/
def makeWithParents : Nat → FileSystem → String → FileSystem × Except IoFault Unit
  | 0, fs, _ => (fs, .error .noWholeTree)
  | depth + 1, fs, path =>
    if path.isEmpty then (fs, .ok ())
    else
      match fs.makeDirectory path with
      | .ok fs => (fs, .ok ())
      | .error .notFound =>
        match Path.parent? path with
        | none => (fs, .error .noWholeTree)
        | some parent =>
          match makeWithParents depth fs parent with
          | (fs, .error fault) => (fs, .error fault)
          | (fs, .ok ()) =>
            match fs.makeDirectory path with
            | .ok fs => (fs, .ok ())
            | .error fault => if fs.isDirectory path then (fs, .ok ()) else (fs, .error fault)
      | .error fault => if fs.isDirectory path then (fs, .ok ()) else (fs, .error fault)

/-- Makes a directory and those it is in, as far as they are not there. -/
def makeDirectories (fs : FileSystem) (path : String) : FileSystem × Except IoFault Unit :=
  makeWithParents ((Path.components path).length + 1) fs path

/-- Makes sure that a directory is there; the answer says whether it had to be made. -/
def ensureDirectory (fs : FileSystem) (path : String) : FileSystem × Except IoFault Bool :=
  if fs.isDirectory path then (fs, .ok false)
  else
    match fs.makeDirectories path with
    | (fs, .error fault) => (fs, .error fault)
    | (fs, .ok ()) => (fs, .ok true)

/-- Removes what stands where a path leads, with all that is below it. -/
def removeAll (fs : FileSystem) (path : String) : Except IoFault FileSystem :=
  match fs.find false path with
  | .error fault => .error fault
  | .ok (location, _) =>
    .ok { fs with nodes := fs.nodes.filter fun e => !location.isPrefixOf e.1 }

end Ingot.FileSystem
