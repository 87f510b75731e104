import Ingot.FileSystem.Basic

/-!
# Where a path leads

Following a path name by name from the top or from the working directory. Two dots lead up,
a link leads to where its target leads, and all but the last name must lead to directories.
At most forty links are followed.
-/

namespace Ingot.FileSystem

/-- Where a path leads: to something, or to a name that is free in a directory. -/
inductive Spot where
  /-- Something stands here. -/
  | found (location : Location) (node : Node)
  /-- Nothing stands here, but the directory does. -/
  | vacant (location : Location)

/-- The most links that are followed. -/
def linkLimit : Nat := 40

/-- The most bytes of a name. -/
def nameLimit : Nat := 255

/-- The most bytes of a path. -/
def pathLimit : Nat := 4095

/-- The names of a path. A slash at the end means that a directory must be there. -/
def namesOf (path : String) : List String :=
  let names := Path.segments path
  if path.toList.getLast? = some '/' ∧ !names.isEmpty then names ++ ["."] else names

/-- Where the names of a path start: at the top, or in the given directory. -/
def startOf (directory : Location) (path : String) : Location :=
  if Path.isAbsolute path then [] else directory

/-- The most names that the target of a link leads through. -/
def longestTarget : List (Location × Node) → Nat
  | [] => 0
  | (_, .link target) :: nodes => max (namesOf target).length (longestTarget nodes)
  | _ :: nodes => longestTarget nodes

theorem length_le_longestTarget {l : Location} {target : String} :
    ∀ {nodes : List (Location × Node)}, nodes.lookup l = some (.link target) →
      (namesOf target).length ≤ longestTarget nodes
  | [], h => by simp at h
  | (k, n) :: nodes, h => by
    rw [List.lookup_cons] at h
    split at h
    · rw [Option.some.inj h]
      exact Nat.le_max_left ..
    · have ih := length_le_longestTarget h
      cases n with
      | link other => exact Nat.le_trans ih (Nat.le_max_right ..)
      | file content permissions => exact ih
      | directory => exact ih

theorem length_le_of_node {fs : FileSystem} {l : Location} {target : String}
    (h : fs.node? l = some (.link target)) : (namesOf target).length ≤ longestTarget fs.nodes := by
  unfold node? at h
  split at h
  · cases h
  · exact length_le_longestTarget h

/-- Follows names from a location. The last name is followed too if it is a link, unless
`followLast` is false. -/
def walk (fs : FileSystem) (followLast : Bool) (links : Nat) (at_ : Location)
    (todo : List String) : Except IoFault Spot :=
  match todo with
  | [] => .ok (.found at_ .directory)
  | "." :: rest => walk fs followLast links at_ rest
  | ".." :: rest => walk fs followLast links at_.dropLast rest
  | name :: rest =>
    if Raw.size name > nameLimit then .error .nameTooLong
    else
      let here := at_ ++ [name]
      match _h : fs.node? here with
      | none => if rest.isEmpty then .ok (.vacant here) else .error .notFound
      | some .directory => walk fs followLast links here rest
      | some (.file content permissions) =>
        if rest.isEmpty then .ok (.found here (.file content permissions))
        else .error .notDirectory
      | some (.link target) =>
        if rest.isEmpty ∧ !followLast then .ok (.found here (.link target))
        else
          match links with
          | 0 => .error .tooManyLinks
          | links + 1 =>
            if target.isEmpty then .error .notFound
            else walk fs followLast links (startOf at_ target) (namesOf target ++ rest)
termination_by todo.length + links * longestTarget fs.nodes
decreasing_by
  · simp
  · simp
  · simp
  · have hle := length_le_of_node _h
    simp only [List.length_append, List.length_cons, Nat.succ_mul]
    omega

/-- Whether a path can be one. -/
def checkPath (path : String) : Except IoFault Unit :=
  if path.toList.contains (Char.ofNat 0) then .error .badPath
  else if path.isEmpty then .error .notFound
  else if Raw.size path > pathLimit then .error .nameTooLong
  else .ok ()

/-- Where a path leads. -/
def resolve (fs : FileSystem) (followLast : Bool) (path : String) : Except IoFault Spot :=
  match checkPath path with
  | .error fault => .error fault
  | .ok () => walk fs followLast linkLimit (startOf fs.workingDirectory path) (namesOf path)

/-- What stands where a path leads, and the location. -/
def find (fs : FileSystem) (followLast : Bool) (path : String) :
    Except IoFault (Location × Node) :=
  match fs.resolve followLast path with
  | .error fault => .error fault
  | .ok (.vacant _) => .error .notFound
  | .ok (.found location node) => .ok (location, node)

/-- Whether something stands where a path leads. -/
def isThere (fs : FileSystem) (path : String) : Bool :=
  match fs.find true path with
  | .ok _ => true
  | .error _ => false

/-- Whether a directory stands where a path leads. -/
def isDirectory (fs : FileSystem) (path : String) : Bool :=
  match fs.find true path with
  | .ok (_, node) => node.isDirectory
  | .error _ => false

/-- Whether a file stands where a path leads. -/
def isFile (fs : FileSystem) (path : String) : Bool :=
  match fs.find true path with
  | .ok (_, node) => node.isFile
  | .error _ => false

/-- The path from the top, without links and dots, that leads where a path leads. -/
def canonical (fs : FileSystem) (path : String) : Except IoFault String :=
  (fs.find true path).map fun (location, _) => location.path

/-- The path from the top that leads where a path leads, or the path itself if it leads
nowhere. -/
def canonicalOr (fs : FileSystem) (path : String) : String :=
  (fs.canonical path).toOption.getD path

end Ingot.FileSystem
