import Ingot.Path

/-!
# Platforms and tools

The platforms that programs run on, and the tools that the program expects. On some
platforms the installation brings its own tools along.
-/

namespace Ingot

/-- A platform. -/
inductive Platform where
  /-- Linux. -/
  | linux
  /-- The system of Macintosh computers. -/
  | macOs
  /-- Windows. -/
  | windows
  /-- Any other one. -/
  | other
  deriving DecidableEq, Repr

/-- The name of a platform. -/
def Platform.name : Platform → String
  | linux => "Linux"
  | macOs => "macOS"
  | windows => "Windows"
  | other => "unknown platform"

/-- Whether the installation brings its own tools along. -/
def Platform.bundlesTools : Platform → Bool
  | windows => true
  | _ => false

/-- The ending of the names of programs. -/
def Platform.programEnding : Platform → String
  | windows => ".exe"
  | _ => ""

/-- A tool. -/
inductive Tool where
  /-- The interpreter. -/
  | lli
  /-- The compiler to machine code. -/
  | llc
  deriving DecidableEq, Repr

/-- The name of a tool. -/
def Tool.name : Tool → String
  | lli => "lli"
  | llc => "llc"

/-- Tools with the names of their files, without the ending of the platform. -/
abbrev ToolTable : Type := List (Tool × String)

/-- The tools that every installation has. -/
def standardTools : ToolTable := [(.lli, "lli"), (.llc, "llc")]

/-- The name of the file of a tool on a platform. -/
def Platform.fileName (platform : Platform) (name : String) : String :=
  name ++ platform.programEnding

/-- The path of the file of a tool in a directory. -/
def Platform.toolPath (platform : Platform) (directory name : String) : String :=
  Path.join directory (platform.fileName name)

end Ingot
