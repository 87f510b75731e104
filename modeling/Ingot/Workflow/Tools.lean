import Ingot.Workflow.World

/-!
# The tools of an installation

On a platform where the installation brings its tools along, all of them must be in the
directory of the tools before anything else is done. Later a tool is taken from that
directory if it is there, and otherwise from the search path.
-/

namespace Ingot.Workflow

/-- What the check of the tools found. -/
structure ToolReport where
  /-- The platform. -/
  platform : Platform
  /-- The tools that had to be there, and their paths. -/
  tools : List (Tool × String)
  deriving DecidableEq, Repr

/-- The part of the program that the notes of the check belong to. -/
def toolsTopic : String := "ion::ops::integrity"

/-- Checks that the file of a tool is there; the answer is the tool with its path. -/
def checkTool (platform : Platform) (directory : String) (entry : Tool × String) :
    Act (Tool × String) := do
  let path := platform.toolPath directory entry.2
  if !(← Act.files).isFile path then throw (.toolMissing entry.1 path)
  Act.note toolsTopic s!"found {entry.1.name} at {Raw.shown path}"
  return (entry.1, path)

/-- Checks that the platform is supported and that all tools are there that it needs. -/
def checkTools (platform : Platform) (directory : String) (table : ToolTable) :
    Act ToolReport := do
  if platform = .macOs then throw (.unsupportedPlatform platform)
  if !platform.bundlesTools then
    Act.note toolsTopic s!"{platform.name} does not require bundled tools"
    return ⟨platform, []⟩
  if !(← Act.files).isDirectory directory then throw (.noToolsDirectory directory)
  match table.find? fun entry => entry.2.isEmpty with
  | some entry =>
    throw (.internal s!"tool definition for `{entry.1.name}` has an empty file name")
  | none => return ⟨platform, ← table.mapM (checkTool platform directory)⟩

/-- Checks the tools that every installation has, unless the user does not want that. -/
def checkInstallation (platform : Platform) (directory : String) (disabled : Bool) :
    Act (Option ToolReport) := do
  if disabled then
    Act.line .info "Integrity check is disabled."
    return none
  else return some (← checkTools platform directory standardTools)

/-- Where a tool is: in the directory of the tools, if there is one, or in the search
path. -/
def locateTool (host : Host) (fs : FileSystem) (directory : Option String) (tool : Tool) :
    Option String :=
  match standardTools.lookup tool with
  | none => none
  | some name =>
    match (directory.map fun d => host.platform.toolPath d name).filter fs.isFile with
    | some path => some path
    | none => programInPath fs host.searchPath name

end Ingot.Workflow
