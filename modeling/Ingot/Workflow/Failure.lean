import Ingot.Package.Store
import Ingot.Sources.Scan
import Ingot.Workflow.Options
import Ingot.Toolchain
import Ingot.Compilation.FrontEnd

/-!
# Failures

Why an invocation ends without its result. Every failure has a message, causes, a code that
names its kind, and for some a word of help. All but one kind mean that something outside
of the program has to be mended; an internal failure is a fault of the program.
-/

namespace Ingot.Workflow

open Package (ManifestError)
open Compilation (FrontEndFault)

/-- Why an invocation fails. -/
inductive Failure where
  /-- There is no such operation. -/
  | unknownOperation (operation : String)
  /-- The directory of the package is not there. -/
  | noRoot (path : String)
  /-- The working directory is not known. -/
  | noWorkingDirectory (fault : IoFault)
  /-- The package has no manifest. -/
  | noManifest (root : String)
  /-- The manifest is no good. -/
  | badManifest (error : ManifestError)
  /-- The directory of the sources is not there. -/
  | noSourceRoot (path : String)
  /-- There is no template of manifests. -/
  | noTemplate (path : String)
  /-- A manifest cannot be removed. -/
  | staleManifest (path : String) (fault : IoFault)
  /-- A manifest cannot be made. -/
  | manifestNotCreated (path : String) (fault : Option IoFault)
  /-- The platform is not supported. -/
  | unsupportedPlatform (platform : Platform)
  /-- The directory of the tools is not there. -/
  | noToolsDirectory (path : String)
  /-- The file of a tool is not there. -/
  | toolMissing (tool : Tool) (path : String)
  /-- The sources cannot be found. -/
  | scan (path message : String)
  /-- The directory for what is built cannot be made. -/
  | noOutputDirectory (path : String) (fault : IoFault)
  /-- A source does not compile. -/
  | compile (file : String) (fault : FrontEndFault)
  /-- Two sources have units of the same name. -/
  | repeatedUnit (unit first second : String)
  /-- An artifact cannot be written. -/
  | emit (form : ArtifactForm) (path message : String)
  /-- An artifact cannot be read again. -/
  | artifactUnreadable (path : String) (fault : IoFault)
  /-- There is no unit to run. -/
  | noEntry (entry available : String)
  /-- A tool is nowhere to be found. -/
  | toolNotFound (tool : Tool)
  /-- A program cannot be run. -/
  | execution (command message : String)
  /-- The program itself is at fault. -/
  | internal (message : String)
  deriving DecidableEq, Repr

/-- The form of artifacts as it is named in messages. -/
def ArtifactForm.title : ArtifactForm → String
  | text => "IR"
  | bitcode => "bitcode"

namespace Failure

/-- A failure in words, without its causes. -/
def message : Failure → String
  | unknownOperation operation => s!"unknown operation: '{operation}'"
  | noRoot path => s!"the specified root directory `{Raw.shown path}` does not exist"
  | noWorkingDirectory _ => "failed to determine the current directory"
  | noManifest root => s!"package manifest file does not exist in `{Raw.shown root}`"
  | badManifest error => error.message
  | noSourceRoot path =>
    s!"source root directory `{Raw.shown path}` from the package manifest does not exist"
  | noTemplate path => s!"default package manifest file `{Raw.shown path}` does not exist"
  | staleManifest path _ => s!"unable to delete existing package manifest `{Raw.shown path}`"
  | manifestNotCreated path _ => s!"could not create default package manifest `{Raw.shown path}`"
  | unsupportedPlatform platform => s!"{platform.name} is not currently supported"
  | noToolsDirectory path => s!"tools directory `{Raw.shown path}` does not exist"
  | toolMissing tool path =>
    s!"required tool executable '{tool.name}' is missing at `{Raw.shown path}`"
  | scan path message => s!"failed to scan `{Raw.shown path}`: {message}"
  | noOutputDirectory path _ => s!"failed to create output directory `{Raw.shown path}`"
  | compile file _ => s!"failed to compile `{Raw.shown file}`"
  | repeatedUnit unit first second =>
    s!"`{Raw.shown first}` and `{Raw.shown second}` both compile to unit `{unit}`"
  | emit form path message =>
    s!"there was an error writing {form.title} to `{Raw.shown path}`: {message}"
  | artifactUnreadable path _ => s!"failed to read emitted artifact `{Raw.shown path}`"
  | noEntry entry _ => s!"entry unit `{entry}` was not found"
  | toolNotFound tool => s!"could not find the `{tool.name}` interpreter"
  | execution command message => s!"failed to run `{command}`: {message}"
  | internal message => message

/-- The causes of a failure in words, the nearest one first. -/
def causes : Failure → List String
  | noWorkingDirectory fault => [fault.message]
  | badManifest error => (error.cause.map IoFault.message).toList
  | staleManifest _ fault => [fault.message]
  | manifestNotCreated _ fault => (fault.map IoFault.message).toList
  | noOutputDirectory _ fault => [fault.message]
  | compile _ (.unreadable fault) => [(FrontEndFault.unreadable fault).message, fault.message]
  | compile _ fault => [fault.message]
  | artifactUnreadable _ fault => [fault.message]
  | _ => []

/-- The code that names the kind of a failure. -/
def code : Failure → String
  | unknownOperation _ => "ion::driver::unknown_operation"
  | noRoot _ => "ion::driver::root_not_found"
  | noWorkingDirectory _ => "ion::driver::cwd"
  | noManifest _ => "ion::manifest::not_found"
  | badManifest _ => "ion::manifest::invalid"
  | noSourceRoot _ => "ion::manifest::source_root"
  | noTemplate _ => "ion::init::template_not_found"
  | staleManifest _ _ => "ion::init::stale_manifest"
  | manifestNotCreated _ _ => "ion::init::create"
  | unsupportedPlatform _ => "ion::integrity::platform"
  | noToolsDirectory _ => "ion::integrity::tools_dir"
  | toolMissing _ _ => "ion::integrity::tool_missing"
  | scan _ _ => "ion::scan::failed"
  | noOutputDirectory _ _ => "ion::build::output_dir"
  | compile _ _ => "ion::compile::failed"
  | repeatedUnit _ _ _ => "ion::compile::duplicate_unit"
  | emit _ _ _ => "ion::emit::failed"
  | artifactUnreadable _ _ => "ion::emit::read_back"
  | noEntry _ _ => "ion::run::entry_not_found"
  | toolNotFound _ => "ion::run::tool_not_found"
  | execution _ _ => "ion::run::execution"
  | internal _ => "ion::internal"

/-- What may help against a failure. -/
def help? : Failure → Option String
  | unknownOperation _ => some "expected one of: init, build, run"
  | noManifest _ => some "run `ion init` to create a default package manifest"
  | noTemplate _ => some "use `--debug` to read the template from the current directory"
  | noToolsDirectory _ =>
    some "you may have a corrupt installation; reinstall or pass --tools-path"
  | toolMissing _ _ => some "you may have a corrupt installation"
  | repeatedUnit _ _ _ => some "rename one of the source files so their unit names differ"
  | noEntry _ available =>
    some s!"available units: {available}; set `entry` in the [options] block of Ion.toml"
  | toolNotFound _ =>
    some "install LLVM or pass --tools-path pointing at a directory containing it"
  | _ => none

/-- Whether the program itself is at fault. -/
def isInternal : Failure → Bool
  | internal _ => true
  | _ => false

/-- The status with which the program ends. -/
def exitStatus (f : Failure) : Nat := if f.isInternal then 101 else 1

/-- A failure as the user sees it: the message, the causes, and the word of help. -/
def render (f : Failure) : String :=
  let first :=
    if f.isInternal then s!"internal error: {f.message} (this is a bug in ion)\n"
    else s!"error: {f.message}\n"
  let causes := f.causes.map fun cause => s!"  caused by: {cause}\n"
  let help := f.help?.toList.map fun help => s!"help: {help}\n"
  String.join (first :: causes ++ help)

/-- The failure of a scan. -/
def ofScan (fault : Sources.ScanFault) : Failure := scan fault.path fault.message

end Failure

end Ingot.Workflow
