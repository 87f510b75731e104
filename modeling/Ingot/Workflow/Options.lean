import Ingot.Path
import Ingot.Settings

/-!
# Options

What one invocation is asked to do. The command line gives the options; what it leaves open
is taken from the settings.
-/

namespace Ingot.Workflow

/-- The form of what is built. -/
inductive ArtifactForm where
  /-- Text. -/
  | text
  /-- Containers. -/
  | bitcode
  deriving DecidableEq, Repr

/-- The ending of the names of files in a form. -/
def ArtifactForm.ending : ArtifactForm → String
  | text => "ir"
  | bitcode => "bc"

/-- The options of an invocation. -/
structure Options where
  /-- What to do, as the user names it. -/
  operation : String
  /-- The directory of the package. -/
  root : Option String
  /-- The directory for what is built. -/
  output : Option String
  /-- Whether to build in the binary form. -/
  bitcode : Bool
  /-- Whether to take the template of manifests from the working directory. -/
  debug : Bool
  /-- Whether to leave out the check of the tools. -/
  noIntegrity : Bool
  /-- The directory of the tools. -/
  toolsPath : Option String
  /-- How many sources to compile at a time. -/
  jobs : Option Nat
  /-- The directory of the installation. -/
  baseDirectory : String
  deriving DecidableEq, Repr

namespace Options

/-- The options of an operation of which nothing else is known. -/
def ofOperation (operation baseDirectory : String) : Options :=
  ⟨operation, none, none, false, false, false, none, none, baseDirectory⟩

/-- Options with what they leave open taken from settings. -/
def withSettings (o : Options) (s : Settings) : Options :=
  { o with
    output := o.output <|> s.output
    bitcode := o.bitcode || s.bitcode
    jobs := o.jobs <|> s.jobs
    toolsPath := o.toolsPath <|> s.toolsPath }

/-- The form of what is built. -/
def form (o : Options) : ArtifactForm := if o.bitcode then .bitcode else .text

/-- The usual directory for what is built. -/
def usualOutput : String := "out"

/-- The directory for what is built; a relative one lies in the directory of the package. -/
def outputDirectory (o : Options) (root : String) : String :=
  Path.join root (o.output.getD usualOutput)

/-- The directory of the tools; usually it lies in that of the installation. -/
def toolsDirectory (o : Options) : String :=
  o.toolsPath.getD (Path.join o.baseDirectory "tools")

end Options

end Ingot.Workflow
