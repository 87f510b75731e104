import Ingot.Bitcode.Bits
import Ingot.Bitcode.Container
import Ingot.Bitcode.Inflate
import Ingot.Bitcode.PrefixCode
import Ingot.Bitcode.Stored
import Ingot.Code.Instruction
import Ingot.Code.Lowering
import Ingot.Command
import Ingot.CommandLine.Arguments
import Ingot.CommandLine.NoteFilter
import Ingot.CommandLine.Program
import Ingot.Compilation.FrontEnd
import Ingot.Compilation.Project
import Ingot.Console
import Ingot.Decimal.Binary64
import Ingot.Digest.Sha256
import Ingot.FileSystem.Access
import Ingot.FileSystem.Basic
import Ingot.FileSystem.Fault
import Ingot.FileSystem.Resolve
import Ingot.Glob
import Ingot.Main
import Ingot.Package.BuildCounter
import Ingot.Package.Manifest
import Ingot.Package.Store
import Ingot.Path
import Ingot.Proofs.Outcome
import Ingot.Settings
import Ingot.Shell.Builtin
import Ingot.Shell.Run
import Ingot.Shell.Script
import Ingot.Shell.State
import Ingot.Shell.Token
import Ingot.Source.Fault
import Ingot.Source.Lexing
import Ingot.Source.Parsing
import Ingot.Source.Position
import Ingot.Source.Token
import Ingot.Source.Tree
import Ingot.Sources.Scan
import Ingot.Sources.Walk
import Ingot.Text.Blank
import Ingot.Text.Count
import Ingot.Text.Hex
import Ingot.Text.Letter
import Ingot.Text.Printable
import Ingot.Text.Quoted
import Ingot.Toml.Assembly
import Ingot.Toml.Grammar
import Ingot.Toml.Printing
import Ingot.Toml.Reading
import Ingot.Toml.Scalar
import Ingot.Toml.Schema
import Ingot.Toml.Tree
import Ingot.Toolchain
import Ingot.Version.Fault
import Ingot.Version.Number
import Ingot.Version.Requirement
import Ingot.Workflow.Compile
import Ingot.Workflow.Emit
import Ingot.Workflow.Engine
import Ingot.Workflow.Failure
import Ingot.Workflow.Init
import Ingot.Workflow.Operation
import Ingot.Workflow.Options
import Ingot.Workflow.Perform
import Ingot.Workflow.Tools
import Ingot.Workflow.World
import Ingot.Proofs.Meaning.Calling
import Ingot.Proofs.Meaning.Evaluation
import Ingot.Proofs.Meaning.Execution
import Ingot.Proofs.Meaning.Registers
import Ingot.Proofs.Meaning.Simulation
import Ingot.Proofs.Meaning.Routines
import Ingot.Proofs.Source.MadeOf
import Ingot.Proofs.Source.Names
import Ingot.Proofs.Code.Proper
import Ingot.Proofs.Meaning.Words
import Ingot.Proofs.Meaning.Preservation
import Ingot.Proofs.Workflow.Acts
import Ingot.Proofs.Workflow.Workers
import Ingot.Proofs.FileSystem.Paths
import Ingot.Proofs.FileSystem.PathOrder
import Ingot.Proofs.FileSystem.Walks
import Ingot.Proofs.FileSystem.Entries
import Ingot.Proofs.FileSystem.Canonical
import Ingot.Proofs.FileSystem.Directories
import Ingot.Proofs.Workflow.Stages
import Ingot.Proofs.FileSystem.Writes
import Ingot.Proofs.FileSystem.Rewriting
import Ingot.Proofs.Workflow.Emission
import Ingot.Proofs.Workflow.Failures
import Ingot.Proofs.Bitcode.Containers
import Ingot.Proofs.Bitcode.RoundTrip
import Ingot.Proofs.Toml.Distinct
import Ingot.Proofs.Toml.Same
import Ingot.Proofs.Package.Counter
import Ingot.Proofs.Package.Rereading
import Ingot.Proofs.Compilation.UnitNames
import Ingot.Proofs.Workflow.Artifacts
import Ingot.Proofs.Workflow.Builds
import Ingot.Proofs.Workflow.Internal
import Ingot.Proofs.Code.WellFormed
import Ingot.Proofs.Code.Checks
import Ingot.Proofs.Code.Meaningful
import Ingot.Proofs.Code.Order
import Ingot.Proofs.Source.Grammar
import Ingot.Proofs.Source.Reading
import Ingot.Proofs.Source.Printing
import Ingot.Proofs.Source.RoundTrip
import Ingot.Proofs.Source.Pieces
import Ingot.Proofs.Source.LookingAhead
import Ingot.Proofs.Source.Readers
import Ingot.Proofs.Source.Blame
import Ingot.Proofs.Package.Counting
import Ingot.Proofs.Workflow.Counting
import Ingot.Proofs.Toml.Printing
import Ingot.Proofs.Package.Lines
import Ingot.Proofs.Sources.Walking
import Ingot.Proofs.Sources.Scanning
import Ingot.Proofs.Workflow.Skipping
import Ingot.Proofs.Workflow.Running
import Ingot.Proofs.Workflow.Launching
import Ingot.Proofs.Toml.Fields
import Ingot.Proofs.FileSystem.Relocation
import Ingot.Proofs.Settings.Precedence
import Ingot.Proofs.Sources.Relocation
import Ingot.Proofs.Workflow.Again
import Ingot.Proofs.Workflow.Elsewhere
import Ingot.Proofs.Workflow.Relocation
import Ingot.Proofs.FileSystem.Replacement
import Ingot.Proofs.Workflow.Initialization
import Ingot.Proofs.Code.Marks
import Ingot.Proofs.Code.Identifiers
import Ingot.Proofs.Compilation.Heading
import Ingot.Proofs.Source.Moving
import Ingot.Proofs.Code.Moving
import Ingot.Proofs.Source.Layout
import Ingot.Proofs.Compilation.Layout
import Ingot.Proofs.Source.Joining
import Ingot.Proofs.Compilation.Places
import Ingot.Proofs.Bitcode.Answers
import Ingot.Proofs.Compilation.DottedNames
import Ingot.Proofs.Workflow.Collisions
import Ingot.Proofs.Workflow.Verifying
import Ingot.Proofs.Console.Lines
import Ingot.Proofs.Workflow.Announcing
import Ingot.Proofs.Workflow.Verbosity
import Ingot.Proofs.Source.Cursor
import Ingot.Proofs.Source.Stopping
import Ingot.Proofs.Source.Statements
import Ingot.Proofs.Compilation.Beginnings
