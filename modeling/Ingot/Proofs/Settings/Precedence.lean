import Ingot.CommandLine.Program
import Ingot.Proofs.Toml.Fields

/-!
# Which setting wins

A setting can be stated in three places: on the command line, in the project's file and in the
user's file. Meant to win is the first of these that states it (`Statement.atop`), and a file
that cannot be read, or is no file of settings, states nothing (`statedIn`).

**What the program performs has the settings that are meant to win** (`run_settled`), with one
exception, which that theorem tells too: a layer is remembered as `Settings`, where `bitcode` is
either set or not. So a project that states `bitcode = false` is taken for one that is silent,
and the user's `true` wins over it (`project_not_always_over_user`).
-/

namespace Ingot.Settings

open Toml

/-! ### What a layer states -/

/-- What a layer states. Other than in `Settings`, to state that the binary form is not wanted is
not to be silent about it. -/
structure Statement where
  /-- The directory for what is built. -/
  output : Option String
  /-- Whether to build in the binary form. -/
  bitcode : Option Bool
  /-- How many sources to compile at a time. -/
  jobs : Option Nat
  /-- The directory of the tools. -/
  toolsPath : Option String
  deriving DecidableEq, Repr

namespace Statement

/-- What is stated where nothing is. -/
def nothing : Statement := ⟨none, none, none, none⟩

/-- What is meant to hold when one layer lies over another: of each setting what the upper layer
states, or else what the lower one does. -/
def atop (upper lower : Statement) : Statement where
  output := upper.output <|> lower.output
  bitcode := upper.bitcode <|> lower.bitcode
  jobs := upper.jobs <|> lower.jobs
  toolsPath := upper.toolsPath <|> lower.toolsPath

/-- A statement as it is remembered. -/
def settings (s : Statement) : Settings := ⟨s.output, s.bitcode.getD false, s.jobs, s.toolsPath⟩

end Statement

/-- The entries of a section of a document; one that is not there has none. -/
def sectionOf? (record : Record Settings) (name : String) (document : List (String × Data)) :
    Option (List (String × Data)) :=
  match document.lookup name with
  | none => some []
  | some data => record.entries? data

/-- What a document states, if everything in it that is a setting can be read. -/
def Statement.ofDocument? (document : List (String × Data)) : Option Statement := do
  let build ← sectionOf? buildRecord "build" document
  let output ← stated Data.asPath "output" build
  let bitcode ← stated Data.asBool "bitcode" build
  let jobs ← stated (Data.asNat "usize") "jobs" build
  let tools ← sectionOf? toolsRecord "tools" document
  let toolsPath ← stated Data.asPath "path" tools
  return ⟨output, bitcode, jobs, toolsPath⟩

/-- What a file states, if it can be read and is a file of settings. -/
def statedIn? (fs : FileSystem) (path : String) : Option Statement := do
  let text ← (fs.readText path).toOption
  let document ← Toml.parse text
  Statement.ofDocument? document.data

/-- What a file states: nothing, if it cannot be read or is no file of settings. -/
def statedIn (fs : FileSystem) (path : String) : Statement := (statedIn? fs path).getD .nothing

/-! ### Reading a file of settings -/

theorem buildRecord_orderly : buildRecord.Orderly where
  respects := by
    simp only [buildRecord, List.forall_mem_cons]
    refine ⟨fun s => ?_, fun s => ?_, fun s => ?_, List.forall_mem_nil _⟩
    · exact asPath_same.map fun p => { s with output := some p }
    · exact asBool_same.map fun b => { s with bitcode := b }
    · exact (asNat_same "usize").map fun n => { s with jobs := some n }
  commutes := by
    simp only [buildRecord, List.pairwise_cons, List.forall_mem_cons]
    refine ⟨⟨?_, ?_, List.forall_mem_nil _⟩, ⟨?_, List.forall_mem_nil _⟩, List.forall_mem_nil _, .nil⟩
    all_goals exact Record.commute_of_sets (fun _ _ => rfl) (fun _ _ => rfl) fun _ _ _ => rfl

theorem toolsRecord_orderly : toolsRecord.Orderly where
  respects := by
    simp only [toolsRecord, List.forall_mem_cons]
    refine ⟨fun s => ?_, List.forall_mem_nil _⟩
    exact asPath_same.map fun p => { s with toolsPath := some p }
  commutes := List.pairwise_singleton _ _

theorem fileRecord_orderly : fileRecord.Orderly where
  respects := by
    simp only [fileRecord, List.forall_mem_cons]
    refine ⟨fun s => ?_, fun s => ?_, List.forall_mem_nil _⟩
    · exact (Record.read_same buildRecord_orderly).map fun b => { b with toolsPath := s.toolsPath }
    · exact (Record.read_same toolsRecord_orderly).map fun t => { s with toolsPath := t.toolsPath }
  commutes := by
    simp only [fileRecord, List.pairwise_cons, List.forall_mem_cons]
    refine ⟨⟨?_, List.forall_mem_nil _⟩, List.forall_mem_nil _, .nil⟩
    exact Record.commute_of_sets (fun _ _ => rfl) (fun _ _ => rfl) fun _ _ _ => rfl

/-- The settings for building among some entries. -/
theorem readFields_build {entries : List (String × Data)} (h : (entries.map Prod.fst).Nodup) :
    (buildRecord.readFields entries silent).toOption = do
      let output ← stated Data.asPath "output" entries
      let bitcode ← stated Data.asBool "bitcode" entries
      let jobs ← stated (Data.asNat "usize") "jobs" entries
      return ⟨output, bitcode.getD false, jobs, none⟩ := by
  rw [Record.readFields_byName buildRecord_orderly (by decide) h]
  rw [show buildRecord.fields = ["output", "bitcode", "jobs"] from rfl]
  rw [Record.readFields_pick_cons buildRecord (by decide) (fun _ _ => rfl)]
  refine Option.bind_congr fun output _ => ?_
  rw [Record.readFields_pick_cons buildRecord (by decide) (fun _ _ => rfl)]
  refine Option.bind_congr fun bitcode _ => ?_
  rw [Record.readFields_pick_cons buildRecord (by decide) (fun _ _ => rfl)]
  refine Option.bind_congr fun jobs _ => ?_
  cases output <;> cases bitcode <;> cases jobs <;> rfl

/-- The settings of the tools among some entries. -/
theorem readFields_tools {entries : List (String × Data)} (h : (entries.map Prod.fst).Nodup) :
    (toolsRecord.readFields entries silent).toOption = do
      let toolsPath ← stated Data.asPath "path" entries
      return ⟨none, false, none, toolsPath⟩ := by
  rw [Record.readFields_byName toolsRecord_orderly (by decide) h]
  rw [show toolsRecord.fields = ["path"] from rfl]
  rw [Record.readFields_pick_cons toolsRecord (by decide) (fun _ _ => rfl)]
  refine Option.bind_congr fun toolsPath _ => ?_
  cases toolsPath <;> rfl

/-- A section of the file, read by its record. -/
theorem stated_read (record : Record Settings) (name : String) (hfields : record.fields.Nodup)
    (hrequired : record.required = []) {document : List (String × Data)}
    (hneat : (Data.table document).Neat)
    {f : List (String × Data) → Option Settings}
    (hread : ∀ entries, (entries.map Prod.fst).Nodup →
      (record.readFields entries record.start).toOption = f entries)
    (hnil : f [] = some record.start) :
    (stated record.read name document).map (·.getD record.start) =
      (sectionOf? record name document).bind f := by
  unfold stated sectionOf?
  cases hlookup : document.lookup name with
  | none => exact hnil.symm
  | some data =>
    have hdata : data.Neat := by
      obtain ⟨_⟩ | ⟨_⟩ | ⟨_, inner⟩ := hneat
      exact inner _ (mem_of_lookup hlookup)
    dsimp only
    rw [Record.read_eq_readFields hrequired, Option.map_map]
    change Option.map id _ = _
    rw [Option.map_id, id]
    cases hentries : record.entries? data with
    | none => rfl
    | some entries => exact hread entries (Record.nodup_of_entries? hfields hdata hentries)

/-- **A file of settings is remembered as what it states.** -/
theorem ofTable_eq_statement {document : List (String × Data)}
    (hneat : (Data.table document).Neat) :
    (fileRecord.ofTable document).toOption =
      (Statement.ofDocument? document).map Statement.settings := by
  have hnames : (document.map Prod.fst).Nodup := by
    obtain ⟨_⟩ | ⟨_⟩ | ⟨names, _⟩ := hneat
    exact names
  have hbuild := stated_read buildRecord "build" (by decide) rfl hneat
    (fun _ => readFields_build) rfl
  have htools := stated_read toolsRecord "tools" (by decide) rfl hneat
    (fun _ => readFields_tools) rfl
  have hread : (fileRecord.ofTable document).toOption =
      (stated buildRecord.read "build" document).bind fun b? =>
        (stated toolsRecord.read "tools" document).map fun t? =>
          { b?.getD silent with toolsPath := (t?.getD silent).toolsPath } := by
    refine (Record.read_eq_readFields (r := fileRecord) rfl (.table document)).trans ?_
    refine (Record.readFields_byName fileRecord_orderly (by decide) hnames _).trans ?_
    rw [show fileRecord.fields = ["build", "tools"] from rfl]
    rw [Record.readFields_pick_cons fileRecord (by decide) (fun _ _ => rfl)]
    refine Option.bind_congr fun b? _ => ?_
    rw [Record.readFields_pick_cons fileRecord (by decide) (fun _ _ => rfl)]
    rw [Option.map_eq_bind]
    refine Option.bind_congr fun t? _ => ?_
    cases b? <;> cases t? <;> rfl
  calc (fileRecord.ofTable document).toOption
    _ = ((stated buildRecord.read "build" document).map (·.getD silent)).bind fun b =>
          ((stated toolsRecord.read "tools" document).map (·.getD silent)).map fun t =>
            { b with toolsPath := t.toolsPath } := by
        rw [hread, Option.bind_map]
        simp only [Option.map_map, Function.comp_def]
    _ = (Statement.ofDocument? document).map Statement.settings := by
        rw [show silent = buildRecord.start from rfl, hbuild]
        rw [show buildRecord.start = toolsRecord.start from rfl, htools]
        simp [Statement.ofDocument?, Statement.settings, Option.map_bind, Option.bind_assoc,
          Function.comp_def]

/-- A file that is not there cannot be read. -/
theorem readText_of_not_isThere {fs : FileSystem} {path : String} (h : ¬ fs.isThere path = true) :
    (fs.readText path).toOption = none := by
  unfold FileSystem.isThere at h
  unfold FileSystem.readText FileSystem.readBytes
  cases hfind : fs.find true path with
  | error fault => rfl
  | ok found =>
    rw [hfind] at h
    exact absurd rfl h

/-- **A file gives settings when it states something readable, and these are what it states.** -/
theorem load_eq (fs : FileSystem) (path : String) :
    (load fs path).toOption = (statedIn? fs path).map Statement.settings := by
  unfold load statedIn?
  cases fs.readText path with
  | error fault => rfl
  | ok text =>
    change ((fileRecord.parse text).mapError _).toOption =
      ((Toml.parse text).bind fun d => Statement.ofDocument? d.data).map Statement.settings
    unfold Record.parse
    cases hparse : Toml.parse text with
    | none => rfl
    | some document =>
      rw [Option.bind_some, ← ofTable_eq_statement (neat_data_of_parse hparse)]
      dsimp only
      cases fileRecord.ofTable document.data with
      | error mismatch => rfl
      | ok settings => rfl

/-- What is remembered of a file, be it there or not and well-formed or not. -/
theorem loadOrSilent_eq (fs : FileSystem) (path : String) :
    (loadOrSilent fs path).1 = (statedIn fs path).settings := by
  have hload : (load fs path).toOption.getD silent = (statedIn fs path).settings := by
    rw [load_eq, statedIn]
    cases statedIn? fs path with
    | none => rfl
    | some statement => rfl
  unfold loadOrSilent
  by_cases hthere : fs.isThere path = true
  · rw [if_pos hthere, ← hload]
    cases load fs path with
    | error e => rfl
    | ok settings => rfl
  · rw [if_neg hthere, statedIn, statedIn?, readText_of_not_isThere hthere]
    rfl

/-- What the user's file states, if there is to be one. -/
def statedByUser (fs : FileSystem) (user : Option String) : Statement :=
  (user.map (statedIn fs)).getD .nothing

/-- The settings of the layers, from what the layers state. -/
theorem loadLayers_eq (fs : FileSystem) (user : Option String) (project : String) :
    (loadLayers fs user project).1 =
      (statedByUser fs user).settings.under (statedIn fs project).settings := by
  have hunder : ∀ s : Settings, silent.under s = s := by
    rintro ⟨output, bitcode, jobs, toolsPath⟩
    simp [under, silent]
  have hlower : ((user.map (loadOrSilent fs)).getD (silent, none)).1 =
      (statedByUser fs user).settings := by
    cases user with
    | none => rfl
    | some path => exact loadOrSilent_eq fs path
  unfold loadLayers
  dsimp only
  rw [hlower, loadOrSilent_eq, hunder]

end Ingot.Settings

namespace Ingot.CommandLine

open Console (Event View)
open Compilation (FrontEnd)
open Settings (Statement statedIn statedByUser)
open Workflow (Failure Options)

/-! ### What the program performs -/

theorem orElse_assoc {α : Type} (x y z : Option α) : (x <|> y <|> z) = ((x <|> y) <|> z) := by
  cases x <;> rfl

/-- What the command line states. It can only ask for the binary form. -/
def Invocation.statement (i : Invocation) : Statement where
  output := i.output
  bitcode := if i.switches.contains .bitcode then some true else none
  jobs := i.jobs
  toolsPath := i.toolsPath

/-- What the three layers state: the command line, the project's file in the directory of the
package, and the user's file. -/
structure Layers where
  /-- The command line. -/
  line : Statement
  /-- The project's file. -/
  project : Statement
  /-- The user's file. -/
  user : Statement

/-- The layers of an invocation in a working directory. -/
def Surroundings.layers (s : Surroundings) (fs : FileSystem) (i : Invocation)
    (directory : String) : Layers where
  line := i.statement
  project := statedIn fs (Settings.pathIn (i.projectDirectory directory))
  user := statedByUser fs s.userSettings

namespace Layers

/-- What is meant to hold. -/
def effective (l : Layers) : Statement := (l.line.atop l.project).atop l.user

/-- Some layer states that the binary form is wanted. -/
def someWantsBitcode (l : Layers) : Bool :=
  l.line.bitcode.getD false || l.project.bitcode.getD false || l.user.bitcode.getD false

/-- The project does not want the binary form, but the user's file does, and the command line is
silent. -/
def Overruled (l : Layers) : Prop :=
  l.line.bitcode = none ∧ l.project.bitcode = some false ∧ l.user.bitcode = some true

/-- The binary form is wanted by some layer just when it is meant to be wanted, unless the
project is overruled. -/
theorem someWantsBitcode_eq_iff {l : Layers} (hline : l.line.bitcode ≠ some false) :
    l.someWantsBitcode = l.effective.bitcode.getD false ↔ ¬ l.Overruled := by
  unfold someWantsBitcode effective Overruled Statement.atop
  rcases hbitcode : l.line.bitcode with _ | _ | _
  · rcases l.project.bitcode with _ | _ | _ <;> rcases l.user.bitcode with _ | _ | _ <;> simp
  · exact absurd hbitcode hline
  · simp

end Layers

/-- The program does what performing some options comes to: the files, the output and the status
are those of the performance. -/
def RunsBy (host : Host) (frontEnd : FrontEnd) (s : Surroundings) (fs : FileSystem)
    (options : Options) : Prop :=
  ∃ notes : List Event,
    let performed := (Workflow.perform host frontEnd options).perform ⟨fs, notes⟩
    let result := run host frontEnd s fs
    result.files = performed.2.files ∧ result.output = View.outputTexts performed.2.told ∧
      result.status = match performed.1 with
        | .ok _ => 0
        | .error failure => failure.exitStatus

theorem statement_bitcode_ne (i : Invocation) : i.statement.bitcode ≠ some false := by
  unfold Invocation.statement
  dsimp only
  split
  · simp
  · simp

/-- The options of an invocation, from what the layers state. -/
theorem options_eq (s : Surroundings) (fs : FileSystem) (i : Invocation) (directory : String) :
    (s.options fs i directory).1 =
      { i.options s.baseDirectory with
        output := (s.layers fs i directory).effective.output
        bitcode := (s.layers fs i directory).someWantsBitcode
        jobs := (s.layers fs i directory).effective.jobs
        toolsPath := (s.layers fs i directory).effective.toolsPath } := by
  have hline : i.switches.contains .bitcode = i.statement.bitcode.getD false := by
    unfold Invocation.statement
    cases i.switches.contains .bitcode <;> rfl
  unfold Surroundings.options
  dsimp only
  rw [Settings.loadLayers_eq]
  simp only [Options.withSettings, Invocation.options, Settings.under, Statement.settings,
    Surroundings.layers, Layers.effective, Layers.someWantsBitcode, Statement.atop, hline]
  congr 1
  · exact orElse_assoc i.output _ _
  · rw [Bool.or_assoc]
  · exact orElse_assoc i.toolsPath _ _
  · exact orElse_assoc i.jobs _ _

/-- **What the program performs has the settings of the highest layer that states them**, be the
files there or not, readable or not, and well-formed or not. Only of `bitcode` it is enough that
some layer wants it, which is something else just when the project does not want what the user's
file wants. -/
theorem run_settled (host : Host) (frontEnd : FrontEnd) {s : Surroundings} {fs : FileSystem}
    {i : Invocation} {directory : String}
    (hparse : Invocation.parse s.arguments (s.valueOf "ION_TOOLS_PATH") = .ok i)
    (hdirectory : Workflow.workingPath fs = .ok directory) :
    RunsBy host frontEnd s fs
        { i.options s.baseDirectory with
          output := (s.layers fs i directory).effective.output
          bitcode := (s.layers fs i directory).someWantsBitcode
          jobs := (s.layers fs i directory).effective.jobs
          toolsPath := (s.layers fs i directory).effective.toolsPath } ∧
      ((s.layers fs i directory).someWantsBitcode =
          (s.layers fs i directory).effective.bitcode.getD false ↔
        ¬ (s.layers fs i directory).Overruled) := by
  refine ⟨?_, Layers.someWantsBitcode_eq_iff (statement_bitcode_ne i)⟩
  rw [← options_eq]
  have hrun : run host frontEnd s fs = act host frontEnd s fs i := by
    unfold run
    rw [hparse]
  refine ⟨(s.options fs i directory).2.map settingsNote, ?_⟩
  rw [hrun, act, hdirectory]
  dsimp only
  rcases (Workflow.perform host frontEnd (s.options fs i directory).1).perform _ with ⟨ending, world⟩
  cases ending with
  | error failure => exact ⟨rfl, rfl, rfl⟩
  | ok outcome => exact ⟨rfl, rfl, rfl⟩

/-! ### A project that is overruled -/

namespace Overruled

/-- The user wants the binary form, and four sources at a time; the project does not want the
binary form, and has a directory of its own for what is built. -/
def files : FileSystem where
  nodes := [
    (["user.toml"], .file "[build]\nbitcode = true\njobs = 4\n".toUTF8 .ordinary),
    ([".ion"], .directory),
    ([".ion", "config.toml"], .file "build = \x7b output = \"dist\", bitcode = false \x7d".toUTF8
      .ordinary)]
  workingDirectory := []

/-- A build with the user's file. -/
def surroundings : Surroundings where
  arguments := ["build"]
  environment := [("ION_CONFIG", "/user.toml")]
  baseDirectory := "/ion"
  terminal := false

/-- What the arguments say. -/
def invocation : Invocation := ⟨"build", [], none, none, none, none⟩

/-- A computer on which no program runs. -/
def host : Host := ⟨.linux, [], fun _ _ => .error .notFound, .none⟩

theorem layers_eq : surroundings.layers files invocation "/" =
    ⟨.nothing, ⟨some "dist", some false, none, none⟩, ⟨none, some true, some 4, none⟩⟩ := by
  unfold Surroundings.layers
  congr 1
  · decide +kernel
  · decide +kernel

theorem parse_arguments :
    Invocation.parse surroundings.arguments (surroundings.valueOf "ION_TOOLS_PATH") =
      .ok invocation := by
  decide +kernel

theorem workingPath_files : Workflow.workingPath files = .ok "/" := rfl

end Overruled

open Overruled in
/-- **A project cannot say that it does not want the binary form**: the user's file wins. -/
theorem project_not_always_over_user :
    ¬ ∀ (s : Surroundings) (fs : FileSystem) (i : Invocation) (directory : String),
      Invocation.parse s.arguments (s.valueOf "ION_TOOLS_PATH") = .ok i →
        Workflow.workingPath fs = .ok directory →
          (s.options fs i directory).1.bitcode =
            (s.layers fs i directory).effective.bitcode.getD false := by
  intro h
  have hbitcode := h surroundings files invocation "/" parse_arguments workingPath_files
  rw [options_eq, layers_eq] at hbitcode
  cases hbitcode

open Overruled in
/-- The project's directory and the user's number of jobs are performed, and the binary form that
the project does not want. -/
theorem run_settled_overruled :
    Invocation.parse surroundings.arguments none = .ok invocation ∧
      Workflow.workingPath files = .ok "/" ∧
        RunsBy host Compilation.standardFrontEnd surroundings files
          { Options.ofOperation "build" "/ion" with
            output := some "dist", bitcode := true, jobs := some 4 } := by
  have hrun :=
    (run_settled host Compilation.standardFrontEnd parse_arguments workingPath_files).1
  rw [layers_eq] at hrun
  exact ⟨parse_arguments, workingPath_files, hrun⟩

end Ingot.CommandLine
