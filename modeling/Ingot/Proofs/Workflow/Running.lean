import Ingot.Proofs.FileSystem.Canonical
import Ingot.Proofs.Sources.Scanning
import Ingot.Proofs.Workflow.Builds
import Ingot.Proofs.Workflow.Ending

/-!
# What a run does

When the sources of a package compile, one of the units is the one to run, all units can be
written and the interpreter is found (`Ready`), **a run comes down to one command: the interpreter
gets the whole package, and the report has the status of what it did** (`perform_runs`). That is
said for all that programs may do, so nothing else is launched before it or after it. An
invocation that has run a unit was ready for that (`ready_of_perform`).

The interpreter gets the unit to run by its path, but the others by what is shown of theirs. That is
the path itself exactly if it is a text (`moduleArgument_eq_iff`), and **where it is none the
interpreter gets the paths of other files** (`arguments_not_always_paths`).
-/

namespace Ingot.Command

variable {c : Command} {host : Host} {fs : FileSystem}

/-- A command launches its program in its directory. -/
theorem run_eq {directory : Location} {file : ProgramFile}
    (hdirectory : c.directoryIn fs = .ok directory)
    (hfile : c.programFile fs host.searchPath directory = .ok file) :
    c.run host fs = host.run fs ⟨c.program, file, c.arguments, directory⟩ := by
  rw [run, hdirectory]
  dsimp only
  rw [hfile]

/-- A command that comes to its end has launched a program in its directory. -/
theorem of_run_ok {execution : Execution} (h : c.run host fs = .ok execution) :
    ∃ directory file, c.directoryIn fs = .ok directory ∧
      c.programFile fs host.searchPath directory = .ok file ∧
      host.run fs ⟨c.program, file, c.arguments, directory⟩ = .ok execution := by
  cases hdirectory : c.directoryIn fs with
  | error fault =>
    rw [run, hdirectory] at h
    cases h
  | ok directory =>
    cases hfile : c.programFile fs host.searchPath directory with
    | error fault =>
      rw [run, hdirectory] at h
      dsimp only at h
      rw [hfile] at h
      cases h
    | ok file => exact ⟨directory, file, rfl, hfile, run_eq hdirectory hfile ▸ h⟩

end Ingot.Command

namespace Ingot.Workflow

open Effect
open Compilation (CompiledUnit Project generate standardFrontEnd unitName)
open Package (Manifest manifestPath readManifest)

section Runs

variable {host : Host} {options : Options} {operation : Operation} {manifest : Manifest}
  {places : Places} {files : List String} {fs : FileSystem}

/-! ### The command -/

/-- The command that runs a unit of a package: the interpreter gets all other units, in the order
of their sources, by an argument for the path of each, and then the one to run. -/
def commandWith (argument : String → String) (lli : String) (places : Places) (entry : String)
    (files : List String) : Command :=
  let others := (files.map (unitName places.sourceRoot)).filter (· != entry)
  ⟨lli, others.map (fun unit => argument (artifactPath places.output .text unit)) ++
    [artifactPath places.output .text entry], some places.root⟩

/-- The command of a run, where the path of a unit is shown. -/
def runCommand : String → Places → String → List String → Command := commandWith moduleArgument

/-- The argument for a unit names its file exactly if the path of the file is a text. -/
theorem moduleArgument_eq_iff {path : String} :
    moduleArgument path = "--extra-module=" ++ path ↔ Raw.IsText path := by
  have hword : Raw.ofText "--extra-module=" = "--extra-module=" := Raw.ofText_eq_self (by decide)
  rw [moduleArgument, Raw.ofText_append, hword, String.append_right_inj]
  exact ⟨fun h => ⟨_, h⟩, Raw.IsText.ofText_shown⟩

/-- The paths of files are texts if that of the directory is. -/
theorem isText_artifactPath {output : String} (h : Raw.IsText output) (form : ArtifactForm)
    {unit : String} (hunit : '/' ∉ unit.toList) : Raw.IsText (artifactPath output form unit) := by
  have hplain : ∀ text, Raw.ofText text = text → Raw.IsText text := fun text htext => ⟨text, htext⟩
  have hending : Raw.IsText form.ending := by
    cases form with
    | text => exact hplain _ (Raw.ofText_eq_self (by decide))
    | bitcode => exact hplain _ (Raw.ofText_eq_self (by decide))
  have hdot : Raw.IsText "." := hplain _ (Raw.ofText_eq_self (by decide))
  have hslash : Raw.IsText "/" := hplain _ (Raw.ofText_eq_self (by decide))
  have hname : Raw.IsText (artifactName form unit) :=
    (Raw.IsText.append ⟨unit, rfl⟩ hdot).append hending
  rw [artifactPath_eq, Path.join, Path.not_isAbsolute_of_noSlash (noSlash_artifactName hunit),
    if_neg Bool.false_ne_true]
  split
  · exact h.append hname
  · exact (h.append hslash).append hname

/-- The act comes down to one command, which finds the files as they were left for it: where it
cannot be launched the act fails, and else it ends with the status of the command. -/
def ComesDownTo (act : Act Outcome) (host : Host) (entry : String) (command : Command)
    (fs written : FileSystem) : Prop :=
  match command.run host written with
  | .error fault =>
    Ends act fs (.error (.execution command.text (command.launchMessage fault))) written
  | .ok execution => Ends act fs (.ok (.ran ⟨entry, execution.ending.status?⟩)) execution.files

/-- The interpreter is the one in the directory of the tools, or there is none and it is the first
one in the search path. -/
theorem locateTool_eq {directory lli : String}
    (h : locateTool host fs (some directory) .lli = some lli) :
    (fs.isFile (host.platform.toolPath directory "lli") = true ∧
        lli = host.platform.toolPath directory "lli") ∨
      fs.isFile (host.platform.toolPath directory "lli") = false ∧
        programInPath fs host.searchPath "lli" = some lli := by
  have hname : standardTools.lookup .lli = some "lli" := by decide
  rw [locateTool, hname] at h
  dsimp only at h
  rw [Option.map_some, Option.filter_some] at h
  cases hfile : fs.isFile (host.platform.toolPath directory "lli") with
  | true =>
    rw [hfile] at h
    exact .inl ⟨rfl, (Option.some.inj h).symm⟩
  | false =>
    rw [hfile] at h
    exact .inr ⟨rfl, h⟩

/-! ### All is ready -/

/-- All that a run needs is there: the sources compile to units, one of which is the unit to run,
all of them can be written, and the interpreter is found afterwards. -/
structure Ready (host : Host) (options : Options) (manifest : Manifest) (places : Places)
    (files : List String) (units : List CompiledUnit) (lli : String)
    (fs compiled written : FileSystem) : Prop where
  prepared : Prepared fs options .run manifest places files
  installed : Installed host.platform options fs
  hasOutput : ∃ isNew, fs.ensureDirectory places.output = (compiled, .ok isNew)
  compiles : compileLoop standardFrontEnd compiled places.sourceRoot [] files = .ok ⟨units⟩
  hasEntry : manifest.entry ∈ units.map CompiledUnit.name
  emits : ∃ artifacts, EmitsAll places.output .text compiled units artifacts written
  located : locateTool host written (some options.toolsDirectory) .lli = some lli

theorem map_name_eq {compiled : FileSystem} {root : String} {units : List CompiledUnit}
    (h : List.Forall₂ (fun file unit => standardFrontEnd compiled root file = .ok unit) files units) :
    units.map CompiledUnit.name = files.map (unitName root) := by
  induction h with
  | nil => rfl
  | cons hunit _ ih =>
    obtain ⟨m, _, rfl⟩ := standardFrontEnd_eq_ok hunit
    rw [List.map_cons, List.map_cons, ih]

namespace Ready

variable {units : List CompiledUnit} {lli : String} {compiled written : FileSystem}

theorem compilesEach
    (h : Ready host options manifest places files units lli fs compiled written) :
    List.Forall₂ (fun file unit => standardFrontEnd compiled places.sourceRoot file = .ok unit)
      files units := by
  obtain ⟨more, hmore, hall⟩ := units_of_compileLoop h.compiles
  obtain rfl : units = more := hmore
  exact hall

/-- The units are called by their sources. -/
theorem names_eq (h : Ready host options manifest places files units lli fs compiled written) :
    units.map CompiledUnit.name = files.map (unitName places.sourceRoot) :=
  map_name_eq h.compilesEach

theorem nodup (h : Ready host options manifest places files units lli fs compiled written) :
    (files.map (unitName places.sourceRoot)).Nodup := by
  rw [← h.names_eq]
  have hnone : (([] : List CompiledUnit).map CompiledUnit.name).Nodup := List.nodup_nil
  exact nodup_of_compileLoop hnone h.compiles

theorem unit?_entry (h : Ready host options manifest places files units lli fs compiled written) :
    ((⟨units⟩ : Project).unit? manifest.entry).isNone = false := by
  obtain ⟨unit, hunit, hname⟩ := List.mem_map.1 h.hasEntry
  rw [Option.isNone_eq_false_iff, Project.unit?, List.find?_isSome]
  exact ⟨unit, hunit, by simpa using hname⟩

/-- Running the units comes down to running the command. -/
theorem runProject_ends
    (h : Ready host options manifest places files units lli fs compiled written)
    {result : Except Failure Ending} {fs' : FileSystem}
    (hexecute : Ends (execute host (runCommand lli places manifest.entry files)) written result fs') :
    Ends (runProject host options manifest places ⟨units⟩) compiled
      (result.map fun ending => ⟨manifest.entry, ending.status?⟩) fs' := by
  obtain ⟨artifacts, hemits⟩ := h.emits
  obtain ⟨hunits, hpaths⟩ := hemits.artifacts_eq
  have hcommand : runCommand lli places manifest.entry files = ⟨lli, interpreterArguments
      (artifactPath places.output .text manifest.entry)
      ((artifacts.filter fun a => a.unit != manifest.entry).map Artifact.path), some places.root⟩ := by
    rw [interpreterArguments, paths_others hpaths, hunits, h.names_eq, List.map_map]
    rfl
  unfold runProject
  refine .afterLine (.guard (by simp [h.unit?_entry]) (hemits.prepareUnits_ends.bind ?_))
  rw [entryPath?_eq hpaths (hunits ▸ h.hasEntry)]
  refine Ends.files.bind ?_
  rw [h.located]
  dsimp only
  rw [← hcommand]
  refine (Ends.tell _).bind ?_
  cases result with
  | error e => exact hexecute.bind_error
  | ok ending =>
    refine hexecute.bind ?_
    split
    · exact (Ends.tell _).bind (.pure _)
    · exact (Ends.tell _).bind (.pure _)

theorem dispatch_ends
    (h : Ready host options manifest places files units lli fs compiled written)
    {result : Except Failure Ending} {fs' : FileSystem}
    (hexecute : Ends (execute host (runCommand lli places manifest.entry files)) written result fs') :
    Ends (dispatch host options .run manifest places ⟨units⟩) compiled
      (result.map fun ending => .ran ⟨manifest.entry, ending.status?⟩) fs' := by
  have hproject := (h.runProject_ends hexecute).map (f := Outcome.ran)
  cases result with
  | error e => exact hproject
  | ok ending => exact hproject

theorem carryOut_ends
    (h : Ready host options manifest places files units lli fs compiled written)
    {result : Except Failure Ending} {fs' : FileSystem}
    (hexecute : Ends (execute host (runCommand lli places manifest.entry files)) written result fs') :
    Ends (carryOut host (compileSources standardFrontEnd) options .run manifest places files) fs
      (result.map fun ending => .ran ⟨manifest.entry, ending.status?⟩) fs' := by
  obtain ⟨isNew, hmade⟩ := h.hasOutput
  have hensure := ensureOutput_ends fs places.output
  have hcompile : Ends (compileSources standardFrontEnd places.sourceRoot files) compiled
      (compileLoop standardFrontEnd compiled places.sourceRoot [] files) compiled :=
    fun told => outcome_compileSources standardFrontEnd _ _ ⟨compiled, told⟩
  rw [hmade] at hensure
  rw [h.compiles] at hcompile
  exact hensure.bind (hcompile.bind (h.dispatch_ends hexecute))

/-- What ran has launched a program. -/
theorem exists_launch (h : Ready host options manifest places files units lli fs compiled written)
    {told : List Console.Event} {w' : World} {report : RunReport}
    (hran : outcome (carryOut host (compileSources standardFrontEnd) options .run manifest places
      files) ⟨fs, told⟩ = (.ok (.ran report), w')) :
    ∃ directory file, (runCommand lli places manifest.entry files).directoryIn written =
        .ok directory ∧
      (runCommand lli places manifest.entry files).programFile written host.searchPath directory =
        .ok file := by
  cases hrun : (runCommand lli places manifest.entry files).run host written with
  | error fault =>
    obtain ⟨_, hends⟩ := h.carryOut_ends (execute_error hrun) told
    cases hran.symm.trans hends
  | ok execution =>
    obtain ⟨directory, file, hdirectory, hfile, -⟩ := Command.of_run_ok hrun
    exact ⟨directory, file, hdirectory, hfile⟩

theorem comesDownTo (h : Ready host options manifest places files units lli fs compiled written) :
    ComesDownTo (perform host standardFrontEnd options) host manifest.entry
      (runCommand lli places manifest.entry files) fs written := by
  unfold ComesDownTo
  cases hrun : (runCommand lli places manifest.entry files).run host written with
  | error fault =>
    exact h.prepared.perform_ends Operation.noConfusion h.installed
      (h.carryOut_ends (execute_error hrun))
  | ok execution =>
    exact h.prepared.perform_ends Operation.noConfusion h.installed
      (h.carryOut_ends (execute_ok hrun))

/-- What is ready is ready for any programs. -/
theorem withRun (h : Ready host options manifest places files units lli fs compiled written)
    (run : FileSystem → Launch → Except IoFault Execution) :
    Ready { host with run := run } options manifest places files units lli fs compiled written :=
  ⟨h.prepared, h.installed, h.hasOutput, h.compiles, h.hasEntry, h.emits, h.located⟩

/-- Up to the command a run goes the course of a build of texts that is not counted. -/
theorem exists_course (hfs : fs.NoLinks)
    (h : Ready host options manifest places files units lli fs compiled written) :
    ∃ news artifacts, Course { options with bitcode := false } places files fs compiled written
      written news units ⟨artifacts, none⟩ := by
  obtain ⟨isNew, hmade⟩ := h.hasOutput
  obtain ⟨artifacts, hemits⟩ := h.emits
  obtain ⟨news, hgrows⟩ := FileSystem.ensureDirectory_grows h.prepared.isAbsolute_output hfs
  rw [hmade] at hgrows
  exact ⟨news, artifacts, hgrows, h.compilesEach, h.names_eq ▸ h.nodup, hemits, .inr ⟨rfl, rfl⟩⟩

/-- The files that the interpreter gets hold the texts of the units. -/
theorem holds (hfs : fs.NoLinks)
    (h : Ready host options manifest places files units lli fs compiled written) :
    ∀ file ∈ files, ∃ m, generate compiled places.sourceRoot file = .ok m ∧
      written.readBytes (artifactPath places.output .text (unitName places.sourceRoot file)) =
        .ok m.text.toUTF8 := by
  obtain ⟨news, artifacts, hcourse⟩ := h.exists_course hfs
  have houtput := h.prepared.isAbsolute_output
  have hholds := hcourse.holds hfs houtput h.prepared.isRoot.isAbsolute
    (.refl (hcourse.keeps_written hfs).noLinks _)
  have hbuilt := forall₂_isBuiltFrom houtput hcourse.compiles hholds
  refine forall_mem_of_forall₂ (R := fun artifact file => IsBuiltFrom places .text compiled written
    file artifact) (fun artifact file hfile => ?_) hbuilt.flip
  obtain ⟨m, hm, htext⟩ := hfile.holds
  have htext : artifact.content = m.text.toUTF8 := htext
  have hread := hfile.readable
  rw [hfile.isPath, hfile.isUnit, htext] at hread
  exact ⟨m, hm, hread⟩

/-- The manifest is as it was. -/
theorem readBytes_manifest (hfs : fs.NoLinks)
    (h : Ready host options manifest places files units lli fs compiled written) :
    written.readBytes (manifestPath places.root) = fs.readBytes (manifestPath places.root) := by
  obtain ⟨news, artifacts, hcourse⟩ := h.exists_course hfs
  obtain ⟨text, htext, _⟩ := h.prepared.readText_manifest
  obtain ⟨content, hread, _⟩ := FileSystem.readBytes_of_readText htext
  rw [hread]
  exact hcourse.readBytes_manifest hfs h.prepared.isRoot.isAbsolute hread

end Ready

/-! ### What ran was ready -/

theorem dispatch_ran {project : Project} {w w' : World} {report : RunReport}
    (h : outcome (dispatch host options operation manifest places project) w =
      (.ok (.ran report), w')) :
    operation = .run ∧
      outcome (runProject host options manifest places project) w = (.ok report, w') := by
  unfold dispatch at h
  cases operation with
  | init => cases h
  | build =>
    obtain ⟨_, _, _, hpure⟩ := of_outcome_bind_ok h
    cases hpure
  | run =>
    obtain ⟨report', w₁, hrun, hpure⟩ := of_outcome_bind_ok h
    cases hpure
    exact ⟨rfl, hrun⟩

theorem runProject_ok {project : Project} {w w' : World} {report : RunReport}
    (h : outcome (runProject host options manifest places project) w = (.ok report, w')) :
    manifest.entry ∈ project.units.map CompiledUnit.name ∧ ∃ artifacts written lli,
      EmitsAll places.output .text w.files project.units artifacts written ∧
        locateTool host written (some options.toolsDirectory) .lli = some lli := by
  unfold runProject at h
  obtain ⟨told, h⟩ := of_afterLine h
  dsimp only at h
  split at h
  · cases h
  · rename_i hentry
    rw [Option.isNone_iff_eq_none] at hentry
    obtain ⟨unit, hunit⟩ := Option.ne_none_iff_exists'.1 hentry
    obtain ⟨artifacts, w₁, hprepare, h⟩ := of_outcome_bind_ok h
    rcases mapM_emits (fun _ _ _ _ => prepareUnit_emits) hprepare with
      ⟨_, hok, hemits⟩ | ⟨_, _, _, _, _, _, herror, _⟩
    · cases hok
      refine ⟨List.mem_map.2 ⟨unit, List.mem_of_find?_eq_some hunit, ?_⟩, artifacts, w₁.files, ?_⟩
      · simpa using List.find?_some hunit
      · split at h
        · cases h
        · rw [outcome_bind_of_ok (Act.outcome_files w₁)] at h
          split at h
          · cases h
          · rename_i lli hlli
            exact ⟨lli, hemits, hlli⟩
    · cases herror

/-- What ran was ready to run. -/
theorem ready_of_carryOut (hprepared : Prepared fs options operation manifest places files)
    (hinstalled : Installed host.platform options fs) {told : List Console.Event} {w' : World}
    {report : RunReport}
    (h : outcome (carryOut host (compileSources standardFrontEnd) options operation manifest places
      files) ⟨fs, told⟩ = (.ok (.ran report), w')) :
    ∃ units lli compiled written,
      Ready host options manifest places files units lli fs compiled written := by
  unfold carryOut at h
  obtain ⟨_, w₁, hensure, h⟩ := of_outcome_bind_ok h
  obtain ⟨project, w₂, hcompile, h⟩ := of_outcome_bind_ok h
  obtain ⟨told₂, hloop⟩ := outcome_compileSources standardFrontEnd places.sourceRoot files w₁
  rw [hcompile] at hloop
  obtain ⟨hproject, rfl⟩ := Prod.mk.inj hloop
  obtain ⟨rfl, hrun⟩ := dispatch_ran h
  obtain ⟨hentry, artifacts, written, lli, hemits, hlli⟩ := runProject_ok hrun
  exact ⟨project.units, lli, w₁.files, written, hprepared, hinstalled, ensureOutput_ok hensure,
    hproject.symm, hentry, ⟨artifacts, hemits⟩, hlli⟩

theorem ready_of_perform {w w' : World} {report : RunReport}
    (hinstalled : Installed host.platform options w.files)
    (h : outcome (perform host standardFrontEnd options) w = (.ok (.ran report), w')) :
    ∃ manifest places files units lli compiled written,
      Ready host options manifest places files units lli w.files compiled written := by
  rcases perform_stages h with ⟨_, hstop | ⟨_, he, _⟩⟩ | ⟨_, hinit, _⟩ |
    ⟨operation, manifest, places, files, told, _, hprepared, hcarry⟩
  · cases hstop
  · cases he
  · obtain ⟨_, hinitialized⟩ := hinit _ rfl
    cases hinitialized
  · exact ⟨manifest, places, files, ready_of_carryOut hprepared hinstalled hcarry⟩

/-! ### The whole -/

/-- **A run hands the interpreter the whole program.** Whatever programs do, the invocation comes
down to one command, which runs in the directory of the package and gets all units but the one to
run, each once and in the order of the sources, and then that one. They are absolute paths of files
that hold the texts of the units; and the manifest is as it was. The argument for a unit besides the
one to run has the path of its file exactly if that is a text, which it is if the path of the
directory is. -/
theorem perform_runs (hlinks : fs.hasNoLinks) {units : List CompiledUnit} {lli : String}
    {compiled written : FileSystem}
    (h : Ready host options manifest places files units lli fs compiled written) :
    (∀ run, ComesDownTo (perform { host with run := run } standardFrontEnd options)
        { host with run := run } manifest.entry (runCommand lli places manifest.entry files) fs
        written) ∧
      (files.map (unitName places.sourceRoot)).Nodup ∧
      manifest.entry ∈ files.map (unitName places.sourceRoot) ∧
      (∀ file ∈ files,
        Path.isAbsolute (artifactPath places.output .text (unitName places.sourceRoot file)) = true ∧
        (moduleArgument (artifactPath places.output .text (unitName places.sourceRoot file)) =
            "--extra-module=" ++ artifactPath places.output .text (unitName places.sourceRoot file) ↔
          Raw.IsText (artifactPath places.output .text (unitName places.sourceRoot file))) ∧
        (Raw.IsText places.output →
          Raw.IsText (artifactPath places.output .text (unitName places.sourceRoot file))) ∧
        ∃ m, generate compiled places.sourceRoot file = .ok m ∧
          written.readBytes (artifactPath places.output .text (unitName places.sourceRoot file)) =
            .ok m.text.toUTF8) ∧
      written.readBytes (manifestPath places.root) = fs.readBytes (manifestPath places.root) := by
  have hfs := FileSystem.noLinks_of_hasNoLinks hlinks
  refine ⟨fun run => (h.withRun run).comesDownTo, h.nodup, h.names_eq ▸ h.hasEntry,
    fun file hfile => ⟨?_, moduleArgument_eq_iff, fun htext => ?_, h.holds hfs file hfile⟩,
    h.readBytes_manifest hfs⟩
  · exact Path.isAbsolute_join h.prepared.isAbsolute_output _
  · exact isText_artifactPath htext .text (Compilation.isLeaf_unitName _ _).noSlash

end Runs

namespace TwoUnits

/-- The name of the directory of the package: a text, or a byte that is in no character. -/
inductive IsDirectory : String → Prop where
  /-- A text. -/
  | text : IsDirectory "p"
  /-- A byte. -/
  | stray : IsDirectory (String.ofList [Raw.strayOf 0xFF])

/-- A package of two units in a directory, and an installation with an interpreter. -/
def tree (name : String) : FileSystem where
  nodes := [
    ([name], .directory),
    ([name, "Ion.toml"], .file "[package]\nname = \"a\"\nversion = \"1.0.0\"\n".toUTF8 .ordinary),
    ([name, "lib.ion"], .file "fn two() -> i32 \x7b return 2; \x7d".toUTF8 .ordinary),
    ([name, "main.ion"], .file "fn main() -> i32 \x7b return two(); \x7d".toUTF8 .ordinary),
    (["tools"], .directory),
    (["tools", "lli"], .file .empty .program)]
  workingDirectory := [name]

/-- The manifest of the package. -/
def manifest : Manifest := { Manifest.blank with name := "a", version := "1.0.0" }

/-- The options of a run. -/
def options : Options :=
  { Options.ofOperation "run" "/ion" with noIntegrity := true, toolsPath := some "/tools" }

/-- A computer on which a signal ends every program. -/
def host : Host := ⟨.linux, [], fun fs _ => .ok ⟨fs, [], .signalled 9⟩, .none⟩

/-- The directories of a run. -/
def places (name : String) : Places := ⟨"/" ++ name, "/" ++ name, "/" ++ name ++ "/out"⟩

/-- The sources of the package. -/
def files (name : String) : List String := ["/" ++ name ++ "/lib.ion", "/" ++ name ++ "/main.ion"]

variable {name : String}

theorem hasNoLinks_tree (name : String) : (tree name).hasNoLinks := by
  intro l target hmem
  simp [tree] at hmem

/-- What a walk comes by in the package. -/
def entries (name : String) : List Sources.Entry :=
  [⟨"/" ++ name, false⟩, ⟨"/" ++ name ++ "/Ion.toml", true⟩, ⟨"/" ++ name ++ "/lib.ion", true⟩,
    ⟨"/" ++ name ++ "/main.ion", true⟩]

/-- The scan of the package. -/
def scope (name : String) : Sources.Scope := ⟨"/" ++ name, some ("/" ++ name ++ "/out"), []⟩

/-- What is evaluated of the package: where it is, its manifest, and which of what a walk comes by
are its sources. -/
theorem evaluated (h : IsDirectory name) : (tree name).isDirectory ("/" ++ name) = true ∧
    (tree name).place ("/" ++ name) = [name] ∧
      resolveRoot (tree name) none ("/" ++ name) = .ok ("/" ++ name) ∧
        readManifest (tree name) ("/" ++ name) = .ok manifest ∧
          "/" ++ name ++ "/out" = Path.join ("/" ++ name) "out" ∧
            (scope name).pathsOf (entries name) = files name ∧
              (files name).Pairwise fun p q => Path.le p q = true := by
  cases h with
  | text => decide +kernel
  | stray => decide +kernel

theorem namesIn_tree (h : IsDirectory name) :
    (tree name).namesIn [name] = ["Ion.toml", "lib.ion", "main.ion"] := by
  have hnames : ((tree name).nodes.map Prod.fst).filterMap (FileSystem.nameIn [name]) =
      ["Ion.toml", "lib.ion", "main.ion"] := by
    cases h <;> rfl
  rw [FileSystem.namesIn_eq, hnames]
  exact List.mergeSort_of_pairwise (by decide)

theorem entries_tree (h : IsDirectory name) :
    (scope name).entries (tree name) = (entries name).map .ok := by
  obtain ⟨hthere, hplace, -⟩ := evaluated h
  have hfind := FileSystem.find_of_isDirectory
    (FileSystem.noLinks_of_hasNoLinks (hasNoLinks_tree name)) hthere
  rw [hplace] at hfind
  have hroot : (scope name).root = "/" ++ name := rfl
  rw [Sources.Scope.entries, Sources.walk, hroot, hfind]
  dsimp only
  rw [Sources.walkInside_eq, namesIn_tree h]
  cases h <;> rfl

theorem scan_tree (h : IsDirectory name) : (scope name).scan (tree name) = .ok (files name) := by
  obtain ⟨-, -, -, -, -, hpaths, hordered⟩ := evaluated h
  have hsorted : (files name).mergeSort Path.le = files name := List.mergeSort_of_pairwise hordered
  rw [Sources.Scope.scan, entries_tree h, Sources.mapM_ok]
  exact congrArg Except.ok (hpaths ▸ hsorted)

theorem prepared (h : IsDirectory name) :
    Prepared (tree name) options .run manifest (places name) (files name) := by
  obtain ⟨-, -, hroot, hmanifest, houtput, -⟩ := evaluated h
  have hoperation : resolveOperation "run" = .ok .run := rfl
  have hbase : workingPath (tree name) = .ok ("/" ++ name) := by cases h <;> rfl
  exact ⟨hoperation, ⟨_, hbase, hroot⟩, hmanifest, rfl, houtput, ⟨[], rfl, scan_tree h⟩,
    List.cons_ne_nil _ _⟩

end TwoUnits

/-- The report of an invocation that ran a unit. -/
def ranReport? : Except Failure Outcome → Option RunReport
  | .ok (.ran report) => some report
  | _ => none

theorem eq_ok_of_ranReport? {result : Except Failure Outcome} {report : RunReport}
    (h : ranReport? result = some report) : result = .ok (.ran report) := by
  unfold ranReport? at h
  split at h
  · rw [Option.some.inj h]
  · cases h

namespace TwoUnits

theorem exists_ready {name : String} (h : IsDirectory name) :
    ∃ units compiled written directory file,
      Ready host options manifest (places name) (files name) units "/tools/lli" (tree name) compiled
        written ∧
      (runCommand "/tools/lli" (places name) manifest.entry (files name)).directoryIn written =
        .ok directory ∧
      (runCommand "/tools/lli" (places name) manifest.entry (files name)).programFile written
        host.searchPath directory = .ok file := by
  have hran : ranReport? (outcome (carryOut host (compileSources standardFrontEnd) options .run
      manifest (places name) (files name)) ⟨tree name, []⟩).1 = some ⟨"main", none⟩ := by
    cases h <;> decide +kernel
  rcases hcarry : outcome (carryOut host (compileSources standardFrontEnd) options .run manifest
    (places name) (files name)) ⟨tree name, []⟩ with ⟨result, w'⟩
  rw [hcarry] at hran
  obtain rfl := eq_ok_of_ranReport? hran
  obtain ⟨units, lli, compiled, written, hready⟩ := ready_of_carryOut (prepared h) (.inl rfl) hcarry
  obtain rfl : lli = "/tools/lli" := by
    rcases locateTool_eq hready.located with ⟨_, hlli⟩ | ⟨_, hnone⟩
    · exact hlli
    · cases hnone
  obtain ⟨directory, file, hdirectory, hfile⟩ := hready.exists_launch hcarry
  exact ⟨units, compiled, written, directory, file, hready, hdirectory, hfile⟩

end TwoUnits

open TwoUnits in
/-- The run of a package of two units, which a signal ends. -/
theorem perform_runs_two : ∃ units compiled written, (tree "p").hasNoLinks ∧
    Ready host options manifest (places "p") (files "p") units "/tools/lli" (tree "p") compiled
      written ∧
      ComesDownTo (perform host standardFrontEnd options) host "main"
        ⟨"/tools/lli", ["--extra-module=/p/out/lib.ir", "/p/out/main.ir"], some "/p"⟩ (tree "p")
        written ∧
      written.readBytes "/p/Ion.toml" = (tree "p").readBytes "/p/Ion.toml" := by
  obtain ⟨units, compiled, written, _, _, hready, _⟩ := exists_ready .text
  obtain ⟨hcommand, _, _, _, hmanifest⟩ := perform_runs (hasNoLinks_tree "p") hready
  obtain ⟨hargs, hpath⟩ : runCommand "/tools/lli" (places "p") manifest.entry (files "p") =
      ⟨"/tools/lli", ["--extra-module=/p/out/lib.ir", "/p/out/main.ir"], some "/p"⟩ ∧
        manifestPath (places "p").root = "/p/Ion.toml" := by
    decide +kernel
  rw [hargs] at hcommand
  rw [hpath] at hmanifest
  exact ⟨units, compiled, written, hasNoLinks_tree "p", hready, hcommand host.run, hmanifest⟩

namespace TwoUnits

/-- Programs that tell by their status whether they get some arguments. -/
def comparing (arguments : List String) (fs : FileSystem) (launch : Launch) :
    Except IoFault Execution :=
  .ok ⟨fs, [], .exited (if launch.arguments = arguments then 0 else 1)⟩

theorem run_comparing {command : Command} {fs : FileSystem} {directory : Location}
    {file : ProgramFile} (hdirectory : command.directoryIn fs = .ok directory)
    (hfile : command.programFile fs host.searchPath directory = .ok file)
    (arguments : List String) :
    command.run { host with run := comparing arguments } fs =
      .ok ⟨fs, [], .exited (if command.arguments = arguments then 0 else 1)⟩ :=
  Command.run_eq hdirectory hfile

end TwoUnits

open TwoUnits in
/-- **The interpreter does not always get the paths of the units**: where the package is in a
directory whose name is no text, the argument for a unit shows another path. -/
theorem arguments_not_always_paths :
    ¬∀ (host : Host) (options : Options) (manifest : Manifest) (places : Places)
      (files : List String) (fs : FileSystem) (units : List CompiledUnit) (lli : String)
      (compiled written : FileSystem), fs.hasNoLinks →
      Ready host options manifest places files units lli fs compiled written →
      ∀ run, ComesDownTo (perform { host with run := run } standardFrontEnd options)
        { host with run := run } manifest.entry
        (commandWith ("--extra-module=" ++ ·) lli places manifest.entry files) fs written := by
  intro hpaths
  obtain ⟨units, compiled, written, directory, file, hready, hdirectory, hfile⟩ :=
    exists_ready .stray
  generalize hname : String.ofList [Raw.strayOf 0xFF] = name at hready hdirectory hfile
  generalize hmeant : commandWith ("--extra-module=" ++ ·) "/tools/lli" (places name) manifest.entry
    (files name) = meant
  have hother : (runCommand "/tools/lli" (places name) manifest.entry (files name)).arguments ≠
      meant.arguments := by
    subst hname hmeant
    decide +kernel
  have hinside : meant.directoryIn written = .ok directory := hmeant ▸ hdirectory
  have hprogram : meant.programFile written host.searchPath directory = .ok file := hmeant ▸ hfile
  have hran := hpaths host options manifest _ _ _ _ _ _ _ (hasNoLinks_tree name) hready
    (comparing meant.arguments)
  have hdone := (hready.withRun (comparing meant.arguments)).comesDownTo
  unfold ComesDownTo at hran hdone
  rw [hmeant, run_comparing hinside hprogram, if_pos rfl] at hran
  rw [run_comparing hdirectory hfile, if_neg hother] at hdone
  -- one invocation would end with two statuses
  obtain ⟨_, hzero⟩ := hran []
  obtain ⟨_, hone⟩ := hdone []
  cases hzero.symm.trans hone

end Ingot.Workflow
