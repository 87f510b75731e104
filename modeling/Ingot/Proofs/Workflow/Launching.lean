import Ingot.Proofs.Workflow.Running

/-!
# Which program is launched

The interpreter is looked for from the working directory, but a command looks for its program
from the directory it runs in. **It is the same file if the directory of the tools is written from
the top, or if the package is in the working directory**; a relative path of the tools leads
from the package, and an empty one leaves a bare name, which is looked for in the search path
(`perform_launches`). So the file that was found need not be the one that runs
(`not_always_launched`).
-/

namespace Ingot.Path

/-- There is a slash between a path and a name behind it. -/
theorem slash_mem_join {base name : String} (hbase : base ≠ "") (h : IsLeaf name) :
    '/' ∈ (join base name).toList := by
  obtain ⟨a, ⟨ha, hjoin⟩ | hjoin⟩ := join_eq hbase h
  · rw [hjoin, String.toList_append, ha]
    simp
  · rw [hjoin, String.toList_append, String.toList_append]
    simp

theorem join_empty {name : String} (h : IsLeaf name) : join "" name = name := by
  rw [join, not_isAbsolute_of_noSlash h.noSlash, if_neg Bool.false_ne_true]
  exact (if_pos (.inl rfl)).trans (String.empty_append)

end Ingot.Path

namespace Ingot

variable {fs : FileSystem}

/-- A path from the top leads to the same from any directory. -/
theorem FileSystem.find_of_isAbsolute {path : String} (h : Path.isAbsolute path = true)
    (followLast : Bool) (directory : Location) :
    ({ fs with workingDirectory := directory }).find followLast path = fs.find followLast path := by
  have hnode : ∀ l, ({ fs with workingDirectory := directory }).node? l = fs.node? l := fun _ => rfl
  simp only [find, resolve, startOf, h, if_true, walk_congr hnode]

/-- Whether a program is to be looked for in the search path. -/
theorem Command.programFile_of_slash {c : Command} (h : '/' ∈ c.program.toList)
    (searchPath : List String) (directory : Location) :
    c.programFile fs searchPath directory =
      ({ fs with workingDirectory := directory }).findProgram c.program := by
  rw [programFile]
  exact if_pos (by simpa using h)

theorem Command.programFile_of_noSlash {c : Command} (h : Path.IsLeaf c.program)
    (searchPath : List String) (directory : Location) :
    c.programFile fs searchPath directory =
      searchProgram { fs with workingDirectory := directory } c.program searchPath .notFound := by
  rw [programFile, if_neg (by simpa using h.noSlash)]
  exact if_neg (by simpa [String.isEmpty_iff] using h.ne_empty)

namespace Command

variable {c : Command} {platform : Platform} {tools name : String} {tested : Location}
  {content : ByteArray} {permissions : Permissions} {searchPath : List String}
  {directory : Location}

/-- Where the program of a command is the one in a directory of tools, that one is launched if the
directory is written from the top, or if the command runs in the working directory. -/
theorem programFile_tested (hname : Path.IsLeaf (platform.fileName name))
    (hprogram : c.program = platform.toolPath tools name)
    (hfound : fs.find true c.program = .ok (tested, .file content permissions))
    (hsame : Path.isAbsolute tools = true ∨ tools ≠ "" ∧ directory = fs.workingDirectory) :
    c.programFile fs searchPath directory =
      if permissions.executable then .ok ⟨c.program, tested⟩ else .error .notPermitted := by
  have htools : tools ≠ "" := by
    rcases hsame with habs | ⟨hne, _⟩
    · exact Path.ne_empty_of_isAbsolute habs
    · exact hne
  have hslash : '/' ∈ c.program.toList := by
    rw [hprogram]
    exact Path.slash_mem_join htools hname
  have hthere : ({ fs with workingDirectory := directory }).find true c.program =
      .ok (tested, .file content permissions) := by
    rcases hsame with habs | ⟨_, rfl⟩
    · rw [FileSystem.find_of_isAbsolute, hfound]
      rw [hprogram]
      exact Path.isAbsolute_join habs _
    · exact hfound
  rw [programFile_of_slash hslash, FileSystem.findProgram, hthere]

end Command

end Ingot

namespace Ingot.Workflow

open Effect
open Compilation (CompiledUnit standardFrontEnd)

section Launches

variable {host : Host} {options : Options} {manifest : Package.Manifest} {places : Places}
  {files : List String} {units : List CompiledUnit} {lli : String}
  {fs compiled written : FileSystem}

theorem isLeaf_lli (platform : Platform) : Path.IsLeaf (platform.fileName "lli") := by
  cases platform with
  | windows => exact ⟨by decide, by decide⟩
  | _ => exact ⟨by decide, by decide⟩

/-- A file that is there is found. -/
theorem exists_find_of_isFile {path : String} (h : fs.isFile path = true) :
    ∃ l content permissions, fs.find true path = .ok (l, .file content permissions) := by
  unfold FileSystem.isFile at h
  split at h
  · rename_i l n hfind
    cases n with
    | file content permissions => exact ⟨l, content, permissions, hfind⟩
    | directory => cases h
    | link target => cases h
  · cases h

/-- **Which program is launched in place of the interpreter that was found in the directory of
the tools.** It is the same file if that directory is written from the top, or if the package is in
the working directory. A relative path leads from the directory of the package, and if there is
none a program of that name is looked for in the search path. -/
theorem perform_launches
    (h : Ready host options manifest places files units lli fs compiled written)
    (hfile : written.isFile (host.platform.toolPath options.toolsDirectory "lli") = true) :
    lli = host.platform.toolPath options.toolsDirectory "lli" ∧
      (∀ run, ComesDownTo (perform { host with run := run } standardFrontEnd options)
        { host with run := run } manifest.entry (runCommand lli places manifest.entry files) fs
        written) ∧
      ∃ tested content permissions, written.find true lli = .ok (tested, .file content permissions) ∧
        ∀ directory,
          (Path.isAbsolute options.toolsDirectory = true ∨
              options.toolsDirectory ≠ "" ∧ directory = written.workingDirectory →
            (runCommand lli places manifest.entry files).programFile written host.searchPath
                directory =
              if permissions.executable then .ok ⟨lli, tested⟩ else .error .notPermitted) ∧
          (options.toolsDirectory ≠ "" →
            (runCommand lli places manifest.entry files).programFile written host.searchPath
                directory =
              ({ written with workingDirectory := directory }).findProgram lli) ∧
          (options.toolsDirectory = "" →
            (runCommand lli places manifest.entry files).programFile written host.searchPath
                directory =
              searchProgram { written with workingDirectory := directory } lli host.searchPath
                .notFound) := by
  have hname := isLeaf_lli host.platform
  have hlli : lli = host.platform.toolPath options.toolsDirectory "lli" := by
    rcases locateTool_eq h.located with ⟨_, heq⟩ | ⟨hnone, _⟩
    · exact heq
    · rw [hnone] at hfile
      cases hfile
  obtain ⟨tested, content, permissions, hfound⟩ := exists_find_of_isFile hfile
  rw [← hlli] at hfound
  refine ⟨hlli, fun run => (h.withRun run).comesDownTo, tested, content, permissions, hfound,
    fun directory => ⟨?_, ?_, ?_⟩⟩
  · exact Command.programFile_tested hname hlli hfound
  · intro htools
    refine Command.programFile_of_slash ?_ _ _
    change '/' ∈ lli.toList
    rw [hlli]
    exact Path.slash_mem_join htools hname
  · intro htools
    refine Command.programFile_of_noSlash ?_ _ _
    change Path.IsLeaf lli
    rw [hlli, Platform.toolPath, htools, Path.join_empty hname]
    exact hname

end Launches

open TwoUnits in
/-- The tools are in `/tools`, and the interpreter there is launched from wherever the command
runs. -/
theorem perform_launches_two : ∃ units compiled written,
    Ready host options manifest (places "p") (files "p") units "/tools/lli" (tree "p") compiled
      written ∧
      written.isFile "/tools/lli" = true ∧
      ∃ tested content permissions,
        written.find true "/tools/lli" = .ok (tested, .file content permissions) ∧
        ∀ directory, (runCommand "/tools/lli" (places "p") "main" (files "p")).programFile written []
            directory =
          if permissions.executable then .ok ⟨"/tools/lli", tested⟩ else .error .notPermitted := by
  obtain ⟨units, compiled, written, _, _, hready, _⟩ := exists_ready .text
  have hpath : host.platform.toolPath options.toolsDirectory "lli" = "/tools/lli" := rfl
  have hfile : written.isFile (host.platform.toolPath options.toolsDirectory "lli") = true := by
    rcases locateTool_eq hready.located with ⟨hfile, _⟩ | ⟨_, hnone⟩
    · exact hfile
    · cases hnone
  obtain ⟨_, _, tested, content, permissions, hfound, hlaunch⟩ := perform_launches hready hfile
  rw [hpath] at hfile
  refine ⟨units, compiled, written, hready, hfile, tested, content, permissions, hfound,
    fun directory => ?_⟩
  exact (hlaunch directory).1 (.inl rfl)

namespace OtherTool

/-- Where a path leads. -/
def locationOf? (fs : FileSystem) (path : String) : Option Location :=
  (fs.find true path).toOption.map Prod.fst

/-- An interpreter in the working directory, and another one in that of a package. -/
def tree : FileSystem where
  nodes := [
    (["tools"], .directory),
    (["tools", "lli"], .file .empty .program),
    (["p"], .directory),
    (["p", "Ion.toml"], .file
      "[package]\nname = \"a\"\nversion = \"1.0.0\"\n[options]\nsource-root = \"src\"\n".toUTF8
      .ordinary),
    (["p", "src"], .directory),
    (["p", "src", "main.ion"], .file "fn main() -> i32 \x7b return 0; \x7d".toUTF8 .ordinary),
    (["p", "tools"], .directory),
    (["p", "tools", "lli"], .file .empty .program)]
  workingDirectory := []

/-- The options of a run of the package with the tools in `tools`. -/
def options : Options :=
  { Options.ofOperation "run" "/ion" with
    root := some "p", noIntegrity := true, toolsPath := some "tools" }

/-- Whether the interpreter of the package is launched where that in the working directory is
found. -/
def isOther (fs : FileSystem) (launch : Launch) : Bool :=
  locationOf? fs "tools/lli" == some ["tools", "lli"] &&
    launch.file.location == ["p", "tools", "lli"]

/-- A computer whose programs tell by their status which interpreter it is. -/
def host : Host :=
  ⟨.linux, [], fun fs launch => .ok ⟨fs, [], .exited (if isOther fs launch then 5 else 3)⟩, .none⟩

/-- The other interpreter is launched. -/
theorem exists_launch : ∃ manifest places files units lli compiled written directory file,
    Ready host options manifest places files units lli tree compiled written ∧
      (runCommand lli places manifest.entry files).directoryIn written = .ok directory ∧
      (runCommand lli places manifest.entry files).programFile written host.searchPath directory =
        .ok file ∧
      locationOf? written "tools/lli" = some ["tools", "lli"] ∧
      file.location = ["p", "tools", "lli"] := by
  have hran : ranReport? (outcome (perform host standardFrontEnd options) ⟨tree, []⟩).1 =
      some ⟨"main", some 5⟩ := by
    decide +kernel
  rcases hrun : outcome (perform host standardFrontEnd options) ⟨tree, []⟩ with ⟨result, w'⟩
  rw [hrun] at hran
  obtain rfl := eq_ok_of_ranReport? hran
  obtain ⟨manifest, places, files, units, lli, compiled, written, hready⟩ :=
    ready_of_perform (.inl rfl) hrun
  have hcomes := hready.comesDownTo
  unfold ComesDownTo at hcomes
  split at hcomes
  · obtain ⟨_, hend⟩ := hcomes []
    cases hrun.symm.trans hend
  · rename_i execution hcommand
    obtain ⟨_, hend⟩ := hcomes []
    obtain ⟨directory, file, hdirectory, hfile, hhost⟩ := Command.of_run_ok hcommand
    cases hhost
    have hreport := congrArg (ranReport? ∘ Prod.fst) (hrun.symm.trans hend)
    have hstatus := congrArg RunReport.status (Option.some.inj hreport)
    have hother : isOther written ⟨(runCommand lli places manifest.entry files).program, file,
        (runCommand lli places manifest.entry files).arguments, directory⟩ = true := by
      by_contra hnot
      simp [Ending.status?, hnot] at hstatus
    rw [isOther, Bool.and_eq_true, beq_iff_eq, beq_iff_eq] at hother
    exact ⟨manifest, places, files, units, lli, compiled, written, directory, file, hready,
      hdirectory, hfile, hother⟩

end OtherTool

open OtherTool in
/-- The interpreter that is launched is not always the one that was found in the directory of the
tools. -/
theorem not_always_launched :
    ¬∀ (host : Host) (options : Options) (manifest : Package.Manifest) (places : Places)
      (files : List String) (units : List CompiledUnit) (lli : String)
      (fs compiled written : FileSystem),
      Ready host options manifest places files units lli fs compiled written →
      written.isFile (host.platform.toolPath options.toolsDirectory "lli") = true →
      ∀ tested n directory file, written.find true lli = .ok (tested, n) →
        (runCommand lli places manifest.entry files).directoryIn written = .ok directory →
        (runCommand lli places manifest.entry files).programFile written host.searchPath directory =
          .ok file → file.location = tested := by
  intro hall
  obtain ⟨manifest, places, files, units, lli, compiled, written, directory, file, hready,
    hdirectory, hfile, hfound, hother⟩ := exists_launch
  have hpath : host.platform.toolPath options.toolsDirectory "lli" = "tools/lli" := rfl
  rcases locateTool_eq hready.located with ⟨hthere, hlli⟩ | ⟨_, hnone⟩
  · rw [hpath] at hlli
    subst hlli
    unfold locationOf? at hfound
    cases hfind : written.find true "tools/lli" with
    | error fault =>
      rw [hfind] at hfound
      cases hfound
    | ok found =>
      rw [hfind] at hfound
      have hlocation : found.1 = ["tools", "lli"] := Option.some.inj hfound
      have hsame := hall host options _ _ _ _ _ _ _ _ hready hthere found.1 found.2 directory file
        hfind hdirectory hfile
      rw [hother, hlocation] at hsame
      exact absurd hsame (by decide)
  · cases hnone

end Ingot.Workflow
