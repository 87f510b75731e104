import Ingot.Proofs.Package.Counting
import Ingot.Proofs.Workflow.Emission
import Ingot.Proofs.Workflow.Stages
import Ingot.Proofs.Workflow.Verifying

/-!
# How an invocation goes on

The stages of an invocation the other way round: when nothing is wrong with what a stage checks,
the invocation ends as what comes after it ends. **What was found is carried out, if the check of
the tools finds nothing wrong** (`Prepared.perform_ends`); units that can be written are written
(`EmitsAll.mapM_ends`), and a command is launched once (`execute_ok`).
-/

namespace Ingot.Workflow

open Effect
open Package (Manifest hasManifest manifestPath readManifest)
open Compilation (CompiledUnit)

section Stages

variable {host : Host} {compiler : Compiler} {options : Options} {operation : Operation}
  {manifest : Manifest} {places : Places} {files : List String} {fs : FileSystem}

/-! ### The check of the tools -/

/-- The check of the tools finds nothing wrong. -/
def Installed (platform : Platform) (options : Options) (fs : FileSystem) : Prop :=
  options.noIntegrity = true ∨ platform ≠ .macOs ∧ (platform.bundlesTools = true →
    fs.isDirectory options.toolsDirectory = true ∧
      ∀ entry ∈ standardTools, fs.isFile (platform.toolPath options.toolsDirectory entry.2) = true)

theorem checkInstallation_ends {platform : Platform} (h : Installed platform options fs) :
    ∃ report, Ends (checkInstallation platform options.toolsDirectory options.noIntegrity) fs
      (.ok report) fs := by
  unfold checkInstallation
  split
  · exact ⟨_, (Ends.tell _).bind (.pure _)⟩
  · rename_i hchecked
    obtain ⟨hplatform, htools⟩ := h.resolve_left hchecked
    cases hbundles : platform.bundlesTools with
    | false =>
      refine ⟨_, Ends.bind (a := ⟨platform, []⟩) ?_ (.pure _)⟩
      unfold checkTools
      rw [if_neg hplatform, hbundles]
      exact (Ends.note _ _).bind (.pure _)
    | true =>
      obtain ⟨hdirectory, hfiles⟩ := htools hbundles
      have hverdict : Verdict fs platform options.toolsDirectory standardTools _ :=
        .complete hdirectory (by decide) hfiles
      exact ⟨_, (hverdict.ends hbundles).bind (.pure _)⟩

/-- Where the check of the tools has passed, it finds nothing wrong. -/
theorem installed_of_checkInstallation {platform : Platform} {w w' : World}
    {report : Option ToolReport}
    (h : outcome (checkInstallation platform options.toolsDirectory options.noIntegrity) w =
      (.ok report, w')) : Installed platform options w.files := by
  unfold checkInstallation at h
  split at h
  · rename_i hdisabled
    exact .inl hdisabled
  · obtain ⟨found, w₁, htools, -⟩ := of_outcome_bind_ok h
    refine .inr ⟨?_, fun hbundles => ?_⟩
    · unfold checkTools at htools
      exact (of_guard_ok htools).1
    · obtain ⟨result, hverdict⟩ :=
        exists_verdict w.files platform options.toolsDirectory standardTools
      obtain ⟨rfl, -⟩ := (hverdict.ends hbundles).eq htools
      obtain ⟨⟨hdirectory, _, hfiles⟩, -⟩ := Verdict.ok_iff.1 hverdict
      exact ⟨hdirectory, hfiles⟩

/-- An invocation that does not fail has passed the check of the tools. -/
theorem installed_of_perform {w w' : World} {what : Outcome}
    (h : outcome (performWith host compiler options) w = (.ok what, w')) :
    Installed host.platform options w.files := by
  unfold performWith at h
  rw [outcome_bind_of_ok (Act.outcome_note w _ _)] at h
  cases hoperation : resolveOperation options.operation with
  | error e =>
    rw [hoperation] at h
    cases h
  | ok operation =>
    rw [hoperation, Act.orFail_ok, pure_bind, outcome_bind_of_ok (Act.outcome_note _ _ _)] at h
    obtain ⟨report, w₁, hcheck, -⟩ := of_outcome_bind_ok h
    have hinstalled := installed_of_checkInstallation hcheck
    exact hinstalled

/-! ### Up to carrying out -/

theorem hasManifest_of_readManifest {root : String} (h : readManifest fs root = .ok manifest) :
    hasManifest fs root = true := by
  unfold readManifest at h
  dsimp only at h
  split at h
  · cases h
  · rename_i text hread
    obtain ⟨content, hbytes, _⟩ := FileSystem.readBytes_of_readText hread
    obtain ⟨l, permissions, hresolve, _⟩ := FileSystem.readBytes_eq_ok.1 hbytes
    rw [hasManifest, FileSystem.isFile, FileSystem.find_eq_ok.2 hresolve]
    rfl

theorem resolveSourceRoot_ends {root sourceRoot : String}
    (h : IsSourceRoot fs root manifest sourceRoot) :
    Ends (resolveSourceRoot root manifest) fs (.ok sourceRoot) fs := by
  unfold IsSourceRoot at h
  unfold resolveSourceRoot
  cases hdirectory : manifest.sourceRoot with
  | none =>
    rw [hdirectory] at h
    obtain rfl : sourceRoot = root := h
    exact .pure _
  | some directory =>
    rw [hdirectory] at h
    obtain ⟨rfl, hthere⟩ := h
    refine Ends.files.bind (Ends.files.bind (.guard ?_ ((Ends.note _ _).bind (.pure _))))
    simpa using hthere

theorem findSources_ends {scope : Sources.Scope} (h : scope.scan fs = .ok files) :
    Ends (findSources scope) fs (.ok files) fs := by
  unfold findSources
  refine Ends.files.bind ((Ends.forM fun path => Ends.note _ _).bind ?_)
  rw [h]
  exact .pure _

theorem Prepared.performProject_ends {result : Except Failure Outcome} {fs' : FileSystem}
    (h : Prepared fs options operation manifest places files)
    (hcarry : Ends (carryOut host compiler options operation manifest places files) fs result fs') :
    Ends (performProject host compiler options operation places.root) fs result fs' := by
  obtain ⟨patterns, hpatterns, hscan⟩ := h.isScan
  have hplaces : (⟨places.root, places.sourceRoot, options.outputDirectory places.root⟩ : Places) =
      places := by
    rw [← h.isOutput]
  have hmanifest := hasManifest_of_readManifest h.isManifest
  unfold performProject
  refine Ends.files.bind (.guard (by simpa using hmanifest) (Ends.files.bind ?_))
  rw [h.isManifest]
  refine (Ends.pure _).bind ((Ends.note _ _).bind ((resolveSourceRoot_ends h.isSourceRoot).bind ?_))
  rw [hpatterns]
  refine (Ends.pure _).bind ((findSources_ends (h.isOutput ▸ hscan)).bind ?_)
  have hsome : ¬files.isEmpty = true := by simpa using h.nonempty
  dsimp only
  rw [if_neg hsome, hplaces, ← h.isOutput]
  exact hcarry

/-- An invocation on a project that is there ends as what is done with the project, if the check
of the tools finds nothing wrong and the manifest is not to be replaced. -/
theorem performWith_ends {root : String} {result : Except Failure Outcome} {fs' : FileSystem}
    (hoperation : resolveOperation options.operation = .ok operation) (hother : operation ≠ .init)
    (hinstalled : Installed host.platform options fs) (hroot : IsRoot fs options root)
    (hproject : Ends (performProject host compiler options operation root) fs result fs') :
    Ends (performWith host compiler options) fs result fs' := by
  obtain ⟨report, hreport⟩ := checkInstallation_ends hinstalled
  obtain ⟨base, hbase, hroot⟩ := hroot
  unfold performWith
  refine (Ends.note _ _).bind ?_
  rw [hoperation]
  refine (Ends.pure _).bind ((Ends.note _ _).bind (hreport.bind (Ends.files.bind ?_)))
  rw [hbase]
  refine (Ends.pure _).bind (Ends.files.bind ?_)
  rw [hroot]
  refine (Ends.pure _).bind ((Ends.note _ _).bind ?_)
  rw [if_neg hother]
  exact hproject

/-- **What was found is carried out**, if the check of the tools finds nothing wrong and the
manifest is not to be replaced. -/
theorem Prepared.perform_ends {result : Except Failure Outcome} {fs' : FileSystem}
    (h : Prepared fs options operation manifest places files) (hother : operation ≠ .init)
    (hinstalled : Installed host.platform options fs)
    (hcarry : Ends (carryOut host compiler options operation manifest places files) fs result fs') :
    Ends (performWith host compiler options) fs result fs' :=
  performWith_ends h.isOperation hother hinstalled h.isRoot (h.performProject_ends hcarry)

/-- A manifest that is there and cannot be read ends the work on a project before anything is
changed. -/
theorem performProject_unreadable {root : String} {e : Package.ManifestError}
    (hthere : hasManifest fs root = true) (hread : readManifest fs root = .error e) :
    Ends (performProject host compiler options operation root) fs (.error (.badManifest e)) fs := by
  unfold performProject
  refine Ends.files.bind (.guard (by simpa using hthere) (Ends.files.bind ?_))
  rw [hread]
  exact .bind_error (.orFail _ (.error e))

/-! ### Writing all units -/

/-- A unit that can be written is written. -/
theorem Emits.emitUnit_ends {output : String} {form : ArtifactForm} {unit : CompiledUnit}
    {fs' : FileSystem} {artifact : Artifact} (h : Emits output form unit fs (.ok artifact) fs') :
    Ends (emitUnit output form unit) fs (.ok artifact) fs' := by
  obtain ⟨content, rfl, hread, hwritten⟩ := h.ok artifact rfl
  have hwrite : Ends (writeUnit form (artifactPath output form unit.name) unit) fs (.ok ()) fs' := by
    cases form with
    | text =>
      have hmodule : unit.module.writeText fs (artifactPath output .text unit.name) =
          (fs', .ok ()) := hwritten
      have hends := writeText_ends (artifactPath output .text unit.name) unit fs
      rw [hmodule] at hends
      exact hends
    | bitcode =>
      obtain ⟨hfiles, hstatus⟩ := hwritten
      have hends := writeBinary_ends (artifactPath output .bitcode unit.name) unit fs
      rw [if_pos hstatus, hfiles] at hends
      exact hends
  unfold emitUnit
  refine hwrite.bind (Ends.files.bind ?_)
  rw [hread]
  exact .pure _

theorem Emits.prepareUnit_ends {output : String} {unit : CompiledUnit} {fs' : FileSystem}
    {artifact : Artifact} (h : Emits output .text unit fs (.ok artifact) fs') :
    Ends (prepareUnit output unit) fs (.ok artifact) fs' :=
  h.emitUnit_ends.bind ((Ends.tell _).bind (.pure _))

theorem Emits.buildUnit_ends {form : ArtifactForm} {unit : CompiledUnit} {fs' : FileSystem}
    {artifact : Artifact} (h : Emits places.output form unit fs (.ok artifact) fs') :
    Ends (buildUnit places form unit) fs (.ok artifact) fs' :=
  h.emitUnit_ends.bind ((Ends.tell _).bind (.pure _))

/-- Units that can be written one after the other are all written. -/
theorem EmitsAll.mapM_ends {output : String} {form : ArtifactForm} {units : List CompiledUnit}
    {artifacts : List Artifact} {act : CompiledUnit → Act Artifact}
    (hact : ∀ unit fs fs' artifact, Emits output form unit fs (.ok artifact) fs' →
      Ends (act unit) fs (.ok artifact) fs')
    {fs fs' : FileSystem} (h : EmitsAll output form fs units artifacts fs') :
    Ends (units.mapM act) fs (.ok artifacts) fs' := by
  induction h with
  | nil => exact .pure []
  | cons hemits _ ih =>
    rw [List.mapM_cons]
    exact (hact _ _ _ _ hemits).bind (ih.bind (.pure _))

/-- Writing units that can be written makes their artifacts. -/
theorem EmitsAll.prepareUnits_ends {output : String} {units : List CompiledUnit}
    {artifacts : List Artifact} {fs fs' : FileSystem}
    (h : EmitsAll output .text fs units artifacts fs') :
    Ends (units.mapM (prepareUnit output)) fs (.ok artifacts) fs' :=
  h.mapM_ends fun _ _ _ _ hemits => hemits.prepareUnit_ends

/-! ### Building -/

/-- How a build that has written all units ends: it counts itself, if that can be done. -/
def CountsItself (root : String) (written fs : FileSystem) (number : Option ℕ) : Prop :=
  (∃ n, Package.countBuildIn written root = .ok (n, fs) ∧ number = some n) ∨
    ∃ e, Package.countBuildIn written root = .error e ∧ fs = written ∧ number = none

/-- How a build counts itself hangs on the file of the manifest alone. -/
theorem countsItself_iff {root : String} {written fs : FileSystem} {number : Option ℕ}
    {l : Location} {content : ByteArray} {permissions : Permissions}
    (hresolve : written.resolve true (manifestPath root) =
      .ok (.found l (.file content permissions))) :
    CountsItself root written fs number ↔
      (∃ n text, Package.recount (manifestPath root) content permissions = .ok (n, text) ∧
        number = some n ∧ fs = written.put l (.file text.toUTF8 permissions)) ∨
      ∃ e, Package.recount (manifestPath root) content permissions = .error e ∧
        number = none ∧ fs = written := by
  unfold CountsItself
  rw [Package.countBuildIn_of_resolve hresolve]
  cases hcount : Package.recount (manifestPath root) content permissions with
  | error e =>
    constructor
    · rintro (⟨_, hok, _⟩ | ⟨_, _, rfl, rfl⟩)
      · cases hok
      · exact .inr ⟨e, rfl, rfl, rfl⟩
    · rintro (⟨_, _, hok, _⟩ | ⟨_, _, rfl, rfl⟩)
      · cases hok
      · exact .inr ⟨e, rfl, rfl, rfl⟩
  | ok counted =>
    obtain ⟨n, text⟩ := counted
    constructor
    · rintro (⟨_, hok, rfl⟩ | ⟨_, herror, _⟩)
      · cases hok
        exact .inl ⟨n, text, rfl, rfl, rfl⟩
      · cases herror
    · rintro (⟨_, _, hok, rfl, rfl⟩ | ⟨_, herror, _⟩)
      · cases hok
        exact .inl ⟨n, rfl, rfl⟩
      · cases herror

theorem CountsItself.countBuildOrWarn_ends {root : String} {fs' : FileSystem} {number : Option ℕ}
    (h : CountsItself root fs fs' number) : Ends (countBuildOrWarn root) fs (.ok number) fs' := by
  unfold countBuildOrWarn
  refine Ends.files.bind ?_
  rcases h with ⟨n, hcount, rfl⟩ | ⟨e, hcount, rfl, rfl⟩
  · rw [hcount]
    exact Ends.setFiles.bind ((Ends.note _ _).bind (.pure _))
  · rw [hcount]
    exact (Ends.tell _).bind (.pure _)

/-- A project all of whose units can be written is built. -/
theorem EmitsAll.dispatch_ends {project : Compilation.Project} {artifacts : List Artifact}
    {written fs' : FileSystem} {number : Option ℕ}
    (h : EmitsAll places.output options.form fs project.units artifacts written)
    (hcount : CountsItself places.root written fs' number) :
    Ends (dispatch host options .build manifest places project) fs
      (.ok (.built ⟨artifacts, number⟩)) fs' := by
  have hunits : Ends (project.units.mapM (buildUnit places options.form)) fs (.ok artifacts)
      written :=
    h.mapM_ends fun _ _ _ _ hemits => hemits.buildUnit_ends
  have hbuild : Ends (buildProject manifest places options.form project) fs
      (.ok ⟨artifacts, number⟩) fs' := by
    unfold buildProject
    exact hunits.bind (hcount.countBuildOrWarn_ends.bind ((Ends.tell _).bind (.pure _)))
  unfold dispatch
  exact hbuild.bind (.pure _)

/-- A build that does not fail with an artifact has written all units and counted itself, if that
can be done. -/
theorem dispatch_build_ok {host : Host} {options : Options} {manifest : Manifest} {places : Places}
    {project : Compilation.Project} {w w' : World} {result : Except Failure Outcome}
    (h : outcome (dispatch host options .build manifest places project) w = (result, w'))
    (hwritten : ∀ e, result = .error e → ∀ path, ¬IsEmitFailure options.form path e) :
    ∃ report written, result = .ok (.built report) ∧
      EmitsAll places.output options.form w.files project.units report.artifacts written ∧
        CountsItself places.root written w'.files report.number := by
  have hbuilt : ∃ built, outcome (buildProject manifest places options.form project) w =
      (built, w') ∧ result = built.map Outcome.built := by
    unfold dispatch at h
    dsimp only [Operation.engine?] at h
    rcases hbuild : outcome (buildProject manifest places options.form project) w with
      ⟨e | report, w₁⟩
    · rw [outcome_bind_of_error hbuild] at h
      cases h
      exact ⟨.error e, rfl, rfl⟩
    · rw [outcome_bind_of_ok hbuild] at h
      cases h
      exact ⟨.ok report, rfl, rfl⟩
  obtain ⟨built, hbuild, rfl⟩ := hbuilt
  rcases buildProject_stages hbuild with
    ⟨artifacts, written, hall, ⟨n, hcount, rfl⟩ | ⟨e, hcount, hsame, rfl⟩⟩ |
      ⟨e, _, unit, _, _, _, rfl, _, _, hfailed⟩
  · exact ⟨⟨artifacts, some n⟩, written, rfl, hall, .inl ⟨n, hcount, rfl⟩⟩
  · exact ⟨⟨artifacts, none⟩, written, rfl, hall, .inr ⟨e, hcount, hsame, rfl⟩⟩
  · exact absurd (hfailed.error e rfl) (hwritten e rfl _)

theorem compileSources_ends {frontEnd : Compilation.FrontEnd} {root : String} :
    Ends (compileSources frontEnd root files) fs (compileLoop frontEnd fs root [] files) fs :=
  fun told => outcome_compileSources frontEnd root files ⟨fs, told⟩

/-! ### Commands -/

theorem execute_error {command : Command} {fault : IoFault}
    (h : command.run host fs = .error fault) : Ends (execute host command) fs
      (.error (.execution command.text (command.launchMessage fault))) fs := by
  unfold execute
  refine (Ends.note _ _).bind (Ends.files.bind ?_)
  rw [h]
  exact .bind_error (.orFail _ (.error fault))

theorem execute_ok {command : Command} {execution : Execution}
    (h : command.run host fs = .ok execution) :
    Ends (execute host command) fs (.ok execution.ending) execution.files := by
  unfold execute
  refine (Ends.note _ _).bind (Ends.files.bind ?_)
  rw [h]
  refine (Ends.pure _).bind (Ends.setFiles.bind ((Ends.forM fun output => ?_).bind (.pure _)))
  cases output with
  | out text => exact .tell _
  | err text => exact .tell _

end Stages

end Ingot.Workflow
