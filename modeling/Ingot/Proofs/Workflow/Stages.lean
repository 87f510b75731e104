import Ingot.Proofs.FileSystem.Canonical
import Ingot.Proofs.FileSystem.Directories
import Ingot.Proofs.Workflow.Acts
import Ingot.Proofs.Workflow.Workers
import Ingot.Workflow.Perform

/-!
# The stages of an invocation

Up to the scan for sources an invocation only reads. Either it ends there and **the files are
as they were**, or it goes on with what it has found: to replace a manifest, or to make the
directory for what is built, compile and build or run (`perform_stages`). What was found is
`Prepared`: the operation, the directories, the manifest and the sources.
-/

namespace Ingot.Workflow

open Effect
open Package (Manifest hasManifest readManifest)
open Compilation (FrontEnd)

/-! ### Phases -/

/-- How far an invocation that fails has come. -/
inductive Phase where
  /-- It has only read. -/
  | reading
  /-- The directory for what is built is made, and nothing else. -/
  | compiling
  /-- It is changing files. -/
  | writing
  deriving DecidableEq, Repr

/-- How far an invocation with a failure has come. -/
def Failure.phase : Failure → Phase
  | unknownOperation _ => .reading
  | noRoot _ => .reading
  | noWorkingDirectory _ => .reading
  | noManifest _ => .reading
  | badManifest _ => .reading
  | noSourceRoot _ => .reading
  | noTemplate _ => .reading
  | unsupportedPlatform _ => .reading
  | noToolsDirectory _ => .reading
  | toolMissing _ _ => .reading
  | scan _ _ => .reading
  | compile _ _ => .compiling
  | repeatedUnit _ _ _ => .compiling
  | noEntry _ _ => .compiling
  | staleManifest _ _ => .writing
  | manifestNotCreated _ _ => .writing
  | noOutputDirectory _ _ => .writing
  | emit _ _ _ => .writing
  | artifactUnreadable _ _ => .writing
  | toolNotFound _ => .writing
  | execution _ _ => .writing
  | internal _ => .writing

/-- The failures of stages that only read. -/
def Failure.IsEarly (e : Failure) : Prop := e.phase = .reading

/-- The failures of the check of the tools. They are about the installation, not about a package. -/
def Failure.IsAboutTools : Failure → Prop
  | unsupportedPlatform _ => True
  | noToolsDirectory _ => True
  | toolMissing _ _ => True
  | _ => False

theorem Failure.IsAboutTools.isEarly {e : Failure} (h : e.IsAboutTools) : e.IsEarly := by
  cases e with
  | unsupportedPlatform _ => rfl
  | noToolsDirectory _ => rfl
  | toolMissing _ _ => rfl
  | _ => exact h.elim

/-! ### What was found -/

/-- The directory of the package that an invocation is about. -/
def IsRoot (fs : FileSystem) (options : Options) (root : String) : Prop :=
  ∃ base, workingPath fs = .ok base ∧ resolveRoot fs options.root base = .ok root

/-- The directory of the sources of a package. -/
def IsSourceRoot (fs : FileSystem) (root : String) (manifest : Manifest) (sourceRoot : String) :
    Prop :=
  match manifest.sourceRoot with
  | none => sourceRoot = root
  | some directory =>
    sourceRoot = fs.canonicalOr (Path.join root directory) ∧ fs.isDirectory sourceRoot = true

/-- What an invocation has found before it changes anything. -/
structure Prepared (fs : FileSystem) (options : Options) (operation : Operation)
    (manifest : Manifest) (places : Places) (files : List String) : Prop where
  isOperation : resolveOperation options.operation = .ok operation
  isRoot : IsRoot fs options places.root
  isManifest : readManifest fs places.root = .ok manifest
  isSourceRoot : IsSourceRoot fs places.root manifest places.sourceRoot
  isOutput : places.output = options.outputDirectory places.root
  isScan : ∃ patterns, Sources.readPatterns places.sourceRoot manifest.exclude = .ok patterns ∧
    Sources.Scope.scan ⟨places.sourceRoot, some places.output, patterns⟩ fs = .ok files
  nonempty : files ≠ []

/-- What an invocation does with what it has found. -/
def carryOut (host : Host) (compiler : Compiler) (options : Options) (operation : Operation)
    (manifest : Manifest) (places : Places) (files : List String) : Act Outcome := do
  ensureOutput places.output
  let project ← compiler places.sourceRoot files
  dispatch host options operation manifest places project

theorem workingPath_eq_ok {fs : FileSystem} {base : String} (h : workingPath fs = .ok base) :
    base = fs.workingPath ∧ fs.node? fs.workingDirectory = some .directory := by
  unfold workingPath at h
  split at h
  · rename_i hthere
    exact ⟨(Except.ok.inj h).symm, FileSystem.any_isDirectory_iff.1 hthere⟩
  · cases h

/-- What is asked for as the directory of the package, whatever files there are. -/
theorem resolveRoot_eq (options : Options) (base : String) :
    ∃ asked, (Path.isAbsolute base = true → Path.isAbsolute asked = true) ∧
      ∀ fs, resolveRoot fs options.root base =
        if fs.isDirectory asked then .ok (fs.canonicalOr asked) else .error (.noRoot asked) := by
  refine ⟨_, fun hbase => ?_, fun _ => rfl⟩
  split
  · split
    · exact hbase
    · exact Path.isAbsolute_join hbase _
  · exact hbase

namespace IsRoot

variable {fs : FileSystem} {options : Options} {root root' : String}

theorem workingDirectory (h : IsRoot fs options root) :
    fs.node? fs.workingDirectory = some .directory := by
  obtain ⟨_, hbase, _⟩ := h
  exact (workingPath_eq_ok hbase).2

/-- The path of the package is that of a directory, and canonical if it can be. -/
theorem exists_asked (h : IsRoot fs options root) :
    ∃ asked, Path.isAbsolute asked = true ∧ fs.isDirectory asked = true ∧
      root = fs.canonicalOr asked := by
  obtain ⟨base, hbase, hroot⟩ := h
  obtain ⟨rfl, _⟩ := workingPath_eq_ok hbase
  obtain ⟨asked, habs, hasked⟩ := resolveRoot_eq options fs.workingPath
  rw [hasked] at hroot
  split at hroot
  · rename_i hdirectory
    exact ⟨asked, habs (Path.isAbsolute_path _), hdirectory, (Except.ok.inj hroot).symm⟩
  · cases hroot

theorem isAbsolute (h : IsRoot fs options root) : Path.isAbsolute root = true := by
  obtain ⟨asked, _, hdirectory, rfl⟩ := h.exists_asked
  unfold FileSystem.isDirectory at hdirectory
  split at hdirectory
  · rename_i hfind
    rw [FileSystem.canonicalOr_of_find hfind]
    exact Path.isAbsolute_path _
  · cases hdirectory

theorem unique (h : IsRoot fs options root) (h' : IsRoot fs options root') : root' = root := by
  obtain ⟨base, hbase, hroot⟩ := h
  obtain ⟨base', hbase', hroot'⟩ := h'
  obtain rfl := Except.ok.inj (hbase.symm.trans hbase')
  exact Except.ok.inj (hroot'.symm.trans hroot)

end IsRoot

theorem Prepared.isAbsolute_output {fs : FileSystem} {options : Options} {operation : Operation}
    {manifest : Manifest} {places : Places} {files : List String}
    (h : Prepared fs options operation manifest places files) :
    Path.isAbsolute places.output = true := by
  rw [h.isOutput]
  exact Path.isAbsolute_join h.isRoot.isAbsolute _

/-! ### Acts that only read -/

theorem Prepared.readText_manifest {fs : FileSystem} {options : Options} {operation : Operation}
    {manifest : Manifest} {places : Places} {files : List String}
    (h : Prepared fs options operation manifest places files) :
    ∃ text, fs.readText (Package.manifestPath places.root) = .ok text ∧
      Manifest.parse text = .ok manifest := by
  have hmanifest := h.isManifest
  unfold readManifest at hmanifest
  dsimp only at hmanifest
  split at hmanifest
  · cases hmanifest
  · rename_i text hread
    refine ⟨text, hread, ?_⟩
    unfold Package.Manifest.parseAt at hmanifest
    cases hparse : Manifest.parse text with
    | error fault =>
      rw [hparse] at hmanifest
      cases hmanifest
    | ok parsed =>
      rw [hparse] at hmanifest
      cases hmanifest
      rfl

theorem resolveOperation_error {name : String} {e : Failure}
    (h : resolveOperation name = .error e) : e.IsEarly := by
  unfold resolveOperation at h
  split at h
  · cases h
    exact rfl
  · cases h

theorem workingPath_error {fs : FileSystem} {e : Failure} (h : workingPath fs = .error e) :
    e.IsEarly := by
  unfold workingPath at h
  split at h
  · cases h
  · cases h
    exact rfl

theorem resolveRoot_error {fs : FileSystem} {options : Options} {base : String} {e : Failure}
    (h : resolveRoot fs options.root base = .error e) : e.IsEarly := by
  obtain ⟨asked, _, hasked⟩ := resolveRoot_eq options base
  rw [hasked] at h
  split at h
  · cases h
  · cases h
    exact rfl

theorem checkTool_keepsFiles (platform : Platform) (directory : String) (entry : Tool × String) :
    KeepsFiles (checkTool platform directory entry) := by
  unfold checkTool
  exact KeepsFiles.files.bind fun fs => .guard ((KeepsFiles.note _ _).bind fun _ => .pure _)

theorem checkTool_fails (platform : Platform) (directory : String) (entry : Tool × String) :
    FailsWith Failure.IsAboutTools (checkTool platform directory entry) := by
  unfold checkTool
  exact FailsWith.files.bind fun fs => .guard trivial ((FailsWith.tell _).bind fun _ => .pure _)

theorem checkTools_keepsFiles (platform : Platform) (directory : String) (table : ToolTable) :
    KeepsFiles (checkTools platform directory table) := by
  unfold checkTools
  refine KeepsFiles.guard (KeepsFiles.ite ?_ ?_)
  · exact (KeepsFiles.note _ _).bind fun _ => .pure _
  · refine KeepsFiles.files.bind fun fs => KeepsFiles.guard ?_
    dsimp only
    split
    · exact .fail _
    · exact (KeepsFiles.mapM fun entry => checkTool_keepsFiles platform directory entry).bind
        fun _ => .pure _

theorem checkTools_fails (platform : Platform) (directory : String) {table : ToolTable}
    (htable : ∀ entry ∈ table, entry.2.isEmpty = false) :
    FailsWith Failure.IsAboutTools (checkTools platform directory table) := by
  unfold checkTools
  refine FailsWith.guard trivial (FailsWith.ite ?_ ?_)
  · exact (FailsWith.tell _).bind fun _ => .pure _
  · refine FailsWith.files.bind fun fs => FailsWith.guard trivial ?_
    dsimp only
    split
    · rename_i entry hfind
      have hempty := List.find?_some hfind
      rw [htable entry (List.mem_of_find?_eq_some hfind)] at hempty
      cases hempty
    · exact (FailsWith.mapM fun entry => checkTool_fails platform directory entry).bind
        fun _ => .pure _

/-- No file of a tool that every installation has is without a name. -/
theorem isEmpty_standardTools : ∀ entry ∈ standardTools, entry.2.isEmpty = false := by decide

theorem checkInstallation_keepsFiles (platform : Platform) (directory : String)
    (disabled : Bool) : KeepsFiles (checkInstallation platform directory disabled) := by
  unfold checkInstallation
  split
  · exact (KeepsFiles.line _ _).bind fun _ => .pure _
  · exact (checkTools_keepsFiles _ _ _).bind fun _ => .pure _

theorem checkInstallation_fails (platform : Platform) (directory : String) (disabled : Bool) :
    FailsWith Failure.IsAboutTools (checkInstallation platform directory disabled) := by
  unfold checkInstallation
  split
  · exact (FailsWith.tell _).bind fun _ => .pure _
  · exact (checkTools_fails _ _ isEmpty_standardTools).bind fun _ => .pure _

theorem findSources_keepsFiles (scope : Sources.Scope) : KeepsFiles (findSources scope) := by
  unfold findSources
  exact KeepsFiles.files.bind fun fs =>
    (KeepsFiles.forM fun path => .note _ _).bind fun _ => .orFail _ _

theorem findSources_fails (scope : Sources.Scope) :
    FailsWith Failure.IsEarly (findSources scope) := by
  unfold findSources
  exact FailsWith.files.bind fun fs =>
    (FailsWith.forM fun path => .tell _).bind fun _ => .orFail fun _ _ => rfl

theorem findSources_ok {scope : Sources.Scope} {w w' : World} {files : List String}
    (h : outcome (findSources scope) w = (.ok files, w')) : scope.scan w.files = .ok files := by
  unfold findSources at h
  rw [outcome_bind_of_ok (Act.outcome_files w)] at h
  obtain ⟨_, w₁, _, h⟩ := of_outcome_bind_ok h
  cases hscan : scope.scan w.files with
  | error fault =>
    rw [hscan] at h
    cases h
  | ok found =>
    rw [hscan] at h
    cases h
    rfl

theorem resolveSourceRoot_keepsFiles (root : String) (manifest : Manifest) :
    KeepsFiles (resolveSourceRoot root manifest) := by
  unfold resolveSourceRoot
  split
  · exact .pure _
  · exact KeepsFiles.files.bind fun fs => KeepsFiles.files.bind fun fs' =>
      .guard ((KeepsFiles.note _ _).bind fun _ => .pure _)

theorem resolveSourceRoot_fails (root : String) (manifest : Manifest) :
    FailsWith Failure.IsEarly (resolveSourceRoot root manifest) := by
  unfold resolveSourceRoot
  split
  · exact .pure _
  · exact FailsWith.files.bind fun fs => FailsWith.files.bind fun fs' =>
      .guard rfl ((FailsWith.tell _).bind fun _ => .pure _)

theorem resolveSourceRoot_ok {root sourceRoot : String} {manifest : Manifest} {w w' : World}
    (h : outcome (resolveSourceRoot root manifest) w = (.ok sourceRoot, w')) :
    IsSourceRoot w.files root manifest sourceRoot := by
  unfold resolveSourceRoot at h
  unfold IsSourceRoot
  cases hdirectory : manifest.sourceRoot with
  | none =>
    rw [hdirectory] at h
    cases h
    rfl
  | some directory =>
    rw [hdirectory] at h
    dsimp only at h
    rw [outcome_bind_of_ok (Act.outcome_files w), outcome_bind_of_ok (Act.outcome_files w)] at h
    split at h
    · cases h
    · rename_i hdir
      cases h
      exact ⟨rfl, by simpa using hdir⟩

/-! ### Stages -/

/-- The failures to make a manifest once there is a template. -/
def IsInitFailure (e : Failure) : Prop :=
  ∃ path, (∃ fault, e = .staleManifest path fault) ∨ ∃ fault, e = .manifestNotCreated path fault

/-- An invocation that gives a package a new manifest fails for want of a template and changes
nothing, or it has come to removing and copying. -/
theorem initializePackage_stages {obstacles : Obstacles} {root : String} {source : TemplateSource}
    {w w' : World} {result : Except Failure Initialization}
    (h : outcome (initializePackage obstacles root source) w = (result, w')) :
    (w'.files = w.files ∧ ∃ e, result = .error e ∧ e.IsEarly) ∨
      ∀ e, result = .error e → IsInitFailure e := by
  unfold initializePackage at h
  rw [outcome_bind_of_ok (Act.outcome_files w)] at h
  dsimp only at h
  split at h
  · cases h
    exact .inl ⟨rfl, _, rfl, rfl⟩
  · right
    rintro e rfl
    refine (?_ : FailsWith IsInitFailure _) _ _ _ h
    have hremove : FailsWith IsInitFailure
        (removeManifest obstacles (Package.manifestPath root)) := by
      unfold removeManifest
      refine (FailsWith.change fun fault => ⟨_, .inl ⟨fault, rfl⟩⟩).bind fun _ => ?_
      refine FailsWith.files.bind fun fs => ?_
      split
      · exact .fail ⟨_, .inl ⟨_, rfl⟩⟩
      · exact .pure ()
    have hcopy : FailsWith IsInitFailure (copyTemplate obstacles source.path root) := by
      unfold copyTemplate
      refine FailsWith.files.bind fun fs => (FailsWith.setFiles _).bind fun _ => ?_
      refine (FailsWith.orFail fun _ _ => ⟨_, .inr ⟨_, rfl⟩⟩).bind fun _ => ?_
      refine FailsWith.files.bind fun fs => ?_
      split
      · exact .fail ⟨_, .inr ⟨_, rfl⟩⟩
      · exact .pure ()
    refine (FailsWith.tell _).bind fun _ => FailsWith.files.bind fun fs => ?_
    split
    · refine (FailsWith.tell _).bind fun _ => hremove.bind fun _ => ?_
      exact (FailsWith.tell _).bind fun _ => (FailsWith.pure _).bind fun what =>
        hcopy.bind fun _ => .pure what
    · exact (FailsWith.pure _).bind fun what => hcopy.bind fun _ => .pure what

/-- A package with a manifest: the invocation ends before anything is changed, or what it has
found is carried out. -/
theorem performProject_stages {host : Host} {compiler : Compiler} {options : Options}
    {operation : Operation} {root : String} {w w' : World} {result : Except Failure Outcome}
    (hoperation : resolveOperation options.operation = .ok operation)
    (hroot : IsRoot w.files options root)
    (h : outcome (performProject host compiler options operation root) w = (result, w')) :
    (w'.files = w.files ∧
        (result = .ok (.stopped .noSources) ∨ ∃ e, result = .error e ∧ e.IsEarly)) ∨
      ∃ manifest places files told,
        Prepared w.files options operation manifest places files ∧
          outcome (carryOut host compiler options operation manifest places files)
            ⟨w.files, told⟩ = (result, w') := by
  unfold performProject at h
  rw [outcome_bind_of_ok (Act.outcome_files w)] at h
  dsimp only at h
  split at h
  · cases h
    exact .inl ⟨rfl, .inr ⟨_, rfl, rfl⟩⟩
  · rw [outcome_bind_of_ok (Act.outcome_files w)] at h
    cases hmanifest : readManifest w.files root with
    | error e =>
      rw [hmanifest] at h
      cases h
      exact .inl ⟨rfl, .inr ⟨_, rfl, rfl⟩⟩
    | ok manifest =>
      rw [hmanifest, Act.orFail_ok, pure_bind, outcome_bind_of_ok (Act.outcome_note w _ _)] at h
      rcases (resolveSourceRoot_fails root manifest).of_bind
          (resolveSourceRoot_keepsFiles root manifest) h with
        hend | ⟨sourceRoot, w₁, hsource, hw₁, h⟩
      · exact .inl ⟨hend.1, .inr hend.2⟩
      · have hsource' := resolveSourceRoot_ok hsource
        cases hpatterns : Sources.readPatterns sourceRoot manifest.exclude with
        | error fault =>
          rw [hpatterns] at h
          cases h
          exact .inl ⟨hw₁, .inr ⟨_, rfl, rfl⟩⟩
        | ok patterns =>
          rw [hpatterns, Act.orFail_ok, pure_bind] at h
          rcases (findSources_fails _).of_bind (findSources_keepsFiles _) h with
            hend | ⟨files, w₂, hscan, hw₂, h⟩
          · exact .inl ⟨hend.1.trans hw₁, .inr hend.2⟩
          · have hscan' := findSources_ok hscan
            rw [hw₁] at hscan'
            have hfiles : w₂.files = w.files := hw₂.trans hw₁
            split at h
            · cases h
              exact .inl ⟨hfiles, .inl rfl⟩
            · rename_i hsome
              refine .inr ⟨manifest, ⟨root, sourceRoot, options.outputDirectory root⟩, files,
                w₂.told, ⟨hoperation, hroot, hmanifest, hsource', rfl, ⟨patterns, hpatterns,
                hscan'⟩, by simpa using hsome⟩, ?_⟩
              rw [← hfiles]
              exact h

/-- What an invocation that puts a manifest in place does from then on. -/
theorem initialization_stages {obstacles : Obstacles} {root : String} {source : TemplateSource}
    {w w' : World} {result : Except Failure Outcome}
    (h : outcome (do
      let what ← initializePackage obstacles root source
      Act.line .created what.message
      return Outcome.initialized what) w = (result, w')) :
    (w'.files = w.files ∧ ∃ e, result = .error e ∧ e.IsEarly) ∨
      ((∀ outcome, result = .ok outcome → ∃ what, outcome = .initialized what) ∧
        ∀ e, result = .error e → IsInitFailure e) := by
  rcases hout : outcome (initializePackage obstacles root source) w with ⟨e | what, w₁⟩
  · rw [outcome_bind_of_error hout] at h
    cases h
    rcases initializePackage_stages hout with ⟨hfiles, _, he, hearly⟩ | hfailure
    · cases he
      exact .inl ⟨hfiles, e, rfl, hearly⟩
    · refine .inr ⟨?_, ?_⟩
      · rintro _ hok
        cases hok
      · rintro e' he
        cases he
        exact hfailure e rfl
  · rw [outcome_bind_of_ok hout] at h
    cases h
    refine .inr ⟨?_, ?_⟩
    · rintro _ hok
      cases hok
      exact ⟨what, rfl⟩
    · rintro e he
      cases he

/-- **An invocation ends before anything is changed, or it has come to replacing a manifest, or
what it has found is carried out.** -/
theorem perform_stages {host : Host} {compiler : Compiler} {options : Options} {w w' : World}
    {result : Except Failure Outcome}
    (h : outcome (performWith host compiler options) w = (result, w')) :
    (w'.files = w.files ∧
        (result = .ok (.stopped .noSources) ∨ ∃ e, result = .error e ∧ e.IsEarly)) ∨
      (resolveOperation options.operation = .ok .init ∧
        (∀ outcome, result = .ok outcome → ∃ what, outcome = .initialized what) ∧
        ∀ e, result = .error e → IsInitFailure e) ∨
      ∃ operation manifest places files told,
        operation ≠ .init ∧ Prepared w.files options operation manifest places files ∧
          outcome (carryOut host compiler options operation manifest places files)
            ⟨w.files, told⟩ = (result, w') := by
  unfold performWith at h
  rw [outcome_bind_of_ok (Act.outcome_note w _ _)] at h
  -- one stage after the other: it fails early, or leaves the files as they are for the next one
  cases hoperation : resolveOperation options.operation with
  | error e =>
    rw [hoperation] at h
    cases h
    exact .inl ⟨rfl, .inr ⟨e, rfl, resolveOperation_error hoperation⟩⟩
  | ok operation =>
    rw [hoperation, Act.orFail_ok, pure_bind, outcome_bind_of_ok (Act.outcome_note _ _ _)] at h
    rcases (checkInstallation_fails _ _ _).of_bind (checkInstallation_keepsFiles _ _ _) h with
      ⟨hfiles, e, he, habout⟩ | ⟨_, w₁, _, hw₁, hgo⟩
    · exact .inl ⟨hfiles, .inr ⟨e, he, habout.isEarly⟩⟩
    · rw [outcome_bind_of_ok (Act.outcome_files w₁), hw₁] at hgo
      cases hbase : workingPath w.files with
      | error e =>
        rw [hbase] at hgo
        cases hgo
        exact .inl ⟨hw₁, .inr ⟨e, rfl, workingPath_error hbase⟩⟩
      | ok base =>
        rw [hbase, Act.orFail_ok, pure_bind, outcome_bind_of_ok (Act.outcome_files w₁), hw₁] at hgo
        cases hroot : resolveRoot w.files options.root base with
        | error e =>
          rw [hroot] at hgo
          cases hgo
          exact .inl ⟨hw₁, .inr ⟨e, rfl, resolveRoot_error hroot⟩⟩
        | ok root =>
          rw [hroot, Act.orFail_ok, pure_bind, outcome_bind_of_ok (Act.outcome_note w₁ _ _)] at hgo
          split at hgo
          · rename_i hinit
            subst hinit
            rcases initialization_stages hgo with ⟨hfiles, hearly⟩ | hend
            · exact .inl ⟨hfiles.trans hw₁, .inr hearly⟩
            · exact .inr (.inl ⟨rfl, hend⟩)
          · rename_i hother
            rcases performProject_stages (w := ⟨w₁.files, _⟩) hoperation
              (hw₁ ▸ ⟨base, hbase, hroot⟩) hgo with hend | hcarry
            · rw [hw₁] at hend
              exact .inl hend
            · rw [hw₁] at hcarry
              obtain ⟨manifest, places, files, told, hprepared, hout⟩ := hcarry
              exact .inr (.inr ⟨operation, manifest, places, files, told, hother, hprepared, hout⟩)

/-! ### Carrying out -/

theorem IsInitFailure.phase {e : Failure} (h : IsInitFailure e) : e.phase = .writing := by
  obtain ⟨path, ⟨fault, rfl⟩ | ⟨fault, rfl⟩⟩ := h
  · rfl
  · rfl

theorem compileLoop_error {frontEnd : FrontEnd} {fs : FileSystem} {root : String}
    {units : List Compilation.CompiledUnit} {files : List String} {e : Failure}
    (h : compileLoop frontEnd fs root units files = .error e) : e.phase = .compiling := by
  induction files generalizing units with
  | nil => cases h
  | cons file files ih =>
    rw [compileLoop] at h
    split at h
    · cases h
      rfl
    · split at h
      · cases h
        rfl
      · exact ih h

theorem ensureOutput_ends (fs : FileSystem) (path : String) :
    Ends (ensureOutput path) fs
      (((fs.ensureDirectory path).2.mapError (.noOutputDirectory path)).map fun _ => ())
      (fs.ensureDirectory path).1 := by
  unfold ensureOutput
  refine Ends.files.bind ?_
  rcases fs.ensureDirectory path with ⟨fs', made⟩
  refine Ends.setFiles.bind ?_
  cases made with
  | error fault => exact (Ends.orFail _ (.error fault)).bind_error
  | ok isNew =>
    refine (Ends.pure _).bind ?_
    split
    · exact .note _ _
    · exact .pure _

theorem ensureOutput_ok {path : String} {w w' : World}
    (h : outcome (ensureOutput path) w = (.ok (), w')) :
    ∃ isNew, w.files.ensureDirectory path = (w'.files, .ok isNew) := by
  obtain ⟨hok, hfiles⟩ := (ensureOutput_ends w.files path).eq h
  cases hmade : (w.files.ensureDirectory path).2 with
  | error fault =>
    rw [hmade] at hok
    cases hok
  | ok isNew => exact ⟨isNew, Prod.ext hfiles.symm hmade⟩

/-- Carrying out makes directories on the way of the one for what is built. It may end with
that, or it hands a compiled project on. -/
theorem carryOut_stages {host : Host} {frontEnd : FrontEnd} {options : Options}
    {operation : Operation} {manifest : Manifest} {places : Places} {files : List String}
    {w w' : World} {result : Except Failure Outcome} (hfs : w.files.NoLinks)
    (houtput : Path.isAbsolute places.output = true)
    (h : outcome (carryOut host (compileSources frontEnd) options operation manifest places
      files) w = (result, w')) :
    ∃ fs news, FileSystem.Grows places.output w.files fs news ∧
      ((w'.files = fs ∧ ∃ e, result = .error e ∧
          (e.phase = .compiling ∨ ∃ fault, e = .noOutputDirectory places.output fault)) ∨
        ∃ project told, compileLoop frontEnd fs places.sourceRoot [] files = .ok project ∧
          outcome (dispatch host options operation manifest places project) ⟨fs, told⟩ =
            (result, w')) := by
  obtain ⟨news, hgrows⟩ := FileSystem.ensureDirectory_grows houtput hfs
  refine ⟨_, news, hgrows, ?_⟩
  unfold carryOut at h
  obtain ⟨told, hensure⟩ := ensureOutput_ends w.files places.output w.told
  cases hmade : (w.files.ensureDirectory places.output).2 with
  | error fault =>
    rw [hmade] at hensure
    rw [outcome_bind_of_error hensure] at h
    cases h
    exact .inl ⟨rfl, _, rfl, .inr ⟨fault, rfl⟩⟩
  | ok isNew =>
    rw [hmade] at hensure
    rw [outcome_bind_of_ok hensure] at h
    obtain ⟨told₁, hcompile⟩ := outcome_compileSources frontEnd places.sourceRoot files
      ⟨(w.files.ensureDirectory places.output).1, told⟩
    cases hloop : compileLoop frontEnd (w.files.ensureDirectory places.output).1
        places.sourceRoot [] files with
    | error e =>
      rw [hloop] at hcompile
      rw [outcome_bind_of_error hcompile] at h
      cases h
      exact .inl ⟨rfl, e, rfl, .inl (compileLoop_error hloop)⟩
    | ok project =>
      rw [hloop] at hcompile
      rw [outcome_bind_of_ok hcompile] at h
      exact .inr ⟨project, told₁, rfl, h⟩

end Ingot.Workflow
