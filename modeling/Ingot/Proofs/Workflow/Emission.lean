import Ingot.Proofs.FileSystem.Writes
import Ingot.Proofs.Workflow.Acts
import Ingot.Workflow.Perform

/-!
# Writing units to files

A module is a black box, but it is told which file to write to; one that keeps to it
(`WritesOwnFile`) changes nothing else, whether it succeeds or not, and the modules of the
standard front end do so. From the steps for one unit follows what a row of units leaves
behind (`mapM_emits`): **the files that are changed are those of the units up to the one
that fails**. None of these is the manifest, whose name ends in another way.
-/

namespace Ingot.Workflow

open Effect
open FileSystem (Keeps WritesAt)
open Compilation (CompiledModule CompiledUnit FrontEnd)

/-! ### Modules -/

/-- A module that writes to the file it is told to write to, and to no other. -/
structure WritesOwnFile (m : CompiledModule) : Prop where
  text : ∀ fs path, WritesAt fs path (m.writeText fs path).1
  binary : ∀ fs path, WritesAt fs path (m.writeBinary fs path).files

/-- A front end all of whose modules write to the files they are told to write to. -/
def KeepsToFiles (frontEnd : FrontEnd) : Prop :=
  ∀ fs root file unit, frontEnd fs root file = .ok unit → WritesOwnFile unit.module

theorem moduleOf_writesOwnFile (m : Bitcode.Module) :
    WritesOwnFile (Compilation.moduleOf m) := by
  refine ⟨?_, ?_⟩
  · intro fs path
    unfold Compilation.moduleOf
    dsimp only
    split
    · exact .nothing
    · rename_i hwrite
      exact (FileSystem.writeWith_eq_ok hwrite).1
  · intro fs path
    unfold Compilation.moduleOf
    dsimp only
    split
    · exact .nothing
    · rename_i hwrite
      exact (FileSystem.writeWith_eq_ok hwrite).1

theorem standardFrontEnd_eq_ok {fs : FileSystem} {root file : String} {unit : CompiledUnit}
    (h : Compilation.standardFrontEnd fs root file = .ok unit) :
    ∃ m, Compilation.generate fs root file = .ok m ∧
      unit = ⟨Compilation.unitName root file, file, Compilation.moduleOf m⟩ := by
  obtain ⟨m, hm, rfl⟩ := of_except_map_ok h
  exact ⟨m, hm, rfl⟩

theorem standardFrontEnd_keepsToFiles : KeepsToFiles Compilation.standardFrontEnd := by
  intro fs root file unit h
  obtain ⟨m, _, rfl⟩ := standardFrontEnd_eq_ok h
  exact moduleOf_writesOwnFile m

/-! ### One unit -/

/-- The failures to write a unit to the file at a path. -/
def IsEmitFailure (form : ArtifactForm) (path : String) (e : Failure) : Prop :=
  (∃ message, e = .emit form path message) ∨ ∃ fault, e = .artifactUnreadable path fault

/-- The module was written to the file at the path. -/
def Written (form : ArtifactForm) (path : String) (m : CompiledModule) (fs fs' : FileSystem) :
    Prop :=
  match form with
  | .text => m.writeText fs path = (fs', .ok ())
  | .bitcode => (m.writeBinary fs path).files = fs' ∧ (m.writeBinary fs path).status = 0

/-- How an act that makes the artifact of a unit ends. -/
structure Emits (output : String) (form : ArtifactForm) (unit : CompiledUnit)
    (fs : FileSystem) (result : Except Failure Artifact) (fs' : FileSystem) : Prop where
  writes : WritesOwnFile unit.module → WritesAt fs (artifactPath output form unit.name) fs'
  ok : ∀ artifact, result = .ok artifact → ∃ content,
    artifact = ⟨unit.name, artifactPath output form unit.name, form, content⟩ ∧
      fs'.readBytes (artifactPath output form unit.name) = .ok content ∧
        Written form (artifactPath output form unit.name) unit.module fs fs'
  error : ∀ e, result = .error e → IsEmitFailure form (artifactPath output form unit.name) e

/-- How writing a unit as text ends. -/
theorem writeText_ends (path : String) (unit : CompiledUnit) (fs : FileSystem) :
    Ends (writeUnit .text path unit) fs
      ((unit.module.writeText fs path).2.mapError fun message => .emit .text path message)
      (unit.module.writeText fs path).1 := by
  unfold writeUnit
  exact Ends.files.bind (Ends.setFiles.bind (.orFail _ _))

/-- How writing a unit in the binary form ends: what decides is the status of the writer, and not
whether it notes a fault. -/
theorem writeBinary_ends (path : String) (unit : CompiledUnit) (fs : FileSystem) :
    Ends (writeUnit .bitcode path unit) fs
      (if (unit.module.writeBinary fs path).status = 0 then .ok ()
        else .error (.emit .bitcode path
          s!"writer returned status {(unit.module.writeBinary fs path).status}"))
      (unit.module.writeBinary fs path).files := by
  have hlast : ∀ (status : Int) (e : Failure) (fs : FileSystem),
      Ends (if status ≠ 0 then throw e else pure () : Act Unit) fs
        (if status = 0 then .ok () else .error e) fs := by
    intro status e fs
    by_cases hstatus : status = 0
    · rw [if_neg (not_not.2 hstatus), if_pos hstatus]
      exact .pure ()
    · rw [if_pos hstatus, if_neg hstatus]
      exact .fail e
  unfold writeUnit
  refine Ends.files.bind (Ends.setFiles.bind ?_)
  dsimp only
  cases (unit.module.writeBinary fs path).fault with
  | none => exact hlast _ _ _
  | some fault => exact (Ends.note _ _).bind (hlast _ _ _)

theorem writeUnit_emits {form : ArtifactForm} {path : String} {unit : CompiledUnit}
    {w w' : World} {result : Except Failure Unit}
    (h : outcome (writeUnit form path unit) w = (result, w')) :
    (WritesOwnFile unit.module → WritesAt w.files path w'.files) ∧
      (result = .ok () → Written form path unit.module w.files w'.files) ∧
        ∀ e, result = .error e → ∃ message, e = .emit form path message := by
  cases form with
  | text =>
    obtain ⟨hresult, hfiles⟩ := (writeText_ends path unit w.files).eq h
    have htext : WritesOwnFile unit.module → WritesAt w.files path w'.files := by
      intro hown
      rw [hfiles]
      exact hown.text _ _
    rcases hwrite : unit.module.writeText w.files path with ⟨fs, message | u⟩
    · rw [hwrite] at hresult hfiles
      obtain rfl : result = .error (.emit .text path message) := hresult
      obtain rfl : w'.files = fs := hfiles
      refine ⟨htext, ?_, ?_⟩
      · intro hok
        cases hok
      · intro e he
        cases he
        exact ⟨message, rfl⟩
    · rw [hwrite] at hresult hfiles
      obtain rfl : result = .ok () := hresult
      obtain rfl : w'.files = fs := hfiles
      refine ⟨htext, fun _ => hwrite, ?_⟩
      intro e he
      cases he
  | bitcode =>
    obtain ⟨hresult, hfiles⟩ := (writeBinary_ends path unit w.files).eq h
    rw [hfiles]
    refine ⟨fun hown => hown.binary _ _, fun hok => ?_, fun e he => ?_⟩
    · rw [hresult] at hok
      split at hok
      · rename_i hstatus
        exact ⟨rfl, hstatus⟩
      · cases hok
    · rw [hresult] at he
      split at he
      · cases he
      · cases he
        exact ⟨_, rfl⟩

theorem emitUnit_emits {output : String} {form : ArtifactForm} {unit : CompiledUnit}
    {w w' : World} {result : Except Failure Artifact}
    (h : outcome (emitUnit output form unit) w = (result, w')) :
    Emits output form unit w.files result w'.files := by
  unfold emitUnit at h
  dsimp only at h
  rcases hwrite : outcome (writeUnit form (artifactPath output form unit.name) unit) w
    with ⟨wrote, w₁⟩
  obtain ⟨hwrites, hwritten, herror⟩ := writeUnit_emits hwrite
  cases wrote with
  | error e =>
    rw [outcome_bind_of_error hwrite] at h
    cases h
    refine ⟨hwrites, ?_, ?_⟩
    · intro artifact hok
      cases hok
    · intro e' he
      cases he
      exact .inl (herror e rfl)
  | ok u =>
    rw [outcome_bind_of_ok hwrite, outcome_bind_of_ok (Act.outcome_files w₁)] at h
    cases hread : w₁.files.readBytes (artifactPath output form unit.name) with
    | error fault =>
      rw [hread] at h
      cases h
      refine ⟨hwrites, ?_, ?_⟩
      · intro artifact hok
        cases hok
      · intro e he
        cases he
        exact .inr ⟨fault, rfl⟩
    | ok content =>
      rw [hread] at h
      cases h
      refine ⟨hwrites, ?_, ?_⟩
      · intro artifact hok
        cases hok
        exact ⟨content, rfl, hread, hwritten rfl⟩
      · intro e he
        cases he

/-- Telling the user about an artifact changes nothing in it. -/
theorem emitUnit_told {output : String} {form : ArtifactForm} {unit : CompiledUnit}
    {report : Artifact → Act Unit} {w w' : World} {result : Except Failure Artifact}
    (hreport : ∀ a fs, Ends (report a) fs (.ok ()) fs)
    (h : outcome (emitUnit output form unit >>= fun a => report a >>= fun _ => pure a) w =
      (result, w')) : Emits output form unit w.files result w'.files := by
  rcases hemit : outcome (emitUnit output form unit) w with ⟨emitted, w₁⟩
  have hemits := emitUnit_emits hemit
  cases emitted with
  | error e =>
    rw [outcome_bind_of_error hemit] at h
    cases h
    exact hemits
  | ok artifact =>
    obtain ⟨told, hend⟩ := hreport artifact w₁.files w₁.told
    rw [outcome_bind_of_ok hemit, outcome_bind_of_ok hend] at h
    cases h
    exact hemits

theorem buildUnit_emits {places : Places} {form : ArtifactForm} {unit : CompiledUnit}
    {w w' : World} {result : Except Failure Artifact}
    (h : outcome (buildUnit places form unit) w = (result, w')) :
    Emits places.output form unit w.files result w'.files :=
  emitUnit_told (fun _ _ => .tell _) h

theorem prepareUnit_emits {output : String} {unit : CompiledUnit} {w w' : World}
    {result : Except Failure Artifact} (h : outcome (prepareUnit output unit) w = (result, w')) :
    Emits output .text unit w.files result w'.files :=
  emitUnit_told (fun _ _ => .tell _) h

/-! ### A row of units -/

/-- A row of units was written to files, one after the other. -/
inductive EmitsAll (output : String) (form : ArtifactForm) :
    FileSystem → List CompiledUnit → List Artifact → FileSystem → Prop where
  /-- No unit is left. -/
  | nil {fs : FileSystem} : EmitsAll output form fs [] [] fs
  /-- The first unit was written, and then the others. -/
  | cons {fs fs₁ fs₂ : FileSystem} {unit : CompiledUnit} {units : List CompiledUnit}
      {artifact : Artifact} {artifacts : List Artifact} :
      Emits output form unit fs (.ok artifact) fs₁ →
      EmitsAll output form fs₁ units artifacts fs₂ →
      EmitsAll output form fs (unit :: units) (artifact :: artifacts) fs₂

/-- Writing a row of units, each with an act that makes its artifact, succeeds with all of them,
or fails with one after it has succeeded with those before it. -/
theorem mapM_emits {output : String} {form : ArtifactForm} {act : CompiledUnit → Act Artifact}
    (hact : ∀ unit w w' result, outcome (act unit) w = (result, w') →
      Emits output form unit w.files result w'.files)
    {units : List CompiledUnit} {w w' : World} {result : Except Failure (List Artifact)}
    (h : outcome (units.mapM act) w = (result, w')) :
    (∃ artifacts, result = .ok artifacts ∧
        EmitsAll output form w.files units artifacts w'.files) ∨
      ∃ e before unit behind artifacts fs, result = .error e ∧
        units = before ++ unit :: behind ∧
          EmitsAll output form w.files before artifacts fs ∧
            Emits output form unit fs (.error e) w'.files := by
  induction units generalizing w w' result with
  | nil =>
    cases h
    exact .inl ⟨[], rfl, .nil⟩
  | cons unit units ih =>
    rw [List.mapM_cons] at h
    rcases hunit : outcome (act unit) w with ⟨emitted, w₁⟩
    have hemits := hact unit w w₁ emitted hunit
    cases emitted with
    | error e =>
      rw [outcome_bind_of_error hunit] at h
      cases h
      exact .inr ⟨e, [], unit, units, [], w.files, rfl, rfl, .nil, hemits⟩
    | ok artifact =>
      rw [outcome_bind_of_ok hunit] at h
      rcases hrest : outcome (units.mapM act) w₁ with ⟨others, w₂⟩
      rcases ih hrest with ⟨artifacts, rfl, hall⟩ |
        ⟨e, before, failed, behind, artifacts, fs, rfl, rfl, hall, hfailed⟩
      · rw [outcome_bind_of_ok hrest] at h
        cases h
        exact .inl ⟨artifact :: artifacts, rfl, .cons hemits hall⟩
      · rw [outcome_bind_of_error hrest] at h
        cases h
        exact .inr ⟨e, unit :: before, failed, behind, artifact :: artifacts, fs, rfl, rfl,
          .cons hemits hall, hfailed⟩

/-- The artifacts are those of the units, and each is called by its unit. -/
theorem EmitsAll.artifacts_eq {output : String} {form : ArtifactForm} {units : List CompiledUnit}
    {artifacts : List Artifact} {fs fs' : FileSystem}
    (h : EmitsAll output form fs units artifacts fs') :
    artifacts.map Artifact.unit = units.map CompiledUnit.name ∧
      ∀ a ∈ artifacts, a.path = artifactPath output form a.unit := by
  induction h with
  | nil => exact ⟨rfl, List.forall_mem_nil _⟩
  | cons hemits _ ih =>
    obtain ⟨content, rfl, _⟩ := hemits.ok _ rfl
    exact ⟨by rw [List.map_cons, List.map_cons, ih.1], List.forall_mem_cons.2 ⟨rfl, ih.2⟩⟩

theorem entryPath?_eq {output entry : String} {form : ArtifactForm} {artifacts : List Artifact}
    (hpath : ∀ a ∈ artifacts, a.path = artifactPath output form a.unit)
    (hentry : entry ∈ artifacts.map Artifact.unit) :
    entryPath? entry artifacts = some (artifactPath output form entry) := by
  have hall : ∀ path ∈ (artifacts.filter fun a => a.unit == entry).map Artifact.path,
      path = artifactPath output form entry := by
    intro path hmem
    obtain ⟨a, ha, rfl⟩ := List.mem_map.1 hmem
    obtain ⟨ha, hunit⟩ := List.mem_filter.1 ha
    rw [hpath a ha, eq_of_beq hunit]
  obtain ⟨a, ha, rfl⟩ := List.mem_map.1 hentry
  have hne : (artifacts.filter fun b => b.unit == a.unit).map Artifact.path ≠ [] :=
    List.ne_nil_of_mem (List.mem_map_of_mem (List.mem_filter.2 ⟨ha, beq_self_eq_true _⟩))
  rw [entryPath?, List.getLast?_eq_some_getLast hne, hall _ (List.getLast_mem hne)]

theorem paths_others {output entry : String} {form : ArtifactForm} {artifacts : List Artifact}
    (hpath : ∀ a ∈ artifacts, a.path = artifactPath output form a.unit) :
    (artifacts.filter fun a => a.unit != entry).map Artifact.path =
      ((artifacts.map Artifact.unit).filter (· != entry)).map (artifactPath output form) := by
  rw [List.filter_map, List.map_map]
  exact List.map_congr_left fun a ha => hpath a (List.mem_of_mem_filter ha)

/-- The locations of the artifacts of some units. -/
def IsTarget (fs : FileSystem) (output : String) (form : ArtifactForm)
    (units : List CompiledUnit) (l : Location) : Prop :=
  ∃ unit ∈ units, l = fs.place (artifactPath output form unit.name)

/-- The artifacts have the same places after a change. -/
theorem IsTarget.of_keeps {touched : Location → Prop} {fs fs' : FileSystem} {output : String}
    {form : ArtifactForm} {units : List CompiledUnit} {l : Location}
    (h : IsTarget fs' output form units l) (hkeeps : Keeps touched fs fs') :
    IsTarget fs output form units l := by
  obtain ⟨unit, hunit, hl⟩ := h
  exact ⟨unit, hunit, hl.trans (hkeeps.place _)⟩

theorem Emits.keeps {output : String} {form : ArtifactForm} {unit : CompiledUnit}
    {fs fs' : FileSystem} {result : Except Failure Artifact}
    (h : Emits output form unit fs result fs') (hown : WritesOwnFile unit.module)
    (hfs : fs.NoLinks) {units : List CompiledUnit} (hunit : unit ∈ units) :
    Keeps (IsTarget fs output form units) fs fs' := by
  exact ((h.writes hown).keeps hfs).mono fun l hl => ⟨unit, hunit, hl⟩

/-- **What a row of units leaves behind**: only their own files are changed. -/
theorem EmitsAll.keeps {output : String} {form : ArtifactForm} {units all : List CompiledUnit}
    {artifacts : List Artifact} {fs fs' : FileSystem}
    (h : EmitsAll output form fs units artifacts fs') (hsub : ∀ unit ∈ units, unit ∈ all)
    (hown : ∀ unit ∈ units, WritesOwnFile unit.module) (hfs : fs.NoLinks) :
    Keeps (IsTarget fs output form all) fs fs' := by
  induction h with
  | nil => exact .refl hfs _
  | @cons fs fs₁ fs₂ unit units artifact artifacts hemits _ ih =>
    have hfirst : Keeps (IsTarget fs output form all) fs fs₁ :=
      hemits.keeps (hown unit List.mem_cons_self) hfs (hsub unit List.mem_cons_self)
    have hrest := ih (fun u hu => hsub u (List.mem_cons_of_mem _ hu))
      (fun u hu => hown u (List.mem_cons_of_mem _ hu)) hfirst.noLinks
    exact hfirst.trans (hrest.mono fun l hl => hl.of_keeps hfirst)

/-! ### A whole build -/

/-- Counting a build never fails; where it cannot be counted nothing is changed. -/
theorem outcome_countBuildOrWarn (root : String) (w : World) :
    ∃ told, outcome (countBuildOrWarn root) w =
      match Package.countBuildIn w.files root with
      | .ok (number, fs) => (.ok (some number), ⟨fs, told⟩)
      | .error _ => (.ok none, ⟨w.files, told⟩) := by
  unfold countBuildOrWarn
  rw [outcome_bind_of_ok (Act.outcome_files w)]
  cases Package.countBuildIn w.files root with
  | error e => exact ⟨_, rfl⟩
  | ok counted => exact ⟨_, rfl⟩

/-- A build writes all units and then counts itself, or it fails with a unit. -/
theorem buildProject_stages {manifest : Package.Manifest} {places : Places}
    {form : ArtifactForm} {project : Compilation.Project} {w w' : World}
    {result : Except Failure BuildReport}
    (h : outcome (buildProject manifest places form project) w = (result, w')) :
    (∃ artifacts fs, EmitsAll places.output form w.files project.units artifacts fs ∧
        ((∃ number, Package.countBuildIn fs places.root = .ok (number, w'.files) ∧
            result = .ok ⟨artifacts, some number⟩) ∨
          ∃ e, Package.countBuildIn fs places.root = .error e ∧ w'.files = fs ∧
            result = .ok ⟨artifacts, none⟩)) ∨
      ∃ e before unit behind artifacts fs, result = .error e ∧
        project.units = before ++ unit :: behind ∧
          EmitsAll places.output form w.files before artifacts fs ∧
            Emits places.output form unit fs (.error e) w'.files := by
  unfold buildProject at h
  rcases hunits : outcome (project.units.mapM (buildUnit places form)) w with ⟨emitted, w₁⟩
  rcases mapM_emits (fun _ _ _ _ => buildUnit_emits) hunits with ⟨artifacts, rfl, hall⟩ | hfailed
  · rw [outcome_bind_of_ok hunits] at h
    obtain ⟨told, hcount⟩ := outcome_countBuildOrWarn places.root w₁
    refine .inl ⟨artifacts, w₁.files, hall, ?_⟩
    cases hcounted : Package.countBuildIn w₁.files places.root with
    | error e =>
      rw [hcounted] at hcount
      rw [outcome_bind_of_ok hcount] at h
      cases h
      exact .inr ⟨e, rfl, rfl, rfl⟩
    | ok counted =>
      rw [hcounted] at hcount
      rw [outcome_bind_of_ok hcount] at h
      cases h
      exact .inl ⟨_, rfl, rfl⟩
  · obtain ⟨e, before, unit, behind, artifacts, fs, rfl, hrest⟩ := hfailed
    rw [outcome_bind_of_error hunits] at h
    cases h
    exact .inr ⟨e, before, unit, behind, artifacts, fs, rfl, hrest⟩

/-! ### Artifacts are not manifests -/

theorem place_manifestPath {fs : FileSystem} {root : String}
    (hroot : Path.isAbsolute root = true) :
    fs.place (Package.manifestPath root) = fs.place root ++ [Package.manifestName] := by
  have hleaf : Path.IsLeaf Package.manifestName := ⟨by decide, by decide⟩
  rw [FileSystem.place, FileSystem.place, Package.manifestPath,
    Path.way_join (Path.ne_empty_of_isAbsolute hroot) hleaf (by decide),
    FileSystem.follow_append, FileSystem.startOf, FileSystem.startOf, hroot,
    Path.isAbsolute_join hroot]
  rfl

theorem place_artifactPath (fs : FileSystem) (output : String) (form : ArtifactForm)
    (unit : String) : ∃ l stem, fs.place (artifactPath output form unit) =
      l ++ [String.ofList (stem ++ '.' :: form.ending.toList)] := by
  have hsuffix : ∃ a, (artifactPath output form unit).toList = a ++ '.' :: form.ending.toList := by
    have hname : (s!"{Raw.ofText unit}.{form.ending}").toList =
        (Raw.ofText unit).toList ++ '.' :: form.ending.toList := by
      change (Raw.ofText unit ++ "." ++ form.ending).toList = _
      rw [String.toList_append, String.toList_append, List.append_assoc]
      rfl
    rw [artifactPath, Path.join]
    split
    · exact ⟨_, hname⟩
    · split
      · refine ⟨output.toList ++ (Raw.ofText unit).toList, ?_⟩
        rw [String.toList_append, hname, List.append_assoc]
      · refine ⟨output.toList ++ '/' :: (Raw.ofText unit).toList, ?_⟩
        rw [String.toList_append, String.toList_append, hname]
        simp
  obtain ⟨a, ha⟩ := hsuffix
  obtain ⟨names, stem, hway⟩ := Path.way_of_suffix ha (by cases form <;> decide)
    (by cases form <;> decide)
  refine ⟨FileSystem.follow (FileSystem.startOf fs.workingDirectory
    (artifactPath output form unit)) names, stem, ?_⟩
  have hlong : 3 ≤ (String.ofList (stem ++ '.' :: form.ending.toList)).toList.length := by
    cases form with
    | text => simp [ArtifactForm.ending]
    | bitcode => simp [ArtifactForm.ending]
  rw [FileSystem.place, hway, FileSystem.follow_append, FileSystem.follow, List.foldl_cons,
    List.foldl_nil, FileSystem.enter, if_neg, if_neg]
  · intro heq
    rw [heq] at hlong
    exact absurd hlong (by decide)
  · intro heq
    rw [heq] at hlong
    exact absurd hlong (by decide)

/-- No artifact stands where the last name ends in another letter than those of artifacts do. -/
theorem not_isTarget_of_last {fs : FileSystem} {output : String} {form : ArtifactForm}
    {units : List CompiledUnit} {l : Location} {name : String}
    (hname : name.toList.getLast? ≠ some 'r' ∧ name.toList.getLast? ≠ some 'c') :
    ¬IsTarget fs output form units (l ++ [name]) := by
  rintro ⟨unit, _, heq⟩
  obtain ⟨l', stem, hplace⟩ := place_artifactPath fs output form unit.name
  rw [hplace] at heq
  have hsame : name = String.ofList (stem ++ '.' :: form.ending.toList) :=
    (List.append_inj' heq rfl).2 |> List.head_eq_of_cons_eq
  have hlast := congrArg (fun name => name.toList.getLast?) hsame
  cases form with
  | text =>
    refine hname.1 (hlast.trans ?_)
    simp [ArtifactForm.ending]
  | bitcode =>
    refine hname.2 (hlast.trans ?_)
    simp [ArtifactForm.ending]

theorem not_isTarget_manifest {fs : FileSystem} {root : String}
    (hroot : Path.isAbsolute root = true) (output : String) (form : ArtifactForm)
    (units : List CompiledUnit) :
    ¬IsTarget fs output form units (fs.place (Package.manifestPath root)) := by
  rw [place_manifestPath hroot]
  exact not_isTarget_of_last (by decide)

/-! ### Artifacts are not sources -/

/-- The place of a path whose file name has an ending. -/
theorem place_of_extension {file ending : String} (h : Path.extension? file = some ending)
    (fs : FileSystem) : ∃ l name stem, fs.place file = l ++ [name] ∧
      name.toList = stem ++ '.' :: ending.toList := by
  obtain ⟨name, hname, hending⟩ := Option.bind_eq_some_iff.1 h
  obtain ⟨stem, hstem⟩ := Path.toList_of_cutAtDot hending
  obtain ⟨hup, names, hway⟩ := Path.way_of_fileName? hname
  have hdot : name ≠ "." := (Path.isLeaf_of_mem_way (hway ▸ List.mem_append_right _
    List.mem_cons_self)).2
  refine ⟨FileSystem.follow (FileSystem.startOf fs.workingDirectory file) names, name, stem, ?_,
    hstem⟩
  rw [FileSystem.place, hway, FileSystem.follow_append, FileSystem.follow, List.foldl_cons,
    List.foldl_nil, FileSystem.enter, if_neg hdot, if_neg hup]

/-- No source is the file of a unit or a manifest. -/
theorem place_source_ne (fs : FileSystem) {file root : String}
    (hfile : Path.extension? file = some Sources.sourceEnding)
    (hroot : Path.isAbsolute root = true) (output : String) (form : ArtifactForm)
    (units : List CompiledUnit) : ¬IsTarget fs output form units (fs.place file) ∧
      fs.place file ≠ fs.place (Package.manifestPath root) := by
  obtain ⟨l, name, stem, hplace, hname⟩ := place_of_extension hfile fs
  have hlast : name.toList.getLast? = some 'n' := by
    rw [hname]
    simp [Sources.sourceEnding]
  rw [hplace, place_manifestPath hroot]
  refine ⟨not_isTarget_of_last ?_, ?_⟩
  · rw [hlast]
    decide
  · intro heq
    obtain rfl : name = Package.manifestName :=
      (List.append_inj' heq rfl).2 |> List.head_eq_of_cons_eq
    exact absurd hlast (by decide)

end Ingot.Workflow
