import Ingot.Proofs.Workflow.Artifacts
import Ingot.Proofs.Workflow.SideBySide
import Ingot.Proofs.Workflow.Stages

/-!
# Building the same elsewhere

Where two file systems hold the same tree, the same sources below the two locations are compiled to
the same units (`compileLoop_alike`), and units of the same name and module are written to the same
artifacts (`emitUnit_alike`); the build is counted alike as well. So **what is carried out on the
same sources ends alike** (`carryOut_alike`).
-/

namespace Ingot.Workflow

open Effect
open Bitcode (Module)
open Compilation (CompiledUnit Project generate moduleOf standardFrontEnd unitName)
open FileSystem (Counterpart SameTree SameWay)

variable {l l' : Location} {fs fs' : FileSystem}

/-! ### Writing units -/

/-- Units of the same name and module, of sources to which the same way leads. To their artifacts
leads the same way as well. -/
structure UnitsCorrespond (l l' : Location) (output : String) (form : ArtifactForm)
    (unit unit' : CompiledUnit) : Prop where
  name : unit'.name = unit.name
  isLeaf : Path.IsLeaf unit.name
  source : Counterpart l l' unit.source unit'.source
  module : ∃ m, unit.module = moduleOf m ∧ unit'.module = moduleOf m
  artifact : SameWay l l' [output, artifactName form unit.name]

/-- Artifacts of the same unit with the same content, to which the same way leads. -/
structure Artifact.Corresponds (l l' : Location) (a a' : Artifact) : Prop where
  unit : a'.unit = a.unit
  path : Counterpart l l' a.path a'.path
  form : a'.form = a.form
  content : a'.content = a.content
  digest : a'.digest = a.digest

theorem writeUnit_alike (h : SameTree l l' fs fs') {steps : List String} (hway : SameWay l l' steps)
    (hne : steps.flatMap Path.segments ≠ []) {unit unit' : CompiledUnit} {m : Module}
    (hm : unit.module = moduleOf m) (hm' : unit'.module = moduleOf m) (form : ArtifactForm) :
    EndAlike l l' Eq (writeUnit form (Path.descend l.path steps) unit)
      (writeUnit form (Path.descend l'.path steps) unit') fs fs' := by
  unfold writeUnit
  cases form with
  | text =>
    refine .bindFiles ?_
    rw [hm, hm']
    dsimp only [moduleOf, FileSystem.writeText]
    obtain ⟨e, _, he, he', rfl⟩ | ⟨fs₁, fs₁', hok, hok', htree⟩ :=
      (h.writeBytes hway hne m.text.toUTF8).eq_or_eq
    · rw [he, he']
      exact .bindSetFiles (.fail h (.emit hway.counterpart))
    · rw [hok, hok']
      exact .bindSetFiles (.pure htree rfl)
  | bitcode =>
    refine .bindFiles ?_
    rw [hm, hm']
    dsimp only [moduleOf]
    obtain ⟨e, _, he, he', rfl⟩ | ⟨fs₁, fs₁', hok, hok', htree⟩ :=
      (h.writeBytes hway hne ⟨(Bitcode.encode m).toArray⟩).eq_or_eq
    · rw [he, he']
      exact .bindSetFiles (.bindTell (.fail h (.emit hway.counterpart)))
    · rw [hok, hok']
      exact .bindSetFiles (.pure htree rfl)

/-- **Units of the same name and module are written to the same artifact.** -/
theorem emitUnit_alike (h : SameTree l l' fs fs') {output : String} {form : ArtifactForm}
    {unit unit' : CompiledUnit} (hunit : UnitsCorrespond l l' output form unit unit') :
    EndAlike l l' (Artifact.Corresponds l l') (emitUnit (Path.join l.path output) form unit)
      (emitUnit (Path.join l'.path output) form unit') fs fs' := by
  obtain ⟨m, hm, hm'⟩ := hunit.module
  have hway := hunit.artifact
  have hne : [output, artifactName form unit.name].flatMap Path.segments ≠ [] := by
    simp [Path.segments_of_isLeaf (isLeaf_artifactName hunit.isLeaf.noSlash)]
  have hpath : ∀ k : Location, artifactPath (Path.join k.path output) form unit.name =
      Path.descend k.path [output, artifactName form unit.name] := fun _ => rfl
  unfold emitUnit
  rw [hunit.name, hpath, hpath]
  refine (writeUnit_alike h hway hne hm hm' form).bind fun _ _ fs₁ fs₁' _ _ _ htree => ?_
  refine .bindFiles ?_
  rw [htree.readBytes hway]
  have hread : Alike Eq Eq (fs₁.readBytes (Path.descend l.path [output, artifactName form unit.name]))
      (fs₁.readBytes (Path.descend l.path [output, artifactName form unit.name])) := .refl _
  refine .bindOrFail htree hread ?_ ?_
  · rintro fault _ rfl
    exact .artifactUnreadable hway.counterpart
  · rintro content _ _ _ rfl
    exact .pure htree ⟨rfl, hway.counterpart, rfl, rfl, rfl⟩

theorem buildUnit_alike (h : SameTree l l' fs fs') {output : String} {form : ArtifactForm}
    {places places' : Places} (hplaces : places.output = Path.join l.path output)
    (hplaces' : places'.output = Path.join l'.path output) {unit unit' : CompiledUnit}
    (hunit : UnitsCorrespond l l' output form unit unit') :
    EndAlike l l' (Artifact.Corresponds l l') (buildUnit places form unit)
      (buildUnit places' form unit') fs fs' := by
  unfold buildUnit
  rw [hplaces, hplaces']
  refine (emitUnit_alike h hunit).bind fun a a' fs₁ fs₁' _ _ ha htree => ?_
  exact .bindTell (.pure htree ha)

/-! ### Counting builds -/

theorem manifestPath_eq (l : Location) :
    Package.manifestPath l.path = Path.descend l.path [Package.manifestName] := rfl

theorem countBuildIn_alike (h : SameTree l l' fs fs') (hway : SameWay l l' [Package.manifestName]) :
    Alike (fun _ _ => True) (fun counted counted' => counted'.1 = counted.1 ∧
        SameTree l l' counted.2 counted'.2)
      (Package.countBuildIn fs l.path) (Package.countBuildIn fs' l'.path) := by
  have hne : [Package.manifestName].flatMap Path.segments ≠ [] := by decide
  unfold Package.countBuildIn
  dsimp only
  rw [manifestPath_eq, manifestPath_eq, h.readText hway]
  cases fs.readText (Path.descend l.path [Package.manifestName]) with
  | error fault => exact .error trivial
  | ok text =>
    dsimp only
    cases Package.countBuild text with
    | error fault => exact .error trivial
    | ok counted =>
      dsimp only [FileSystem.writeText]
      obtain ⟨e, _, he, he', rfl⟩ | ⟨fs₁, fs₁', hok, hok', htree⟩ :=
        (h.writeBytes hway hne counted.2.toUTF8).eq_or_eq
      · rw [he, he']
        exact .error trivial
      · rw [hok, hok']
        exact .ok ⟨rfl, htree⟩

theorem countBuildOrWarn_alike (h : SameTree l l' fs fs')
    (hway : SameWay l l' [Package.manifestName]) :
    EndAlike l l' Eq (countBuildOrWarn l.path) (countBuildOrWarn l'.path) fs fs' := by
  unfold countBuildOrWarn
  refine .bindFiles ?_
  obtain ⟨e, e', he, he', _⟩ | ⟨⟨n, fs₁⟩, ⟨_, fs₁'⟩, hok, hok', rfl, htree⟩ :=
    (countBuildIn_alike h hway).eq_or_eq
  · rw [he, he']
    exact .bindTell (.pure h rfl)
  · rw [hok, hok']
    exact .bindSetFiles (.bindTell (.pure htree rfl))

/-! ### Building -/

/-- What two invocations came to that stop for the same reason, or have built the same. -/
inductive Outcome.Corresponds (l l' : Location) : Outcome → Outcome → Prop where
  /-- Both stop. -/
  | stopped {why : Advisory} : Corresponds l l' (.stopped why) (.stopped why)
  /-- Both have built. -/
  | built {report report' : BuildReport} : report'.number = report.number →
      List.Forall₂ (Artifact.Corresponds l l') report.artifacts report'.artifacts →
      Corresponds l l' (.built report) (.built report')

section Building

variable {output : String} {form : ArtifactForm} {places places' : Places}

theorem buildProject_alike (h : SameTree l l' fs fs') (manifest : Package.Manifest)
    (hroot : places.root = l.path) (hroot' : places'.root = l'.path)
    (houtput : places.output = Path.join l.path output)
    (houtput' : places'.output = Path.join l'.path output)
    (hway : SameWay l l' [Package.manifestName]) {project project' : Project}
    (hunits : List.Forall₂ (UnitsCorrespond l l' output form) project.units project'.units) :
    EndAlike l l' (fun report report' => Outcome.Corresponds l l' (.built report) (.built report'))
      (buildProject manifest places form project) (buildProject manifest places' form project')
      fs fs' := by
  unfold buildProject
  rw [hroot, hroot']
  have hemit := EndAlike.mapM hunits h fun _ _ _ _ hunit htree =>
    buildUnit_alike htree houtput houtput' hunit
  refine hemit.bind fun artifacts artifacts' fs₁ fs₁' _ _ hartifacts htree => ?_
  refine (countBuildOrWarn_alike htree hway).bind fun number _ fs₂ fs₂' _ _ hnumber htree' => ?_
  exact .bindTell (.pure htree' (.built hnumber.symm hartifacts))

theorem ensureOutput_alike (h : SameTree l l' fs fs') (hway : SameWay l l' [output])
    (habove : ∀ ps, ps <+: Path.wayOfSteps [output] → SameWay l l' ps) :
    EndAlike l l' Eq (ensureOutput (Path.join l.path output))
      (ensureOutput (Path.join l'.path output)) fs fs' := by
  have hpath : ∀ k : Location, Path.join k.path output = Path.descend k.path [output] := fun _ => rfl
  unfold ensureOutput
  refine .bindFiles ?_
  obtain ⟨hend, htree⟩ := h.ensureDirectory hway habove
  rw [hpath, hpath]
  revert hend htree
  rcases fs.ensureDirectory (Path.descend l.path [output]) with ⟨fs₁, made⟩
  rcases fs'.ensureDirectory (Path.descend l'.path [output]) with ⟨fs₁', made'⟩
  rintro rfl htree
  refine .bindSetFiles (.bindOrFail htree (.refl made') ?_ ?_)
  · rintro fault _ rfl
    exact .noOutputDirectory hway.counterpart
  · rintro isNew _ _ _ rfl
    refine .ite Iff.rfl (fun _ => ?_) fun _ => .pure htree rfl
    exact ⟨_, _, _, _, .tell _, .tell _, .ok rfl, htree⟩

end Building

/-! ### Compiling -/

/-- What lies below a path has the name that the names behind that path say. -/
theorem unitName_descend {p p' : String} (hp : p ≠ "") (hp' : p' ≠ "") {names : List String}
    (hnames : ∀ name ∈ names, Path.IsName name) :
    unitName p' (Path.descend p' names) = unitName p (Path.descend p names) := by
  unfold unitName
  rw [Path.componentsBelow_descend hp' hnames, Path.componentsBelow_descend hp hnames]

/-- A source by the names that lead to it from the directory of the sources: to it, and to its
artifact, leads the same way from two locations. -/
structure SourceWay (l l' : Location) (output : String) (form : ArtifactForm)
    (sources names : List String) : Prop where
  isName : ∀ name ∈ names, Path.IsName name
  ne_nil : names ≠ []
  source : SameWay l l' (sources ++ names)
  artifact : SameWay l l' [output, artifactName form
    (unitName (Path.descend l.path sources) (Path.descend l.path (sources ++ names)))]

section Compiling

variable {output : String} {form : ArtifactForm} {sources : List String}

theorem descend_path_ne_empty (l : Location) (steps : List String) :
    Path.descend l.path steps ≠ "" :=
  Path.ne_empty_of_isAbsolute (Path.isAbsolute_descend (Path.isAbsolute_path l))

/-- **The same source is compiled to the same module.** -/
theorem generate_alike (h : SameTree l l' fs fs') {names : List String}
    (hnames : SourceWay l l' output form sources names) :
    generate fs' (Path.descend l'.path sources) (Path.descend l'.path (sources ++ names)) =
      generate fs (Path.descend l.path sources) (Path.descend l.path (sources ++ names)) := by
  have hp := descend_path_ne_empty l sources
  have hp' := descend_path_ne_empty l' sources
  unfold generate
  rw [h.readText hnames.source, Path.descend_append, Path.descend_append,
    unitName_descend hp hp' hnames.isName, Path.fileName?_descend hp hp' hnames.ne_nil hnames.isName]

theorem standardFrontEnd_alike (h : SameTree l l' fs fs') {names : List String}
    (hnames : SourceWay l l' output form sources names) :
    Alike Eq (UnitsCorrespond l l' output form)
      (standardFrontEnd fs (Path.descend l.path sources) (Path.descend l.path (sources ++ names)))
      (standardFrontEnd fs' (Path.descend l'.path sources)
        (Path.descend l'.path (sources ++ names))) := by
  unfold standardFrontEnd
  rw [generate_alike h hnames]
  cases generate fs (Path.descend l.path sources) (Path.descend l.path (sources ++ names)) with
  | error fault => exact .error rfl
  | ok m =>
    refine .ok ⟨?_, Compilation.isLeaf_unitName _ _, hnames.source.counterpart, ⟨m, rfl, rfl⟩,
      hnames.artifact⟩
    dsimp only
    rw [Path.descend_append, Path.descend_append]
    exact unitName_descend (descend_path_ne_empty l sources) (descend_path_ne_empty l' sources)
      hnames.isName

/-- **The same sources are compiled to the same units, or the same one of them fails.** -/
theorem compileLoop_alike (h : SameTree l l' fs fs') {rows : List (List String)}
    (hrows : ∀ names ∈ rows, SourceWay l l' output form sources names)
    {units units' : List CompiledUnit}
    (hunits : List.Forall₂ (UnitsCorrespond l l' output form) units units') :
    Alike (Failure.Corresponds l l')
      (fun project project' => List.Forall₂ (UnitsCorrespond l l' output form) project.units
        project'.units)
      (compileLoop standardFrontEnd fs (Path.descend l.path sources) units
        (rows.map fun names => Path.descend l.path (sources ++ names)))
      (compileLoop standardFrontEnd fs' (Path.descend l'.path sources) units'
        (rows.map fun names => Path.descend l'.path (sources ++ names))) := by
  induction rows generalizing units units' with
  | nil => exact .ok hunits
  | cons names rows ih =>
    obtain ⟨hnames, hrest⟩ := List.forall_mem_cons.1 hrows
    rw [List.map_cons, List.map_cons, compileLoop, compileLoop]
    obtain ⟨fault, _, he, he', rfl⟩ | ⟨unit, unit', hok, hok', hunit⟩ :=
      (standardFrontEnd_alike h hnames).eq_or_eq
    · rw [he, he']
      exact .error (.compile hnames.source.counterpart)
    · rw [hok, hok']
      dsimp only
      rw [hunit.name]
      rcases find?_of_forall₂ (p := fun other => other.name == unit.name)
          (q := fun other => other.name == unit.name) (fun a b hab => by rw [hab.name]) hunits with
        ⟨hnone, hnone'⟩ | ⟨first, first', hsome, hsome', hfirst⟩
      · rw [hnone, hnone']
        exact ih hrest (List.rel_append hunits (.cons hunit .nil))
      · rw [hsome, hsome']
        exact .error (.repeatedUnit hfirst.source hunit.source)

theorem compileSources_alike (h : SameTree l l' fs fs') {rows : List (List String)}
    (hrows : ∀ names ∈ rows, SourceWay l l' output form sources names) :
    EndAlike l l'
      (fun project project' => List.Forall₂ (UnitsCorrespond l l' output form) project.units
        project'.units)
      (compileSources standardFrontEnd (Path.descend l.path sources)
        (rows.map fun names => Path.descend l.path (sources ++ names)))
      (compileSources standardFrontEnd (Path.descend l'.path sources)
        (rows.map fun names => Path.descend l'.path (sources ++ names))) fs fs' :=
  ⟨_, _, _, _, fun told => outcome_compileSources _ _ _ ⟨fs, told⟩,
    fun told => outcome_compileSources _ _ _ ⟨fs', told⟩, compileLoop_alike h hrows .nil, h⟩

end Compiling

/-! ### Carrying out -/

/-- **What is carried out on the same sources ends alike.** -/
theorem carryOut_alike (host : Host) (h : SameTree l l' fs fs') {options options' : Options}
    (manifest : Package.Manifest) {output : String} {sources : List String}
    (hform : options'.form = options.form) (hmanifest : SameWay l l' [Package.manifestName])
    (houtput : SameWay l l' [output])
    (habove : ∀ ps, ps <+: Path.wayOfSteps [output] → SameWay l l' ps)
    {rows : List (List String)}
    (hrows : ∀ names ∈ rows, SourceWay l l' output options.form sources names) :
    EndAlike l l' (Outcome.Corresponds l l')
      (carryOut host (compileSources standardFrontEnd) options .build manifest
        ⟨l.path, Path.descend l.path sources, Path.join l.path output⟩
        (rows.map fun names => Path.descend l.path (sources ++ names)))
      (carryOut host (compileSources standardFrontEnd) options' .build manifest
        ⟨l'.path, Path.descend l'.path sources, Path.join l'.path output⟩
        (rows.map fun names => Path.descend l'.path (sources ++ names))) fs fs' := by
  unfold carryOut
  refine (ensureOutput_alike h houtput habove).bind fun _ _ fs₁ fs₁' _ _ _ htree => ?_
  refine (compileSources_alike htree hrows).bind fun project project' fs₂ fs₂' _ _ hunits htree' => ?_
  unfold dispatch
  dsimp only [Operation.engine?]
  rw [hform]
  refine (buildProject_alike htree' manifest rfl rfl rfl rfl hmanifest hunits).bind
    fun report report' fs₃ fs₃' _ _ hreport htree'' => ?_
  exact .pure htree'' hreport

end Ingot.Workflow
