import Ingot.Proofs.Package.Counting
import Ingot.Proofs.Workflow.Artifacts
import Ingot.Proofs.Workflow.Ending

/-!
# What a build that succeeds leaves behind

A build with the standard front end makes one artifact of each source that was found, in the
order of the sources. **All artifacts are files of their own, right in the directory for what is
built, each holds in the end what its source was compiled to, the manifest counts one build more
or is as before, and nothing else that was there is changed** (`perform_built`).
-/

namespace Ingot.Package

open Toml (Document)

/-! ### Counting in a file -/

/-- What is written after a build says the manifest with one build more, if what is printed of a
document reads as the same data. -/
theorem CountsOneMore.parse_eq {text : String} {m : Manifest} {d d' d'' : Document}
    (hm : Manifest.parse text = .ok m) (h : CountsOneMore m d d')
    (hback : Toml.parse d'.text = some d'') (hdata : d''.data = d'.data) :
    Manifest.parse d'.text = .ok (m.withBuild (m.build + 1)) := by
  refine h.parse_of_readsBack hm ⟨d'', hback, ?_⟩
  rw [hdata]
  exact .refl _

/-- The manifest in a directory after a build: it counts one build more, which is the number of
the build, or it is as before, and the build has no number. -/
inductive Counts (root : String) (m : Manifest) (fs fs' : FileSystem) : Option ℕ → Prop where
  /-- The build is counted. -/
  | counted {text : String} {d d' : Document} :
      fs.readText (manifestPath root) = .ok text → Toml.parse text = some d →
      CountsOneMore m d d' → fs'.readText (manifestPath root) = .ok d'.text →
      (∀ d'', Toml.parse d'.text = some d'' → d''.data = d'.data →
        Manifest.parse d'.text = .ok (m.withBuild (m.build + 1))) →
      Counts root m fs fs' (some (m.build + 1))
  /-- The build is not counted. -/
  | uncounted :
      fs'.readBytes (manifestPath root) = fs.readBytes (manifestPath root) →
      Counts root m fs fs' none

/-- Counting a build in a file changes that file only, and what is in it afterwards counts one
build more. -/
theorem countBuildIn_counts {root : String} {fs fs' : FileSystem} {m : Manifest} {n : ℕ}
    {text : String} (hfs : fs.NoLinks) (hread : fs.readText (manifestPath root) = .ok text)
    (hparse : Manifest.parse text = .ok m) (h : countBuildIn fs root = .ok (n, fs')) :
    FileSystem.Keeps (· = fs.place (manifestPath root)) fs fs' ∧ Counts root m fs fs' (some n) := by
  obtain ⟨text', hcount, hwrite⟩ := (countBuildIn_eq_ok hread).1 h
  obtain ⟨rfl, d, _, d', hd, _, hmore, rfl⟩ := countBuild_reads hparse hcount
  exact ⟨(FileSystem.writeWith_eq_ok hwrite).1.keeps hfs, .counted hread hd hmore
    (FileSystem.readText_of_writeText hread hwrite) fun d'' hback hdata =>
      hmore.parse_eq hparse hback hdata⟩

theorem Counts.of_readBytes_eq {root : String} {m : Manifest} {fs fs' fs'' : FileSystem}
    {number : Option ℕ} (h : Counts root m fs' fs'' number)
    (hsame : fs'.readBytes (manifestPath root) = fs.readBytes (manifestPath root)) :
    Counts root m fs fs'' number := by
  cases h with
  | counted hread hd hmore hread' hback =>
    refine .counted ?_ hd hmore hread' hback
    unfold FileSystem.readText at hread ⊢
    rw [← hsame]
    exact hread
  | uncounted hread => exact .uncounted (hread.trans hsame)

end Ingot.Package

namespace Ingot.Workflow

open Effect
open Compilation (CompiledUnit generate standardFrontEnd unitName)
open FileSystem (Grows Keeps)
open Package (Counts Manifest manifestPath)

/-! ### What is built -/

/-- An artifact of a source: a file right in the directory for what is built, called by the name
of the unit and the ending of the form, that holds what the source was compiled to. -/
structure IsBuiltFrom (places : Places) (form : ArtifactForm) (compiled fs : FileSystem)
    (file : String) (artifact : Artifact) : Prop where
  isUnit : artifact.unit = unitName places.sourceRoot file
  isForm : artifact.form = form
  isPath : artifact.path = Path.join places.output (artifactName form artifact.unit)
  isChild : fs.place artifact.path = fs.place places.output ++ [artifactName form artifact.unit]
  extension : Path.extension? artifact.path = some form.ending
  readable : fs.readBytes artifact.path = .ok artifact.content
  digest : artifact.digest = Digest.sha256Hex artifact.content
  holds : ∃ m, generate compiled places.sourceRoot file = .ok m ∧ Holds form artifact.content m

/-- What a build leaves behind of the files that were there, and what it says of it. The sources
are compiled when the directory for what is built is there. -/
structure IsBuilt (options : Options) (manifest : Manifest) (places : Places)
    (files : List String) (fs fs' : FileSystem) (report : BuildReport) : Prop where
  artifacts : ∃ compiled news, Grows places.output fs compiled news ∧
    List.Forall₂ (IsBuiltFrom places options.form compiled fs') files report.artifacts
  units : (report.artifacts.map Artifact.unit).Nodup
  paths : (report.artifacts.map Artifact.path).Nodup
  counter : Counts places.root manifest fs fs' report.number
  elsewhere : ∀ l, fs.node? l ≠ none → (∀ a ∈ report.artifacts, l ≠ fs.place a.path) →
    l ≠ fs.place (manifestPath places.root) → fs'.node? l = fs.node? l
  sources : ∀ file ∈ files, ∀ content, fs.readBytes file = .ok content →
    fs'.readBytes file = .ok content

/-- What the standard front end makes of a source. -/
theorem isBuiltFrom_of_isArtifactOf {places : Places} {form : ArtifactForm}
    {compiled fs : FileSystem} {file : String} {unit : CompiledUnit} {artifact : Artifact}
    (houtput : Path.isAbsolute places.output = true)
    (hunit : standardFrontEnd compiled places.sourceRoot file = .ok unit)
    (h : IsArtifactOf places.output form fs unit artifact) :
    IsBuiltFrom places form compiled fs file artifact := by
  obtain ⟨m, hm, rfl⟩ := standardFrontEnd_eq_ok hunit
  have hname : artifact.unit = unitName places.sourceRoot file := h.isUnit
  have hleaf := Compilation.isLeaf_unitName places.sourceRoot file
  have hpath : artifact.path = artifactPath places.output form artifact.unit := by
    rw [hname]
    exact h.isPath
  rw [← hname] at hleaf
  refine ⟨hname, h.isForm, hpath, ?_, ?_, h.readable, rfl, m, hm, h.holds m rfl⟩
  · rw [hpath]
    exact place_artifactPath_of_noSlash houtput hleaf.noSlash
  · rw [hpath]
    exact extension?_artifactPath houtput hleaf

theorem forall₂_isBuiltFrom {places : Places} {form : ArtifactForm} {compiled fs : FileSystem}
    (houtput : Path.isAbsolute places.output = true) {files : List String}
    {units : List CompiledUnit} {artifacts : List Artifact}
    (hunits : List.Forall₂
      (fun file unit => standardFrontEnd compiled places.sourceRoot file = .ok unit) files units)
    (h : List.Forall₂ (IsArtifactOf places.output form fs) units artifacts) :
    List.Forall₂ (IsBuiltFrom places form compiled fs) files artifacts := by
  induction hunits generalizing artifacts with
  | nil =>
    cases h
    exact .nil
  | cons hunit _ ih =>
    cases h with
    | cons hfirst hrest => exact .cons (isBuiltFrom_of_isArtifactOf houtput hunit hfirst) (ih hrest)

theorem map_unit_eq {output : String} {form : ArtifactForm} {fs : FileSystem}
    {units : List CompiledUnit} {artifacts : List Artifact}
    (h : List.Forall₂ (IsArtifactOf output form fs) units artifacts) :
    artifacts.map Artifact.unit = units.map CompiledUnit.name := by
  induction h with
  | nil => rfl
  | cons hfirst _ ih => rw [List.map_cons, List.map_cons, hfirst.isUnit, ih]

/-- Artifacts of different units have different paths. -/
theorem nodup_paths {places : Places} {form : ArtifactForm} {compiled fs : FileSystem}
    {files : List String} {artifacts : List Artifact}
    (h : List.Forall₂ (IsBuiltFrom places form compiled fs) files artifacts)
    (hunits : (artifacts.map Artifact.unit).Nodup) : (artifacts.map Artifact.path).Nodup := by
  have hpath := forall_mem_of_forall₂ (P := fun a : Artifact => '/' ∉ a.unit.toList ∧
      a.path = artifactPath places.output form a.unit) (fun file a ha => by
    refine ⟨?_, ha.isPath⟩
    rw [ha.isUnit]
    exact (Compilation.isLeaf_unitName places.sourceRoot file).noSlash) h
  refine hunits.of_map.map_on fun a ha b hb hsame => ?_
  obtain ⟨hslash, ha'⟩ := hpath a ha
  obtain ⟨hslash', hb'⟩ := hpath b hb
  rw [ha', hb'] at hsame
  exact List.inj_on_of_nodup_map hunits ha hb (artifactPath_injective hslash hslash' hsame)

/-! ### Sources -/

/-- What a scan finds are files with the ending of sources. -/
theorem extension?_of_mem_scan {scope : Sources.Scope} {fs : FileSystem} {files : List String}
    (h : scope.scan fs = .ok files) : ∀ file ∈ files,
      Path.extension? file = some Sources.sourceEnding := by
  intro file hfile
  unfold Sources.Scope.scan at h
  split at h
  · cases h
  · cases h
    obtain ⟨hpath, _⟩ := List.mem_filter.1 (List.mem_mergeSort.1 hfile)
    obtain ⟨entry, hentry, rfl⟩ := List.mem_map.1 hpath
    have hsource := (List.mem_filter.1 hentry).2
    simp only [Sources.Scope.isSource, Bool.and_eq_true, beq_iff_eq] at hsource
    exact hsource.2

/-! ### The whole -/

theorem dispatch_built {host : Host} {options : Options} {operation : Operation}
    {manifest : Manifest} {places : Places} {project : Compilation.Project} {w w' : World}
    {report : BuildReport}
    (h : outcome (dispatch host options operation manifest places project) w =
      (.ok (.built report), w')) :
    operation = .build ∧
      outcome (buildProject manifest places options.form project) w = (.ok report, w') := by
  unfold dispatch at h
  cases operation with
  | init => cases h
  | build =>
    obtain ⟨report', w₁, hbuild, hpure⟩ := of_outcome_bind_ok h
    cases hpure
    exact ⟨rfl, hbuild⟩
  | run =>
    obtain ⟨_, _, _, hpure⟩ := of_outcome_bind_ok h
    cases hpure

/-- The course of a build that succeeds: the directory for what is built is there, the sources are
compiled, all units are written, and the build is counted, if that can be done. -/
structure Course (options : Options) (places : Places) (files : List String)
    (fs compiled written fs' : FileSystem) (news : List Location) (units : List CompiledUnit)
    (report : BuildReport) : Prop where
  grows : Grows places.output fs compiled news
  compiles : List.Forall₂
    (fun file unit => standardFrontEnd compiled places.sourceRoot file = .ok unit) files units
  names : (units.map CompiledUnit.name).Nodup
  emits : EmitsAll places.output options.form compiled units report.artifacts written
  counts : (∃ n, Package.countBuildIn written places.root = .ok (n, fs') ∧
    report.number = some n) ∨ fs' = written ∧ report.number = none

/-- What was compiled and written has gone the course of a build. -/
theorem course_of_emitsAll {options : Options} {places : Places} {files : List String}
    {fs compiled written fs' : FileSystem} {news : List Location} {project : Compilation.Project}
    {report : BuildReport} (hgrows : Grows places.output fs compiled news)
    (hloop : compileLoop standardFrontEnd compiled places.sourceRoot [] files = .ok project)
    (hemits : EmitsAll places.output options.form compiled project.units report.artifacts written)
    (hcounts : CountsItself places.root written fs' report.number) :
    Course options places files fs compiled written fs' news project.units report := by
  obtain ⟨units, hunits, hall⟩ := units_of_compileLoop hloop
  obtain rfl : project.units = units := hunits
  have hnone : (([] : List CompiledUnit).map CompiledUnit.name).Nodup := List.nodup_nil
  refine ⟨hgrows, hall, nodup_of_compileLoop hnone hloop, hemits, ?_⟩
  rcases hcounts with hcounted | ⟨e, _, hsame, hnumber⟩
  · exact .inl hcounted
  · exact .inr ⟨hsame, hnumber⟩

theorem carryOut_course {host : Host} {options : Options} {operation : Operation}
    {manifest : Manifest} {places : Places} {files : List String} {w w' : World}
    {report : BuildReport} (hfs : w.files.NoLinks)
    (houtput : Path.isAbsolute places.output = true)
    (h : outcome (carryOut host (compileSources standardFrontEnd) options operation manifest places files) w =
      (.ok (.built report), w')) :
    operation = .build ∧ ∃ compiled written news project,
      (∃ isNew, w.files.ensureDirectory places.output = (compiled, .ok isNew)) ∧
        compileLoop standardFrontEnd compiled places.sourceRoot [] files = .ok project ∧
        Course options places files w.files compiled written w'.files news project.units report ∧
        CountsItself places.root written w'.files report.number := by
  unfold carryOut at h
  obtain ⟨_, w₁, hensure, h⟩ := of_outcome_bind_ok h
  obtain ⟨project, w₂, hcompile, h⟩ := of_outcome_bind_ok h
  obtain ⟨isNew, hmade⟩ := ensureOutput_ok hensure
  obtain ⟨news, hgrows⟩ := FileSystem.ensureDirectory_grows houtput hfs
  rw [hmade] at hgrows
  obtain ⟨told₂, hloop⟩ := outcome_compileSources standardFrontEnd places.sourceRoot files w₁
  rw [hcompile] at hloop
  obtain ⟨hproject, rfl⟩ := Prod.mk.inj hloop
  obtain ⟨rfl, -⟩ := dispatch_built h
  obtain ⟨report', written, heq, hemits, hcounts⟩ := dispatch_build_ok h fun e he => by cases he
  cases heq
  exact ⟨rfl, w₁.files, written, news, project, ⟨isNew, hmade⟩, hproject.symm,
    course_of_emitsAll hgrows hproject.symm hemits hcounts, hcounts⟩

namespace Course

variable {options : Options} {places : Places} {files : List String} {manifest : Manifest}
  {fs compiled written fs' : FileSystem} {news : List Location} {units : List CompiledUnit}
  {report : BuildReport}

theorem writesOwnFile
    (h : Course options places files fs compiled written fs' news units report) :
    ∀ u ∈ units, WritesOwnFile u.module :=
  forall_mem_of_forall₂ (standardFrontEnd_keepsToFiles compiled places.sourceRoot) h.compiles

/-- Up to the count only new directories and the files of units are touched. -/
theorem keeps_written (h : Course options places files fs compiled written fs' news units report)
    (hfs : fs.NoLinks) :
    Keeps (fun l => l ∈ news ∨ IsTarget fs places.output options.form units l) fs written := by
  have hgrows := h.grows.keeps hfs
  have hemits := h.emits.keeps (fun _ hu => hu) h.writesOwnFile hgrows.noLinks
  exact (hgrows.mono fun l => .inl).trans (hemits.mono fun l hl => .inr (hl.of_keeps hgrows))

/-- The manifest is as before when the build is counted. -/
theorem readBytes_manifest
    (h : Course options places files fs compiled written fs' news units report) (hfs : fs.NoLinks)
    (hroot : Path.isAbsolute places.root = true) {content : ByteArray}
    (hread : fs.readBytes (manifestPath places.root) = .ok content) :
    written.readBytes (manifestPath places.root) = .ok content := by
  refine (h.keeps_written hfs).readBytes hfs hread ?_
  rintro (hnew | htarget)
  · exact h.grows.not_mem_of_readBytes hfs hread hnew
  · exact not_isTarget_manifest hroot _ _ _ htarget

/-- The count touches the manifest only. -/
theorem counts_manifest
    (h : Course options places files fs compiled written fs' news units report) (hfs : fs.NoLinks)
    (hroot : Path.isAbsolute places.root = true) {text : String}
    (hread : fs.readText (manifestPath places.root) = .ok text)
    (hparse : Manifest.parse text = .ok manifest) :
    Keeps (· = written.place (manifestPath places.root)) written fs' ∧
      Counts places.root manifest fs fs' report.number := by
  obtain ⟨content, hbytes, _⟩ := FileSystem.readBytes_of_readText hread
  have hsame : written.readBytes (manifestPath places.root) =
      fs.readBytes (manifestPath places.root) := by
    rw [hbytes]
    exact h.readBytes_manifest hfs hroot hbytes
  have hlinks := (h.keeps_written hfs).noLinks
  rcases h.counts with ⟨n, hcount, hnumber⟩ | ⟨rfl, hnumber⟩
  · have htext : written.readText (manifestPath places.root) = .ok text := by
      unfold FileSystem.readText at hread ⊢
      rw [hsame]
      exact hread
    obtain ⟨hkeeps, hcounts⟩ := Package.countBuildIn_counts hlinks htext hparse hcount
    exact ⟨hkeeps, hnumber ▸ hcounts.of_readBytes_eq hsame⟩
  · exact ⟨.refl hlinks _, hnumber ▸ .uncounted hsame⟩

/-- **What a whole build touches.** -/
theorem keeps (h : Course options places files fs compiled written fs' news units report)
    (hfs : fs.NoLinks) (hcount : Keeps (· = written.place (manifestPath places.root)) written fs') :
    Keeps (fun l => l ∈ news ∨ IsTarget fs places.output options.form units l ∨
      l = fs.place (manifestPath places.root)) fs fs' := by
  have hwritten := h.keeps_written hfs
  refine (hwritten.mono ?_).trans (hcount.mono ?_)
  · rintro l (hnew | htarget)
    · exact .inl hnew
    · exact .inr (.inl htarget)
  · rintro l rfl
    exact .inr (.inr (hwritten.place _))

/-- What holds of each unit once it is written, and is not changed by what is done elsewhere,
holds of all units in the end. -/
theorem forall₂ (h : Course options places files fs compiled written fs' news units report)
    (hfs : fs.NoLinks) (houtput : Path.isAbsolute places.output = true)
    (hroot : Path.isAbsolute places.root = true)
    (hcount : Keeps (· = written.place (manifestPath places.root)) written fs')
    {R : FileSystem → CompiledUnit → Artifact → Prop}
    (hemits : ∀ unit ∈ units, ∀ fs fs' artifact, fs.NoLinks →
      Emits places.output options.form unit fs (.ok artifact) fs' → R fs' unit artifact)
    (hkept : ∀ touched fs fs' unit artifact, R fs unit artifact → fs.NoLinks →
      Keeps touched fs fs' → ¬touched (fs.place (artifactPath places.output options.form unit.name)) →
      R fs' unit artifact) :
    List.Forall₂ (R fs') units report.artifacts := by
  have hslash : ∀ u ∈ units, '/' ∉ u.name.toList := by
    refine forall_mem_of_forall₂ (fun file u hu => ?_) h.compiles
    obtain ⟨m, _, rfl⟩ := standardFrontEnd_eq_ok hu
    exact (Compilation.isLeaf_unitName places.sourceRoot file).noSlash
  refine List.Forall₂.imp (fun u a ha => ?_)
    (h.emits.forall₂ houtput h.writesOwnFile hslash h.names (h.grows.noLinks hfs) hemits hkept)
  refine hkept _ _ _ u a ha (h.keeps_written hfs).noLinks hcount fun heq => ?_
  exact not_isTarget_manifest hroot places.output options.form [u]
    ⟨u, List.mem_singleton_self u, heq.symm⟩

/-- Each artifact is held in the end by its own file. -/
theorem holds (h : Course options places files fs compiled written fs' news units report)
    (hfs : fs.NoLinks) (houtput : Path.isAbsolute places.output = true)
    (hroot : Path.isAbsolute places.root = true)
    (hcount : Keeps (· = written.place (manifestPath places.root)) written fs') :
    List.Forall₂ (IsArtifactOf places.output options.form fs') units report.artifacts :=
  h.forall₂ hfs houtput hroot hcount
    (fun _ _ _ _ _ hfs hemits => hemits.isArtifactOf hfs)
    (fun _ _ _ _ _ ha hfs hkeeps hplace => ha.of_keeps hfs hkeeps hplace)

/-- When the build is counted, the path of the manifest leads to what it led to before. -/
theorem resolve_manifest
    (h : Course options places files fs compiled written fs' news units report) (hfs : fs.NoLinks)
    (hroot : Path.isAbsolute places.root = true) {l : Location} {content : ByteArray}
    {permissions : Permissions} (hresolve : fs.resolve true (manifestPath places.root) =
      .ok (.found l (.file content permissions))) :
    written.resolve true (manifestPath places.root) =
      .ok (.found l (.file content permissions)) := by
  refine (h.keeps_written hfs).resolve hfs hresolve ?_
  rintro (hnew | htarget)
  · have hnode : fs.node? l = some (.file content permissions) :=
      FileSystem.holds_of_resolve hfs hresolve
    have hplace : l = fs.place (manifestPath places.root) :=
      FileSystem.location_of_resolve hfs hresolve
    rw [hplace, h.grows.free _ hnew] at hnode
    cases hnode
  · exact not_isTarget_manifest hroot _ _ _ htarget

/-- **What the course of a build leaves behind.** -/
theorem isBuilt (h : Course options places files fs compiled written fs' news units report)
    (hfs : fs.NoLinks) {operation : Operation}
    (hprepared : Prepared fs options operation manifest places files) :
    IsBuilt options manifest places files fs fs' report := by
  have houtput := hprepared.isAbsolute_output
  have hroot := hprepared.isRoot.isAbsolute
  obtain ⟨text, htext, hparse⟩ := hprepared.readText_manifest
  obtain ⟨hcount, hcounts⟩ := h.counts_manifest hfs hroot htext hparse
  have hkeeps := h.keeps hfs hcount
  have hholds := h.holds hfs houtput hroot hcount
  have hbuilt := forall₂_isBuiltFrom houtput h.compiles hholds
  have hunits : (report.artifacts.map Artifact.unit).Nodup := map_unit_eq hholds ▸ h.names
  refine ⟨⟨compiled, news, h.grows, hbuilt⟩, hunits, nodup_paths hbuilt hunits, hcounts, ?_, ?_⟩
  · intro l hl hother hne
    refine hkeeps.elsewhere l ?_
    rintro (hnew | ⟨u, hu, hplace⟩ | hplace)
    · exact hl (h.grows.free l hnew)
    · have hmem : u.name ∈ report.artifacts.map Artifact.unit :=
        map_unit_eq hholds ▸ List.mem_map_of_mem hu
      obtain ⟨a, ha, hname⟩ := List.mem_map.1 hmem
      have hpath : a.path = artifactPath places.output options.form a.unit :=
        forall_mem_of_forall₂ (fun _ _ hb => hb.isPath) hbuilt a ha
      exact hother a ha (by rw [hplace, hpath, hname])
    · exact hne hplace
  · intro file hfile content hread
    obtain ⟨patterns, _, hscan⟩ := hprepared.isScan
    obtain ⟨htarget, hne⟩ := place_source_ne fs (extension?_of_mem_scan hscan file hfile)
      hroot places.output options.form units
    refine hkeeps.readBytes hfs hread ?_
    rintro (hnew | hplace | hplace)
    · exact h.grows.not_mem_of_readBytes hfs hread hnew
    · exact htarget hplace
    · exact hne hplace

end Course

/-- **A build that succeeds loses nothing and mixes nothing up.** With the standard front end it
has one artifact of each source that was found, in the order of the sources; no two of them have
the same unit or the same path. In the end each holds what its source was compiled to, right in
the directory for what is built; the manifest counts one build more, or is as before; and nothing
else that was there is changed, no source either. -/
theorem perform_built (host : Host) (options : Options) (w w' : World) (report : BuildReport)
    (hlinks : w.files.hasNoLinks)
    (h : outcome (perform host standardFrontEnd options) w = (.ok (.built report), w')) :
    ∃ manifest places files, Prepared w.files options .build manifest places files ∧
      IsBuilt options manifest places files w.files w'.files report := by
  have hfs := FileSystem.noLinks_of_hasNoLinks hlinks
  rcases perform_stages h with ⟨_, hstop | ⟨_, he, _⟩⟩ | ⟨_, hinit, _⟩ |
    ⟨operation, manifest, places, files, told, _, hprepared, hcarry⟩
  · cases hstop
  · cases he
  · obtain ⟨_, hinitialized⟩ := hinit _ rfl
    cases hinitialized
  · obtain ⟨rfl, compiled, written, news, project, _, _, hcourse, _⟩ :=
      carryOut_course (w := ⟨w.files, told⟩) hfs hprepared.isAbsolute_output hcarry
    exact ⟨manifest, places, files, hprepared, hcourse.isBuilt hfs hprepared⟩

namespace SmallPackage

/-- An artifact that is longer than what the source is compiled to. -/
def olderArtifact : String :=
  "; ModuleID = 'main'\ndefine i32 @main() \x7b\nentry:\n  %t0 = call i32 @two()\n" ++
  "  %t1 = call i32 @two()\n  %t2 = call i32 @two()\n  %t3 = call i32 @two()\n" ++
  "  %t4 = call i32 @two()\n  ret i32 %t4\n\x7d\n\ndeclare i32 @two()\n"

/-- A package with one source and an older artifact of it. -/
def files : FileSystem where
  nodes := [
    (["Ion.toml"], .file
      "[package]\nname = \"a\"\nversion = \"1.0.0\"\nbuild = 4\n[options]\nsource-root = \"src\"\n".toUTF8
      .ordinary),
    (["src"], .directory),
    (["src", "main.ion"], .file "fn main() -> i32 \x7b return two() + 1; \x7d".toUTF8 .ordinary),
    (["out"], .directory),
    (["out", "main.ir"], .file
      olderArtifact.toUTF8
      .ordinary)]
  workingDirectory := []

/-- The options of a build. -/
def options : Options := { Options.ofOperation "build" "/ion" with noIntegrity := true }

/-- A computer on which no program runs. -/
def host : Host := ⟨.linux, [], fun _ _ => .error .notFound, .none⟩

theorem hasNoLinks_files : files.hasNoLinks := by
  intro l target hmem
  simp [files] at hmem

end SmallPackage

/-- The number of a build that was counted. -/
def builtNumber? : Except Failure Outcome → Option ℕ
  | .ok (.built report) => report.number
  | _ => none

open SmallPackage in
/-- The fifth build of a package, over an older artifact. -/
theorem perform_built_small :
    ∃ w' report manifest places sources, files.hasNoLinks ∧
      outcome (perform host standardFrontEnd options) ⟨files, []⟩ = (.ok (.built report), w') ∧
        report.number = some 5 ∧
          Prepared files options .build manifest places sources ∧
            IsBuilt options manifest places sources files w'.files report := by
  have hnumber : builtNumber? (outcome (perform host standardFrontEnd options) ⟨files, []⟩).1 =
      some 5 := by
    decide +kernel
  rcases hrun : outcome (perform host standardFrontEnd options) ⟨files, []⟩ with ⟨result, w'⟩
  rw [hrun] at hnumber
  rcases result with e | _ | _ | report | _
  case ok.built =>
    obtain ⟨manifest, places, sources, hprepared, hbuilt⟩ :=
      perform_built host options ⟨files, []⟩ w' report hasNoLinks_files hrun
    exact ⟨w', report, manifest, places, sources, hasNoLinks_files, rfl, hnumber, hprepared, hbuilt⟩
  all_goals cases hnumber

end Ingot.Workflow
