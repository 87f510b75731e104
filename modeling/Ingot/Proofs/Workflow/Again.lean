import Ingot.Proofs.FileSystem.Standing
import Ingot.Proofs.Workflow.Counting
import Ingot.Proofs.Workflow.Forms
import Ingot.Proofs.Workflow.Skipping

/-!
# Building again

A build leaves all that stood where it stood, files as files and directories as directories, and
adds nothing that a scan would find; so a second build finds the same places and the same sources
(`Course.prepared_again`). It writes over the files of the first one what they hold already
(`emitsAll_again`), and counts itself in the manifest that the first one has left, as far as that
can be done (`Course.counts_again`). **So to build again changes nothing but the number of the
build, if the manifest is read back as it was written** (`build_again`).

That is not always so. The dotted keys of a section may add to a table that has a section of its
own; they are written there, maybe behind a header that leads through what they add, and then the
manifest of a completed build is none: the build tells a number that nothing counts
(`build_not_always_counted`), and it cannot be repeated (`build_not_always_again`).
-/

namespace Ingot.Workflow

open Effect
open Bitcode (Module)
open Compilation (CompiledUnit FrontEnd generate standardFrontEnd)
open FileSystem (HoldsOpen IsProper Keeps Lasts NoLinks Untouched)
open Package (IsRewrittenAs Manifest countBuild counterLimit manifestPath readManifest)

/-- The number of a build that comes right after one with a number or without. -/
def nextNumber (number : Option ℕ) : Option ℕ :=
  number.bind fun n => if (n : ℤ) < counterLimit then some (n + 1) else none

theorem nextNumber_of_room {n : ℕ} (h : (n : ℤ) < counterLimit) :
    nextNumber (some n) = some (n + 1) := by
  rw [nextNumber, Option.bind_some, if_pos h]

theorem nextNumber_of_full {n : ℕ} (h : ¬(n : ℤ) < counterLimit) : nextNumber (some n) = none := by
  rw [nextNumber, Option.bind_some, if_neg h]

/-! ### Compiling again -/

/-- A front end that makes the same of each source makes the same project of them. -/
theorem compileLoop_congr {frontEnd : FrontEnd} {fs fs' : FileSystem} {root : String}
    {files : List String} (h : ∀ file ∈ files, frontEnd fs' root file = frontEnd fs root file)
    (units : List CompiledUnit) :
    compileLoop frontEnd fs' root units files = compileLoop frontEnd fs root units files := by
  induction files generalizing units with
  | nil => rfl
  | cons file files ih =>
    obtain ⟨hfirst, hrest⟩ := List.forall_mem_cons.1 h
    rw [compileLoop, compileLoop, hfirst]
    split
    · rfl
    · split
      · rfl
      · exact ih hrest _

theorem exists_readText_of_standardFrontEnd {fs : FileSystem} {root file : String}
    {unit : CompiledUnit} (h : standardFrontEnd fs root file = .ok unit) :
    ∃ text, fs.readText file = .ok text := by
  obtain ⟨m, hm, _⟩ := standardFrontEnd_eq_ok h
  unfold generate at hm
  split at hm
  · cases hm
  · exact ⟨_, by assumption⟩

/-- What the standard front end makes of a source hangs on its text alone. -/
theorem standardFrontEnd_congr {fs fs' : FileSystem} {root file : String}
    (h : fs'.readBytes file = fs.readBytes file) :
    standardFrontEnd fs' root file = standardFrontEnd fs root file := by
  unfold standardFrontEnd generate FileSystem.readText
  rw [h]

/-! ### Writing units again -/

/-- The artifact of a unit is in its file, where it can be written over. -/
def CanBeRewritten (output : String) (form : ArtifactForm) (fs : FileSystem) (unit : CompiledUnit)
    (artifact : Artifact) : Prop :=
  ∃ m, unit.module = Compilation.moduleOf m ∧
    artifact = ⟨unit.name, artifactPath output form unit.name, form, bytesOf form m⟩ ∧
    fs.HoldsOpen (artifactPath output form unit.name) (bytesOf form m)

section Units

variable {output : String} {form : ArtifactForm} {fs fs' : FileSystem} {unit : CompiledUnit}
  {units : List CompiledUnit} {artifact : Artifact} {artifacts : List Artifact}

theorem Emits.canBeRewritten (h : Emits output form unit fs (.ok artifact) fs') (hfs : fs.NoLinks)
    {m : Module} (hm : unit.module = Compilation.moduleOf m) :
    CanBeRewritten output form fs' unit artifact := by
  obtain ⟨content, rfl, hread, hwritten⟩ := h.ok artifact rfl
  rw [hm, written_iff] at hwritten
  obtain rfl := FileSystem.eq_of_writeWith_of_readBytes hfs hwritten hread
  exact ⟨m, hm, rfl, FileSystem.holdsOpen_of_writeBytes hfs hwritten hread⟩

theorem CanBeRewritten.of_keeps {touched : Location → Prop}
    (h : CanBeRewritten output form fs unit artifact) (hfs : fs.NoLinks)
    (hkeeps : Keeps touched fs fs') (hplace : ¬touched (fs.place (artifactPath output form unit.name))) :
    CanBeRewritten output form fs' unit artifact := by
  obtain ⟨m, hm, hartifact, hopen⟩ := h
  exact ⟨m, hm, hartifact, hopen.of_keeps hfs hkeeps hplace⟩

theorem CanBeRewritten.emits (h : CanBeRewritten output form fs unit artifact) (hfs : fs.NoLinks) :
    ∃ fs', Emits output form unit fs (.ok artifact) fs' ∧ Untouched fs fs' := by
  obtain ⟨m, hm, rfl, hopen⟩ := h
  obtain ⟨fs', hwrite, huntouched⟩ := hopen.writeBytes hfs
  have hread := (hopen.of_keeps hfs huntouched not_false).readBytes
  have hwritten : Written form (artifactPath output form unit.name) unit.module fs fs' := by
    rw [hm]
    exact written_iff.2 hwrite
  refine ⟨fs', ⟨fun _ => (FileSystem.writeWith_eq_ok hwrite).1, ?_, ?_⟩, huntouched⟩
  · intro artifact hok
    cases hok
    exact ⟨_, rfl, hread, hwritten⟩
  · intro e he
    cases he

/-- **To write units again changes nothing.** -/
theorem emitsAll_again (h : List.Forall₂ (CanBeRewritten output form fs) units artifacts)
    (hfs : fs.NoLinks) : ∃ fs', EmitsAll output form fs units artifacts fs' ∧ Untouched fs fs' := by
  induction units generalizing fs artifacts with
  | nil =>
    cases h
    exact ⟨fs, .nil, .refl hfs _⟩
  | cons unit units ih =>
    cases h with
    | cons hfirst hrest =>
      obtain ⟨fs₁, hemits, huntouched⟩ := hfirst.emits hfs
      obtain ⟨fs₂, hall, huntouched'⟩ := ih (hrest.imp fun _ _ hother =>
        hother.of_keeps hfs huntouched not_false) huntouched.noLinks
      exact ⟨fs₂, .cons hemits hall, huntouched.trans huntouched'⟩

end Units

/-! ### What still stands -/

section Standing

variable {options : Options} {fs fs' : FileSystem} {root : String} {manifest manifest' : Manifest}

theorem workingPath_of_lasts (h : Lasts fs fs') {base : String} (hbase : workingPath fs = .ok base) :
    workingPath fs' = .ok base := by
  obtain ⟨rfl, hthere⟩ := workingPath_eq_ok hbase
  unfold workingPath FileSystem.workingPath
  rw [h.workingDirectory, if_pos (FileSystem.any_isDirectory_iff.2 (h.directories _ hthere))]

theorem exists_find_of_isDirectory {path : String} (h : fs.isDirectory path = true) :
    ∃ l n, fs.find true path = .ok (l, n) := by
  unfold FileSystem.isDirectory at h
  split at h
  · exact ⟨_, _, by assumption⟩
  · cases h

theorem IsRoot.of_lasts (h : IsRoot fs options root) (hfs : fs.NoLinks) (hlasts : Lasts fs fs') :
    IsRoot fs' options root := by
  obtain ⟨base, hbase, hroot⟩ := h
  refine ⟨base, workingPath_of_lasts hlasts hbase, ?_⟩
  obtain ⟨asked, _, hasked⟩ := resolveRoot_eq options base
  rw [hasked] at hroot ⊢
  split at hroot
  · rename_i hthere
    obtain ⟨l, n, hfind⟩ := exists_find_of_isDirectory hthere
    rw [if_pos (hlasts.isDirectory hfs hthere), hlasts.canonicalOr hfs hfind]
    exact hroot
  · cases hroot

theorem IsSourceRoot.of_lasts {sourceRoot : String} (h : IsSourceRoot fs root manifest sourceRoot)
    (hfs : fs.NoLinks) (hlasts : Lasts fs fs') (hmanifest : manifest'.sourceRoot = manifest.sourceRoot) :
    IsSourceRoot fs' root manifest' sourceRoot := by
  unfold IsSourceRoot at h ⊢
  rw [hmanifest]
  split at h
  · exact h
  · obtain ⟨rfl, hthere⟩ := h
    obtain ⟨l, n, hfind⟩ := exists_find_of_isDirectory hthere
    obtain ⟨l', n', hfind'⟩ := FileSystem.exists_find_of_canonicalOr hfind
    exact ⟨(hlasts.canonicalOr hfs hfind').symm, hlasts.isDirectory hfs hthere⟩

theorem Installed.of_lasts {platform : Platform} (h : Installed platform options fs)
    (hfs : fs.NoLinks) (hlasts : Lasts fs fs') : Installed platform options fs' := by
  rcases h with hdisabled | ⟨hplatform, htools⟩
  · exact .inl hdisabled
  · refine .inr ⟨hplatform, fun hbundles => ?_⟩
    obtain ⟨hdirectory, hfiles⟩ := htools hbundles
    exact ⟨hlasts.isDirectory hfs hdirectory, fun entry hentry =>
      hlasts.isFile hfs (hfiles entry hentry)⟩

end Standing

/-! ### File systems that can be -/

theorem EmitsAll.isProper {output : String} {form : ArtifactForm} {units : List CompiledUnit}
    {artifacts : List Artifact} {fs fs' : FileSystem}
    (h : EmitsAll output form fs units artifacts fs') (houtput : Path.isAbsolute output = true)
    (hown : ∀ unit ∈ units, WritesOwnFile unit.module) (hproper : fs.IsProper)
    (hfs : fs.NoLinks) : fs'.IsProper := by
  induction h with
  | nil => exact hproper
  | @cons fs fs₁ fs₂ unit units artifact artifacts hfirst _ ih =>
    obtain ⟨hunit, hunits⟩ := List.forall_mem_cons.1 hown
    have hwrites := hfirst.writes hunit
    exact ih hunits (hwrites.isProper hproper hfs (Path.isAbsolute_join houtput _))
      (hwrites.keeps hfs).noLinks

/-! ### After a build -/

/-- The files of a scan are the same after a change that leaves what has the ending of a source as
it was, or makes it a directory. -/
theorem scan_of_lasts {s : Sources.Scope} {fs fs' : FileSystem} {start : Location}
    (hproper : fs.IsProper) (hfs : fs.NoLinks) (hproper' : fs'.IsProper) (hlasts : Lasts fs fs')
    (hroot : s.root = start.path) (hnames : ∀ name ∈ start, Path.IsName name)
    (hfind : fs.find true s.root = .ok (start, .directory))
    (hsame : ∀ file, Path.extension? file = some Sources.sourceEnding →
      fs'.node? (fs.place file) = fs.node? (fs.place file) ∨
        fs.node? (fs.place file) = none ∧ fs'.node? (fs.place file) = some .directory) :
    s.scan fs' = s.scan fs := by
  obtain ⟨n, hfind', hdirectory, _⟩ := hlasts.find hfs hfind
  obtain rfl := FileSystem.isDirectory_iff.1 hdirectory
  have hruns := Sources.Scope.runs_of_noLinks (s := s) hproper hfs hfind
  have hruns' := Sources.Scope.runs_of_noLinks (s := s) hproper' hlasts.noLinks hfind'
  refine hruns.scan_eq hruns' rfl fun names => ?_
  rw [Sources.Scope.isSourceBelow_iff_node? hproper'.isTree hlasts.noLinks,
    Sources.Scope.isSourceBelow_iff_node? hproper.isTree hfs]
  refine and_congr_left fun ⟨_, hending, _⟩ => and_congr_right fun _ => ?_
  have hplace : ∀ {fs₁ : FileSystem}, fs₁.IsProper → fs₁.node? (start ++ names) ≠ none →
      fs.place (Path.descend s.root names) = start ++ names := by
    intro fs₁ hfs₁ hnode
    rw [hroot]
    exact FileSystem.place_descend_path hnames fun name hname =>
      hfs₁.isName_of_node? hnode name (List.mem_append_right _ hname)
  constructor
  · rintro ⟨content, permissions, hfile⟩
    have hplace := hplace hproper' (by rw [hfile]; exact Option.some_ne_none _)
    rcases hplace ▸ hsame _ hending with hsame | ⟨_, hsame⟩
    · exact ⟨content, permissions, hsame ▸ hfile⟩
    · rw [hfile] at hsame
      cases hsame
  · rintro ⟨content, permissions, hfile⟩
    have hplace := hplace hproper (by rw [hfile]; exact Option.some_ne_none _)
    rcases hplace ▸ hsame _ hending with hsame | ⟨hsame, _⟩
    · exact ⟨content, permissions, hsame.trans hfile⟩
    · rw [hfile] at hsame
      cases hsame

namespace Course

variable {options : Options} {places : Places} {files : List String} {manifest manifest' : Manifest}
  {fs compiled written fs' : FileSystem} {news : List Location} {units : List CompiledUnit}
  {report : BuildReport} {operation : Operation}

section

variable (h : Course options places files fs compiled written fs' news units report)
  (hfs : fs.NoLinks) (hprepared : Prepared fs options operation manifest places files)

include h hfs hprepared

theorem keeps_manifest : Keeps (· = written.place (manifestPath places.root)) written fs' := by
  obtain ⟨text, htext, hparse⟩ := hprepared.readText_manifest
  exact (h.counts_manifest hfs hprepared.isRoot.isAbsolute htext hparse).1

theorem keeps_all : Keeps (fun l => l ∈ news ∨ IsTarget fs places.output options.form units l ∨
    l = fs.place (manifestPath places.root)) fs fs' :=
  h.keeps hfs (h.keeps_manifest hfs hprepared)

/-- The manifest is a file, and still that file when the build is counted. -/
theorem exists_manifest : ∃ text content permissions,
    fs.readText (manifestPath places.root) = .ok text ∧ Manifest.parse text = .ok manifest ∧
      String.fromUTF8? content = some text ∧ permissions.readable = true ∧
      written.resolve true (manifestPath places.root) =
        .ok (.found (fs.place (manifestPath places.root)) (.file content permissions)) := by
  obtain ⟨text, htext, hparse⟩ := hprepared.readText_manifest
  obtain ⟨content, hbytes, hutf8⟩ := FileSystem.readBytes_of_readText htext
  obtain ⟨l, permissions, hresolve, hreadable⟩ := FileSystem.readBytes_eq_ok.1 hbytes
  have hplace : l = fs.place (manifestPath places.root) :=
    FileSystem.location_of_resolve hfs hresolve
  refine ⟨text, content, permissions, htext, hparse, hutf8, hreadable, ?_⟩
  rw [← hplace]
  exact h.resolve_manifest hfs hprepared.isRoot.isAbsolute hresolve

theorem canBeRewritten :
    List.Forall₂ (CanBeRewritten places.output options.form fs') units report.artifacts := by
  have hmodules : ∀ u ∈ units, ∃ m, u.module = Compilation.moduleOf m := by
    refine forall_mem_of_forall₂ (fun file u hu => ?_) h.compiles
    obtain ⟨m, _, rfl⟩ := standardFrontEnd_eq_ok hu
    exact ⟨m, rfl⟩
  refine h.forall₂ hfs hprepared.isAbsolute_output hprepared.isRoot.isAbsolute
    (h.keeps_manifest hfs hprepared) ?_ ?_
  · intro u hu fs₁ fs₂ artifact hfs₁ hemits
    obtain ⟨m, hm⟩ := hmodules u hu
    exact hemits.canBeRewritten hfs₁ hm
  · intro touched fs₁ fs₂ u artifact ha hfs₁ hkeeps hplace
    exact ha.of_keeps hfs₁ hkeeps hplace

variable (hcounts : CountsItself places.root written fs' report.number)

include hcounts

/-- **A build leaves all that stood where it stood.** -/
theorem lasts : Lasts fs fs' := by
  have hkeeps := h.keeps_all hfs hprepared
  refine hkeeps.lasts ?_
  rintro l (hnew | ⟨unit, hunit, hplace⟩ | hplace) content permissions hl
  · rw [h.grows.free l hnew] at hl
    cases hl
  · have hfiles : ∀ u ∈ units, ∃ content permissions, fs'.node?
        (fs'.place (artifactPath places.output options.form u.name)) =
          some (.file content permissions) := by
      refine forall_mem_of_forall₂ (fun a u hu => ?_) (h.canBeRewritten hfs hprepared).flip
      obtain ⟨m, _, _, hopen⟩ := hu
      exact ⟨_, FileSystem.node?_of_readBytes hkeeps.noLinks hopen.readBytes⟩
    rw [hplace, ← hkeeps.place]
    exact hfiles unit hunit
  · obtain ⟨_, content', permissions', _, _, _, _, hresolve⟩ := h.exists_manifest hfs hprepared
    have hold : written.node? (fs.place (manifestPath places.root)) =
        some (.file content' permissions') :=
      FileSystem.holds_of_resolve (h.keeps_written hfs).noLinks hresolve
    have hnil : fs.place (manifestPath places.root) ≠ [] := by
      intro heq
      rw [heq] at hold
      cases hold
    rw [hplace]
    rcases (countsItself_iff hresolve).1 hcounts with ⟨n, text, _, _, rfl⟩ | ⟨_, _, _, rfl⟩
    · exact ⟨_, _, by rw [FileSystem.node?_put hnil, if_pos rfl]⟩
    · exact ⟨_, _, hold⟩

theorem isProper (hproper : fs.IsProper) {isNew : Bool}
    (hmade : fs.ensureDirectory places.output = (compiled, .ok isNew)) : fs'.IsProper := by
  have houtput := hprepared.isAbsolute_output
  have hcompiled : compiled.IsProper := by
    have hensured := hproper.ensureDirectory hfs houtput
    rwa [hmade] at hensured
  have hwritten := h.emits.isProper houtput h.writesOwnFile hcompiled (h.grows.noLinks hfs)
  obtain ⟨_, content, permissions, _, _, _, _, hresolve⟩ := h.exists_manifest hfs hprepared
  have hold : written.node? (fs.place (manifestPath places.root)) =
      some (.file content permissions) :=
    FileSystem.holds_of_resolve (h.keeps_written hfs).noLinks hresolve
  rcases (countsItself_iff hresolve).1 hcounts with ⟨n, text, _, _, rfl⟩ | ⟨_, _, _, rfl⟩
  · exact hwritten.put_file hold
  · exact hwritten

/-- **A second build finds the same places and the same sources.** -/
theorem prepared_again (hproper : fs.IsProper) {isNew : Bool}
    (hmade : fs.ensureDirectory places.output = (compiled, .ok isNew))
    (hmanifest : readManifest fs' places.root = .ok manifest')
    (hsourceRoot : manifest'.sourceRoot = manifest.sourceRoot)
    (hexclude : manifest'.exclude = manifest.exclude) :
    Prepared fs' options operation manifest' places files := by
  have hlasts := h.lasts hfs hprepared hcounts
  have hkeeps := h.keeps_all hfs hprepared
  obtain ⟨patterns, hpatterns, hscan⟩ := hprepared.isScan
  obtain ⟨start, hroot, hnames, hfind⟩ := hprepared.exists_sourceRoot hproper hfs
  refine ⟨hprepared.isOperation, hprepared.isRoot.of_lasts hfs hlasts, hmanifest,
    hprepared.isSourceRoot.of_lasts hfs hlasts hsourceRoot, hprepared.isOutput,
    ⟨patterns, hexclude ▸ hpatterns, ?_⟩, hprepared.nonempty⟩
  have hsources : ∀ file, Path.extension? file = some Sources.sourceEnding →
      fs'.node? (fs.place file) = fs.node? (fs.place file) ∨
        fs.node? (fs.place file) = none ∧ fs'.node? (fs.place file) = some .directory := by
    intro file hfile
    by_cases hnew : fs.place file ∈ news
    · refine .inr ⟨h.grows.free _ hnew, ?_⟩
      have hmade : compiled.node? (fs.place file) = some .directory := by
        rw [h.grows.node?, if_pos hnew]
      have hemits := h.emits.keeps (fun _ hu => hu) h.writesOwnFile (h.grows.noLinks hfs)
      exact (h.keeps_manifest hfs hprepared).directories _ (hemits.directories _ hmade)
    · obtain ⟨htarget, hne⟩ := place_source_ne fs hfile hprepared.isRoot.isAbsolute places.output
        options.form units
      refine .inl (hkeeps.elsewhere _ ?_)
      rintro (hmem | hmem | hmem)
      · exact hnew hmem
      · exact htarget hmem
      · exact hne hmem
  have hproper' := h.isProper hfs hprepared hcounts hproper hmade
  have hsame := scan_of_lasts (s := ⟨places.sourceRoot, some places.output, patterns⟩) hproper hfs
    hproper' hlasts hroot hnames hfind hsources
  rw [hsame, hscan]

/-- **A second build counts itself as far as the first one did and the counter goes.** The manifest
in between says the number of the first one. -/
theorem counts_again (hback : ∀ d, IsRewrittenAs fs places.root d → d.ReadsBack) :
    readManifest fs' places.root =
        .ok (manifest.withBuild (report.number.getD manifest.build)) ∧
      ∀ again, Untouched fs' again → ∃ fs'',
        CountsItself places.root again fs'' (nextNumber report.number) ∧
          (∀ l, l ≠ fs.place (manifestPath places.root) → fs''.node? l = again.node? l) ∧
          (nextNumber report.number = none → fs'' = again) := by
  obtain ⟨text, content, permissions, htext, hparse, hutf8, hreadable, hresolve⟩ :=
    h.exists_manifest hfs hprepared
  have hnode : written.node? (fs.place (manifestPath places.root)) =
      some (.file content permissions) :=
    FileSystem.holds_of_resolve (h.keeps_written hfs).noLinks hresolve
  have hnil : fs.place (manifestPath places.root) ≠ [] := by
    intro heq
    rw [heq] at hnode
    cases hnode
  have hlinks := (h.lasts hfs hprepared hcounts).noLinks
  rcases (countsItself_iff hresolve).1 hcounts with
    ⟨n, text', hcount, hnumber, hput⟩ | ⟨e, hcount, hnumber, hsame⟩
  · obtain ⟨hn, hnew, hagain⟩ := Package.recount_again hparse hutf8 hcount fun d next d' hd hd' =>
      hback d' ⟨text, d, next, htext, hd, hd'⟩
    have hresolve' : fs'.resolve true (manifestPath places.root) =
        .ok (.found (fs.place (manifestPath places.root)) (.file text'.toUTF8 permissions)) := by
      rw [hput]
      exact FileSystem.resolve_put_file hresolve _ _
    have hread : fs'.readText (manifestPath places.root) = .ok text' :=
      FileSystem.readText_of_readBytes
        (FileSystem.readBytes_eq_ok.2 ⟨_, _, hresolve', hreadable⟩) (Bitcode.text_of_utf8 text')
    rw [hnumber]
    refine ⟨Package.readManifest_eq_ok.2 ⟨text', hread, hnew⟩, fun again huntouched => ?_⟩
    have hagainResolve := huntouched.resolve hlinks hresolve' not_false
    rcases hagain with ⟨hroom, text'', hmore⟩ | ⟨hfull, hrefused⟩
    · rw [nextNumber_of_room hroom]
      refine ⟨_, (countsItself_iff hagainResolve).2 (.inl ⟨n + 1, text'', hmore, rfl, rfl⟩),
        fun l hl => ?_, fun hnone => by cases hnone⟩
      rw [FileSystem.node?_put hnil, if_neg hl]
    · rw [nextNumber_of_full hfull]
      exact ⟨again, (countsItself_iff hagainResolve).2 (.inr ⟨_, hrefused, rfl, rfl⟩),
        fun _ _ => rfl, fun _ => rfl⟩
  · rw [hnumber, hsame]
    rw [hsame] at hlinks
    have hread : written.readText (manifestPath places.root) = .ok text :=
      FileSystem.readText_of_readBytes
        (FileSystem.readBytes_eq_ok.2 ⟨_, _, hresolve, hreadable⟩) hutf8
    exact ⟨Package.readManifest_eq_ok.2 ⟨text, hread, hparse⟩, fun again huntouched =>
      ⟨again, (countsItself_iff (huntouched.resolve hlinks hresolve not_false)).2
        (.inr ⟨e, hcount, rfl, rfl⟩), fun _ _ => rfl, fun _ => rfl⟩⟩

/-- The manifest that a counted build leaves is the text that counting gives. -/
theorem readText_counted {n : ℕ} (hnumber : report.number = some n) :
    ∃ text text', fs.readText (manifestPath places.root) = .ok text ∧
      countBuild text = .ok (n, text') ∧ fs'.readText (manifestPath places.root) = .ok text' := by
  obtain ⟨text, content, permissions, htext, -, hutf8, hreadable, hresolve⟩ :=
    h.exists_manifest hfs hprepared
  rcases (countsItself_iff hresolve).1 hcounts with
    ⟨n', text', hcount, hsome, hput⟩ | ⟨_, _, hnone, _⟩
  · obtain rfl : n = n' := Option.some.inj (hnumber.symm.trans hsome)
    obtain ⟨-, -, text₀, hutf8', hcounted⟩ := Package.recount_eq_ok hcount
    obtain rfl : text = text₀ := Option.some.inj (hutf8.symm.trans hutf8')
    have hresolve' : fs'.resolve true (manifestPath places.root) =
        .ok (.found (fs.place (manifestPath places.root)) (.file text'.toUTF8 permissions)) := by
      rw [hput]
      exact FileSystem.resolve_put_file hresolve _ _
    exact ⟨text, text', htext, hcounted, FileSystem.readText_of_readBytes
      (FileSystem.readBytes_eq_ok.2 ⟨_, _, hresolve', hreadable⟩) (Bitcode.text_of_utf8 text')⟩
  · rw [hnumber] at hnone
    cases hnone

omit hcounts in
/-- **The sources are read and compiled as before.** -/
theorem compiles_again : compileLoop standardFrontEnd fs' places.sourceRoot [] files =
    compileLoop standardFrontEnd compiled places.sourceRoot [] files := by
  have hcompiled := h.grows.noLinks hfs
  have hemits := h.emits.keeps (fun _ hu => hu) h.writesOwnFile hcompiled
  obtain ⟨patterns, _, hscan⟩ := hprepared.isScan
  refine compileLoop_congr (fun file hfile => standardFrontEnd_congr ?_) []
  obtain ⟨unit, hunit⟩ := forall_mem_of_forall₂ (P := fun file => ∃ unit,
    standardFrontEnd compiled places.sourceRoot file = .ok unit)
    (fun unit _ hunit => ⟨unit, hunit⟩) h.compiles.flip file hfile
  obtain ⟨text, htext⟩ := exists_readText_of_standardFrontEnd hunit
  obtain ⟨content, hread, _⟩ := FileSystem.readBytes_of_readText htext
  have hne := fun fs => place_source_ne fs (extension?_of_mem_scan hscan file hfile)
    hprepared.isRoot.isAbsolute places.output options.form units
  rw [hread]
  exact (h.keeps_manifest hfs hprepared).readBytes hemits.noLinks
    (hemits.readBytes hcompiled hread (hne compiled).1) (hne written).2

end

end Course

/-! ### The whole -/

/-- A second build, from the files that the first one left. It finds the same sources in the same
places and has the same artifacts; it changes no file but the manifest, makes none, and has the
number behind that of the first one, or none, and then the manifest is as it was. -/
structure BuildsAgain (options : Options) (fs fs' fs'' : FileSystem) (manifest : Manifest)
    (places : Places) (files : List String) (report again : BuildReport) : Prop where
  first : Prepared fs options .build manifest places files
  second : Prepared fs' options .build (manifest.withBuild (report.number.getD manifest.build))
    places files
  isBuilt : IsBuilt options (manifest.withBuild (report.number.getD manifest.build)) places files
    fs' fs'' again
  artifacts : again.artifacts = report.artifacts
  elsewhere : ∀ l, l ≠ fs.place (manifestPath places.root) → fs''.node? l = fs'.node? l
  nothingNew : ∀ l, fs'.node? l = none → fs''.node? l = none
  number : again.number = nextNumber report.number
  uncounted : again.number = none → ∀ l, fs''.node? l = fs'.node? l

theorem Course.builds_again {host : Host} {options : Options} {places : Places}
    {files : List String} {manifest : Manifest} {fs compiled written fs' : FileSystem}
    {news : List Location} {project : Compilation.Project} {report : BuildReport}
    (h : Course options places files fs compiled written fs' news project.units report)
    (hfs : fs.NoLinks) (hproper : fs.IsProper)
    (hprepared : Prepared fs options .build manifest places files)
    (hinstalled : Installed host.platform options fs)
    (hcounts : CountsItself places.root written fs' report.number) {isNew : Bool}
    (hmade : fs.ensureDirectory places.output = (compiled, .ok isNew))
    (hloop : compileLoop standardFrontEnd compiled places.sourceRoot [] files = .ok project)
    (hback : ∀ d, IsRewrittenAs fs places.root d → d.ReadsBack) :
    ∃ again fs'', Ends (perform host standardFrontEnd options) fs' (.ok (.built again)) fs'' ∧
      BuildsAgain options fs fs' fs'' manifest places files report again := by
  have hlasts := h.lasts hfs hprepared hcounts
  have houtput := hprepared.isAbsolute_output
  obtain ⟨hmanifest, hcount⟩ := h.counts_again hfs hprepared hcounts hback
  have hsecond : Prepared fs' options .build
      (manifest.withBuild (report.number.getD manifest.build)) places files :=
    h.prepared_again hfs hprepared hcounts hproper hmade hmanifest rfl rfl
  have hemitted := h.emits.keeps (fun _ hu => hu) h.writesOwnFile (h.grows.noLinks hfs)
  have hthere : fs'.isDirectory places.output = true :=
    (h.keeps_manifest hfs hprepared).isDirectory hemitted.noLinks (hemitted.isDirectory
      (h.grows.noLinks hfs) (FileSystem.isDirectory_of_ensureDirectory houtput hfs hmade))
  have hloop' := (h.compiles_again hfs hprepared).trans hloop
  obtain ⟨written', hemits, huntouched⟩ :=
    emitsAll_again (h.canBeRewritten hfs hprepared) hlasts.noLinks
  obtain ⟨fs'', hcounts', helsewhere, huncounted⟩ := hcount written' huntouched
  have hcourse : Course options places files fs' fs' written' fs'' [] project.units
      ⟨report.artifacts, nextNumber report.number⟩ :=
    course_of_emitsAll (.refl _ _) hloop' hemits hcounts'
  refine ⟨⟨report.artifacts, nextNumber report.number⟩, fs'', ?_, {
    first := hprepared
    second := hsecond
    isBuilt := hcourse.isBuilt hlasts.noLinks hsecond
    artifacts := rfl
    elsewhere := fun l hl => (helsewhere l hl).trans (huntouched.node? l)
    nothingNew := ?_
    number := rfl
    uncounted := fun hnone l => by rw [huncounted hnone, huntouched.node?] }⟩
  · refine hsecond.perform_ends Operation.noConfusion (hinstalled.of_lasts hfs hlasts) ?_
    have hensure := ensureOutput_ends fs' places.output
    rw [FileSystem.ensureDirectory_again hthere] at hensure
    have hcompile : Ends (compileSources standardFrontEnd places.sourceRoot files) fs'
        (compileLoop standardFrontEnd fs' places.sourceRoot [] files) fs' := compileSources_ends
    rw [hloop'] at hcompile
    exact hensure.bind (hcompile.bind (hemits.dispatch_ends hcounts'))
  · intro l hl
    by_cases hplace : l = fs.place (manifestPath places.root)
    · obtain ⟨text, htext, _⟩ := hsecond.readText_manifest
      obtain ⟨content, hbytes, _⟩ := FileSystem.readBytes_of_readText htext
      obtain ⟨permissions, hnode⟩ := FileSystem.node?_of_readBytes hlasts.noLinks hbytes
      rw [(h.keeps_all hfs hprepared).place, ← hplace, hl] at hnode
      cases hnode
    · rw [helsewhere l hplace, huntouched.node?, hl]

/-- **A second build that cannot read the manifest fails with that alone**, and changes nothing. -/
theorem Course.fails_again {host : Host} {options : Options} {places : Places}
    {files : List String} {manifest : Manifest} {fs compiled written fs' : FileSystem}
    {news : List Location} {units : List CompiledUnit} {report : BuildReport}
    {e : Package.ManifestError}
    (h : Course options places files fs compiled written fs' news units report)
    (hfs : fs.NoLinks) (hprepared : Prepared fs options .build manifest places files)
    (hinstalled : Installed host.platform options fs)
    (hcounts : CountsItself places.root written fs' report.number)
    (hread : readManifest fs' places.root = .error e) :
    Ends (perform host standardFrontEnd options) fs' (.error (.badManifest e)) fs' := by
  have hlasts := h.lasts hfs hprepared hcounts
  have hthere := hasManifest_of_readManifest hprepared.isManifest
  exact performWith_ends hprepared.isOperation Operation.noConfusion
    (hinstalled.of_lasts hfs hlasts) (hprepared.isRoot.of_lasts hfs hlasts)
    (performProject_unreadable (hlasts.isFile hfs hthere) hread)

/-- What is carried out of a build that does not fail ends with a report. -/
theorem exists_report {host : Host} {compiler : Compiler} {options : Options} {manifest : Manifest}
    {places : Places} {files : List String} {w w' : World} {what : Outcome}
    (h : outcome (carryOut host compiler options .build manifest places files) w =
      (.ok what, w')) : ∃ report, what = .built report := by
  unfold carryOut at h
  obtain ⟨_, w₁, _, h⟩ := of_outcome_bind_ok h
  obtain ⟨project, w₂, _, h⟩ := of_outcome_bind_ok h
  unfold dispatch at h
  obtain ⟨report, w₃, _, hpure⟩ := of_outcome_bind_ok h
  cases hpure
  exact ⟨report, rfl⟩

/-- A build that does not fail has no sources, or builds what it found. -/
theorem perform_build_course {host : Host} {options : Options} {w w' : World} {what : Outcome}
    (hfs : w.files.NoLinks) (hbuild : resolveOperation options.operation = .ok .build)
    (h : outcome (perform host standardFrontEnd options) w = (.ok what, w')) :
    (what = .stopped .noSources ∧ w'.files = w.files) ∨
      ∃ (report : BuildReport) (manifest : Manifest) (places : Places) (files : List String)
        (compiled written : FileSystem) (news : List Location) (project : Compilation.Project)
        (isNew : Bool), what = .built report ∧
          Prepared w.files options .build manifest places files ∧
            w.files.ensureDirectory places.output = (compiled, .ok isNew) ∧
              compileLoop standardFrontEnd compiled places.sourceRoot [] files = .ok project ∧
                Course options places files w.files compiled written w'.files news project.units
                  report ∧ CountsItself places.root written w'.files report.number := by
  rcases perform_stages h with ⟨hfiles, hstop | ⟨_, he, _⟩⟩ | ⟨hinit, _⟩ |
    ⟨operation, manifest, places, files, told, _, hprepared, hcarry⟩
  · cases hstop
    exact .inl ⟨rfl, hfiles⟩
  · cases he
  · rw [hbuild] at hinit
    cases hinit
  · obtain rfl : Operation.build = operation :=
      Except.ok.inj (hbuild.symm.trans hprepared.isOperation)
    obtain ⟨report, rfl⟩ := exists_report hcarry
    obtain ⟨_, compiled, written, news, project, ⟨isNew, hmade⟩, hloop, hcourse, hcounts⟩ :=
      carryOut_course (w := ⟨w.files, told⟩) hfs hprepared.isAbsolute_output hcarry
    exact .inr ⟨report, manifest, places, files, compiled, written, news, project, isNew, rfl,
      hprepared, hmade, hloop, hcourse, hcounts⟩

/-- How a build that does not fail ends, and a second one after it. -/
inductive CompletesAgain (options : Options) (fs fs' fs'' : FileSystem) : Outcome → Outcome → Prop
  /-- There are no sources, and nothing is changed. -/
  | stopped : fs' = fs → fs'' = fs →
    CompletesAgain options fs fs' fs'' (.stopped .noSources) (.stopped .noSources)
  /-- The second build leaves what the first one built. -/
  | built {manifest : Manifest} {places : Places} {files : List String}
      {report again : BuildReport} :
    BuildsAgain options fs fs' fs'' manifest places files report again →
    CompletesAgain options fs fs' fs'' (.built report) (.built again)

/-- **Building is idempotent, as far as the manifest that it writes can be read again.** Let a
build not fail. If the document that it writes is read back as it was, the build can be repeated on
the files that it left, whatever the user was told: if it had no sources, the second one has none,
and nothing is changed; otherwise the second one finds the same sources, has the same artifacts,
makes no file or directory and changes none but the manifest, in which it counts itself as far as
the first one did and the counter goes. If the manifest that it leaves cannot be read, the second
build fails with that alone, and changes nothing. -/
theorem build_again (host : Host) (options : Options) (w w' : World) (what : Outcome)
    (hlinks : w.files.hasNoLinks) (hproper : w.files.IsProper)
    (hbuild : resolveOperation options.operation = .ok .build)
    (h : outcome (perform host standardFrontEnd options) w = (.ok what, w')) :
    ((∀ root, IsRoot w.files options root → ∀ d, IsRewrittenAs w.files root d → d.ReadsBack) →
      ∃ again fs'', Ends (perform host standardFrontEnd options) w'.files (.ok again) fs'' ∧
        CompletesAgain options w.files w'.files fs'' what again) ∧
    ∀ report, what = .built report → ∀ root, IsRoot w.files options root →
      ∀ e, readManifest w'.files root = .error e →
        Ends (perform host standardFrontEnd options) w'.files (.error (.badManifest e)) w'.files := by
  have hfs := FileSystem.noLinks_of_hasNoLinks hlinks
  have hinstalled : Installed host.platform options w.files := installed_of_perform h
  rcases perform_build_course hfs hbuild h with ⟨rfl, hfiles⟩ |
    ⟨report, manifest, places, files, compiled, written, news, project, isNew, rfl, hprepared,
      hmade, hloop, hcourse, hcounts⟩
  · constructor
    · intro _
      have hends := (perform_onlyAdds host standardFrontEnd options).ends h
      rw [hfiles] at hends ⊢
      exact ⟨_, _, hends, .stopped rfl rfl⟩
    · intro report hreport
      cases hreport
  · constructor
    · intro hback
      obtain ⟨again, fs'', hends, hagain⟩ := hcourse.builds_again hfs hproper hprepared
        hinstalled hcounts hmade hloop (hback _ hprepared.isRoot)
      exact ⟨.built again, fs'', hends, .built hagain⟩
    · intro _ _ root hroot e hread
      rw [hprepared.isRoot.unique hroot] at hread
      exact hcourse.fails_again hfs hprepared hinstalled hcounts hread

namespace SmallPackage

/-- The manifest of the package with the number of its last build. -/
def manifestText (build : String) : String :=
  "[package]\nname = \"a\"\nversion = \"1.0.0\"\nbuild = " ++ build ++
    "\n[options]\nsource-root = \"src\"\n"

/-- What is evaluated of the package: where it is, and what its next build makes of the manifest. -/
theorem evaluated : files.IsProper ∧ resolveRoot files options.root "/" = .ok "/" ∧
    files.readText (manifestPath "/") = .ok (manifestText "4") ∧
      Package.countedText? (manifestText "4") = some (5, manifestText "5") ∧
        (Toml.parse (manifestText "5")).isSome = true ∧
          HexCounter.dataOf (Toml.parse (manifestText "5")) =
            HexCounter.dataOf (HexCounter.rewritten (manifestText "4")) := by
  decide +kernel

theorem isRoot : IsRoot files options "/" := ⟨"/", rfl, evaluated.2.1⟩

theorem readsBack {root : String} (hroot : IsRoot files options root) {d : Toml.Document}
    (h : IsRewrittenAs files root d) : d.ReadsBack := by
  rw [isRoot.unique hroot] at h
  obtain ⟨-, -, htext, hcount, hsome, hdata⟩ := evaluated
  exact HexCounter.readsBack_of_countBuild htext (Package.countBuild_of_countedText? hcount)
    hdata hsome h

end SmallPackage

namespace ScatteredTable

/-- A manifest in which the table `a.p` has a section of its own, and that of `a` adds to it. -/
def text : String :=
  "[package]\nname = \"a\"\nversion = \"1.0.0\"\n[options]\nsource-root = \"src\"\n" ++
  "[a.p.y]\n[a]\np.b.c = 1\n[a.p.b.x]\n[a.p]\n"

/-- The manifest after a build: what was added stands behind a header that leads through it. -/
def counted : String :=
  "[package]\nname = \"a\"\nversion = \"1.0.0\"\nbuild = 1\n[options]\nsource-root = \"src\"\n" ++
  "[a.p.y]\n[a]\n[a.p.b.x]\n[a.p]\nb.c = 1\n"

/-- A package with that manifest and one source. -/
def files : FileSystem where
  nodes := [
    (["Ion.toml"], .file text.toUTF8 .ordinary),
    (["src"], .directory),
    (["src", "main.ion"], .file "fn main() -> i32 \x7b return 0; \x7d".toUTF8 .ordinary)]
  workingDirectory := []

theorem hasNoLinks_files : files.hasNoLinks := by
  intro l target hmem
  simp [files] at hmem

/-- What is evaluated of the package: where it is, that it is built, and what is then its
manifest. -/
theorem evaluated : files.IsProper ∧
    resolveRoot files SmallPackage.options.root "/" = .ok "/" ∧
      files.readText (manifestPath "/") = .ok text ∧
        builtNumber? (outcome (perform SmallPackage.host standardFrontEnd SmallPackage.options)
          ⟨files, []⟩).1 = some 1 ∧
          Package.countedText? text = some (1, counted) ∧
            Manifest.parseAt (manifestPath "/") counted =
              .error (.faulty "/Ion.toml" (.document .notToml)) := by
  decide +kernel

theorem isRoot : IsRoot files SmallPackage.options "/" := ⟨"/", rfl, evaluated.2.1⟩

/-- Why the manifest cannot be read after a build. -/
def fault : Package.ManifestError := .faulty "/Ion.toml" (.document .notToml)

/-- The package is built for the first time, and then its manifest cannot be read. -/
theorem exists_run : ∃ w' report,
    outcome (perform SmallPackage.host standardFrontEnd SmallPackage.options) ⟨files, []⟩ =
      (.ok (.built report), w') ∧ report.number = some 1 ∧
        readManifest w'.files "/" = .error fault := by
  obtain ⟨-, -, htext, hnumber, hcount, hfault⟩ := evaluated
  have hbuild : resolveOperation SmallPackage.options.operation = .ok .build := by decide
  have hfs := FileSystem.noLinks_of_hasNoLinks hasNoLinks_files
  rcases hrun : outcome (perform SmallPackage.host standardFrontEnd SmallPackage.options)
    ⟨files, []⟩ with ⟨result, w'⟩
  rw [hrun] at hnumber
  rcases result with e | _ | _ | report | _
  case ok.built =>
    rcases perform_build_course hfs hbuild hrun with ⟨hstop, _⟩ |
      ⟨_, manifest, places, sources, compiled, written, news, project, isNew, hreport, hprepared,
        hmade, hloop, hcourse, hcounts⟩
    · cases hstop
    · cases hreport
      obtain ⟨text₀, text', htext₀, hcounted, hread⟩ :=
        hcourse.readText_counted hfs hprepared hcounts hnumber
      rw [isRoot.unique hprepared.isRoot] at htext₀ hread
      obtain rfl : text = text₀ := Except.ok.inj (htext.symm.trans htext₀)
      obtain ⟨-, rfl⟩ := Prod.mk.inj (Except.ok.inj
        (hcounted.symm.trans (Package.countBuild_of_countedText? hcount)))
      refine ⟨w', report, rfl, hnumber, ?_⟩
      unfold readManifest
      dsimp only
      rw [hread]
      exact hfault
  all_goals cases hnumber

end ScatteredTable

/-- A build that tells its number has not always raised the counter of the manifest: after it there
need not be a manifest at all. -/
theorem build_not_always_counted :
    ¬∀ (host : Host) (options : Options) (w w' : World) (report : BuildReport),
      w.files.hasNoLinks →
        outcome (perform host standardFrontEnd options) w = (.ok (.built report), w') →
          ∀ root m, IsRoot w.files options root → readManifest w.files root = .ok m →
            (report.number = some (m.build + 1) ∧
              readManifest w'.files root = .ok (m.withBuild (m.build + 1))) ∨
            (report.number = none ∧
              w'.files.readBytes (manifestPath root) = w.files.readBytes (manifestPath root)) := by
  intro hall
  have hbuild : resolveOperation SmallPackage.options.operation = .ok .build := by decide
  have hfs := FileSystem.noLinks_of_hasNoLinks ScatteredTable.hasNoLinks_files
  obtain ⟨w', report, hrun, hnumber, hread⟩ := ScatteredTable.exists_run
  rcases perform_build_course hfs hbuild hrun with ⟨hstop, _⟩ |
    ⟨_, manifest, places, sources, _, _, _, _, _, hreport, hprepared, _⟩
  · cases hstop
  · have hmanifest := hprepared.isManifest
    rw [ScatteredTable.isRoot.unique hprepared.isRoot] at hmanifest
    rcases hall _ _ ⟨ScatteredTable.files, []⟩ w' report ScatteredTable.hasNoLinks_files hrun "/"
      manifest ScatteredTable.isRoot hmanifest with ⟨_, hcounted⟩ | ⟨hnone, _⟩
    · rw [hread] at hcounted
      cases hcounted
    · rw [hnumber] at hnone
      cases hnone

open SmallPackage in
/-- The fifth build of a package, and the sixth; and a build after which there is no second one. -/
theorem build_again_small :
    (∃ w' report again fs'' manifest places sources, files.hasNoLinks ∧ files.IsProper ∧
      resolveOperation options.operation = .ok .build ∧
      (∀ root, IsRoot files options root → ∀ d, IsRewrittenAs files root d → d.ReadsBack) ∧
      outcome (perform host standardFrontEnd options) ⟨files, []⟩ = (.ok (.built report), w') ∧
      Ends (perform host standardFrontEnd options) w'.files (.ok (.built again)) fs'' ∧
      BuildsAgain options files w'.files fs'' manifest places sources report again ∧
      report.number = some 5 ∧ again.number = some 6) ∧
    ∃ w' report, ScatteredTable.files.hasNoLinks ∧ ScatteredTable.files.IsProper ∧
      IsRoot ScatteredTable.files options "/" ∧
      outcome (perform host standardFrontEnd options) ⟨ScatteredTable.files, []⟩ =
        (.ok (.built report), w') ∧
      readManifest w'.files "/" = .error ScatteredTable.fault ∧
      Ends (perform host standardFrontEnd options) w'.files
        (.error (.badManifest ScatteredTable.fault)) w'.files := by
  have hbuild : resolveOperation options.operation = .ok .build := by decide
  constructor
  · have hback : ∀ root, IsRoot files options root → ∀ d, IsRewrittenAs files root d →
        d.ReadsBack := fun root hroot d => readsBack hroot
    have hnumber := builtNumber?_eq false
    rcases hrun : outcome (perform host standardFrontEnd options) ⟨files, []⟩ with ⟨result, w'⟩
    rw [show options.withBitcode false = options from rfl, hrun] at hnumber
    rcases result with e | _ | _ | report | _
    case ok.built =>
      obtain ⟨hagain, -⟩ := build_again host options ⟨files, []⟩ w' (.built report)
        hasNoLinks_files evaluated.1 hbuild hrun
      obtain ⟨_, fs'', hends, hcompletes⟩ := hagain hback
      cases hcompletes with
      | @built manifest places sources _ again hagain =>
        have hnext : again.number = nextNumber (some 5) :=
          hagain.number.trans (congrArg _ hnumber)
        exact ⟨w', report, again, fs'', manifest, places, sources, hasNoLinks_files,
          evaluated.1, hbuild, hback, rfl, hends, hagain, hnumber,
          hnext.trans (nextNumber_of_room (by decide))⟩
    all_goals cases hnumber
  · obtain ⟨w', report, hrun, -, hread⟩ := ScatteredTable.exists_run
    obtain ⟨-, hfails⟩ := build_again host options ⟨ScatteredTable.files, []⟩ w' (.built report)
      ScatteredTable.hasNoLinks_files ScatteredTable.evaluated.1 hbuild hrun
    exact ⟨w', report, ScatteredTable.hasNoLinks_files, ScatteredTable.evaluated.1,
      ScatteredTable.isRoot, hrun, hread, hfails report rfl "/" ScatteredTable.isRoot _ hread⟩

open SmallPackage in
/-- A build that does not fail cannot always be repeated: what it writes as the manifest need not
be one. -/
theorem build_not_always_again :
    ¬∀ (host : Host) (options : Options) (w w' : World) (what : Outcome), w.files.hasNoLinks →
      w.files.IsProper → resolveOperation options.operation = .ok .build →
        outcome (perform host standardFrontEnd options) w = (.ok what, w') →
          ∃ again fs'', Ends (perform host standardFrontEnd options) w'.files (.ok again) fs'' := by
  intro hall
  have hbuild : resolveOperation options.operation = .ok .build := by decide
  have hfs := FileSystem.noLinks_of_hasNoLinks ScatteredTable.hasNoLinks_files
  obtain ⟨w', report, hrun, -, hread⟩ := ScatteredTable.exists_run
  obtain ⟨again, fs'', hends⟩ := hall host options ⟨ScatteredTable.files, []⟩ w' (.built report)
    ScatteredTable.hasNoLinks_files ScatteredTable.evaluated.1 hbuild hrun
  rcases perform_build_course hfs hbuild hrun with ⟨hstop, _⟩ |
    ⟨_, manifest, places, sources, _, _, _, _, _, hreport, hprepared, _, _, hcourse, hcounts⟩
  · cases hstop
  · cases hreport
    rw [← ScatteredTable.isRoot.unique hprepared.isRoot] at hread
    have hfails := hcourse.fails_again hfs hprepared (installed_of_perform hrun) hcounts hread
    cases (hends.unique hfails).1

end Ingot.Workflow
