import Ingot.Proofs.FileSystem.Canonical
import Ingot.Proofs.Sources.Scanning
import Ingot.Proofs.Workflow.Stages

/-!
# What was built among the sources

The directory for what is built may lie among the sources, and is then left out of the scan. It
is told by how it is written: **without two dots in its path nothing in it is compiled; with two
dots the scan is as if there were nothing to leave out** (`output_skipped`), although the
directory is the same (`output_not_always_skipped`).
-/

namespace Ingot.Sources.Scope

variable {fs : FileSystem} {l : Location} {output : String} {excluded : List Glob.Pattern}

/-! ### A directory that is skipped -/

/-- **Nothing is found below a directory that is skipped and written without two dots.** -/
theorem Runs.not_below_skipped {files : List String}
    (h : Runs ⟨l.path, some output, excluded⟩ fs l) (hl : ∀ name ∈ l, Path.IsName name)
    (hscan : scan ⟨l.path, some output, excluded⟩ fs = .ok files)
    (habs : Path.isAbsolute output = true) (hup : ".." ∉ Path.way output) {name : String}
    {more : List String} (hbelow : fs.place output = l ++ name :: more) {file : String}
    (hfile : file ∈ files) (name' : String) (more' : List String) :
    fs.place file ≠ fs.place output ++ name' :: more' := by
  intro hplace
  obtain ⟨names, rfl, hsource⟩ := (h.mem_iff hscan).1 hfile
  obtain ⟨_, _, _, hleads⟩ := hsource.isFile
  have hnames := h.isProper.isName_of_leads hleads
  rw [FileSystem.place_descend_path hl hnames, hbelow, List.append_assoc] at hplace
  have heq : names = (name :: more) ++ name' :: more' := List.append_cancel_left hplace
  obtain ⟨dirs, last, hdirs⟩ : ∃ dirs last, name :: more = dirs ++ [last] :=
    (List.eq_nil_or_concat' (name :: more)).resolve_left (List.cons_ne_nil _ _)
  have hentered := (hsource.isEntered dirs last (name' :: more')
    (by rw [heq, hdirs, List.append_assoc]; rfl) (List.cons_ne_nil _ _)).2 output rfl
  have hdirnames : ∀ n ∈ name :: more, Path.IsName n := fun n hn =>
    hnames n (heq ▸ List.mem_append_left _ hn)
  rw [Path.same, ← hdirs, Path.components_descend_path hl hdirnames, ← hbelow,
    FileSystem.place_of_noUp habs hup, ← Path.components_of_noUp habs hup, beq_self_eq_true]
    at hentered
  cases hentered

/-- A path with two dots is never that of something below a location. -/
theorem same_of_up (habs : Path.isAbsolute output = true) (hup : ".." ∈ Path.way output)
    (hl : ∀ name ∈ l, Path.IsName name) {names : List String}
    (hnames : ∀ name ∈ names, Path.IsName name) :
    Path.same (Path.descend l.path names) output = false := by
  rw [Path.same, beq_eq_false_iff_ne, Path.components_descend_path hl hnames,
    Path.components_of_isAbsolute habs]
  intro heq
  have hparent : Path.Component.parent ∈ (Path.way output).map Path.componentOf :=
    List.mem_map.2 ⟨"..", hup, rfl⟩
  rw [← (List.cons.inj heq).2] at hparent
  obtain ⟨_, _, hname⟩ := List.mem_map.1 hparent
  cases hname

/-- **A directory that is written with two dots is not skipped.** -/
theorem Runs.scan_of_up (h : Runs ⟨l.path, some output, excluded⟩ fs l)
    (h' : Runs ⟨l.path, none, excluded⟩ fs l) (hl : ∀ name ∈ l, Path.IsName name)
    (habs : Path.isAbsolute output = true) (hup : ".." ∈ Path.way output) :
    scan ⟨l.path, none, excluded⟩ fs = scan ⟨l.path, some output, excluded⟩ fs := by
  refine h.scan_eq h' rfl fun names => ?_
  constructor
  · rintro ⟨hfile, hentered, hending, hwanted⟩
    refine ⟨hfile, fun dirs name more heq hmore => ?_, hending, hwanted⟩
    obtain ⟨_, _, _, hleads⟩ := hfile
    have hnames : ∀ n ∈ dirs ++ [name], Path.IsName n := fun n hn =>
      h.isProper.isName_of_leads hleads n (by
        rw [heq, List.append_cons]
        exact List.mem_append_left _ hn)
    refine ⟨(hentered dirs name more heq hmore).1, fun skipped hskipped => ?_⟩
    obtain rfl := Option.some.inj hskipped
    exact same_of_up habs hup hl hnames
  · rintro ⟨hfile, hentered, hending, hwanted⟩
    refine ⟨hfile, fun dirs name more heq hmore => ?_, hending, hwanted⟩
    exact ⟨(hentered dirs name more heq hmore).1, fun skipped hskipped => nomatch hskipped⟩

end Ingot.Sources.Scope

namespace Ingot.Workflow

section Outputs

variable {fs : FileSystem} {options : Options} {operation : Operation}
  {manifest : Package.Manifest} {places : Places} {files : List String}

/-! ### Where the sources are -/

namespace Prepared

/-- The path of the sources is canonical, and there is a directory. -/
theorem exists_sourceRoot (hfs : fs.IsProper) (hlinks : fs.NoLinks)
    (h : Prepared fs options operation manifest places files) :
    ∃ l, places.sourceRoot = Location.path l ∧ (∀ name ∈ l, Path.IsName name) ∧
      fs.find true places.sourceRoot = .ok (l, .directory) := by
  obtain ⟨patterns, _, hscan⟩ := h.isScan
  obtain ⟨l, n, hfind⟩ := Sources.Scope.exists_find_of_scan hscan
  change fs.find true places.sourceRoot = .ok (l, n) at hfind
  have hsource := h.isSourceRoot
  unfold IsSourceRoot at hsource
  split at hsource
  · obtain ⟨asked, _, hdirectory, hroot⟩ := h.isRoot.exists_asked
    rw [hsource, hroot] at hfind ⊢
    obtain ⟨hpath, hnames, n', hasked⟩ :=
      FileSystem.path_of_canonicalOr hfs hlinks h.isRoot.workingDirectory hfind
    refine ⟨l, hpath, hnames, ?_⟩
    rw [FileSystem.isDirectory, hasked] at hdirectory
    obtain rfl := FileSystem.isDirectory_iff.1 hdirectory
    have hnode := FileSystem.node?_of_find hfs.isTree hlinks h.isRoot.workingDirectory hasked
    have hnode' := FileSystem.node?_of_find hfs.isTree hlinks h.isRoot.workingDirectory hfind
    rw [hnode] at hnode'
    obtain rfl := Option.some.inj hnode'
    exact hfind
  · obtain ⟨hroot, hdirectory⟩ := hsource
    rw [FileSystem.isDirectory, hfind] at hdirectory
    obtain rfl := FileSystem.isDirectory_iff.1 hdirectory
    rw [hroot] at hfind ⊢
    obtain ⟨hpath, hnames, _⟩ :=
      FileSystem.path_of_canonicalOr hfs hlinks h.isRoot.workingDirectory hfind
    exact ⟨l, hpath, hnames, hfind⟩

end Prepared

/-! ### What was built -/

/-- **What lies in the directory for what is built is not compiled if that directory is written
without two dots; if it is written with them, nothing is left out for its sake.** -/
theorem output_skipped (hlinks : fs.hasNoLinks) (hfs : fs.IsProper)
    (h : Prepared fs options operation manifest places files) :
    (".." ∉ Path.way places.output →
        (∃ name more, fs.place places.output = fs.place places.sourceRoot ++ name :: more) →
        ∀ file ∈ files, ∀ name more, fs.place file ≠ fs.place places.output ++ name :: more) ∧
      (".." ∈ Path.way places.output →
        ∃ patterns, Sources.readPatterns places.sourceRoot manifest.exclude = .ok patterns ∧
          Sources.Scope.scan ⟨places.sourceRoot, none, patterns⟩ fs = .ok files) := by
  have hno := FileSystem.noLinks_of_hasNoLinks hlinks
  obtain ⟨l, hl, hnames, hfind⟩ := h.exists_sourceRoot hfs hno
  obtain ⟨patterns, hpatterns, hscan⟩ := h.isScan
  have hruns : ∀ skipped, Sources.Scope.Runs ⟨l.path, skipped, patterns⟩ fs l := fun skipped =>
    Sources.Scope.runs_of_noLinks hfs hno (hl ▸ hfind)
  rw [hl] at hscan ⊢
  constructor
  · rintro hup ⟨name, more, hbelow⟩ file hfile name' more'
    rw [FileSystem.place_path hnames] at hbelow
    exact (hruns _).not_below_skipped hnames hscan h.isAbsolute_output hup hbelow hfile name' more'
  · intro hup
    refine ⟨patterns, hl ▸ hpatterns, ?_⟩
    rw [(hruns _).scan_of_up (hruns none) hnames h.isAbsolute_output hup, hscan]

end Outputs

namespace StaleOutput

/-- A package with a source, and with another one in the directory for what is built. -/
def tree : FileSystem where
  nodes := [
    (["p"], .directory),
    (["p", "Ion.toml"], .file "[package]\nname = \"a\"\nversion = \"1.0.0\"\n".toUTF8 .ordinary),
    (["p", "main.ion"], .file .empty .ordinary),
    (["p", "x"], .directory),
    (["p", "out"], .directory),
    (["p", "out", "stale.ion"], .file .empty .ordinary)]
  workingDirectory := ["p"]

/-- The options of a build into a directory. -/
def build (output : String) : Options :=
  { Options.ofOperation "build" "/ion" with output := some output }

/-- The directories of a build into a directory. -/
def directories (output : String) : Places := ⟨"/p", "/p", Path.join "/p" output⟩

/-- The sources of a build into a directory. -/
def scope (output : String) : Sources.Scope := ⟨"/p", some (Path.join "/p" output), []⟩

/-- The manifest of the package. -/
def manifest : Package.Manifest := { Package.Manifest.blank with name := "a", version := "1.0.0" }

theorem hasNoLinks_tree : tree.hasNoLinks := by
  intro l target hmem
  simp [tree] at hmem

theorem isProper_tree : tree.IsProper := by decide

theorem runs_scope (output : String) : (scope output).Runs tree ["p"] := by
  have hno := FileSystem.noLinks_of_hasNoLinks hasNoLinks_tree
  have hroot : tree.isDirectory "/p" = true := by decide +kernel
  have hplace : tree.place "/p" = ["p"] := rfl
  exact Sources.Scope.runs_of_noLinks isProper_tree hno
    (hplace ▸ FileSystem.find_of_isDirectory hno hroot)

theorem isSourceBelow_main (output : String) :
    (scope output).IsSourceBelow tree ["p"] ["main.ion"] := by
  have hfile : Sources.IsFileBelow tree (scope output).leavesOut ["p"] "/p" ["main.ion"] :=
    ⟨⟨_, _, .last (.itself rfl fun _ => nofun), rfl⟩, Sources.isKept_singleton _ _⟩
  have hending : Path.extension? (Path.descend "/p" ["main.ion"]) = some Sources.sourceEnding := rfl
  exact (Sources.Scope.isSourceBelow_iff isProper_tree (runs_scope output).root_ne_empty).2
    ⟨hfile, hending, rfl⟩

theorem isSourceBelow_stale :
    (scope "x/../out").IsSourceBelow tree ["p"] ["out", "stale.ion"] := by
  have hfile : Sources.IsFileBelow tree (scope "x/../out").leavesOut ["p"] "/p"
      ["out", "stale.ion"] :=
    ⟨⟨_, _, .into (.itself rfl fun _ => nofun) (.last (.itself rfl fun _ => nofun)), rfl⟩,
      Sources.isKept_cons_cons.2 ⟨rfl, Sources.isKept_singleton _ _⟩⟩
  have hending : Path.extension? (Path.descend "/p" ["out", "stale.ion"]) =
      some Sources.sourceEnding := rfl
  exact (Sources.Scope.isSourceBelow_iff isProper_tree (runs_scope _).root_ne_empty).2
    ⟨hfile, hending, rfl⟩

/-- What a build into a directory finds in the package. -/
theorem exists_prepared (output : String) : ∃ found,
    Prepared tree (build output) .build manifest (directories output) found ∧
      ∀ path, path ∈ found ↔ ∃ names, path = Path.descend "/p" names ∧
        (scope output).IsSourceBelow tree ["p"] names := by
  obtain ⟨found, hscan⟩ := (runs_scope output).exists_scan
  have hmem : ∀ path, path ∈ found ↔ ∃ names, path = Path.descend "/p" names ∧
      (scope output).IsSourceBelow tree ["p"] names := fun _ => (runs_scope output).mem_iff hscan
  have hoperation : resolveOperation "build" = .ok .build := rfl
  have hbase : workingPath tree = .ok "/p" := rfl
  have hroot : resolveRoot tree none "/p" = .ok "/p" := by decide +kernel
  have hmanifest : Package.readManifest tree "/p" = .ok manifest := by decide +kernel
  refine ⟨found, ⟨hoperation, ⟨"/p", hbase, hroot⟩, hmanifest, rfl, rfl, ⟨[], rfl, hscan⟩, ?_⟩, hmem⟩
  exact List.ne_nil_of_mem ((hmem _).2 ⟨_, rfl, isSourceBelow_main output⟩)

end StaleOutput

open StaleOutput in
/-- A build into `./out` compiles nothing that lies there. -/
theorem output_skipped_dot : ∃ found, tree.hasNoLinks ∧ tree.IsProper ∧
    Prepared tree (build "./out") .build manifest (directories "./out") found ∧
      ∀ file ∈ found, ∀ name more, tree.place file ≠ ["p", "out"] ++ name :: more := by
  obtain ⟨found, hprepared, -⟩ := exists_prepared "./out"
  have hplace : tree.place (directories "./out").output = ["p", "out"] := rfl
  obtain ⟨hskipped, -⟩ := output_skipped hasNoLinks_tree isProper_tree hprepared
  refine ⟨found, hasNoLinks_tree, isProper_tree, hprepared, ?_⟩
  rw [← hplace]
  exact hskipped (by decide) ⟨"out", [], rfl⟩

open StaleOutput in
/-- A build into `x/../out` compiles what lies in `out`. -/
theorem output_not_always_skipped :
    ¬∀ (fs : FileSystem) (options : Options) (operation : Operation) (manifest : Package.Manifest)
      (places : Places) (files : List String), fs.hasNoLinks → fs.IsProper →
        Prepared fs options operation manifest places files →
        (∃ name more, fs.place places.output = fs.place places.sourceRoot ++ name :: more) →
        ∀ file ∈ files, ∀ name more, fs.place file ≠ fs.place places.output ++ name :: more := by
  intro hall
  obtain ⟨found, hprepared, hmem⟩ := exists_prepared "x/../out"
  have hstale : "/p/out/stale.ion" ∈ found :=
    (hmem _).2 ⟨["out", "stale.ion"], rfl, isSourceBelow_stale⟩
  exact hall tree _ _ _ _ found hasNoLinks_tree isProper_tree hprepared
    ⟨"out", [], rfl⟩ _ hstale "stale.ion" [] rfl

end Ingot.Workflow
