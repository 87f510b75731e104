import Ingot.Proofs.Sources.Relocation
import Ingot.Proofs.Workflow.Again
import Ingot.Proofs.Workflow.Elsewhere

/-!
# Builds of the same package in two places

Two file systems hold the same package in two directories (`Relocation`). The manifest, the sources
and their order are found alike in both (`Relocation.prepared`), so **a build ends alike in both**:
the same units in the same order, the same artifacts and the same number, or a failure of the same
kind about the same file (`build_relocated`). Two things outside of the package matter all the same
(`build_not_always_relocated`): whether a path that the build asks for is too long under one of the
directories, and what the check of the tools finds.
-/

namespace Ingot.Workflow

open Effect
open Compilation (standardFrontEnd unitName)
open FileSystem (Counterpart IsProper SameTree SameWay StaysInside)
open Package (Manifest hasManifest manifestName manifestPath readManifest)

/-! ### The same package in two places -/

/-- Options that ask for another directory of the package. -/
def Options.withRoot (o : Options) (root : Option String) : Options := { o with root := root }

/-- Where the options say that what is built is to be, seen from the directory of the package. -/
def Options.outputPath (o : Options) : String := o.output.getD Options.usualOutput

/-- The same package in the directories at two locations of two file systems, which the same
options but for the directory of the package lead to. The directories of the sources and of what is
built are given by paths inside of it. -/
structure Relocation (l l' : Location) (fs fs' : FileSystem) (options : Options)
    (root' : Option String) : Prop where
  hasNoLinks : fs.hasNoLinks
  hasNoLinks' : fs'.hasNoLinks
  isProper : fs.IsProper
  isProper' : fs'.IsProper
  isDirectory : fs.node? l = some .directory
  sameTree : ∀ r, fs'.node? (l' ++ r) = fs.node? (l ++ r)
  isRoot : IsRoot fs options l.path
  isRoot' : IsRoot fs' (options.withRoot root') l'.path
  output : StaysInside options.outputPath
  sources : ∀ manifest directory, readManifest fs l.path = .ok manifest →
    manifest.sourceRoot = some directory → StaysInside directory

/-- The paths that a build asks the system for, as steps from the directory of the package. -/
inductive Asks (l : Location) (fs : FileSystem) (options : Options) : List String → Prop where
  /-- The manifest. -/
  | manifest : Asks l fs options [manifestName]
  /-- The directory of the sources. -/
  | sourceRoot {manifest : Manifest} {directory : String} :
      readManifest fs l.path = .ok manifest → manifest.sourceRoot = some directory →
      Asks l fs options [directory]
  /-- The directory of the sources, without dots. -/
  | canonical {manifest : Manifest} {directory : String} {names : List String} :
      readManifest fs l.path = .ok manifest → manifest.sourceRoot = some directory →
      (∀ name ∈ names, Path.IsName name) →
      Path.descend l.path names = fs.canonicalOr (Path.join l.path directory) →
      Asks l fs options names
  /-- The directory for what is built. -/
  | output : Asks l fs options [options.outputPath]
  /-- The directories above it. -/
  | above {names : List String} : names <+: Path.wayOfSteps [options.outputPath] →
      Asks l fs options names
  /-- The sources. -/
  | source {manifest : Manifest} {places : Places} {files names : List String} :
      Prepared fs options .build manifest places files → (∀ name ∈ names, Path.IsName name) →
      Path.descend l.path names ∈ files → Asks l fs options names
  /-- Their artifacts. -/
  | artifact {manifest : Manifest} {places : Places} {files : List String} {file : String} :
      Prepared fs options .build manifest places files → file ∈ files →
      Asks l fs options
        [options.outputPath, artifactName options.form (unitName places.sourceRoot file)]

/-- The system takes each path that a build asks for in both places or in neither. -/
def PathsAlike (l l' : Location) (fs : FileSystem) (options : Options) : Prop :=
  ∀ steps, Asks l fs options steps →
    FileSystem.checkPath (Path.descend l'.path steps) =
      FileSystem.checkPath (Path.descend l.path steps)

/-- The check of the tools comes to the same in both file systems. -/
def ToolsAlike (host : Host) (options : Options) (fs fs' : FileSystem) : Prop :=
  (outcome (checkInstallation host.platform options.toolsDirectory options.noIntegrity)
      ⟨fs', []⟩).1 =
    (outcome (checkInstallation host.platform options.toolsDirectory options.noIntegrity)
      ⟨fs, []⟩).1

/-! ### What is found -/

/-- The directory of the package can be reached by its own path. -/
theorem IsRoot.walks {fs : FileSystem} {options : Options} {l : Location}
    (h : IsRoot fs options l.path) (hfs : fs.IsProper) (hlinks : fs.NoLinks)
    (hl : fs.node? l = some .directory) :
    FileSystem.Walks fs [] l (.found l .directory) := by
  obtain ⟨asked, habs, hdirectory, hpath⟩ := h.exists_asked
  have hfind := FileSystem.find_of_isDirectory hlinks hdirectory
  rw [FileSystem.canonicalOr_of_find hfind] at hpath
  have hnode := FileSystem.node?_of_find hfs.isTree hlinks h.workingDirectory hfind
  have hname : ∀ k : Location, fs.node? k = some .directory → ∀ name ∈ k, Path.IsName name :=
    fun k hk => hfs.isName_of_node? (by rw [hk]; exact Option.some_ne_none _)
  obtain rfl : l = fs.place asked := by
    rw [← Path.way_path (hname l hl), hpath, Path.way_path (hname _ hnode)]
  exact FileSystem.walks_of_find hfs hlinks habs hfind hnode

theorem counterpart_path (l l' : Location) : Counterpart l l' l.path l'.path :=
  ⟨[], List.forall_mem_nil _, rfl, rfl⟩

section Reading

variable {l l' : Location} {fs fs' : FileSystem} {manifest : Manifest}

theorem hasManifest_alike (h : SameTree l l' fs fs') (hway : SameWay l l' [manifestName]) :
    hasManifest fs' l'.path = hasManifest fs l.path := by
  rw [hasManifest, hasManifest, manifestPath_eq, manifestPath_eq, h.isFile hway]

theorem readManifest_alike (h : SameTree l l' fs fs') (hway : SameWay l l' [manifestName]) :
    Alike (fun e e' => Failure.Corresponds l l' (.badManifest e) (.badManifest e')) Eq
      (readManifest fs l.path) (readManifest fs' l'.path) := by
  unfold readManifest
  dsimp only
  rw [manifestPath_eq, manifestPath_eq, h.readText hway]
  cases fs.readText (Path.descend l.path [manifestName]) with
  | error fault => exact .error (.unreadableManifest hway.counterpart)
  | ok text =>
    unfold Manifest.parseAt
    dsimp only
    cases Manifest.parse text with
    | error fault => exact .error (.faultyManifest hway.counterpart)
    | ok manifest => exact .ok rfl

/-- The system takes the path of a manifest that was read. -/
theorem checkPath_of_readManifest {root : String} (hlinks : fs.NoLinks)
    (hmanifest : readManifest fs root = .ok manifest) :
    FileSystem.checkPath (manifestPath root) = .ok () := by
  have hthere := hasManifest_of_readManifest hmanifest
  rw [hasManifest, FileSystem.isFile] at hthere
  split at hthere
  · rename_i hfind
    exact ((FileSystem.resolve_eq_ok hlinks).1 (FileSystem.find_eq_ok.1 hfind)).1
  · cases hthere

/-- Where a manifest was read, its directory is found by its own path. -/
theorem find_of_readManifest (hnames : ∀ name ∈ l, Path.IsName name)
    (hreaches : FileSystem.Walks fs [] l (.found l .directory)) (hlinks : fs.NoLinks)
    (hmanifest : readManifest fs l.path = .ok manifest) :
    fs.find true l.path = .ok (l, .directory) :=
  FileSystem.find_path hnames hreaches (FileSystem.checkPath_of_join
    (Path.ne_empty_of_isAbsolute (Path.isAbsolute_path l)) ⟨by decide, by decide⟩
    (checkPath_of_readManifest hlinks hmanifest))

/-- The directory of the sources was found in both places, below the same names. -/
structure SourcesFound (l l' : Location) (fs fs' : FileSystem) (manifest : Manifest)
    (names : List String) : Prop where
  isName : ∀ name ∈ names, Path.IsName name
  find : fs.find true (Path.descend l.path names) = .ok (l ++ names, .directory)
  find' : fs'.find true (Path.descend l'.path names) = .ok (l' ++ names, .directory)
  isSourceRoot : IsSourceRoot fs l.path manifest (Path.descend l.path names)
  isSourceRoot' : IsSourceRoot fs' l'.path manifest (Path.descend l'.path names)

/-- What a build finds in both places: the manifest, the directory of the sources, and the sources
by the names that lead to them from there. -/
structure FoundAlike (l l' : Location) (fs fs' : FileSystem) (output : String) (manifest : Manifest)
    (sources : List String) (rows : List (List String)) : Prop where
  isManifest : readManifest fs l.path = .ok manifest
  isManifest' : readManifest fs' l'.path = .ok manifest
  isFound : SourcesFound l l' fs fs' manifest sources
  isScan : ∃ patterns,
    Sources.readPatterns (Path.descend l.path sources) manifest.exclude = .ok patterns ∧
    Sources.readPatterns (Path.descend l'.path sources) manifest.exclude = .ok patterns ∧
    (Sources.scopeAt l sources [output] patterns).scan fs =
      .ok (rows.map fun names => Path.descend l.path (sources ++ names)) ∧
    (Sources.scopeAt l' sources [output] patterns).scan fs' =
      .ok (rows.map fun names => Path.descend l'.path (sources ++ names))
  isRow : ∀ names ∈ rows, names ≠ [] ∧ ∀ name ∈ names, Path.IsName name

/-- The directories of a build of the package at a location. -/
def placesAt (l : Location) (sources : List String) (output : String) : Places :=
  ⟨l.path, Path.descend l.path sources, Path.join l.path output⟩

theorem eq_placesAt {places : Places} {sources : List String} {output : String}
    (hroot : places.root = l.path) (hsource : places.sourceRoot = Path.descend l.path sources)
    (houtput : places.output = Path.join l.path output) : places = placesAt l sources output := by
  obtain ⟨root, sourceRoot, outputDirectory⟩ := places
  subst hroot hsource houtput
  rfl

/-- The sources of the package at a location. -/
def filesAt (l : Location) (sources : List String) (rows : List (List String)) : List String :=
  rows.map fun names => Path.descend l.path (sources ++ names)

end Reading

namespace Relocation

variable {l l' : Location} {fs fs' : FileSystem} {options : Options} {root' : Option String}
  {manifest : Manifest}

section Found

variable (h : Relocation l l' fs fs' options root')

include h

theorem tree : SameTree l l' fs fs' := by
  have hlinks := FileSystem.noLinks_of_hasNoLinks h.hasNoLinks
  have hlinks' := FileSystem.noLinks_of_hasNoLinks h.hasNoLinks'
  have hdirectory' : fs'.node? l' = some .directory := by
    have hsame := h.sameTree []
    rwa [List.append_nil, List.append_nil, h.isDirectory] at hsame
  exact {
    noLinks := hlinks
    noLinks' := hlinks'
    isName := h.isProper.isName_of_node? (by rw [h.isDirectory]; exact Option.some_ne_none _)
    isName' := h.isProper'.isName_of_node? (by rw [hdirectory']; exact Option.some_ne_none _)
    reaches := h.isRoot.walks h.isProper hlinks h.isDirectory
    reaches' := h.isRoot'.walks h.isProper' hlinks' hdirectory'
    node? := h.sameTree }

variable (hpaths : PathsAlike l l' fs options)

include hpaths

omit h in
theorem manifestWay : SameWay l l' [manifestName] :=
  .of_isName (by decide) (hpaths _ .manifest)

theorem outputWay : SameWay l l' [options.outputPath] :=
  .of_staysInside h.output (hpaths _ .output)

theorem aboveWay {names : List String} (hnames : names <+: Path.wayOfSteps [options.outputPath]) :
    SameWay l l' names := by
  have hleaf : ∀ name ∈ names, Path.IsLeaf name := fun name hname =>
    (Path.isLeaf_of_mem_wayOfSteps (hnames.subset hname)).1
  refine .of_isLeaf hleaf ?_ (hpaths _ (.above hnames))
  obtain ⟨more, hmore⟩ := hnames
  have hstays : FileSystem.StaysBelow [] (Path.wayOfSteps [options.outputPath]) :=
    FileSystem.staysBelow_filter.2 (by simpa using h.output.stays)
  rw [← hmore] at hstays
  exact (FileSystem.staysBelow_append.1 hstays).1

/-- Where the directory of the sources is found, names lead on to it, the same ones from both
places. -/
theorem canonicalWay {directory : String} {names : List String} {n n' : Node}
    (hmanifest : readManifest fs l.path = .ok manifest)
    (hdirectory : manifest.sourceRoot = some directory)
    (hfind : fs.find true (Path.descend l.path [directory]) = .ok (l ++ names, n))
    (hfind' : fs'.find true (Path.descend l'.path [directory]) = .ok (l' ++ names, n')) :
    (∀ name ∈ names, Path.IsName name) ∧ SameWay l l' names ∧
      fs.canonicalOr (Path.descend l.path [directory]) = Path.descend l.path names ∧
        fs'.canonicalOr (Path.descend l'.path [directory]) = Path.descend l'.path names := by
  have htree := h.tree
  have hnode := FileSystem.node?_of_find h.isProper.isTree htree.noLinks
    h.isRoot.workingDirectory hfind
  have hnode' := FileSystem.node?_of_find h.isProper'.isTree htree.noLinks'
    h.isRoot'.workingDirectory hfind'
  have hnames : ∀ name ∈ l ++ names, Path.IsName name :=
    h.isProper.isName_of_node? (by rw [hnode]; exact Option.some_ne_none _)
  have hnames' : ∀ name ∈ l' ++ names, Path.IsName name :=
    h.isProper'.isName_of_node? (by rw [hnode']; exact Option.some_ne_none _)
  have hisName : ∀ name ∈ names, Path.IsName name := fun name hname =>
    hnames name (List.mem_append_right _ hname)
  have hdescend : ∀ k : Location, (∀ name ∈ k ++ names, Path.IsName name) →
      Location.path (k ++ names) = Path.descend k.path names := by
    intro k hk
    rw [Path.path_eq_descend hk, Path.descend_append,
      ← Path.path_eq_descend fun name hname => hk name (List.mem_append_left _ hname)]
  have hcanonical := FileSystem.canonicalOr_of_find hfind
  have hcanonical' := FileSystem.canonicalOr_of_find hfind'
  rw [hdescend l hnames] at hcanonical
  rw [hdescend l' hnames'] at hcanonical'
  have hway : SameWay l l' names := .of_isName hisName
    (hpaths _ (.canonical hmanifest hdirectory hisName hcanonical.symm))
  exact ⟨hisName, hway, hcanonical, hcanonical'⟩

/-- **The directory of the sources is found in both places or in neither.** -/
theorem resolveSourceRoot_alike (hmanifest : readManifest fs l.path = .ok manifest)
    (hmanifest' : readManifest fs' l'.path = .ok manifest) :
    EndAlike l l' (fun sourceRoot sourceRoot' => ∃ names, SourcesFound l l' fs fs' manifest names ∧
        sourceRoot = Path.descend l.path names ∧ sourceRoot' = Path.descend l'.path names)
      (resolveSourceRoot l.path manifest) (resolveSourceRoot l'.path manifest) fs fs' := by
  have htree := h.tree
  unfold resolveSourceRoot
  cases hdirectory : manifest.sourceRoot with
  | none =>
    refine .pure htree ⟨[], ⟨List.forall_mem_nil _, ?_, ?_, ?_, ?_⟩, rfl, rfl⟩
    · rw [List.append_nil]
      exact find_of_readManifest htree.isName htree.reaches htree.noLinks hmanifest
    · rw [List.append_nil]
      exact find_of_readManifest htree.isName' htree.reaches' htree.noLinks' hmanifest'
    · rw [IsSourceRoot, hdirectory]
      rfl
    · rw [IsSourceRoot, hdirectory]
      rfl
  | some directory =>
    have hway : SameWay l l' [directory] := .of_staysInside (h.sources _ _ hmanifest hdirectory)
      (hpaths _ (.sourceRoot hmanifest hdirectory))
    have hpath : ∀ k : Location, Path.join k.path directory = Path.descend k.path [directory] :=
      fun _ => rfl
    refine .bindFiles (.bindFiles ?_)
    dsimp only
    rw [hpath, hpath]
    rcases htree.canonicalOr hway with ⟨names, n, hfind, hfind'⟩ | ⟨hsame, hsame', hnone⟩
    · obtain ⟨hisName, hnamesWay, hcanonical, hcanonical'⟩ :=
        h.canonicalWay hpaths hmanifest hdirectory hfind hfind'
      rw [hcanonical, hcanonical']
      refine .guard htree (by rw [htree.isDirectory hnamesWay])
        (fun _ => .noSourceRoot hnamesWay.counterpart) fun hthere => ?_
      have hthere : fs.isDirectory (Path.descend l.path names) = true := by simpa using hthere
      have hthere' : fs'.isDirectory (Path.descend l'.path names) = true := by
        rw [htree.isDirectory hnamesWay, hthere]
      refine .bindTell (.pure htree ⟨names, ⟨hisName, ?_, ?_, ?_, ?_⟩, rfl, rfl⟩)
      · rw [FileSystem.find_of_isDirectory htree.noLinks hthere,
          FileSystem.place_descend_path htree.isName hisName]
      · rw [FileSystem.find_of_isDirectory htree.noLinks' hthere',
          FileSystem.place_descend_path htree.isName' hisName]
      · rw [IsSourceRoot, hdirectory]
        exact ⟨hcanonical.symm, hthere⟩
      · rw [IsSourceRoot, hdirectory]
        exact ⟨hcanonical'.symm, hthere'⟩
    · have hnone' : fs'.isDirectory (Path.descend l'.path [directory]) = false := by
        rw [htree.isDirectory hway, hnone]
      rw [hsame, hsame', hnone, hnone']
      exact .fail htree (.noSourceRoot hway.counterpart)

omit hpaths in
/-- With sources in it, what was found is what both builds carry out. -/
theorem prepared {sources : List String} {rows : List (List String)}
    (hbuild : resolveOperation options.operation = .ok .build)
    (hfound : FoundAlike l l' fs fs' options.outputPath manifest sources rows) (hsome : rows ≠ []) :
    Prepared fs options .build manifest (placesAt l sources options.outputPath)
        (filesAt l sources rows) ∧
      Prepared fs' (options.withRoot root') .build manifest
        (placesAt l' sources options.outputPath) (filesAt l' sources rows) := by
  obtain ⟨patterns, hpatterns, hpatterns', hscan, hscan'⟩ := hfound.isScan
  exact ⟨⟨hbuild, h.isRoot, hfound.isManifest, hfound.isFound.isSourceRoot, rfl,
      ⟨patterns, hpatterns, hscan⟩, by simpa [filesAt] using hsome⟩,
    ⟨hbuild, h.isRoot', hfound.isManifest', hfound.isFound.isSourceRoot', rfl,
      ⟨patterns, hpatterns', hscan'⟩, by simpa [filesAt] using hsome⟩⟩

theorem sourceWay {sources : List String} {rows : List (List String)}
    (hbuild : resolveOperation options.operation = .ok .build)
    (hfound : FoundAlike l l' fs fs' options.outputPath manifest sources rows) :
    ∀ names ∈ rows, SourceWay l l' options.outputPath options.form sources names := by
  intro names hmem
  obtain ⟨hne, hnames⟩ := hfound.isRow names hmem
  obtain ⟨hprepared, _⟩ := h.prepared hbuild hfound (List.ne_nil_of_mem hmem)
  have hfile : Path.descend l.path (sources ++ names) ∈ filesAt l sources rows :=
    List.mem_map_of_mem hmem
  have hleaf : Path.IsLeaf (artifactName options.form
      (unitName (Path.descend l.path sources) (Path.descend l.path (sources ++ names)))) :=
    isLeaf_artifactName (Compilation.isLeaf_unitName _ _).noSlash
  have hall : ∀ name ∈ sources ++ names, Path.IsName name := fun name hname =>
    (List.mem_append.1 hname).elim (hfound.isFound.isName name) (hnames name)
  have hartifact := hpaths _ (Asks.artifact hprepared hfile)
  exact ⟨hnames, hne, .of_isName hall (hpaths _ (.source hprepared hall hfile)),
    .behind h.output hleaf (artifactName_ne options.form _ (by decide)) hartifact⟩

omit hpaths in
/-- **The same sources are found in both places, in the same order.** -/
theorem exists_foundAlike {sources : List String} {patterns : List Glob.Pattern}
    (hmanifest : readManifest fs l.path = .ok manifest)
    (hmanifest' : readManifest fs' l'.path = .ok manifest)
    (hsources : SourcesFound l l' fs fs' manifest sources)
    (hpatterns : Sources.readPatterns (Path.descend l.path sources) manifest.exclude = .ok patterns)
    (hpatterns' : Sources.readPatterns (Path.descend l'.path sources) manifest.exclude =
      .ok patterns) :
    ∃ rows, FoundAlike l l' fs fs' options.outputPath manifest sources rows ∧
      (Sources.scopeAt l sources [options.outputPath] patterns).scan fs =
          .ok (filesAt l sources rows) ∧
        (Sources.scopeAt l' sources [options.outputPath] patterns).scan fs' =
          .ok (filesAt l' sources rows) := by
  have hrelative : ∀ s ∈ [options.outputPath], Path.isAbsolute s = false :=
    List.forall_mem_singleton.2 h.output.relative
  obtain ⟨rows, hscan, hscan', hrows⟩ := Sources.scan_alike h.tree h.isProper h.isProper'
    hsources.isName hrelative patterns hsources.find hsources.find'
  exact ⟨rows, ⟨hmanifest, hmanifest', hsources, ⟨patterns, hpatterns, hpatterns', hscan, hscan'⟩,
    hrows⟩, hscan, hscan'⟩

/-! ### Both invocations -/

theorem performProject_alike (host : Host)
    (hbuild : resolveOperation options.operation = .ok .build) :
    EndAlike l l' (Outcome.Corresponds l l')
      (performProject host (compileSources standardFrontEnd) options .build l.path)
      (performProject host (compileSources standardFrontEnd) (options.withRoot root') .build l'.path)
      fs fs' := by
  have htree := h.tree
  have hway : SameWay l l' [manifestName] := manifestWay hpaths
  unfold performProject
  refine .bindFiles (.guard htree (by rw [hasManifest_alike htree hway])
    (fun _ => .noManifest (counterpart_path l l')) fun _ => .bindFiles ?_)
  refine .bindOrFail htree (readManifest_alike htree hway) (fun _ _ he => he) ?_
  rintro manifest _ hmanifest hmanifest' rfl
  refine .bindTell ((h.resolveSourceRoot_alike hpaths hmanifest hmanifest').bindKept
    (resolveSourceRoot_keepsFiles _ _) (resolveSourceRoot_keepsFiles _ _) ?_)
  rintro _ _ _ _ ⟨sources, hsources, rfl, rfl⟩
  have hcounterpart : Counterpart l l' (Path.descend l.path sources) (Path.descend l'.path sources) :=
    ⟨sources, fun name hname => Path.not_isAbsolute_of_noSlash (hsources.isName name hname).noSlash,
      rfl, rfl⟩
  refine .bindOrFail htree (Sources.readPatterns_alike _ _ manifest.exclude) ?_ ?_
  · rintro _ _ ⟨pattern, cause, rfl, rfl⟩
    exact .scan hcounterpart
  · rintro patterns _ hpatterns hpatterns' rfl
    obtain ⟨rows, hfound, hscan, hscan'⟩ :=
      h.exists_foundAlike hmanifest hmanifest' hsources hpatterns hpatterns'
    have hfiles : EndAlike l l'
        (fun files files' => files = filesAt l sources rows ∧ files' = filesAt l' sources rows)
        (findSources (Sources.scopeAt l sources [options.outputPath] patterns))
        (findSources (Sources.scopeAt l' sources [options.outputPath] patterns)) fs fs' :=
      ⟨_, _, _, _, findSources_ends hscan, findSources_ends hscan', .ok ⟨rfl, rfl⟩, htree⟩
    refine hfiles.bindKept (findSources_keepsFiles _) (findSources_keepsFiles _) ?_
    rintro _ _ _ _ ⟨rfl, rfl⟩
    refine .ite (by simp [filesAt]) (fun _ => .bindTell (.pure htree .stopped)) fun _ => ?_
    exact carryOut_alike host htree manifest rfl hway (h.outputWay hpaths) (fun _ => h.aboveWay hpaths)
      (h.sourceWay hpaths hbuild hfound)

omit hpaths in
/-- **The tools are checked alike**, as far as the check is said to come to the same. -/
theorem checkInstallation_alike (host : Host) (htools : ToolsAlike host options fs fs') :
    EndAlike l l' (fun _ _ => True)
      (checkInstallation host.platform options.toolsDirectory options.noIntegrity)
      (checkInstallation host.platform options.toolsDirectory options.noIntegrity) fs fs' := by
  have htree := h.tree
  have hadds := (checkInstallation_abreast false host.platform options.toolsDirectory
    options.noIntegrity).onlyAdds
  have hkeeps := checkInstallation_keepsFiles host.platform options.toolsDirectory
    options.noIntegrity
  unfold ToolsAlike at htools
  rcases hout : outcome (checkInstallation host.platform options.toolsDirectory
    options.noIntegrity) ⟨fs, []⟩ with ⟨result, w⟩
  rcases hout' : outcome (checkInstallation host.platform options.toolsDirectory
    options.noIntegrity) ⟨fs', []⟩ with ⟨result', w'⟩
  rw [hout, hout'] at htools
  obtain rfl : result' = result := htools
  have hfiles : w.files = fs := by simpa [hout] using hkeeps ⟨fs, []⟩
  have hfiles' : w'.files = fs' := by simpa [hout'] using hkeeps ⟨fs', []⟩
  refine ⟨result', result', w.files, w'.files, hadds.ends hout, hadds.ends hout', ?_,
    by rw [hfiles, hfiles']; exact htree⟩
  cases result' with
  | error e => exact .error (.tools (checkInstallation_fails _ _ _ _ _ _ hout))
  | ok _ => exact .ok trivial

theorem perform_alike (host : Host) (hbuild : resolveOperation options.operation = .ok .build)
    (htools : ToolsAlike host options fs fs') :
    EndAlike l l' (Outcome.Corresponds l l') (perform host standardFrontEnd options)
      (perform host standardFrontEnd (options.withRoot root')) fs fs' := by
  obtain ⟨base, hbase, hroot⟩ := h.isRoot
  obtain ⟨base', hbase', hroot'⟩ := h.isRoot'
  have hoperation : resolveOperation (options.withRoot root').operation = .ok .build := hbuild
  unfold perform performWith
  refine .bindTell ?_
  rw [hbuild, hoperation, Act.orFail_ok, pure_bind, pure_bind]
  refine .bindTell ((h.checkInstallation_alike host htools).bindKept
    (checkInstallation_keepsFiles _ _ _) (checkInstallation_keepsFiles _ _ _) ?_)
  rintro _ _ _ _ _
  refine .bindFiles ?_
  rw [hbase, hbase', Act.orFail_ok, Act.orFail_ok, pure_bind, pure_bind]
  refine .bindFiles ?_
  rw [hroot, hroot', Act.orFail_ok, Act.orFail_ok, pure_bind, pure_bind]
  exact .bindTell (h.performProject_alike hpaths host hbuild)

/-! ### What was found, seen from one place -/

/-- Where one build has found what it carries out, it was found alike in both places. -/
theorem foundAlike_of_prepared {operation : Operation} {places : Places} {files : List String}
    (hprepared : Prepared fs options operation manifest places files) :
    ∃ sources rows, FoundAlike l l' fs fs' options.outputPath manifest sources rows ∧
      rows ≠ [] ∧ places = placesAt l sources options.outputPath ∧ files = filesAt l sources rows := by
  obtain ⟨_, hroot, hmanifest, hsourceRoot, houtput, ⟨patterns, hpatterns, hscan⟩, hnonempty⟩ :=
    hprepared
  rw [h.isRoot.unique hroot] at hmanifest hsourceRoot houtput
  obtain ⟨_, hmanifest', rfl⟩ := (readManifest_alike h.tree (manifestWay hpaths)).of_ok hmanifest
  obtain ⟨_, _, _, sources, hsources, hplace, rfl⟩ :=
    (h.resolveSourceRoot_alike hpaths hmanifest hmanifest').of_ok (resolveSourceRoot_ends hsourceRoot)
  rw [hplace] at hpatterns hscan
  obtain ⟨_, hpatterns', rfl⟩ := (Sources.readPatterns_alike _ _ manifest.exclude).of_ok hpatterns
  obtain ⟨rows, hfound, hrows, _⟩ :=
    h.exists_foundAlike hmanifest hmanifest' hsources hpatterns hpatterns'
  rw [houtput] at hscan
  obtain rfl := Except.ok.inj (hscan.symm.trans hrows)
  exact ⟨sources, rows, hfound, by simpa [filesAt] using hnonempty,
    eq_placesAt (h.isRoot.unique hroot) hplace houtput, rfl⟩

theorem foundAlike_of_prepared' {operation : Operation} {places' : Places} {files' : List String}
    (hprepared : Prepared fs' (options.withRoot root') operation manifest places' files') :
    ∃ sources rows, FoundAlike l l' fs fs' options.outputPath manifest sources rows ∧ rows ≠ [] ∧
      places' = placesAt l' sources options.outputPath ∧ files' = filesAt l' sources rows := by
  obtain ⟨_, hroot, hmanifest', hsourceRoot, houtput, ⟨patterns, hpatterns', hscan⟩, hnonempty⟩ :=
    hprepared
  rw [h.isRoot'.unique hroot] at hmanifest' hsourceRoot houtput
  obtain ⟨_, hmanifest, rfl⟩ :=
    (readManifest_alike h.tree (manifestWay hpaths)).swap.of_ok hmanifest'
  obtain ⟨_, _, _, sources, hsources, rfl, hplace⟩ :=
    (h.resolveSourceRoot_alike hpaths hmanifest hmanifest').symm_of_ok
      (resolveSourceRoot_ends hsourceRoot)
  rw [hplace] at hpatterns' hscan
  obtain ⟨_, hpatterns, rfl⟩ :=
    (Sources.readPatterns_alike _ _ _).swap.of_ok hpatterns'
  obtain ⟨rows, hfound, _, hrows⟩ :=
    h.exists_foundAlike hmanifest hmanifest' hsources hpatterns hpatterns'
  rw [houtput] at hscan
  obtain rfl := Except.ok.inj (hscan.symm.trans hrows)
  exact ⟨sources, rows, hfound, by simpa [filesAt] using hnonempty,
    eq_placesAt (h.isRoot'.unique hroot) hplace houtput, rfl⟩

end Found

end Relocation

/-! ### The whole -/

/-- The same sources in two places: the same way leads to each of them, and its unit has the same
name. -/
def SameSources (l l' : Location) (places places' : Places) (files files' : List String) : Prop :=
  List.Forall₂ (fun file file' => Counterpart l l' file file' ∧
    unitName places'.sourceRoot file' = unitName places.sourceRoot file) files files'

theorem sameSources_filesAt (l l' : Location) {sources : List String} (output : String)
    {rows : List (List String)} (hsources : ∀ name ∈ sources, Path.IsName name)
    (hrows : ∀ names ∈ rows, names ≠ [] ∧ ∀ name ∈ names, Path.IsName name) :
    SameSources l l' (placesAt l sources output) (placesAt l' sources output)
      (filesAt l sources rows) (filesAt l' sources rows) := by
  unfold SameSources filesAt
  rw [List.forall₂_map_left_iff, List.forall₂_map_right_iff, List.forall₂_same]
  intro names hmem
  obtain ⟨_, hnames⟩ := hrows names hmem
  refine ⟨⟨sources ++ names, fun name hname => ?_, rfl, rfl⟩, ?_⟩
  · have hisName : Path.IsName name := (List.mem_append.1 hname).elim (hsources name) (hnames name)
    exact Path.not_isAbsolute_of_noSlash hisName.noSlash
  · rw [Path.descend_append, Path.descend_append]
    exact unitName_descend (descend_path_ne_empty l sources) (descend_path_ne_empty l' sources) hnames

/-- How two builds of the same package go together: they find the same sources in the same order, if
they come to that, they end in the same way, and they leave the same package. -/
structure BuildsElsewhere (host : Host) (options : Options) (root' : Option String)
    (l l' : Location) (w w' : World) : Prop where
  found : ∀ manifest places files, Prepared w.files options .build manifest places files →
    ∃ places' files', Prepared w'.files (options.withRoot root') .build manifest places' files' ∧
      SameSources l l' places places' files files'
  found' : ∀ manifest places' files',
    Prepared w'.files (options.withRoot root') .build manifest places' files' →
    ∃ places files, Prepared w.files options .build manifest places files ∧
      SameSources l l' places places' files files'
  ends : Alike (Failure.Corresponds l l') (Outcome.Corresponds l l')
    (outcome (perform host standardFrontEnd options) w).1
    (outcome (perform host standardFrontEnd (options.withRoot root')) w').1
  leaves : ∀ r,
    (outcome (perform host standardFrontEnd (options.withRoot root')) w').2.files.node? (l' ++ r) =
      (outcome (perform host standardFrontEnd options) w).2.files.node? (l ++ r)

/-- **A build does not hang on where the package lies.** In two places it finds the same sources in
the same order, compiles them to units of the same names, and writes the same artifacts with the
same number, or fails in the same way about the same file; as long as the system takes each path
that is asked for in both places or in neither, and the check of the tools comes to the same. -/
theorem build_relocated (host : Host) {options : Options} {root' : Option String} {l l' : Location}
    {w w' : World} (hbuild : resolveOperation options.operation = .ok .build)
    (h : Relocation l l' w.files w'.files options root') (hpaths : PathsAlike l l' w.files options)
    (htools : ToolsAlike host options w.files w'.files) :
    BuildsElsewhere host options root' l l' w w' := by
  obtain ⟨result, result', fs₁, fs₁', hend, hend', halike, htree⟩ :=
    h.perform_alike hpaths host hbuild htools
  rcases hout : outcome (perform host standardFrontEnd options) w with ⟨_, w₁⟩
  rcases hout' : outcome (perform host standardFrontEnd (options.withRoot root')) w' with ⟨_, w₁'⟩
  obtain ⟨rfl, hfiles⟩ := hend.eq hout
  obtain ⟨rfl, hfiles'⟩ := hend'.eq hout'
  have hfound : ∀ {manifest : Manifest} {sources : List String} {rows : List (List String)},
      FoundAlike l l' w.files w'.files options.outputPath manifest sources rows →
      SameSources l l' (placesAt l sources options.outputPath) (placesAt l' sources options.outputPath)
        (filesAt l sources rows) (filesAt l' sources rows) := fun hfound =>
    sameSources_filesAt l l' _ hfound.isFound.isName hfound.isRow
  refine ⟨?_, ?_, ?_, ?_⟩
  · intro manifest places files hprepared
    obtain ⟨sources, rows, hrows, hsome, rfl, rfl⟩ := h.foundAlike_of_prepared hpaths hprepared
    exact ⟨_, _, (h.prepared hbuild hrows hsome).2, hfound hrows⟩
  · intro manifest places' files' hprepared
    obtain ⟨sources, rows, hrows, hsome, rfl, rfl⟩ := h.foundAlike_of_prepared' hpaths hprepared
    exact ⟨_, _, (h.prepared hbuild hrows hsome).1, hfound hrows⟩
  · rw [hout, hout']
    exact halike
  · intro r
    rw [hout, hout', hfiles, hfiles']
    exact htree.node? r

/-! ### A package that is moved -/

section Moved

variable {l l' : Location} {fs : FileSystem} {options : Options}

theorem pathsAlike_of_sameShape (h : FileSystem.SameShape l.path l'.path) :
    PathsAlike l l' fs options := fun steps _ => h.checkPath_descend steps

/-- Where the tools are not checked, it does not matter which ones there are. -/
theorem toolsAlike_of_noIntegrity (host : Host) (fs fs' : FileSystem)
    (h : options.noIntegrity = true) : ToolsAlike host options fs fs' := by
  unfold ToolsAlike checkInstallation
  rw [h]
  rfl

theorem isRoot_movedBelow (hl : FileSystem.IsPlace l) (hfs : fs.IsProper)
    (htop : [] ∉ fs.nodes.map Prod.fst) (hbase : fs.node? fs.workingDirectory = some .directory) :
    IsRoot (FileSystem.movedBelow l fs) (options.withRoot (some l.path)) l.path := by
  have hfind := FileSystem.find_movedBelow hl hfs htop
  have hpath : l.path.isEmpty = false := by
    simpa [String.isEmpty_iff] using Path.ne_empty_of_isAbsolute (Path.isAbsolute_path l)
  have hthere : (FileSystem.movedBelow l fs).node? (l ++ fs.workingDirectory) = some .directory := by
    rw [FileSystem.node?_movedBelow, hbase]
  refine ⟨Location.path (l ++ fs.workingDirectory), if_pos ?_, ?_⟩
  · exact FileSystem.any_isDirectory_iff.2 hthere
  · have hasked : Path.join (Location.path (l ++ fs.workingDirectory)) l.path = l.path := by
      rw [Path.join, if_pos (Path.isAbsolute_path l)]
    have hdirectory : (FileSystem.movedBelow l fs).isDirectory l.path = true := by
      rw [FileSystem.isDirectory, hfind]
      rfl
    unfold resolveRoot Options.withRoot
    dsimp only
    rw [hpath, if_neg Bool.false_ne_true, hasked, if_pos hdirectory,
      FileSystem.canonicalOr_of_find hfind]

/-- A package that is moved below two locations is the same package in both. -/
theorem relocation_movedBelow (hl : FileSystem.IsPlace l) (hl' : FileSystem.IsPlace l')
    (hlinks : fs.hasNoLinks) (hfs : fs.IsProper) (htop : [] ∉ fs.nodes.map Prod.fst)
    (hbase : fs.node? fs.workingDirectory = some .directory) (houtput : StaysInside options.outputPath)
    (hsources : ∀ manifest directory, readManifest (FileSystem.movedBelow l fs) l.path = .ok manifest →
      manifest.sourceRoot = some directory → StaysInside directory) :
    Relocation l l' (FileSystem.movedBelow l fs) (FileSystem.movedBelow l' fs)
      (options.withRoot (some l.path)) (some l'.path) where
  hasNoLinks := FileSystem.hasNoLinks_movedBelow l hlinks
  hasNoLinks' := FileSystem.hasNoLinks_movedBelow l' hlinks
  isProper := FileSystem.isProper_movedBelow hl hfs htop
  isProper' := FileSystem.isProper_movedBelow hl' hfs htop
  isDirectory := FileSystem.node?_movedBelow_above List.prefix_rfl fs
  sameTree r := by rw [FileSystem.node?_movedBelow, FileSystem.node?_movedBelow]
  isRoot := isRoot_movedBelow hl hfs htop hbase
  isRoot' := isRoot_movedBelow hl' hfs htop hbase
  output := houtput
  sources := hsources

end Moved

/-- The number of a build is the same in both places. -/
theorem BuildsElsewhere.builtNumber?_eq {host : Host} {options : Options} {root' : Option String}
    {l l' : Location} {w w' : World} (h : BuildsElsewhere host options root' l l' w w') :
    builtNumber? (outcome (perform host standardFrontEnd (options.withRoot root')) w').1 =
      builtNumber? (outcome (perform host standardFrontEnd options) w).1 := by
  obtain ⟨_, _, he, he', _⟩ | ⟨_, _, hok, hok', hsame⟩ := h.ends.eq_or_eq
  · rw [he, he']
    rfl
  · rw [hok, hok']
    cases hsame with
    | stopped => rfl
    | built hnumber _ => exact hnumber

/-- A build with a number has read the manifest. -/
theorem exists_readManifest {host : Host} {options : Options} {root : String} {w : World} {n : ℕ}
    (hbuild : resolveOperation options.operation = .ok .build) (hroot : IsRoot w.files options root)
    (h : builtNumber? (outcome (perform host standardFrontEnd options) w).1 = some n) :
    ∃ manifest, readManifest w.files root = .ok manifest := by
  rcases hout : outcome (perform host standardFrontEnd options) w with ⟨result, w'⟩
  rw [hout] at h
  rcases perform_stages hout with ⟨_, rfl | ⟨_, rfl, _⟩⟩ | ⟨hinit, _⟩ |
    ⟨operation, manifest, places, files, told, _, hprepared, _⟩
  · cases h
  · cases h
  · rw [hbuild] at hinit
    cases hinit
  · exact ⟨manifest, hroot.unique hprepared.isRoot ▸ hprepared.isManifest⟩

namespace MovedPackage

open FileSystem (IsPlace SameShape movedBelow)

/-- The small package with tools in it. -/
def files : FileSystem where
  nodes := SmallPackage.files.nodes ++ [
    (["tools"], .directory),
    (["tools", "lli.exe"], .file .empty .ordinary),
    (["tools", "llc.exe"], .file .empty .ordinary)]
  workingDirectory := []

/-- The options of a build in `p`, with the tools that lie there or without a check of the tools. -/
def options (noIntegrity : Bool) : Options :=
  { Options.ofOperation "build" "/ion" with
    root := some "/p"
    toolsPath := some "/p/tools"
    noIntegrity := noIntegrity }

/-- A computer whose installations bring their tools along. -/
def host : Host := ⟨.windows, [], fun _ _ => .error .notFound, .none⟩

/-- The package in a directory. -/
def world (l : Location) : World := ⟨movedBelow l files, []⟩

theorem hasNoLinks_files : files.hasNoLinks := by
  intro l target hmem
  simp [files, SmallPackage.files] at hmem

theorem isPlace_p : IsPlace ["p"] := ⟨by decide, by decide, by decide⟩

theorem isPlace_q : IsPlace ["q"] := ⟨by decide, by decide, by decide⟩

theorem sameShape : SameShape (Location.path ["p"]) (Location.path ["q"]) :=
  ⟨by decide, by decide, by decide, by decide, by decide⟩

/-- The directory of the sources is below that of the package. -/
theorem staysInside_sources {manifest : Manifest} {directory : String}
    (hmanifest : readManifest (world ["p"]).files "/p" = .ok manifest)
    (hdirectory : manifest.sourceRoot = some directory) : StaysInside directory := by
  have hsource : (readManifest (world ["p"]).files "/p").toOption.bind Manifest.sourceRoot =
      some "src" := by
    decide +kernel
  rw [hmanifest] at hsource
  obtain rfl : "src" = directory := Option.some.inj (hsource.symm.trans hdirectory)
  decide

/-- The package is the same wherever it lies. -/
theorem relocation (noIntegrity : Bool) {l' : Location} (hl' : IsPlace l') :
    Relocation ["p"] l' (world ["p"]).files (world l').files (options noIntegrity)
      (some l'.path) := by
  have hproper : files.IsProper := by decide +kernel
  have houtput : StaysInside Options.usualOutput := by decide
  have houtputPath : StaysInside (options noIntegrity).outputPath := houtput
  exact relocation_movedBelow isPlace_p hl' hasNoLinks_files hproper (by decide) rfl houtputPath
    fun _ _ => staysInside_sources

theorem builtNumber?_eq : ∀ noIntegrity, builtNumber?
    (outcome (perform host standardFrontEnd (options noIntegrity)) (world ["p"])).1 = some 5 := by
  decide +kernel

/-! ### Too deep -/

/-- A location that is so deep that the path of a manifest there is too long. -/
def deep : Location := List.replicate 2045 "d"

theorem join_d (p : String) {name : String} (h : Path.IsLeaf name) :
    Path.join (p ++ "d") name = p ++ "d" ++ "/" ++ name := by
  refine Path.join_of_noSlash (by simp) ?_ h
  rw [String.toList_append, List.getLast?_append_of_ne_nil _ (by decide)]
  decide

theorem descend_deep (n : ℕ) :
    ∃ p, Path.descend "/d" (List.replicate n "d") = p ++ "d" ∧ Char.ofNat 0 ∉ p.toList ∧
      Raw.size p = 2 * n + 1 := by
  induction n with
  | zero => exact ⟨"/", rfl, by decide, rfl⟩
  | succ n ih =>
    obtain ⟨p, hp, hnul, hsize⟩ := ih
    refine ⟨p ++ "d" ++ "/", ?_, by simp [hnul], ?_⟩
    · have hleaf : Path.IsLeaf "d" := ⟨by decide, by decide⟩
      rw [List.replicate_succ', Path.descend_append, hp]
      exact join_d p hleaf
    · rw [Raw.size_append, Raw.size_append, hsize]
      change 2 * n + 1 + 1 + 1 = 2 * (n + 1) + 1
      omega

theorem path_deep : ∃ p, Location.path deep = p ++ "d" ∧ Char.ofNat 0 ∉ p.toList ∧
    Raw.size p = 4089 := by
  obtain ⟨p, hp, hnul, hsize⟩ := descend_deep 2044
  refine ⟨p, ?_, hnul, hsize⟩
  have hname : ∀ name ∈ deep, Path.IsName name := fun name hname => by
    rw [List.eq_of_mem_replicate hname]
    decide
  rw [Path.path_eq_descend hname, deep, List.replicate_succ, Path.descend_cons]
  exact hp

theorem isPlace_deep : IsPlace deep := by
  obtain ⟨p, hp, hnul, hsize⟩ := path_deep
  have hd : ∀ name ∈ deep, name = "d" := fun name hname => List.eq_of_mem_replicate hname
  refine ⟨fun name hname => ?_, fun name hname => ?_, ?_⟩
  · rw [hd name hname]
    decide
  · rw [hd name hname]
    decide
  · rw [FileSystem.checkPath_eq_ok, hp, String.toList_append, List.mem_append,
      Raw.size_append, hsize]
    exact ⟨fun h => h.elim hnul (by decide), by simp, by decide⟩

theorem not_checkPath_deep : FileSystem.checkPath (manifestPath (Location.path deep)) ≠ .ok () := by
  obtain ⟨p, hp, _, hsize⟩ := path_deep
  rw [manifestPath, hp, join_d p ⟨by decide, by decide⟩]
  intro hcheck
  have hlimit := (FileSystem.checkPath_eq_ok.1 hcheck).2.2
  rw [Raw.size_append, Raw.size_append, Raw.size_append,
    hsize] at hlimit
  exact absurd hlimit (by decide)

end MovedPackage

open MovedPackage in
/-- The fifth build of a package, in `p` and in `q`. -/
theorem build_relocated_small :
    resolveOperation (options true).operation = .ok .build ∧
      Relocation ["p"] ["q"] (world ["p"]).files (world ["q"]).files (options true) (some "/q") ∧
      PathsAlike ["p"] ["q"] (world ["p"]).files (options true) ∧
      ToolsAlike host (options true) (world ["p"]).files (world ["q"]).files ∧
      BuildsElsewhere host (options true) (some "/q") ["p"] ["q"] (world ["p"]) (world ["q"]) ∧
      builtNumber? (outcome (perform host standardFrontEnd (options true)) (world ["p"])).1 =
        some 5 := by
  have hbuild : resolveOperation (options true).operation = .ok .build := by decide
  have hmoved := relocation true isPlace_q
  have hpaths : PathsAlike ["p"] ["q"] (world ["p"]).files (options true) :=
    pathsAlike_of_sameShape sameShape
  have htools : ToolsAlike host (options true) (world ["p"]).files (world ["q"]).files :=
    toolsAlike_of_noIntegrity _ _ _ rfl
  exact ⟨hbuild, hmoved, hpaths, htools, build_relocated host hbuild hmoved hpaths htools,
    builtNumber?_eq true⟩

open MovedPackage in
/-- Where the path of the manifest is too long, nothing is built; and with tools that lie in one of
the two places, only one of the builds has them. -/
theorem build_not_always_relocated :
    (¬∀ (host : Host) (options : Options) (root' : Option String) (l l' : Location) (w w' : World),
      resolveOperation options.operation = .ok .build →
        Relocation l l' w.files w'.files options root' → ToolsAlike host options w.files w'.files →
          BuildsElsewhere host options root' l l' w w') ∧
      ¬∀ (host : Host) (options : Options) (root' : Option String) (l l' : Location) (w w' : World),
        resolveOperation options.operation = .ok .build →
          Relocation l l' w.files w'.files options root' → PathsAlike l l' w.files options →
            BuildsElsewhere host options root' l l' w w' := by
  constructor
  · intro hall
    have hmoved := relocation true isPlace_deep
    have hbuilds := hall host (options true) (some (Location.path deep)) ["p"] deep (world ["p"])
      (world deep) rfl hmoved (toolsAlike_of_noIntegrity _ _ _ rfl)
    have hbuild : resolveOperation ((options true).withRoot (some (Location.path deep))).operation =
        .ok .build := by decide
    obtain ⟨manifest, hmanifest⟩ := exists_readManifest hbuild hmoved.isRoot'
      (hbuilds.builtNumber?_eq.trans (builtNumber?_eq true))
    have hno := FileSystem.noLinks_of_hasNoLinks hmoved.hasNoLinks'
    exact not_checkPath_deep (checkPath_of_readManifest hno hmanifest)
  · intro hall
    have hbuilds := hall host (options false) (some "/q") ["p"] ["q"] (world ["p"]) (world ["q"]) rfl
      (relocation false isPlace_q) (pathsAlike_of_sameShape sameShape)
    have hsecond : builtNumber? (outcome (perform host standardFrontEnd
        ((options false).withRoot (some "/q"))) (world ["q"])).1 = none := by
      decide +kernel
    have hsame := hbuilds.builtNumber?_eq.trans (builtNumber?_eq false)
    rw [hsecond] at hsame
    cases hsame

end Ingot.Workflow
