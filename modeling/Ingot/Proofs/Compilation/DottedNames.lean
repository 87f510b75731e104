import Ingot.Proofs.Compilation.UnitNames
import Ingot.Proofs.Sources.Scanning

/-!
# Dotted names

The name of a unit is meant to say where its source is: it should be the names of the directories
below the root and the stem of the file, as they are shown, with dots between them. Every source
that a scan finds has such a path (`exists_isSourcePath`), and **its unit is called as it should be
exactly when the stem is neither one dot nor two** (`unitName_dotted`). A stem of one or two dots
reads as a step of a path and is lost: the unit then has the name of the directory, or none of its
own.

Where all names are texts without a dot in them, the dotted name can be taken apart again, so that
different sources have units of different names (`IsDotless.components_eq`). Names that are no texts
can be shown alike.
-/

namespace Ingot.Compilation

open Sources (Scope)

/-! ### Paths of sources -/

/-- The path of a source: behind a root come the names of directories, and then the stem of a file
with the ending of sources. -/
structure IsSourcePath (root : String) (dirs : List String) (stem file : String) : Prop where
  components : Path.components file =
    Path.components root ++ (dirs ++ [stem ++ ".ion"]).map .name
  stem_ne_empty : stem ≠ ""

theorem cutAtDot_source {stem : String} (h : stem ≠ "") :
    Path.cutAtDot (stem ++ ".ion") = (stem, some Sources.sourceEnding) := by
  refine Path.cutAtDot_append h (by decide) ?_
  rw [String.toList_append]
  rfl

/-- A name with the ending of sources has a stem. -/
theorem exists_stem {last : String} (h : (Path.cutAtDot last).2 = some Sources.sourceEnding) :
    ∃ stem, last = stem ++ ".ion" ∧ stem ≠ "" := by
  have hlist := toList_eq_of_cutAtDot h (by decide)
  have hlast : last = (Path.cutAtDot last).1 ++ ".ion" := by
    refine String.toList_inj.1 ?_
    rw [String.toList_append]
    exact hlist
  refine ⟨_, hlast, Path.cutAtDot_ne_empty ?_⟩
  rintro rfl
  cases h

theorem isSourcePath_descend {root stem : String} {dirs : List String} (hroot : root ≠ "")
    (hnames : ∀ name ∈ dirs ++ [stem ++ ".ion"], Path.IsName name) (hstem : stem ≠ "") :
    IsSourcePath root dirs stem (Path.descend root (dirs ++ [stem ++ ".ion"])) :=
  ⟨Path.components_descend hroot hnames, hstem⟩

theorem error_not_mem_of_mapM {ε α : Type} {entries : List (Except ε α)} {found : List α}
    (h : entries.mapM id = .ok found) (fault : ε) : .error fault ∉ entries := by
  induction entries generalizing found with
  | nil => exact List.not_mem_nil
  | cons entry entries ih =>
    rw [List.mapM_cons] at h
    obtain ⟨first, hfirst, hrest⟩ := of_except_bind_ok h
    obtain ⟨rest, hmore, -⟩ := of_except_bind_ok hrest
    intro hmem
    rcases List.mem_cons.1 hmem with rfl | hmem
    · cases hfirst
    · exact ih hmore hmem

/-- A scan that comes to its end has met no fault. -/
theorem runs_of_scan {s : Scope} {fs : FileSystem} {start : Location} {files : List String}
    (hfs : fs.IsProper) (hroot : fs.find true s.root = .ok (start, .directory))
    (hscan : s.scan fs = .ok files) : s.Runs fs start := by
  refine ⟨hfs, hroot, fun fault => ?_⟩
  unfold Scope.scan at hscan
  split at hscan
  · cases hscan
  · rename_i found hfound
    exact error_not_mem_of_mapM hfound fault

/-- **Every source that a scan finds below its root has the path of one.** -/
theorem exists_isSourcePath {s : Scope} {fs : FileSystem} {start : Location} {files : List String}
    {file : String} (h : s.Runs fs start) (hscan : s.scan fs = .ok files) (hfile : file ∈ files) :
    ∃ dirs stem, (∀ name ∈ dirs ++ [stem ++ ".ion"], Path.IsName name) ∧
      file = Path.descend s.root (dirs ++ [stem ++ ".ion"]) ∧
        IsSourcePath s.root dirs stem file := by
  obtain ⟨names, rfl, hsource⟩ := (h.mem_iff hscan).1 hfile
  have hnames := h.isName hsource
  have hending := hsource.hasEnding
  cases names using List.reverseRecOn with
  | nil =>
    obtain ⟨_, _, _, hleads⟩ := hsource.isFile
    cases hleads
  | append_singleton dirs last =>
    rw [Path.extension?, Path.fileName?, Path.components_descend h.root_ne_empty hnames,
      List.map_append, List.map_singleton, ← List.append_assoc, List.getLast?_concat] at hending
    obtain ⟨stem, rfl, hstem⟩ := exists_stem hending
    exact ⟨dirs, stem, hnames, rfl, isSourcePath_descend h.root_ne_empty hnames hstem⟩

/-! ### Names of sources -/

namespace IsSourcePath

variable {root stem file : String} {dirs : List String}

/-- The names that the name of the unit is made of. -/
theorem names_eq (h : IsSourcePath root dirs stem file) :
    Path.names (Path.withoutExtension (Path.componentsBelow root file)) =
      dirs ++ if stem = "." ∨ stem = ".." then [] else [stem] := by
  have hbelow : Path.componentsBelow root file = (dirs ++ [stem ++ ".ion"]).map .name := by
    rw [Path.componentsBelow, h.components, Path.below?_append]
    rfl
  rw [hbelow, names_withoutExtension, cutAtDot_source h.stem_ne_empty]

/-- The unit is called by the names of the directories and the stem, as they are shown. -/
theorem unitName_eq (h : IsSourcePath root dirs stem file) (hdot : stem ≠ ".") (hup : stem ≠ "..") :
    unitName root file = ".".intercalate ((dirs ++ [stem]).map Raw.shown) := by
  have hnames := h.names_eq
  rw [if_neg (not_or.2 ⟨hdot, hup⟩)] at hnames
  rw [unitName, hnames]
  split
  · rename_i hnil
    simp at hnil
  · rfl

/-- A stem of one dot or two is lost. -/
theorem unitName_of_dots (h : IsSourcePath root dirs stem file) (hdots : stem = "." ∨ stem = "..") :
    unitName root file =
      if dirs = [] then namelessUnit else ".".intercalate (dirs.map Raw.shown) := by
  have hnames := h.names_eq
  rw [if_pos hdots, List.append_nil] at hnames
  rw [unitName, hnames]
  split
  · rfl
  · rename_i hne
    rw [if_neg hne]

theorem unitName_eq_iff (h : IsSourcePath root dirs stem file) :
    unitName root file = ".".intercalate ((dirs ++ [stem]).map Raw.shown) ↔
      stem ≠ "." ∧ stem ≠ ".." := by
  refine ⟨fun heq => not_or.1 fun hdots => ?_, fun hstem => h.unitName_eq hstem.1 hstem.2⟩
  rw [h.unitName_of_dots hdots] at heq
  split at heq
  · rename_i hnil
    subst hnil
    rcases hdots with rfl | rfl
    · exact absurd heq (by decide)
    · exact absurd heq (by decide)
  · rename_i hne
    rw [List.map_append, List.map_singleton,
      String.intercalate_append_of_ne_nil (mt List.map_eq_nil_iff.1 hne) (List.cons_ne_nil _ _)] at heq
    have hlength := congrArg String.length heq
    simp only [String.length_append] at hlength
    have hone : ".".length = 1 := rfl
    omega

end IsSourcePath

/-! ### Names without dots -/

/-- Names that have no dot in them can be read off their dotted name. -/
theorem intercalate_dot_injective {names names' : List String} (hne : names ≠ [])
    (hne' : names' ≠ []) (h : ∀ name ∈ names, '.' ∉ name.toList)
    (h' : ∀ name ∈ names', '.' ∉ name.toList)
    (heq : ".".intercalate names = ".".intercalate names') : names = names' := by
  have hsplit : ∀ {names : List String}, names ≠ [] → (∀ name ∈ names, '.' ∉ name.toList) →
      (".".intercalate names).toList.splitOn '.' = names.map String.toList := by
    intro names hne h
    rw [String.toList_intercalate]
    exact List.splitOn_intercalate '.' (by simpa using h) (by simpa using hne)
  have hlists : names.map String.toList = names'.map String.toList := by
    rw [← hsplit hne h, ← hsplit hne' h', heq]
  exact List.map_injective_iff.2 (fun _ _ => String.toList_inj.1) hlists

/-- Names that are texts can be read off what is shown of them. -/
theorem map_shown_injective {names names' : List String} (h : ∀ name ∈ names, Raw.IsText name)
    (h' : ∀ name ∈ names', Raw.IsText name)
    (heq : names.map Raw.shown = names'.map Raw.shown) : names = names' := by
  have hback : ∀ {names : List String}, (∀ name ∈ names, Raw.IsText name) →
      (names.map Raw.shown).map Raw.ofText = names := by
    intro names h
    rw [List.map_map]
    exact (List.map_congr_left fun name hname => (h name hname).ofText_shown).trans names.map_id
  rw [← hback h, heq, hback h']

/-- A source below a root, where the names of the directories below the root and the stem of the
file are texts without a dot. -/
def IsDotless (root file : String) : Prop :=
  ∃ dirs stem, IsSourcePath root dirs stem file ∧
    ∀ name ∈ dirs ++ [stem], '.' ∉ name.toList ∧ Raw.IsText name

/-- **Different sources without dots have units of different names.** -/
theorem IsDotless.components_eq {root file file' : String} (h : IsDotless root file)
    (h' : IsDotless root file') (heq : unitName root file = unitName root file') :
    Path.components file = Path.components file' := by
  obtain ⟨dirs, stem, hpath, hdots⟩ := h
  obtain ⟨dirs', stem', hpath', hdots'⟩ := h'
  have hstem : ∀ {dirs : List String} {stem : String},
      (∀ name ∈ dirs ++ [stem], '.' ∉ name.toList ∧ Raw.IsText name) →
      stem ≠ "." ∧ stem ≠ ".." := by
    intro dirs stem hdots
    obtain ⟨hlast, -⟩ := hdots stem (List.mem_append_right _ List.mem_cons_self)
    constructor
    · rintro rfl
      exact hlast (by decide)
    · rintro rfl
      exact hlast (by decide)
  have hshown : ∀ {names : List String},
      (∀ name ∈ names, '.' ∉ name.toList ∧ Raw.IsText name) →
      ∀ text ∈ names.map Raw.shown, '.' ∉ text.toList := by
    intro names hdots text htext
    obtain ⟨name, hname, rfl⟩ := List.mem_map.1 htext
    exact mt (Raw.mem_shown_iff (by decide)).1 (hdots name hname).1
  rw [hpath.unitName_eq (hstem hdots).1 (hstem hdots).2,
    hpath'.unitName_eq (hstem hdots').1 (hstem hdots').2] at heq
  have hnames := map_shown_injective (fun name hname => (hdots name hname).2)
    (fun name hname => (hdots' name hname).2)
    (intercalate_dot_injective (by simp) (by simp) (hshown hdots) (hshown hdots') heq)
  obtain ⟨rfl, hlast⟩ := List.append_inj' hnames rfl
  obtain rfl := List.head_eq_of_cons_eq hlast
  rw [hpath.components, hpath'.components]

/-! ### All sources -/

/-- **The name of the unit of a source** is made of the names of the directories below the root and
of the stem of the file, as they are shown, with dots between them, unless the stem is one dot or
two. Such a stem is left out, which makes it another name: that of the directory, or the one for
units without a name. Every source that a scan finds is of that kind. -/
theorem unitName_dotted (root : String) :
    (∀ dirs stem file, IsSourcePath root dirs stem file →
      (stem ≠ "." → stem ≠ ".." →
        unitName root file = ".".intercalate ((dirs ++ [stem]).map Raw.shown)) ∧
      (stem = "." ∨ stem = ".." →
        unitName root file =
            (if dirs = [] then namelessUnit else ".".intercalate (dirs.map Raw.shown)) ∧
          unitName root file ≠ ".".intercalate ((dirs ++ [stem]).map Raw.shown))) ∧
    ∀ (s : Scope) (fs : FileSystem) (start : Location) (files : List String), s.root = root →
      fs.IsProper → fs.find true root = .ok (start, .directory) → s.scan fs = .ok files →
      ∀ file ∈ files, ∃ dirs stem, (∀ name ∈ dirs ++ [stem ++ ".ion"], Path.IsName name) ∧
        file = Path.descend root (dirs ++ [stem ++ ".ion"]) ∧ IsSourcePath root dirs stem file := by
  constructor
  · intro dirs stem file h
    refine ⟨h.unitName_eq, fun hdots => ⟨h.unitName_of_dots hdots, fun heq => ?_⟩⟩
    have hstem := h.unitName_eq_iff.1 heq
    exact hdots.elim hstem.1 hstem.2
  · rintro s fs start files rfl hfs hroot hscan file hfile
    exact exists_isSourcePath (runs_of_scan hfs hroot hscan) hscan hfile

namespace DotStem

/-- A source whose stem is a dot, and one whose stem starts and ends with one. -/
def tree : FileSystem where
  nodes := [
    (["p"], .directory),
    (["p", "..ion"], .file .empty .ordinary),
    (["p", "x.y"], .directory),
    (["p", "x.y", ".a..ion"], .file .empty .ordinary)]
  workingDirectory := []

/-- All sources below the root. -/
def scope : Scope := ⟨"/p", none, []⟩

theorem noLinks_tree : tree.NoLinks := by
  refine FileSystem.noLinks_of_hasNoLinks fun l target hmem => ?_
  simp [tree] at hmem

theorem find_root : tree.find true scope.root = .ok (["p"], .directory) := by
  have hroot : tree.isDirectory scope.root = true := by decide +kernel
  have hplace : tree.place scope.root = ["p"] := rfl
  exact hplace ▸ FileSystem.find_of_isDirectory noLinks_tree hroot

theorem runs_scope : scope.Runs tree ["p"] :=
  Scope.runs_of_noLinks (by decide) noLinks_tree find_root

theorem isSourceBelow_dot : scope.IsSourceBelow tree ["p"] ["..ion"] := by
  refine (Scope.isSourceBelow_iff runs_scope.isProper runs_scope.root_ne_empty).2
    ⟨⟨⟨_, _, .last (.itself rfl fun _ => nofun), rfl⟩, Sources.isKept_singleton _ _⟩, ?_, ?_⟩
  · rfl
  · rfl

theorem isSourceBelow_deep : scope.IsSourceBelow tree ["p"] ["x.y", ".a..ion"] := by
  refine (Scope.isSourceBelow_iff runs_scope.isProper runs_scope.root_ne_empty).2
    ⟨⟨⟨_, _, .into (.itself rfl fun _ => nofun) (.last (.itself rfl fun _ => nofun)), rfl⟩,
      Sources.isKept_cons_cons.2 ⟨?_, Sources.isKept_singleton _ _⟩⟩, ?_, ?_⟩
  · rfl
  · rfl
  · rfl

end DotStem

open DotStem in
/-- A stem that starts and ends with a dot, in a directory with a dot in its name. -/
theorem unitName_dotted_deep : ∃ files, scope.scan tree = .ok files ∧
    "/p/x.y/.a..ion" ∈ files ∧ IsSourcePath "/p" ["x.y"] ".a." "/p/x.y/.a..ion" ∧
      unitName "/p" "/p/x.y/.a..ion" = "x.y..a." ∧
      ∃ dirs stem, "/p/x.y/.a..ion" = Path.descend "/p" (dirs ++ [stem ++ ".ion"]) := by
  obtain ⟨hname, hfound⟩ := unitName_dotted "/p"
  obtain ⟨files, hscan⟩ := runs_scope.exists_scan
  have hfile : "/p/x.y/.a..ion" ∈ files :=
    (runs_scope.mem_iff hscan).2 ⟨_, rfl, isSourceBelow_deep⟩
  have hpath : IsSourcePath "/p" ["x.y"] ".a." "/p/x.y/.a..ion" :=
    isSourcePath_descend (by decide) (by decide) (by decide)
  obtain ⟨dirs, stem, _, hdescend, _⟩ :=
    hfound scope tree ["p"] files rfl runs_scope.isProper find_root hscan _ hfile
  exact ⟨files, hscan, hfile, hpath, (hname _ _ _ hpath).1 (by decide) (by decide),
    dirs, stem, hdescend⟩

open DotStem in
/-- **Units are not always called as they should be**: a scan finds the source `..ion`, whose unit
has no name of its own. -/
theorem unitName_not_always_dotted :
    ¬∀ (s : Scope) (fs : FileSystem) (start : Location) (files : List String), s.Runs fs start →
      s.scan fs = .ok files → ∀ file ∈ files, ∀ dirs stem, IsSourcePath s.root dirs stem file →
        unitName s.root file = ".".intercalate ((dirs ++ [stem]).map Raw.shown) := by
  intro hdotted
  obtain ⟨files, hscan⟩ := runs_scope.exists_scan
  have hfile : "/p/..ion" ∈ files := (runs_scope.mem_iff hscan).2 ⟨_, rfl, isSourceBelow_dot⟩
  have hpath : IsSourcePath "/p" [] "." "/p/..ion" :=
    isSourcePath_descend (by decide) (by decide) (by decide)
  have hname := hdotted scope tree ["p"] files runs_scope hscan _ hfile [] "." hpath
  exact absurd hname (by decide)

end Ingot.Compilation
