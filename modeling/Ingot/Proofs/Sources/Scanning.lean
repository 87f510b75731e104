import Ingot.Proofs.Sources.Walking
import Ingot.Sources.Scan

/-!
# What a scan finds

A scan whose walk meets no fault finds the sources below its root and nothing else
(`Scope.Runs.mem_iff`), in the order of paths and none of them twice (`Scope.Runs.pairwise`).
It finds the same ones **in whatever order the file system lists its entries**; all this
together is what is asked of a scan (`scan_exact`). Where there are no links, no walk meets a
fault (`runs_of_noLinks`). A directory is hidden if its name is a text that starts with a dot, and
not under a name that starts with one and is no text (`scan_not_always_exact`).
-/

namespace Ingot.FileSystem

variable {fs : FileSystem}

/-- A walk that follows all links does not end at one. -/
theorem walk_ne_link {links : ℕ} {at_ l : Location} {todo : List String} {n : Node}
    (h : fs.walk true links at_ todo = .ok (.found l n)) (target : String) : n ≠ .link target := by
  rintro rfl
  fun_induction walk fs true links at_ todo with
  | case2 links at_ rest ih => exact ih h
  | case3 links at_ rest ih => exact ih h
  | case7 links at_ name rest hdot hup hsize here hdir ih => exact ih h
  | case8 links at_ name rest hdot hup hsize here content permissions hfile hlast => simp at h
  | case10 links at_ name rest hdot hup hsize here target hlink hlast => simp at hlast
  | case13 at_ name rest hdot hup hsize here target hlink hlast links hempty ih => exact ih h
  | _ => cases h

theorem StandsFor.ne_link {at_ l : Location} {name : String} {n : Node}
    (h : fs.StandsFor at_ name l n) (target : String) : n ≠ .link target := by
  cases h with
  | itself _ hlink => exact hlink target
  | linked _ hwalk => exact walk_ne_link hwalk target

theorem Leads.ne_link {at_ l : Location} {names : List String} {n : Node}
    (h : fs.Leads at_ names l n) (target : String) : n ≠ .link target := by
  induction h with
  | last hstands => exact hstands.ne_link target
  | into _ _ ih => exact ih

/-- Where there are no links, names lead to what stands at the location that they name. -/
theorem leads_iff (htree : fs.IsTree) (hlinks : fs.NoLinks) {start l : Location}
    {names : List String} {n : Node} : fs.Leads start names l n ↔
      names ≠ [] ∧ l = start ++ names ∧ fs.node? l = some n := by
  have hstands : ∀ {at_ l : Location} {name : String} {n : Node}, fs.StandsFor at_ name l n →
      l = at_ ++ [name] ∧ fs.node? l = some n := by
    intro at_ l name n h
    cases h with
    | itself hn _ => exact ⟨rfl, hn⟩
    | linked hn _ => exact absurd hn (hlinks _ _)
  constructor
  · intro h
    induction h with
    | last h =>
      obtain ⟨rfl, hn⟩ := hstands h
      exact ⟨List.cons_ne_nil _ _, rfl, hn⟩
    | into h _ ih =>
      obtain ⟨rfl, _⟩ := hstands h
      obtain ⟨_, rfl, hn⟩ := ih
      exact ⟨List.cons_ne_nil _ _, by simp, hn⟩
  · rintro ⟨hne, rfl, hn⟩
    induction names generalizing start with
    | nil => exact absurd rfl hne
    | cons name more ih =>
      cases more with
      | nil => exact .last (.itself hn fun target htarget => hlinks _ target (htarget ▸ hn))
      | cons second more =>
        have hsplit : start ++ name :: second :: more = start ++ [name] ++ second :: more := by simp
        rw [hsplit] at hn ⊢
        have hdirectory := htree.node?_above (start ++ [name]) second
          (by rw [hn]; exact Option.some_ne_none _)
        exact .into (.itself hdirectory fun _ => Node.noConfusion) (ih (List.cons_ne_nil _ _) hn)

end Ingot.FileSystem

namespace Ingot.Sources

open FileSystem (Leads IsProper IsReordering NoLinks)

variable {fs fs' : FileSystem} {s : Scope} {start : Location} {names : List String}

theorem mapM_ok (entries : List Entry) :
    (entries.map Except.ok).mapM id = (.ok entries : Except WalkFault (List Entry)) := by
  induction entries with
  | nil => rfl
  | cons e entries ih =>
    rw [List.map_cons, List.mapM_cons, ih]
    rfl

namespace Scope

/-- A source below the root: a file with the right ending to which the names lead, through
directories that are neither hidden, under a text that starts with a dot, nor skipped, and which no
pattern leaves out. -/
structure IsSourceBelow (s : Scope) (fs : FileSystem) (start : Location) (names : List String) :
    Prop where
  isFile : ∃ l content permissions, fs.Leads start names l (.file content permissions)
  isEntered : ∀ dirs name more, names = dirs ++ name :: more → more ≠ [] →
    (∀ text, Raw.text? name = some text → text.toList.head? ≠ some '.') ∧
      ∀ skipped ∈ s.skipped, Path.same (Path.descend s.root (dirs ++ [name])) skipped = false
  hasEnding : Path.extension? (Path.descend s.root names) = some sourceEnding
  isWanted : ∀ pattern ∈ s.excluded,
    pattern.matchesPath ("/".intercalate (names.map Raw.shown)) = false

/-- The scan of a directory whose walk meets no fault. -/
structure Runs (s : Scope) (fs : FileSystem) (start : Location) : Prop where
  isProper : fs.IsProper
  isRoot : fs.find true s.root = .ok (start, .directory)
  noFault : ∀ fault, .error fault ∉ s.entries fs

/-! ### The conditions on a source -/

theorem isHidden_eq_false_iff {name : String} : isHidden name = false ↔
    ∀ text, Raw.text? name = some text → text.toList.head? ≠ some '.' := by
  unfold isHidden
  cases Raw.text? name with
  | none => simp
  | some text => simp

theorem leavesOut_eq_false_iff {name path : String} : s.leavesOut name path = false ↔
    (∀ text, Raw.text? name = some text → text.toList.head? ≠ some '.') ∧
      ∀ skipped ∈ s.skipped, Path.same path skipped = false := by
  rw [leavesOut, Bool.or_eq_false_iff, isHidden_eq_false_iff]
  refine and_congr_right fun _ => ?_
  cases s.skipped with
  | none => simp
  | some skipped => simp

theorem excludes_eq_false_iff (hroot : s.root ≠ "") (hnames : ∀ name ∈ names, Path.IsName name) :
    s.excludes (Path.descend s.root names) = false ↔
      ∀ pattern ∈ s.excluded,
        pattern.matchesPath ("/".intercalate (names.map Raw.shown)) = false := by
  have hname : s.nameOf (Path.descend s.root names) = "/".intercalate (names.map Raw.shown) := by
    rw [nameOf, Path.componentsBelow_descend hroot hnames, List.map_map]
    rfl
  rw [excludes, hname, List.any_eq_false]
  simp

theorem isSourceBelow_iff (hfs : fs.IsProper) (hroot : s.root ≠ "") :
    s.IsSourceBelow fs start names ↔ IsFileBelow fs s.leavesOut start s.root names ∧
      Path.extension? (Path.descend s.root names) = some sourceEnding ∧
      s.excludes (Path.descend s.root names) = false := by
  constructor
  · rintro ⟨⟨l, content, permissions, hleads⟩, hentered, hending, hwanted⟩
    refine ⟨⟨⟨l, _, hleads, rfl⟩, ?_⟩, hending, ?_⟩
    · intro dirs name more heq hmore
      exact leavesOut_eq_false_iff.2 (hentered dirs name more heq hmore)
    · exact (excludes_eq_false_iff hroot (hfs.isName_of_leads hleads)).2 hwanted
  · rintro ⟨⟨⟨l, n, hleads, hn⟩, hkept⟩, hending, hwanted⟩
    refine ⟨?_, ?_, hending, ?_⟩
    · cases n with
      | file content permissions => exact ⟨l, content, permissions, hleads⟩
      | directory => cases hn
      | link target => exact absurd rfl (hleads.ne_link target)
    · intro dirs name more heq hmore
      exact leavesOut_eq_false_iff.1 (hkept dirs name more heq hmore)
    · exact (excludes_eq_false_iff hroot (hfs.isName_of_leads hleads)).1 hwanted

/-! ### What is found -/

/-- The paths of the sources among what a walk comes by. -/
def pathsOf (s : Scope) (entries : List Entry) : List String :=
  ((entries.filter isSource).map Entry.path).filter fun path => !s.excludes path

theorem mem_pathsOf_iff {entries : List Entry} {path : String} :
    path ∈ s.pathsOf entries ↔ ⟨path, true⟩ ∈ entries ∧
      Path.extension? path = some sourceEnding ∧ s.excludes path = false := by
  simp only [pathsOf, List.mem_filter, List.mem_map, isSource, Bool.and_eq_true, beq_iff_eq,
    Bool.not_eq_true']
  constructor
  · rintro ⟨⟨⟨p, isFile⟩, ⟨hmem, rfl, hending⟩, rfl⟩, hwanted⟩
    exact ⟨hmem, hending, hwanted⟩
  · rintro ⟨hmem, hending, hwanted⟩
    exact ⟨⟨⟨path, true⟩, ⟨hmem, rfl, hending⟩, rfl⟩, hwanted⟩

theorem pairwise_pathsOf {entries : List Entry}
    (h : (entries.map fun e => Path.components e.path).Nodup) :
    (s.pathsOf entries).Pairwise fun p q => Path.components p ≠ Path.components q := by
  have hsources : (entries.filter isSource).Pairwise
      fun e e' => Path.components e.path ≠ Path.components e'.path :=
    (List.pairwise_map.1 h).filter _
  have hpaths : ((entries.filter isSource).map Entry.path).Pairwise
      fun p q => Path.components p ≠ Path.components q := List.pairwise_map.2 hsources
  exact hpaths.filter _

namespace Runs

theorem root_ne_empty (h : s.Runs fs start) : s.root ≠ "" := by
  intro hempty
  have hroot := h.isRoot
  rw [hempty] at hroot
  cases hroot

/-- What the walk comes by below the root, and what the scan makes of it. -/
theorem exists_inside (h : s.Runs fs start) : ∃ inside,
    Comes fs s.leavesOut start s.root (fs.namesIn start) inside ∧
      s.scan fs = .ok ((s.pathsOf inside).mergeSort Path.le) := by
  have hentries : s.entries fs =
      .ok ⟨s.root, false⟩ :: walkInside fs s.leavesOut [⟨start, s.root⟩] start s.root := by
    rw [entries, walk, h.isRoot]
  obtain ⟨inside, hinside, hcomes⟩ := exists_comes fun fault hmem =>
    h.noFault fault (hentries ▸ List.mem_cons_of_mem _ hmem)
  refine ⟨inside, hcomes, ?_⟩
  have hall : s.entries fs = (⟨s.root, false⟩ :: inside).map .ok := by
    rw [hentries, hinside, List.map_cons]
  rw [scan, hall, mapM_ok]
  rfl

theorem exists_scan (h : s.Runs fs start) : ∃ files, s.scan fs = .ok files := by
  obtain ⟨inside, _, hscan⟩ := h.exists_inside
  exact ⟨_, hscan⟩

/-- **A scan finds the sources below the root and nothing else.** -/
theorem mem_iff (h : s.Runs fs start) {files : List String} (hscan : s.scan fs = .ok files)
    {path : String} :
    path ∈ files ↔ ∃ names, path = Path.descend s.root names ∧ s.IsSourceBelow fs start names := by
  obtain ⟨inside, hcomes, hscan'⟩ := h.exists_inside
  rw [hscan] at hscan'
  cases hscan'
  rw [List.mem_mergeSort, mem_pathsOf_iff, hcomes.mem_iff]
  constructor
  · rintro ⟨⟨name, more, _, hfile, rfl⟩, hending, hwanted⟩
    exact ⟨_, rfl, (isSourceBelow_iff h.isProper h.root_ne_empty).2 ⟨hfile, hending, hwanted⟩⟩
  · rintro ⟨names, rfl, hsource⟩
    obtain ⟨hfile, hending, hwanted⟩ :=
      (isSourceBelow_iff h.isProper h.root_ne_empty).1 hsource
    cases names with
    | nil =>
      obtain ⟨⟨_, _, hleads, _⟩, _⟩ := hfile
      cases hleads
    | cons name more =>
      exact ⟨⟨name, more, mem_namesIn_of_isFileBelow hfile, hfile, rfl⟩, hending, hwanted⟩

/-- **A scan finds its files in the order of paths, and none of them twice.** -/
theorem pairwise (h : s.Runs fs start) {files : List String} (hscan : s.scan fs = .ok files) :
    files.Pairwise fun p q => Path.le p q = true ∧ Path.le q p = false := by
  obtain ⟨inside, hcomes, hscan'⟩ := h.exists_inside
  rw [hscan] at hscan'
  cases hscan'
  have hdistinct : (inside.map fun e => Path.components e.path).Nodup :=
    hcomes.nodup h.isProper h.root_ne_empty
      (fun _ hname => h.isProper.isName_of_mem_namesIn hname) (h.isProper.nodup_namesIn start)
  have hsorted : ((s.pathsOf inside).mergeSort Path.le).Pairwise fun p q => Path.le p q = true := by
    refine List.pairwise_mergeSort ?_ ?_ _
    · intro p q r hpq hqr
      exact Path.le_trans hpq hqr
    · intro p q
      exact Path.le_total p q
  have hperm := List.mergeSort_perm (s.pathsOf inside) Path.le
  have hapart := hperm.symm.pairwise (pairwise_pathsOf hdistinct) fun hne => Ne.symm hne
  refine (hsorted.and hapart).imp fun hboth => ⟨hboth.1, ?_⟩
  rw [Bool.eq_false_iff]
  exact fun hge => hboth.2 (Path.components_eq_of_le hboth.1 hge)

end Runs

/-- What comes of a scan that is not stopped needs a root. -/
theorem exists_find_of_scan {files : List String} (h : s.scan fs = .ok files) :
    ∃ l n, fs.find true s.root = .ok (l, n) := by
  cases hfind : fs.find true s.root with
  | error fault =>
    rw [scan, entries, walk, hfind] at h
    cases h
  | ok found => exact ⟨_, _, rfl⟩

theorem exists_map_of_forall {α β : Type} {f : β → α} {P : β → Prop} {xs : List α}
    (h : ∀ x ∈ xs, ∃ y, x = f y ∧ P y) : ∃ ys : List β, xs = ys.map f ∧ ∀ y ∈ ys, P y := by
  induction xs with
  | nil => exact ⟨[], rfl, List.forall_mem_nil _⟩
  | cons x xs ih =>
    obtain ⟨⟨y, rfl, hy⟩, hrest⟩ := List.forall_mem_cons.1 h
    obtain ⟨ys, rfl, hys⟩ := ih hrest
    exact ⟨y :: ys, rfl, List.forall_mem_cons.2 ⟨hy, hys⟩⟩

theorem Runs.isName (h : s.Runs fs start) (hsource : s.IsSourceBelow fs start names) :
    ∀ name ∈ names, Path.IsName name := by
  obtain ⟨_, _, _, hleads⟩ := hsource.isFile
  exact h.isProper.isName_of_leads hleads

/-- **Scans that ask for sources of the same names find them in the same order**, each below its
own root. -/
theorem Runs.scan_names {s' : Scope} {start' : Location} (h : s.Runs fs start)
    (h' : s'.Runs fs' start')
    (hsame : ∀ names, s'.IsSourceBelow fs' start' names ↔ s.IsSourceBelow fs start names) :
    ∃ rows : List (List String), s.scan fs = .ok (rows.map (Path.descend s.root)) ∧
      s'.scan fs' = .ok (rows.map (Path.descend s'.root)) ∧
        ∀ names ∈ rows, s.IsSourceBelow fs start names := by
  obtain ⟨files, hscan⟩ := h.exists_scan
  obtain ⟨files', hscan'⟩ := h'.exists_scan
  have hsorted := h.pairwise hscan
  have hsorted' := h'.pairwise hscan'
  obtain ⟨rows, rfl, hrows⟩ := exists_map_of_forall fun path hpath => (h.mem_iff hscan).1 hpath
  have hnames : ∀ names ∈ rows, ∀ name ∈ names, Path.IsName name := fun names hmem =>
    h.isName (hrows names hmem)
  have horder : (rows.map (Path.descend s'.root)).Pairwise
      fun p q => Path.le p q = true ∧ Path.le q p = false := by
    refine List.pairwise_map.2 ((List.pairwise_map.1 hsorted).imp_of_mem fun ha hb hab => ?_)
    rw [Path.le_descend h.root_ne_empty (hnames _ ha) (hnames _ hb),
      Path.le_descend h.root_ne_empty (hnames _ hb) (hnames _ ha)] at hab
    rwa [Path.le_descend h'.root_ne_empty (hnames _ ha) (hnames _ hb),
      Path.le_descend h'.root_ne_empty (hnames _ hb) (hnames _ ha)]
  have hmem : ∀ path, path ∈ files' ↔ path ∈ rows.map (Path.descend s'.root) := by
    intro path
    rw [h'.mem_iff hscan', List.mem_map]
    constructor
    · rintro ⟨names, rfl, hsource⟩
      have hfile := (h.mem_iff hscan).2 ⟨names, rfl, (hsame names).1 hsource⟩
      obtain ⟨row, hrow, hdescend⟩ := List.mem_map.1 hfile
      obtain rfl := Path.descend_injective h.root_ne_empty (hnames row hrow)
        (h'.isName hsource) hdescend
      exact ⟨row, hrow, rfl⟩
    · rintro ⟨names, hrow, rfl⟩
      exact ⟨names, rfl, (hsame names).2 (hrows names hrow)⟩
  have hne : ∀ {p q : String}, Path.le p q = true ∧ Path.le q p = false → p ≠ q := by
    rintro p _ ⟨hle, hge⟩ rfl
    rw [hle] at hge
    cases hge
  have hperm := (List.perm_ext_iff_of_nodup (hsorted'.imp hne) (horder.imp hne)).2 hmem
  refine ⟨rows, hscan, ?_, hrows⟩
  rw [hscan', hperm.eq_of_pairwise (fun p q _ _ hpq hqp => ?_) hsorted' horder]
  rw [hqp.1] at hpq
  cases hpq.2

/-- Scans of one directory that ask for the same sources find the same files. -/
theorem Runs.scan_eq {s' : Scope} (h : s.Runs fs start) (h' : s'.Runs fs' start)
    (hroot : s'.root = s.root)
    (hsame : ∀ names, s'.IsSourceBelow fs' start names ↔ s.IsSourceBelow fs start names) :
    s'.scan fs' = s.scan fs := by
  obtain ⟨rows, hscan, hscan', _⟩ := h.scan_names h' hsame
  rw [hscan, hscan', hroot]

/-- A scan does not depend on the order in which a file system lists its entries. -/
theorem scan_of_reordering (h : IsReordering fs fs') (hfs : fs.IsProper) :
    s.scan fs' = s.scan fs := by
  rw [scan, scan, entries, entries, walk_of_reordering h hfs]

/-- **A scan finds the sources below its root and nothing else, each once and in the order of
paths, in whatever order the file system lists its entries.** -/
theorem scan_exact (h : s.Runs fs start) : ∃ files, s.scan fs = .ok files ∧
    (∀ path, path ∈ files ↔
      ∃ names, path = Path.descend s.root names ∧ s.IsSourceBelow fs start names) ∧
    files.Pairwise (fun p q => Path.le p q = true ∧ Path.le q p = false) ∧
    ∀ fs', IsReordering fs fs' → s.scan fs' = .ok files := by
  obtain ⟨files, hscan⟩ := h.exists_scan
  refine ⟨files, hscan, fun path => h.mem_iff hscan, h.pairwise hscan, fun fs' hfs' => ?_⟩
  rw [scan_of_reordering hfs' h.isProper, hscan]

/-! ### Without links -/

/-- Where there are no links, no walk meets a fault. -/
theorem walkInside_of_noLinks (hfs : fs.NoLinks) (leaveOut : String → String → Bool)
    (ancestors : List Ancestor) (directory : Location) (path : String) (fault : WalkFault) :
    .error fault ∉ walkInside fs leaveOut ancestors directory path := by
  induction ancestors, directory, path using walkInside.induct fs with
  | case1 ancestors directory path ihinto ihlink =>
    rw [walkInside_eq, List.mem_flatMap]
    rintro ⟨name, _, hmem⟩
    unfold visit at hmem
    dsimp only at hmem
    split at hmem
    · cases hmem
    · cases List.mem_singleton.1 hmem
    · rename_i hn
      rw [enterAt] at hmem
      split at hmem
      · cases hmem
      · rcases List.mem_cons.1 hmem with heq | hmem
        · cases heq
        · exact ihinto name hn hmem
    · rename_i hn
      exact absurd hn (hfs _ _)

/-- Where there are no links, a source is a file right at the location that its names name. -/
theorem isSourceBelow_iff_node? (htree : fs.IsTree) (hlinks : fs.NoLinks) :
    s.IsSourceBelow fs start names ↔
      (names ≠ [] ∧ ∃ content permissions,
        fs.node? (start ++ names) = some (.file content permissions)) ∧
      (∀ dirs name more, names = dirs ++ name :: more → more ≠ [] →
        (∀ text, Raw.text? name = some text → text.toList.head? ≠ some '.') ∧
          ∀ skipped ∈ s.skipped, Path.same (Path.descend s.root (dirs ++ [name])) skipped = false) ∧
      Path.extension? (Path.descend s.root names) = some sourceEnding ∧
      ∀ pattern ∈ s.excluded,
        pattern.matchesPath ("/".intercalate (names.map Raw.shown)) = false := by
  constructor
  · rintro ⟨⟨l, content, permissions, hleads⟩, hentered, hending, hwanted⟩
    obtain ⟨hne, rfl, hnode⟩ := (FileSystem.leads_iff htree hlinks).1 hleads
    exact ⟨⟨hne, content, permissions, hnode⟩, hentered, hending, hwanted⟩
  · rintro ⟨⟨hne, content, permissions, hnode⟩, hentered, hending, hwanted⟩
    exact ⟨⟨_, content, permissions, (FileSystem.leads_iff htree hlinks).2 ⟨hne, rfl, hnode⟩⟩,
      hentered, hending, hwanted⟩

theorem runs_of_noLinks (hproper : fs.IsProper) (hfs : fs.NoLinks)
    (hroot : fs.find true s.root = .ok (start, .directory)) : s.Runs fs start := by
  refine ⟨hproper, hroot, fun fault hmem => ?_⟩
  rw [entries, walk, hroot] at hmem
  rcases List.mem_cons.1 hmem with heq | hmem
  · cases heq
  · exact walkInside_of_noLinks hfs _ _ _ _ _ hmem

theorem runs_of_isDirectory (hproper : fs.IsProper) (hfs : fs.NoLinks)
    (hroot : fs.isDirectory s.root = true) : s.Runs fs (fs.place s.root) :=
  runs_of_noLinks hproper hfs (FileSystem.find_of_isDirectory hfs hroot)

end Scope

namespace HiddenRoot

/-- A hidden directory with a hidden source and a hidden directory in it. -/
def files : FileSystem where
  nodes := [
    ([".p"], .directory),
    ([".p", ".h"], .directory),
    ([".p", ".h", "b.ion"], .file .empty .ordinary),
    ([".p", ".a.ion"], .file .empty .ordinary)]
  workingDirectory := []

/-- All sources in the hidden directory, which itself is to be skipped. -/
def scope : Scope := ⟨"/.p", some "/.p/", []⟩

theorem noLinks_files : files.NoLinks := by
  refine FileSystem.noLinks_of_hasNoLinks fun l target hmem => ?_
  simp [files] at hmem

theorem runs_scope : scope.Runs files [".p"] := by
  have hplace : files.place scope.root = [".p"] := rfl
  exact hplace ▸ Scope.runs_of_isDirectory (by decide) noLinks_files (by decide +kernel)

theorem isSourceBelow : scope.IsSourceBelow files [".p"] [".a.ion"] := by
  refine (Scope.isSourceBelow_iff runs_scope.isProper runs_scope.root_ne_empty).2
    ⟨⟨⟨_, _, .last (.itself rfl fun _ => nofun), rfl⟩, isKept_singleton _ _⟩, ?_, ?_⟩
  · rfl
  · rfl

end HiddenRoot

open HiddenRoot in
/-- In a hidden directory that is itself to be skipped, a hidden source is found, but not one in
a hidden directory. -/
theorem Scope.scan_exact_hidden : scope.Runs files [".p"] ∧
    ∃ found, scope.scan files = .ok found ∧ "/.p/.a.ion" ∈ found ∧ "/.p/.h/b.ion" ∉ found ∧
      found.Pairwise fun p q => Path.le p q = true ∧ Path.le q p = false := by
  obtain ⟨found, hscan, hmem, hsorted, _⟩ := Scope.scan_exact runs_scope
  refine ⟨runs_scope, found, hscan, ?_, fun hhidden => ?_, hsorted⟩
  · exact (hmem _).2 ⟨_, rfl, isSourceBelow⟩
  · obtain ⟨names, hpath, hsource⟩ := (hmem _).1 hhidden
    have hdescend : "/.p/.h/b.ion" = Path.descend scope.root [".h", "b.ion"] := rfl
    obtain ⟨_, _, _, hleads⟩ := hsource.isFile
    obtain rfl := Path.descend_injective runs_scope.root_ne_empty
      (runs_scope.isProper.isName_of_leads hleads) (by decide) (hpath.symm.trans hdescend)
    exact (hsource.isEntered [] ".h" ["b.ion"] rfl (by decide)).1 ".h"
      (Raw.text?_eq_self (by decide)) (by decide)

namespace StrayHidden

/-- The name of a directory that starts with a dot, but is no text. -/
def name : String := String.ofList ['.', Raw.strayOf 0xFF]

/-- A source in such a directory. -/
def files : FileSystem where
  nodes := [
    (["p"], .directory),
    (["p", name], .directory),
    (["p", name, "a.ion"], .file .empty .ordinary)]
  workingDirectory := []

/-- All sources in the package. -/
def scope : Scope := ⟨"/p", none, []⟩

theorem noLinks_files : files.NoLinks := by
  refine FileSystem.noLinks_of_hasNoLinks fun l target hmem => ?_
  simp [files] at hmem

/-- What is evaluated of the package: where it is, and that neither the directory nor the source is
left out. -/
theorem evaluated : files.IsProper ∧ files.isDirectory scope.root = true ∧
    scope.leavesOut name (Path.join scope.root name) = false ∧
      Path.extension? (Path.descend scope.root [name, "a.ion"]) = some sourceEnding ∧
        (Raw.bytes name).head? = some 0x2E := by
  decide +kernel

theorem runs_scope : scope.Runs files ["p"] := by
  obtain ⟨hproper, hroot, -⟩ := evaluated
  have hplace : files.place scope.root = ["p"] := rfl
  exact hplace ▸ Scope.runs_of_isDirectory hproper noLinks_files hroot

theorem isSourceBelow : scope.IsSourceBelow files ["p"] [name, "a.ion"] := by
  obtain ⟨-, -, hentered, hending, -⟩ := evaluated
  have hleads : files.Leads ["p"] [name, "a.ion"] _ _ :=
    .into (.itself rfl fun _ => nofun) (.last (.itself rfl fun _ => nofun))
  exact (Scope.isSourceBelow_iff runs_scope.isProper runs_scope.root_ne_empty).2
    ⟨⟨⟨_, _, hleads, rfl⟩, isKept_cons_cons.2 ⟨hentered, isKept_singleton _ _⟩⟩, hending, rfl⟩

end StrayHidden

open StrayHidden in
/-- **A scan does enter some directories whose names start with a dot**: where the name is no text,
it is not taken for hidden, so a source below such a directory is found. -/
theorem Scope.scan_not_always_exact :
    ¬∀ (s : Scope) (fs : FileSystem) (start : Location) (found : List String), s.Runs fs start →
      s.scan fs = .ok found → ∀ dirs name more,
      Path.descend s.root (dirs ++ name :: more) ∈ found → more ≠ [] →
      (Raw.bytes name).head? ≠ some 0x2E := by
  intro hexact
  obtain ⟨found, hscan⟩ := runs_scope.exists_scan
  have hfound : Path.descend scope.root [name, "a.ion"] ∈ found :=
    (runs_scope.mem_iff hscan).2 ⟨_, rfl, isSourceBelow⟩
  obtain ⟨-, -, -, -, hdot⟩ := evaluated
  exact hexact _ _ _ _ runs_scope hscan [] name ["a.ion"] hfound (List.cons_ne_nil _ _) hdot

end Ingot.Sources
