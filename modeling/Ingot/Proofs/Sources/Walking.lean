import Ingot.Proofs.FileSystem.Entries

/-!
# What a walk comes by

A walk that meets no fault is told by the directory tree alone (`Comes`): it comes by the names
in a directory one after the other, and where a name stands for a directory that is not left
out, by what is in that directory as well. So **the files it comes by are those that names lead
to through directories that are not left out** (`Comes.mem_iff`), it comes by nothing twice
(`Comes.nodup`), and the order in which the file system lists its entries does not matter
(`walk_of_reordering`).
-/

namespace Ingot.Sources

open FileSystem (StandsFor Leads IsProper IsReordering mem_namesIn_iff isDirectory_iff)

variable {fs fs' : FileSystem} {leaveOut : String → String → Bool}

/-! ### One name -/

/-- What a walk comes by in a directory that it may enter. -/
def enterAt (fs : FileSystem) (leaveOut : String → String → Bool) (ancestors : List Ancestor)
    (name here : String) (l : Location) : List (Except WalkFault Entry) :=
  if leaveOut name here then []
  else .ok ⟨here, false⟩ :: walkInside fs leaveOut (⟨l, here⟩ :: ancestors) l here

/-- What a walk comes by under a name in a directory. -/
def visit (fs : FileSystem) (leaveOut : String → String → Bool) (ancestors : List Ancestor)
    (directory : Location) (path name : String) : List (Except WalkFault Entry) :=
  let here := Path.join path name
  match fs.node? (directory ++ [name]) with
  | none => []
  | some (.file _ _) => [.ok ⟨here, true⟩]
  | some .directory => enterAt fs leaveOut ancestors name here (directory ++ [name])
  | some (.link _) =>
    match fs.walk true FileSystem.linkLimit directory [name] with
    | .error fault => [.error (.unreadable here fault)]
    | .ok (.vacant _) => [.error (.unreadable here .notFound)]
    | .ok (.found l n) =>
      if n.isDirectory then
        match ancestors.find? fun a => a.location == l with
        | some ancestor => [.error (.circle here ancestor.path)]
        | none =>
          if (locations fs).contains l then enterAt fs leaveOut ancestors name here l
          else [.error (.unreadable here .notFound)]
      else [.ok ⟨here, true⟩]

theorem forall_ne_of_find? {ancestors : List Ancestor} {l : Location}
    (h : ancestors.find? (fun a => a.location == l) = none) : ∀ a ∈ ancestors, a.location ≠ l := by
  intro a ha
  simpa using List.find?_eq_none.1 h a ha

/-- Following a link to a directory leads in a circle, into the directory, or nowhere. -/
theorem followLink_of_directory {ancestors : List Ancestor} {directory l : Location}
    {name here : String} {n : Node}
    (hwalk : fs.walk true FileSystem.linkLimit directory [name] = .ok (.found l n))
    (hn : n.isDirectory = true) :
    (∃ a, ancestors.find? (fun a => a.location == l) = some a ∧
        followLink fs ancestors directory name here = .fault (.circle here a.path)) ∨
      (ancestors.find? (fun a => a.location == l) = none ∧ ∃ hl hnew,
        followLink fs ancestors directory name here = .enter l hl hnew) ∨
      (ancestors.find? (fun a => a.location == l) = none ∧ l ∉ locations fs ∧
        followLink fs ancestors directory name here = .fault (.unreadable here .notFound)) := by
  unfold followLink
  rw [hwalk]
  dsimp only
  rw [if_pos hn]
  split
  · rename_i a hfind
    exact .inl ⟨a, hfind, rfl⟩
  · rename_i hfind
    split
    · rename_i hl
      exact .inr (.inl ⟨hfind, hl, forall_ne_of_find? hfind, rfl⟩)
    · rename_i hl
      exact .inr (.inr ⟨hfind, hl, rfl⟩)

theorem walkInside_eq (ancestors : List Ancestor) (directory : Location) (path : String) :
    walkInside fs leaveOut ancestors directory path =
      (fs.namesIn directory).flatMap (visit fs leaveOut ancestors directory path) := by
  rw [walkInside]
  refine congrArg (List.flatMap · (fs.namesIn directory)) (funext fun name => ?_)
  unfold visit
  dsimp only
  split
  · rename_i hn
    rw [hn]
  · rename_i hn
    rw [hn]
  · rename_i hn
    rw [hn]
    rfl
  · rename_i hn
    rw [hn]
    dsimp only
    cases hwalk : fs.walk true FileSystem.linkLimit directory [name] with
    | error fault => simp [followLink, hwalk]
    | ok spot =>
      cases spot with
      | vacant l => simp [followLink, hwalk]
      | found l n =>
        dsimp only
        by_cases hd : n.isDirectory = true
        · rw [if_pos hd]
          rcases followLink_of_directory hwalk hd with ⟨a, hfind, hlink⟩ |
            ⟨hfind, hl, hnew, hlink⟩ | ⟨hfind, hl, hlink⟩
          · rw [hlink, hfind]
          · rw [hlink, hfind]
            exact (if_pos (List.contains_iff_mem.2 hl)).symm
          · rw [hlink, hfind]
            exact (if_neg (mt List.contains_iff_mem.1 hl)).symm
        · simp [followLink, hwalk, hd]

/-! ### Walks without faults -/

/-- What a walk without faults comes by under the given names in a directory. -/
inductive Comes (fs : FileSystem) (leaveOut : String → String → Bool) :
    Location → String → List String → List Entry → Prop where
  /-- No name is left. -/
  | done {directory : Location} {path : String} : Comes fs leaveOut directory path [] []
  /-- A file. -/
  | file {directory l : Location} {path name : String} {names : List String} {n : Node}
      {entries : List Entry} :
      fs.StandsFor directory name l n → n.isDirectory = false →
      Comes fs leaveOut directory path names entries →
      Comes fs leaveOut directory path (name :: names) (⟨Path.join path name, true⟩ :: entries)
  /-- A directory that is left out. -/
  | leftOut {directory l : Location} {path name : String} {names : List String}
      {entries : List Entry} :
      fs.StandsFor directory name l .directory → leaveOut name (Path.join path name) = true →
      Comes fs leaveOut directory path names entries →
      Comes fs leaveOut directory path (name :: names) entries
  /-- A directory that is entered. -/
  | entered {directory l : Location} {path name : String} {names : List String}
      {inside entries : List Entry} :
      fs.StandsFor directory name l .directory → leaveOut name (Path.join path name) = false →
      Comes fs leaveOut l (Path.join path name) (fs.namesIn l) inside →
      Comes fs leaveOut directory path names entries →
      Comes fs leaveOut directory path (name :: names)
        (⟨Path.join path name, false⟩ :: (inside ++ entries))

/-- The directory of a name in a directory, or one that a link leads to and that the walk is not
in. -/
def MayEnter (fs : FileSystem) (ancestors : List Ancestor) (directory : Location) (name : String)
    (l : Location) : Prop :=
  (fs.node? l = some .directory ∧ l = directory ++ [name]) ∨
    (l ∈ locations fs ∧ ∀ a ∈ ancestors, a.location ≠ l)

/-- What a name without a fault stands for, and what the walk comes by there. -/
theorem visit_cases {ancestors : List Ancestor} {directory : Location} {path name : String}
    (hname : name ∈ fs.namesIn directory)
    (h : ∀ fault, .error fault ∉ visit fs leaveOut ancestors directory path name) :
    (∃ l n, fs.StandsFor directory name l n ∧ n.isDirectory = false ∧
        visit fs leaveOut ancestors directory path name = [.ok ⟨Path.join path name, true⟩]) ∨
      ∃ l, fs.StandsFor directory name l .directory ∧
        visit fs leaveOut ancestors directory path name =
          enterAt fs leaveOut ancestors name (Path.join path name) l ∧
        MayEnter fs ancestors directory name l := by
  unfold visit at h ⊢
  dsimp only at h ⊢
  split at h
  · rename_i hn
    exact absurd hn (mem_namesIn_iff.1 hname)
  · rename_i hn
    exact .inl ⟨_, _, .itself hn fun _ => Node.noConfusion, rfl, rfl⟩
  · rename_i hn
    exact .inr ⟨_, .itself hn fun _ => Node.noConfusion, rfl, .inl ⟨hn, rfl⟩⟩
  · rename_i hn
    split at h
    · exact absurd List.mem_cons_self (h _)
    · exact absurd List.mem_cons_self (h _)
    · rename_i l n hwalk
      split at h
      · rename_i hd
        obtain rfl := isDirectory_iff.1 hd
        split at h
        · exact absurd List.mem_cons_self (h _)
        · rename_i hfind
          split at h
          · rename_i hl
            exact .inr ⟨l, .linked hn hwalk, (if_pos hd).trans (if_pos hl),
              .inr ⟨List.contains_iff_mem.1 hl, forall_ne_of_find? hfind⟩⟩
          · exact absurd List.mem_cons_self (h _)
      · rename_i hd
        exact .inl ⟨l, n, .linked hn hwalk, by simpa using hd, if_neg hd⟩

theorem comes_under {ancestors : List Ancestor} {directory : Location} {path : String}
    {names : List String} (hnames : ∀ name ∈ names, name ∈ fs.namesIn directory)
    (hinside : ∀ name l, fs.StandsFor directory name l .directory →
      MayEnter fs ancestors directory name l →
      (∀ fault, .error fault ∉
        walkInside fs leaveOut (⟨l, Path.join path name⟩ :: ancestors) l (Path.join path name)) →
      ∃ inside, walkInside fs leaveOut (⟨l, Path.join path name⟩ :: ancestors) l
          (Path.join path name) = inside.map .ok ∧
        Comes fs leaveOut l (Path.join path name) (fs.namesIn l) inside)
    (h : ∀ fault, .error fault ∉ names.flatMap (visit fs leaveOut ancestors directory path)) :
    ∃ entries, names.flatMap (visit fs leaveOut ancestors directory path) = entries.map .ok ∧
      Comes fs leaveOut directory path names entries := by
  induction names with
  | nil => exact ⟨[], rfl, .done⟩
  | cons name names ih =>
    obtain ⟨hname, hnames⟩ := List.forall_mem_cons.1 hnames
    rw [List.flatMap_cons] at h ⊢
    obtain ⟨entries, hentries, hcomes⟩ := ih hnames fun fault hmem =>
      h fault (List.mem_append_right _ hmem)
    have hfirst : ∀ fault, .error fault ∉ visit fs leaveOut ancestors directory path name :=
      fun fault hmem => h fault (List.mem_append_left _ hmem)
    rw [hentries]
    rcases visit_cases hname hfirst with ⟨l, n, hstands, hn, hvisit⟩ | ⟨l, hstands, hvisit, hl⟩
    · rw [hvisit]
      exact ⟨_ :: entries, rfl, .file hstands hn hcomes⟩
    · rw [hvisit, enterAt] at hfirst ⊢
      cases hleave : leaveOut name (Path.join path name) with
      | true => exact ⟨entries, by simp, .leftOut hstands hleave hcomes⟩
      | false =>
        rw [hleave, if_neg Bool.false_ne_true] at hfirst
        obtain ⟨inside, hwalk, hinner⟩ := hinside name l hstands hl fun fault hmem =>
          hfirst fault (List.mem_cons_of_mem _ hmem)
        exact ⟨⟨Path.join path name, false⟩ :: (inside ++ entries), by simp [hwalk],
          .entered hstands hleave hinner hcomes⟩

/-- **A walk without faults is told by the tree alone.** -/
theorem exists_comes {ancestors : List Ancestor} {directory : Location} {path : String}
    (h : ∀ fault, .error fault ∉ walkInside fs leaveOut ancestors directory path) :
    ∃ entries, walkInside fs leaveOut ancestors directory path = entries.map .ok ∧
      Comes fs leaveOut directory path (fs.namesIn directory) entries := by
  induction ancestors, directory, path using walkInside.induct fs with
  | case1 ancestors directory path ihinto ihlink =>
    rw [walkInside_eq] at h ⊢
    refine comes_under (fun _ hname => hname) (fun name l hstands hl hfault => ?_) h
    rcases hl with ⟨hnode, rfl⟩ | ⟨hl, hnew⟩
    · exact ihinto name hnode hfault
    · exact ihlink name l hl hnew hfault

/-! ### What is come by -/

/-- No directory on the way of names behind a path is left out. -/
def IsKept (leaveOut : String → String → Bool) (path : String) (names : List String) : Prop :=
  ∀ dirs name more, names = dirs ++ name :: more → more ≠ [] →
    leaveOut name (Path.descend path (dirs ++ [name])) = false

theorem isKept_singleton (path name : String) : IsKept leaveOut path [name] := by
  intro dirs name' more h hmore
  cases dirs with
  | nil => exact absurd (List.cons.inj h).2.symm hmore
  | cons first dirs =>
    obtain ⟨_, h⟩ := List.cons.inj h
    simp at h

theorem isKept_cons_cons {path name second : String} {more : List String} :
    IsKept leaveOut path (name :: second :: more) ↔
      leaveOut name (Path.join path name) = false ∧
        IsKept leaveOut (Path.join path name) (second :: more) := by
  constructor
  · intro h
    refine ⟨h [] name (second :: more) rfl (List.cons_ne_nil _ _), ?_⟩
    intro dirs name' more' heq hmore
    exact h (name :: dirs) name' more' (by rw [heq]; rfl) hmore
  · rintro ⟨hfirst, hrest⟩ dirs name' more' heq hmore
    cases dirs with
    | nil =>
      obtain ⟨rfl, _⟩ := List.cons.inj heq
      exact hfirst
    | cons first dirs =>
      rw [List.cons_append] at heq
      obtain ⟨rfl, htail⟩ := List.cons.inj heq
      exact hrest dirs name' more' htail hmore

/-- A file below a directory that is not left out, by the names that lead to it. -/
def IsFileBelow (fs : FileSystem) (leaveOut : String → String → Bool) (directory : Location)
    (path : String) (names : List String) : Prop :=
  (∃ l n, fs.Leads directory names l n ∧ n.isDirectory = false) ∧ IsKept leaveOut path names

theorem isFileBelow_file {directory l : Location} {path name : String} {more : List String}
    {n : Node} (hstands : fs.StandsFor directory name l n) (hn : n.isDirectory = false) :
    IsFileBelow fs leaveOut directory path (name :: more) ↔ more = [] := by
  constructor
  · rintro ⟨⟨l', n', hleads, _⟩, _⟩
    cases hleads with
    | last _ => rfl
    | into hstands' _ =>
      obtain ⟨_, rfl⟩ := hstands.unique hstands'
      cases hn
  · rintro rfl
    exact ⟨⟨l, n, .last hstands, hn⟩, isKept_singleton path name⟩

theorem isFileBelow_directory {directory l : Location} {path name : String} {more : List String}
    (hstands : fs.StandsFor directory name l .directory) :
    IsFileBelow fs leaveOut directory path (name :: more) ↔
      leaveOut name (Path.join path name) = false ∧
        IsFileBelow fs leaveOut l (Path.join path name) more := by
  constructor
  · rintro ⟨⟨l', n, hleads, hn⟩, hkept⟩
    cases hleads with
    | last hstands' =>
      obtain ⟨_, rfl⟩ := hstands.unique hstands'
      cases hn
    | into hstands' hleads =>
      obtain ⟨rfl, _⟩ := hstands.unique hstands'
      obtain ⟨hfirst, hrest⟩ := isKept_cons_cons.1 hkept
      exact ⟨hfirst, ⟨l', n, hleads, hn⟩, hrest⟩
  · rintro ⟨hfirst, ⟨l', n, hleads, hn⟩, hrest⟩
    cases more with
    | nil => cases hleads
    | cons second more =>
      exact ⟨⟨l', n, .into hstands hleads, hn⟩, isKept_cons_cons.2 ⟨hfirst, hrest⟩⟩

theorem mem_namesIn_of_isFileBelow {directory : Location} {path name : String}
    {more : List String} (h : IsFileBelow fs leaveOut directory path (name :: more)) :
    name ∈ fs.namesIn directory := by
  obtain ⟨⟨l, n, hleads, _⟩, _⟩ := h
  cases hleads with
  | last hstands => exact mem_namesIn_iff.2 hstands.node?
  | into hstands _ => exact mem_namesIn_iff.2 hstands.node?

/-- **The files that a walk comes by are those below the directory that no directory left out is
on the way to.** -/
theorem Comes.mem_iff {directory : Location} {path : String} {names : List String}
    {entries : List Entry} (h : Comes fs leaveOut directory path names entries) {p : String} :
    ⟨p, true⟩ ∈ entries ↔ ∃ name more, name ∈ names ∧
      IsFileBelow fs leaveOut directory path (name :: more) ∧
        p = Path.descend path (name :: more) := by
  induction h with
  | done => simp
  | @file directory l path name names n entries hstands hn _ ih =>
    rw [List.mem_cons, ih]
    constructor
    · rintro (heq | ⟨name', more, hname, hrest⟩)
      · cases heq
        exact ⟨name, [], List.mem_cons_self, (isFileBelow_file hstands hn).2 rfl, rfl⟩
      · exact ⟨name', more, List.mem_cons_of_mem _ hname, hrest⟩
    · rintro ⟨name', more, hname, hfile, rfl⟩
      rcases List.mem_cons.1 hname with rfl | hname
      · obtain rfl := (isFileBelow_file hstands hn).1 hfile
        exact .inl rfl
      · exact .inr ⟨name', more, hname, hfile, rfl⟩
  | @leftOut directory l path name names entries hstands hleave _ ih =>
    rw [ih]
    constructor
    · rintro ⟨name', more, hname, hrest⟩
      exact ⟨name', more, List.mem_cons_of_mem _ hname, hrest⟩
    · rintro ⟨name', more, hname, hfile, rfl⟩
      rcases List.mem_cons.1 hname with rfl | hname
      · rw [isFileBelow_directory hstands, hleave] at hfile
        cases hfile.1
      · exact ⟨name', more, hname, hfile, rfl⟩
  | @entered directory l path name names inside entries hstands hleave _ _ ihinside ih =>
    rw [List.mem_cons, List.mem_append, ihinside, ih]
    constructor
    · rintro (heq | ⟨second, more, _, hfile, rfl⟩ | ⟨name', more, hname, hrest⟩)
      · cases heq
      · exact ⟨name, second :: more, List.mem_cons_self,
          (isFileBelow_directory hstands).2 ⟨hleave, hfile⟩, rfl⟩
      · exact ⟨name', more, List.mem_cons_of_mem _ hname, hrest⟩
    · rintro ⟨name', more, hname, hfile, rfl⟩
      rcases List.mem_cons.1 hname with rfl | hname
      · obtain ⟨_, hfile⟩ := (isFileBelow_directory hstands).1 hfile
        cases more with
        | nil =>
          obtain ⟨⟨_, _, hleads, _⟩, _⟩ := hfile
          cases hleads
        | cons second more =>
          exact .inr (.inl ⟨second, more, mem_namesIn_of_isFileBelow hfile, hfile, rfl⟩)
      · exact .inr (.inr ⟨name', more, hname, hfile, rfl⟩)

/-! ### Nothing twice -/

/-- What is come by under a name lies below the path of that name. -/
theorem Comes.exists_components (hfs : fs.IsProper) {directory : Location} {path : String}
    {names : List String} {entries : List Entry} (hpath : path ≠ "")
    (hnames : ∀ name ∈ names, Path.IsName name)
    (h : Comes fs leaveOut directory path names entries) : ∀ e ∈ entries, ∃ name ∈ names, ∃ more,
      Path.components e.path = Path.components path ++ .name name :: more := by
  induction h with
  | done => simp
  | file _ _ _ ih =>
    obtain ⟨hname, hnames⟩ := List.forall_mem_cons.1 hnames
    refine List.forall_mem_cons.2 ⟨?_, fun e he => ?_⟩
    · exact ⟨_, List.mem_cons_self, [], Path.components_join hpath hname⟩
    · obtain ⟨name, hmem, more, hmore⟩ := ih hpath hnames e he
      exact ⟨name, List.mem_cons_of_mem _ hmem, more, hmore⟩
  | leftOut _ _ _ ih =>
    intro e he
    obtain ⟨name, hmem, more, hmore⟩ := ih hpath (List.forall_mem_cons.1 hnames).2 e he
    exact ⟨name, List.mem_cons_of_mem _ hmem, more, hmore⟩
  | entered _ _ _ _ ihinside ih =>
    obtain ⟨hname, hnames⟩ := List.forall_mem_cons.1 hnames
    refine List.forall_mem_cons.2 ⟨?_, fun e he => ?_⟩
    · exact ⟨_, List.mem_cons_self, [], Path.components_join hpath hname⟩
    · rcases List.mem_append.1 he with he | he
      · obtain ⟨second, _, more, hmore⟩ := ihinside (Path.join_ne_empty hpath hname.toIsLeaf)
          (fun _ hsecond => hfs.isName_of_mem_namesIn hsecond) e he
        refine ⟨_, List.mem_cons_self, .name second :: more, ?_⟩
        rw [hmore, Path.components_join hpath hname, List.append_assoc]
        rfl
      · obtain ⟨name, hmem, more, hmore⟩ := ih hpath hnames e he
        exact ⟨name, List.mem_cons_of_mem _ hmem, more, hmore⟩

theorem Comes.not_mem_components (hfs : fs.IsProper) {directory : Location} {path name : String}
    {names : List String} {entries : List Entry} (hpath : path ≠ "")
    (hnames : ∀ name ∈ names, Path.IsName name)
    (h : Comes fs leaveOut directory path names entries) (hname : name ∉ names)
    (more : List Path.Component) :
    Path.components path ++ .name name :: more ∉ entries.map fun e => Path.components e.path := by
  intro hmem
  obtain ⟨e, he, heq⟩ := List.mem_map.1 hmem
  obtain ⟨name', hname', more', hmore'⟩ := h.exists_components hfs hpath hnames e he
  rw [hmore'] at heq
  obtain ⟨hsame, _⟩ := List.cons.inj (List.append_cancel_left heq)
  cases hsame
  exact hname hname'

/-- **A walk comes by nothing twice**, not even by another way to write its path. -/
theorem Comes.nodup (hfs : fs.IsProper) {directory : Location} {path : String}
    {names : List String} {entries : List Entry} (hpath : path ≠ "")
    (hnames : ∀ name ∈ names, Path.IsName name) (hnodup : names.Nodup)
    (h : Comes fs leaveOut directory path names entries) :
    (entries.map fun e => Path.components e.path).Nodup := by
  induction h with
  | done => simp
  | file _ _ hrest ih =>
    obtain ⟨hname, hnames⟩ := List.forall_mem_cons.1 hnames
    obtain ⟨hfirst, hnodup⟩ := List.nodup_cons.1 hnodup
    rw [List.map_cons, List.nodup_cons, Path.components_join hpath hname]
    exact ⟨hrest.not_mem_components hfs hpath hnames hfirst [], ih hpath hnames hnodup⟩
  | leftOut _ _ _ ih =>
    exact ih hpath (List.forall_mem_cons.1 hnames).2 (List.nodup_cons.1 hnodup).2
  | @entered directory l path name names inside entries _ _ hinside hrest ihinside ih =>
    obtain ⟨hname, hnames⟩ := List.forall_mem_cons.1 hnames
    obtain ⟨hfirst, hnodup⟩ := List.nodup_cons.1 hnodup
    have hhere := Path.join_ne_empty hpath hname.toIsLeaf
    have hproper : ∀ second ∈ fs.namesIn l, Path.IsName second :=
      fun _ hsecond => hfs.isName_of_mem_namesIn hsecond
    -- what is inside has a name behind that of the directory, so it is not the directory itself
    have hbehind : ∀ e ∈ inside, ∃ second more, Path.components e.path =
        Path.components path ++ .name name :: .name second :: more := by
      intro e he
      obtain ⟨second, _, more, hmore⟩ := hinside.exists_components hfs hhere hproper e he
      refine ⟨second, more, ?_⟩
      rw [hmore, Path.components_join hpath hname, List.append_assoc]
      rfl
    rw [List.map_cons, List.map_append, List.nodup_cons, List.nodup_append,
      Path.components_join hpath hname]
    refine ⟨fun hmem => ?_, ihinside hhere hproper (hfs.nodup_namesIn l), ih hpath hnames hnodup,
      ?_⟩
    · rcases List.mem_append.1 hmem with hmem | hmem
      · obtain ⟨e, he, heq⟩ := List.mem_map.1 hmem
        obtain ⟨second, more, hmore⟩ := hbehind e he
        rw [hmore] at heq
        simpa using List.append_cancel_left heq
      · exact hrest.not_mem_components hfs hpath hnames hfirst [] hmem
    · rintro _ hin _ hout rfl
      obtain ⟨e, he, heq⟩ := List.mem_map.1 hin
      obtain ⟨second, more, hmore⟩ := hbehind e he
      rw [← heq, hmore] at hout
      exact hrest.not_mem_components hfs hpath hnames hfirst _ hout

/-! ### Entries in another order -/

theorem visit_of_reordering (h : IsReordering fs fs') (hfs : fs.IsProper)
    (ancestors : List Ancestor) (directory : Location) (path name : String)
    (hinside : ∀ l, MayEnter fs ancestors directory name l →
      walkInside fs' leaveOut (⟨l, Path.join path name⟩ :: ancestors) l (Path.join path name) =
        walkInside fs leaveOut (⟨l, Path.join path name⟩ :: ancestors) l (Path.join path name)) :
    visit fs' leaveOut ancestors directory path name =
      visit fs leaveOut ancestors directory path name := by
  unfold visit
  rw [h.node? hfs, FileSystem.walk_congr (h.node? hfs)]
  dsimp only [enterAt]
  split
  · rfl
  · rfl
  · rename_i hn
    rw [hinside _ (.inl ⟨hn, rfl⟩)]
  · split
    · rfl
    · rfl
    · split
      · split
        · rfl
        · rename_i hfind
          simp only [List.contains_iff_mem, h.mem_locations]
          split
          · rename_i hl
            rw [hinside _ (.inr ⟨hl, forall_ne_of_find? hfind⟩)]
          · rfl
      · rfl

theorem walkInside_of_reordering (h : IsReordering fs fs') (hfs : fs.IsProper)
    (ancestors : List Ancestor) (directory : Location) (path : String) :
    walkInside fs' leaveOut ancestors directory path =
      walkInside fs leaveOut ancestors directory path := by
  induction ancestors, directory, path using walkInside.induct fs with
  | case1 ancestors directory path ihinto ihlink =>
    rw [walkInside_eq, walkInside_eq, h.namesIn]
    refine congrArg (List.flatMap · (fs.namesIn directory)) (funext fun name => ?_)
    refine visit_of_reordering h hfs _ _ _ _ fun l hl => ?_
    rcases hl with ⟨hnode, rfl⟩ | ⟨hl, hnew⟩
    · exact ihinto name hnode
    · exact ihlink name l hl hnew

/-- **A walk does not depend on the order in which a file system lists its entries.** -/
theorem walk_of_reordering (h : IsReordering fs fs') (hfs : fs.IsProper) (path : String) :
    walk fs' leaveOut path = walk fs leaveOut path := by
  unfold walk
  rw [h.find hfs]
  split
  · rfl
  · rw [walkInside_of_reordering h hfs]
  · rfl

end Ingot.Sources
