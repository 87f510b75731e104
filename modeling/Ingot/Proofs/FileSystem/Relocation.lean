import Mathlib.Data.List.Nodup
import Ingot.Proofs.FileSystem.Steps

/-!
# The same tree in two places

Two file systems hold the same tree below two locations (`SameTree`). A path below the one location
and the path that leads the same way from the other end alike, as long as the way stays below them
and the system takes both paths or neither (`SameWay`): **what is found and read is the same, and
what is written or made leaves the same tree again** (`SameTree.writeBytes`,
`SameTree.ensureDirectory`).
-/

namespace Ingot.FileSystem

variable {fs fs' : FileSystem} {l l' : Location}

/-! ### The same way -/

/-- Steps that lead the same way from two locations: they are relative and stay below them, and
the system takes both paths or neither. -/
structure SameWay (l l' : Location) (steps : List String) : Prop where
  relative : ∀ s ∈ steps, Path.isAbsolute s = false
  stays : StaysBelow [] (steps.flatMap Path.segments)
  checked : checkPath (Path.descend l'.path steps) = checkPath (Path.descend l.path steps)

/-- Two paths that lead the same way, each from its own location. -/
def Counterpart (l l' : Location) (p p' : String) : Prop :=
  ∃ steps, (∀ s ∈ steps, Path.isAbsolute s = false) ∧ p = Path.descend l.path steps ∧
    p' = Path.descend l'.path steps

theorem SameWay.counterpart {steps : List String} (h : SameWay l l' steps) :
    Counterpart l l' (Path.descend l.path steps) (Path.descend l'.path steps) :=
  ⟨steps, h.relative, rfl, rfl⟩

theorem SameWay.of_staysInside {path : String} (h : StaysInside path)
    (hcheck : checkPath (Path.descend l'.path [path]) = checkPath (Path.descend l.path [path])) :
    SameWay l l' [path] :=
  ⟨List.forall_mem_singleton.2 h.relative, by simpa using h.stays, hcheck⟩

theorem SameWay.behind {path name : String} (h : StaysInside path) (hleaf : Path.IsLeaf name)
    (hup : name ≠ "..") (hcheck : checkPath (Path.descend l'.path [path, name]) =
      checkPath (Path.descend l.path [path, name])) : SameWay l l' [path, name] := by
  refine ⟨?_, ?_, hcheck⟩
  · intro s hs
    rcases List.mem_pair.1 hs with rfl | rfl
    · exact h.relative
    · exact Path.not_isAbsolute_of_noSlash hleaf.noSlash
  · have hname : ".." ∉ [name] := fun hmem => hup (List.mem_singleton.1 hmem).symm
    simpa [Path.segments_of_isLeaf hleaf] using
      staysBelow_append.2 ⟨h.stays, staysBelow_of_noUp hname⟩

/-- Names lead the same way if the system takes both paths or neither. -/
theorem SameWay.of_isLeaf {names : List String} (h : ∀ name ∈ names, Path.IsLeaf name)
    (hstays : StaysBelow [] names)
    (hcheck : checkPath (Path.descend l'.path names) = checkPath (Path.descend l.path names)) :
    SameWay l l' names :=
  ⟨fun name hname => Path.not_isAbsolute_of_noSlash (h name hname).noSlash,
    by rwa [Path.flatMap_segments h], hcheck⟩

theorem SameWay.of_isName {names : List String} (h : ∀ name ∈ names, Path.IsName name)
    (hcheck : checkPath (Path.descend l'.path names) = checkPath (Path.descend l.path names)) :
    SameWay l l' names :=
  .of_isLeaf (fun name hname => (h name hname).toIsLeaf)
    (staysBelow_of_noUp fun hup => (h _ hup).ne_up rfl) hcheck

/-! ### Directories that can be reached -/

theorem checkPath_eq_ok {path : String} : checkPath path = .ok () ↔
    Char.ofNat 0 ∉ path.toList ∧ path ≠ "" ∧ Raw.size path ≤ pathLimit := by
  unfold checkPath
  by_cases hnul : path.toList.contains (Char.ofNat 0) = true
  · rw [if_pos hnul]
    simpa using fun hnot => absurd (List.contains_iff_mem.1 hnul) hnot
  · rw [if_neg hnul]
    rw [List.contains_iff_mem] at hnul
    by_cases hempty : path = ""
    · simp [hempty]
    · have hfull : ¬path.isEmpty = true := by simpa [String.isEmpty_iff] using hempty
      rw [if_neg hfull]
      split
      · simp_all
      · simp_all

/-- Where the system takes a path it takes the path of the directory. -/
theorem checkPath_of_join {base name : String} (hbase : base ≠ "") (h : Path.IsLeaf name)
    (hcheck : checkPath (Path.join base name) = .ok ()) : checkPath base = .ok () := by
  obtain ⟨hnul, _, hsize⟩ := checkPath_eq_ok.1 hcheck
  obtain ⟨_, ⟨_, hjoin⟩ | hjoin⟩ := Path.join_eq hbase h
  · rw [hjoin, String.toList_append] at hnul
    rw [hjoin, Raw.size_append] at hsize
    exact checkPath_eq_ok.2
      ⟨fun hmem => hnul (List.mem_append_left _ hmem), hbase, by omega⟩
  · rw [hjoin, String.toList_append, String.toList_append] at hnul
    rw [hjoin, Raw.size_append, Raw.size_append] at hsize
    exact checkPath_eq_ok.2
      ⟨fun hmem => hnul (List.mem_append_left _ (List.mem_append_left _ hmem)), hbase, by omega⟩

/-- The system takes all names on the way to a spot. -/
theorem Walks.fits {at_ : Location} {todo : List String} {spot : Spot} (h : Walks fs at_ todo spot)
    (hat : ∀ name ∈ at_, Raw.size name ≤ nameLimit) :
    ∀ name ∈ spot.location, Raw.size name ≤ nameLimit := by
  have hnext : ∀ {at_ : Location} {name : String}, (∀ n ∈ at_, Raw.size n ≤ nameLimit) →
      Raw.size name ≤ nameLimit → ∀ n ∈ at_ ++ [name], Raw.size n ≤ nameLimit := by
    intro at_ name hat hname n hn
    rcases List.mem_append.1 hn with hn | hn
    · exact hat n hn
    · rw [List.mem_singleton.1 hn]
      exact hname
  induction h with
  | here => exact hat
  | dot _ ih => exact ih hat
  | up _ ih => exact ih fun name hname => hat name (List.dropLast_subset _ hname)
  | into _ _ hsize _ _ ih => exact ih (hnext hat hsize)
  | file _ _ hsize _ => exact hnext hat hsize
  | free _ _ hsize _ => exact hnext hat hsize

/-- A walk along its names leads to a directory that is there. -/
theorem walks_of_node? (htree : fs.IsTree) {at_ : Location} {names : List String}
    (hnames : ∀ name ∈ names, Path.IsName name)
    (hsize : ∀ name ∈ names, Raw.size name ≤ nameLimit)
    (hnode : fs.node? (at_ ++ names) = some .directory) :
    Walks fs at_ names (.found (at_ ++ names) .directory) := by
  induction names generalizing at_ with
  | nil =>
    rw [List.append_nil]
    exact .here
  | cons name names ih =>
    obtain ⟨hname, hothers⟩ := List.forall_mem_cons.1 hnames
    obtain ⟨hfits, hfit⟩ := List.forall_mem_cons.1 hsize
    have hsplit : at_ ++ name :: names = at_ ++ [name] ++ names := List.append_cons at_ name names
    rw [hsplit] at hnode ⊢
    refine .into hname.ne_dot hname.ne_up hfits ?_ (ih hothers hfit hnode)
    cases names with
    | nil => simpa using hnode
    | cons second names =>
      exact htree.node?_above _ second (by rw [hnode]; exact Option.some_ne_none _)

/-- The location of a directory that is found leads there as well. -/
theorem walks_of_find (hfs : fs.IsProper) (hlinks : fs.NoLinks) {path : String}
    (habs : Path.isAbsolute path = true) (hfind : fs.find true path = .ok (l, .directory))
    (hnode : fs.node? l = some .directory) : Walks fs [] l (.found l .directory) := by
  obtain ⟨_, hwalks⟩ := (resolve_eq_ok hlinks).1 (find_eq_ok.1 hfind)
  rw [startOf, if_pos habs] at hwalks
  exact walks_of_node? hfs.isTree (hfs.isName_of_node? (hnode ▸ Option.some_ne_none _))
    (hwalks.fits (List.forall_mem_nil _)) hnode

/-- The path of a directory that can be reached leads there if the system takes it. -/
theorem find_path (hnames : ∀ name ∈ l, Path.IsName name)
    (hreaches : Walks fs [] l (.found l .directory)) (hcheck : checkPath l.path = .ok ()) :
    fs.find true l.path = .ok (l, .directory) := by
  have hresolve : fs.resolve true (Path.descend l.path []) = .ok (.found l .directory) := by
    have hpath : checkPath (Path.descend l.path []) = .ok () := hcheck
    rw [resolve_descend hnames hreaches (List.forall_mem_nil _), hpath]
    exact walk_of_walks .here _ _
  exact find_eq_ok.2 hresolve

/-! ### The same tree -/

/-- Two file systems without links that hold the same below two directories. -/
structure SameTree (l l' : Location) (fs fs' : FileSystem) : Prop where
  noLinks : fs.NoLinks
  noLinks' : fs'.NoLinks
  isName : ∀ name ∈ l, Path.IsName name
  isName' : ∀ name ∈ l', Path.IsName name
  reaches : Walks fs [] l (.found l .directory)
  reaches' : Walks fs' [] l' (.found l' .directory)
  node? : ∀ r, fs'.node? (l' ++ r) = fs.node? (l ++ r)

/-- Spots with the same way from two locations. -/
inductive Spot.Same (l l' : Location) : Spot → Spot → Prop where
  /-- The same stands here. -/
  | found (r : Location) (n : Node) : Same l l' (.found (l ++ r) n) (.found (l' ++ r) n)
  /-- Nothing stands here. -/
  | vacant (r : Location) : Same l l' (.vacant (l ++ r)) (.vacant (l' ++ r))

/-- What making a directory that may be there comes to: the fault is the same, and the trees are. -/
def SameEnd {α : Type} (l l' : Location) (end_ end' : FileSystem × Except IoFault α) : Prop :=
  (end'.2 = end_.2) ∧ SameTree l l' end_.1 end'.1

namespace SameTree

variable (h : SameTree l l' fs fs')

include h

/-- **Walks that stay below end alike.** -/
theorem walk {r : Location} {todo : List String} (hstays : StaysBelow r todo) (followLast : Bool)
    (links : ℕ) : Alike Eq (Spot.Same l l') (fs.walk followLast links (l ++ r) todo)
      (fs'.walk followLast links (l' ++ r) todo) := by
  induction todo generalizing r with
  | nil =>
    rw [FileSystem.walk, FileSystem.walk]
    exact .ok (.found r .directory)
  | cons name rest ih =>
    obtain ⟨hup, hrest⟩ := hstays
    by_cases hdot : name = "."
    · subst hdot
      rw [FileSystem.walk, FileSystem.walk]
      exact ih hrest
    · by_cases hupper : name = ".."
      · subst hupper
        have hback := ih hrest
        rw [enter, if_neg hdot, if_pos rfl] at hback
        rw [FileSystem.walk, FileSystem.walk, List.dropLast_append_of_ne_nil (hup rfl),
          List.dropLast_append_of_ne_nil (hup rfl)]
        exact hback
      · by_cases hsize : Raw.size name ≤ nameLimit
        · have hinto := ih hrest
          rw [enter, if_neg hdot, if_neg hupper] at hinto
          rw [walk_name _ _ _ _ _ hdot hupper hsize, walk_name _ _ _ _ _ hdot hupper hsize,
            List.append_assoc, List.append_assoc, h.node?]
          cases hnode : fs.node? (l ++ (r ++ [name])) with
          | none =>
            dsimp only
            split
            · exact .ok (.vacant _)
            · exact .error rfl
          | some n =>
            cases n with
            | directory => exact hinto
            | file content permissions =>
              dsimp only
              split
              · exact .ok (.found _ _)
              · exact .error rfl
            | link target => exact absurd hnode (h.noLinks _ _)
        · rw [walk_tooLong _ _ _ _ _ hdot hupper (Nat.lt_of_not_le hsize),
            walk_tooLong _ _ _ _ _ hdot hupper (Nat.lt_of_not_le hsize)]
          exact .error rfl

/-- **Paths that lead the same way lead to the same.** -/
theorem resolve {steps : List String} (hway : SameWay l l' steps) (followLast : Bool) :
    Alike Eq (Spot.Same l l') (fs.resolve followLast (Path.descend l.path steps))
      (fs'.resolve followLast (Path.descend l'.path steps)) := by
  rw [resolve_descend h.isName h.reaches hway.relative,
    resolve_descend h.isName' h.reaches' hway.relative, hway.checked]
  cases checkPath (Path.descend l.path steps) with
  | error fault => exact .error rfl
  | ok u =>
    have hwalk := h.walk (staysBelow_namesOfSteps hway.stays) followLast linkLimit
    rwa [List.append_nil, List.append_nil] at hwalk

/-! ### Reading -/

theorem find {steps : List String} (hway : SameWay l l' steps) (followLast : Bool) :
    Alike Eq (fun found found' => ∃ r n, found = (l ++ r, n) ∧ found' = (l' ++ r, n))
      (fs.find followLast (Path.descend l.path steps))
      (fs'.find followLast (Path.descend l'.path steps)) := by
  unfold FileSystem.find
  obtain ⟨e, _, he, he', rfl⟩ | ⟨spot, spot', hs, hs', hspot⟩ := (h.resolve hway followLast).eq_or_eq
  · rw [he, he']
    exact .error rfl
  · rw [hs, hs']
    cases hspot with
    | found r n => exact .ok ⟨r, n, rfl, rfl⟩
    | vacant r => exact .error rfl

theorem isFile {steps : List String} (hway : SameWay l l' steps) :
    fs'.isFile (Path.descend l'.path steps) = fs.isFile (Path.descend l.path steps) := by
  unfold FileSystem.isFile
  obtain ⟨e, _, he, he', rfl⟩ | ⟨_, _, hn, hn', r, n, rfl, rfl⟩ := (h.find hway true).eq_or_eq
  · rw [he, he']
  · rw [hn, hn']

theorem isDirectory {steps : List String} (hway : SameWay l l' steps) :
    fs'.isDirectory (Path.descend l'.path steps) = fs.isDirectory (Path.descend l.path steps) := by
  unfold FileSystem.isDirectory
  obtain ⟨e, _, he, he', rfl⟩ | ⟨_, _, hn, hn', r, n, rfl, rfl⟩ := (h.find hway true).eq_or_eq
  · rw [he, he']
  · rw [hn, hn']

/-- **The same is read.** -/
theorem readBytes {steps : List String} (hway : SameWay l l' steps) :
    fs'.readBytes (Path.descend l'.path steps) = fs.readBytes (Path.descend l.path steps) := by
  unfold FileSystem.readBytes
  obtain ⟨e, _, he, he', rfl⟩ | ⟨_, _, hn, hn', r, n, rfl, rfl⟩ := (h.find hway true).eq_or_eq
  · rw [he, he']
  · rw [hn, hn']
    cases n with
    | file content permissions => rfl
    | directory => rfl
    | link target => rfl

theorem readText {steps : List String} (hway : SameWay l l' steps) :
    fs'.readText (Path.descend l'.path steps) = fs.readText (Path.descend l.path steps) := by
  unfold FileSystem.readText
  rw [h.readBytes hway]

/-- **Where they lead, canonical paths lead the same way again.** -/
theorem canonicalOr {steps : List String} (hway : SameWay l l' steps) :
    (∃ r n, fs.find true (Path.descend l.path steps) = .ok (l ++ r, n) ∧
        fs'.find true (Path.descend l'.path steps) = .ok (l' ++ r, n)) ∨
      fs.canonicalOr (Path.descend l.path steps) = Path.descend l.path steps ∧
        fs'.canonicalOr (Path.descend l'.path steps) = Path.descend l'.path steps ∧
        fs.isDirectory (Path.descend l.path steps) = false := by
  obtain ⟨e, _, he, he', rfl⟩ | ⟨_, _, hn, hn', r, n, rfl, rfl⟩ := (h.find hway true).eq_or_eq
  · refine .inr ⟨?_, ?_, ?_⟩
    · rw [FileSystem.canonicalOr, canonical, he]
      rfl
    · rw [FileSystem.canonicalOr, canonical, he']
      rfl
    · rw [FileSystem.isDirectory, he]
  · exact .inl ⟨r, n, hn, hn'⟩

/-! ### Writing -/

/-- The same is put in the same place below, where no directory stands. -/
theorem put {r : Location} (hnode : fs.node? (l ++ r) ≠ some .directory) {n : Node}
    (hn : ∀ target, n ≠ .link target) : SameTree l l' (fs.put (l ++ r) n) (fs'.put (l' ++ r) n) := by
  have hnode' : fs'.node? (l' ++ r) ≠ some .directory := by
    rw [h.node?]
    exact hnode
  have hput : ∀ {fs : FileSystem} {k : Location}, fs.node? k ≠ some .directory → k ≠ [] := by
    rintro fs _ hk rfl
    exact hk rfl
  have hkept : ∀ {fs : FileSystem} {k : Location}, fs.node? k ≠ some .directory →
      ∀ k', fs.node? k' = some .directory → (fs.put k n).node? k' = some .directory := by
    intro fs k hk k' hk'
    rw [node?_put (hput hk), if_neg, hk']
    rintro rfl
    exact hk hk'
  refine ⟨h.noLinks.put (hput hnode) hn, h.noLinks'.put (hput hnode') hn, h.isName, h.isName',
    h.reaches.of_directories (hkept hnode) rfl, h.reaches'.of_directories (hkept hnode') rfl, ?_⟩
  intro r'
  rw [node?_put (hput hnode'), node?_put (hput hnode), h.node?]
  simp only [List.append_cancel_left_eq]

/-- **What is written leaves the same tree.** -/
theorem writeBytes {steps : List String} (hway : SameWay l l' steps)
    (hne : steps.flatMap Path.segments ≠ []) (content : ByteArray) :
    Alike Eq (SameTree l l') (fs.writeBytes (Path.descend l.path steps) content)
      (fs'.writeBytes (Path.descend l'.path steps) content) := by
  have hsteps : steps ≠ [] := by
    rintro rfl
    exact hne rfl
  have hslash : (Path.descend l'.path steps).toList.getLast? = some '/' ↔
      (Path.descend l.path steps).toList.getLast? = some '/' :=
    (endsWithSlash_descend hsteps hway.relative).trans
      (endsWithSlash_descend hsteps hway.relative).symm
  unfold FileSystem.writeBytes writeWith
  by_cases hends : (Path.descend l.path steps).toList.getLast? = some '/'
  · rw [if_pos hends, if_pos (hslash.2 hends)]
    exact .error rfl
  · rw [if_neg hends, if_neg (mt hslash.1 hends)]
    obtain ⟨e, _, he, he', rfl⟩ | ⟨spot, spot', hs, hs', hspot⟩ := (h.resolve hway true).eq_or_eq
    · rw [he, he']
      exact .error rfl
    · have hholds := holds_of_resolve h.noLinks hs
      rw [hs, hs']
      cases hspot with
      | vacant r =>
        have hfree : fs.node? (l ++ r) = none := hholds
        exact .ok (h.put (by rw [hfree]; simp) fun _ => Node.noConfusion)
      | found r n =>
        cases n with
        | file old permissions =>
          have hfile : fs.node? (l ++ r) = some (.file old permissions) := hholds
          dsimp only
          split
          · exact .ok (h.put (by rw [hfile]; simp) fun _ => Node.noConfusion)
          · exact .error rfl
        | directory => exact .error rfl
        | link target => exact .error rfl

/-! ### Making directories -/

/-- **Directories are made alike.** -/
theorem makeDirectory {steps : List String} (hway : SameWay l l' steps) :
    Alike Eq (SameTree l l') (fs.makeDirectory (Path.descend l.path steps))
      (fs'.makeDirectory (Path.descend l'.path steps)) := by
  have hstays := hway.stays
  rw [makeDirectory_descend h.isName h.reaches hway.relative,
    makeDirectory_descend h.isName' h.reaches' hway.relative, hway.checked]
  cases checkPath (Path.descend l.path steps) with
  | error fault => exact .error rfl
  | ok u =>
    dsimp only
    rcases List.eq_nil_or_concat' (steps.flatMap Path.segments) with hflat | ⟨front, last, hflat⟩
    · rw [hflat]
      exact .error rfl
    · rw [hflat] at hstays
      rw [hflat, List.getLast?_concat, List.dropLast_concat]
      dsimp only
      split
      · have hfront : StaysBelow [] (front ++ ["."]) :=
          staysBelow_append.2 ⟨(staysBelow_append.1 hstays).1, staysBelow_of_noUp (by decide)⟩
        have hwalk := h.walk hfront true linkLimit
        rw [List.append_nil, List.append_nil] at hwalk
        obtain ⟨e, _, he, he', rfl⟩ | ⟨_, _, hs, hs', _⟩ := hwalk.eq_or_eq
        · rw [he, he']
          exact .error rfl
        · rw [hs, hs']
          exact .error rfl
      · have hwalk := h.walk hstays false linkLimit
        rw [List.append_nil, List.append_nil] at hwalk
        obtain ⟨e, _, he, he', rfl⟩ | ⟨_, _, hs, hs', hspot⟩ := hwalk.eq_or_eq
        · rw [he, he']
          exact .error rfl
        · have hholds := (walks_of_walk h.noLinks hs).holds
          rw [hs, hs']
          cases hspot with
          | found r n => exact .error rfl
          | vacant r =>
            have hfree : fs.node? (l ++ r) = none := hholds
            exact .ok (h.put (by rw [hfree]; simp) fun _ => Node.noConfusion)

theorem makeOnce {steps : List String} (hway : SameWay l l' steps) :
    SameEnd l l' (FileSystem.makeOnce fs (Path.descend l.path steps))
      (FileSystem.makeOnce fs' (Path.descend l'.path steps)) := by
  unfold FileSystem.makeOnce
  obtain ⟨e, _, he, he', rfl⟩ | ⟨fs₁, fs₁', hm, hm', hmade⟩ := (h.makeDirectory hway).eq_or_eq
  · rw [he, he', h.isDirectory hway]
    dsimp only
    split
    · exact ⟨rfl, h⟩
    · exact ⟨rfl, h⟩
  · rw [hm, hm']
    exact ⟨rfl, hmade⟩

/-- **Directories are made alike with those that they are in.** -/
theorem makeWithParents {depth depth' : ℕ} {steps : List String} (hway : SameWay l l' steps)
    (habove : ∀ ps, ps <+: Path.wayOfSteps steps → SameWay l l' ps)
    (hdepth : (Path.wayOfSteps steps).length < depth)
    (hdepth' : (Path.wayOfSteps steps).length < depth') :
    SameEnd l l' (FileSystem.makeWithParents depth fs (Path.descend l.path steps))
      (FileSystem.makeWithParents depth' fs' (Path.descend l'.path steps)) := by
  -- on the depth of one of the two: each directory above has a shorter way
  induction depth generalizing fs fs' depth' steps with
  | zero => exact absurd hdepth (Nat.not_lt_zero _)
  | succ depth ih =>
    obtain ⟨depth', rfl⟩ : ∃ d, depth' = d + 1 := ⟨depth' - 1, by omega⟩
    have hempty : ∀ k : Location, ¬(Path.descend k.path steps).isEmpty = true := by
      intro k
      simpa [String.isEmpty_iff] using
        Path.ne_empty_of_isAbsolute (Path.isAbsolute_descend (Path.isAbsolute_path k))
    obtain ⟨e, _, he, he', rfl⟩ | ⟨fs₁, fs₁', hm, hm', hmade⟩ := (h.makeDirectory hway).eq_or_eq
    · by_cases hmissing : e = .notFound
      · subst hmissing
        have hsome : Path.wayOfSteps steps ≠ [] := fun hnil =>
          makeDirectory_ne_notFound h.isName h.reaches hway.relative hnil he
        have hleaf : ∀ name ∈ (Path.wayOfSteps steps).dropLast, Path.IsLeaf name ∧ name ≠ "." :=
          fun name hname => Path.isLeaf_of_mem_wayOfSteps (List.dropLast_subset _ hname)
        have hprefix := List.dropLast_prefix (Path.wayOfSteps steps)
        have hshorter : (Path.wayOfSteps steps).dropLast.length < (Path.wayOfSteps steps).length := by
          rw [List.length_dropLast]
          exact Nat.sub_one_lt (mt List.length_eq_zero_iff.1 hsome)
        have hparents : SameEnd l l'
            (FileSystem.makeWithParents depth fs
              (Path.descend l.path (Path.wayOfSteps steps).dropLast))
            (FileSystem.makeWithParents depth' fs'
              (Path.descend l'.path (Path.wayOfSteps steps).dropLast)) := ih h (habove _ hprefix)
          (by rw [Path.wayOfSteps_eq_self hleaf]; exact fun ps hps => habove ps (hps.trans hprefix))
          (by rw [Path.wayOfSteps_eq_self hleaf]; omega)
          (by rw [Path.wayOfSteps_eq_self hleaf]; omega)
        rw [makeWithParents_of_missing (hempty l) he (Path.parent?_descend h.isName hway.relative hsome),
          makeWithParents_of_missing (hempty l') he'
            (Path.parent?_descend h.isName' hway.relative hsome)]
        obtain ⟨hend, htree⟩ := hparents
        rw [hend]
        cases (FileSystem.makeWithParents depth fs
          (Path.descend l.path (Path.wayOfSteps steps).dropLast)).2 with
        | error fault => exact ⟨rfl, htree⟩
        | ok u => exact htree.makeOnce hway
      · rw [makeWithParents_of_fault (hempty l) he hmissing,
          makeWithParents_of_fault (hempty l') he' hmissing, h.isDirectory hway]
        split
        · exact ⟨rfl, h⟩
        · exact ⟨rfl, h⟩
    · rw [FileSystem.makeWithParents, FileSystem.makeWithParents, if_neg (hempty l),
        if_neg (hempty l'), hm, hm']
      exact ⟨rfl, hmade⟩

/-- **A directory is made sure of alike.** -/
theorem ensureDirectory {steps : List String} (hway : SameWay l l' steps)
    (habove : ∀ ps, ps <+: Path.wayOfSteps steps → SameWay l l' ps) :
    SameEnd l l' (fs.ensureDirectory (Path.descend l.path steps))
      (fs'.ensureDirectory (Path.descend l'.path steps)) := by
  have hlength : ∀ k : Location, (∀ name ∈ k, Path.IsName name) →
      (Path.wayOfSteps steps).length < (Path.components (Path.descend k.path steps)).length + 1 := by
    intro k hk
    rw [Path.components_of_isAbsolute (Path.isAbsolute_descend (Path.isAbsolute_path k)),
      Path.way_descend_path hk hway.relative]
    simp only [List.length_cons, List.length_map, List.length_append]
    omega
  unfold FileSystem.ensureDirectory makeDirectories
  rw [h.isDirectory hway]
  split
  · exact ⟨rfl, h⟩
  · obtain ⟨hend, htree⟩ := h.makeWithParents hway habove (hlength l h.isName) (hlength l' h.isName')
    revert hend htree
    rcases FileSystem.makeWithParents _ fs _ with ⟨fs₁, fault | u⟩
    · rcases FileSystem.makeWithParents _ fs' _ with ⟨fs₁', fault' | u'⟩
      · rintro ⟨⟩ htree
        exact ⟨rfl, htree⟩
      · rintro ⟨⟩
    · rcases FileSystem.makeWithParents _ fs' _ with ⟨fs₁', fault' | u'⟩
      · rintro ⟨⟩
      · rintro _ htree
        exact ⟨rfl, htree⟩

end SameTree

/-! ### Paths of the same length -/

/-- Paths that the system takes or refuses alike, and with them what is put behind them. -/
structure SameShape (p p' : String) : Prop where
  ne_empty : p ≠ ""
  ne_empty' : p' ≠ ""
  size : Raw.size p' = Raw.size p
  nul : Char.ofNat 0 ∈ p'.toList ↔ Char.ofNat 0 ∈ p.toList
  slash : p'.toList.getLast? = some '/' ↔ p.toList.getLast? = some '/'

theorem SameShape.checkPath_eq {p p' : String} (h : SameShape p p') : checkPath p' = checkPath p := by
  have hempty : p.isEmpty = false := by simpa [String.isEmpty_iff] using h.ne_empty
  have hempty' : p'.isEmpty = false := by simpa [String.isEmpty_iff] using h.ne_empty'
  have hnul : p'.toList.contains (Char.ofNat 0) = p.toList.contains (Char.ofNat 0) := by
    rw [Bool.eq_iff_iff, List.contains_iff_mem, List.contains_iff_mem, h.nul]
  have hsize : Raw.size p' > pathLimit ↔ Raw.size p > pathLimit := by rw [h.size]
  rw [checkPath, checkPath, hnul, hempty, hempty']
  simp only [hsize]

theorem SameShape.append {p p' : String} (h : SameShape p p') (s : String) :
    SameShape (p ++ s) (p' ++ s) := by
  have hne : ∀ {q : String}, q ≠ "" → q ++ s ≠ "" := by
    intro q hq heq
    exact hq (by simpa using (show q = "" ∧ s = "" by simpa using heq).1)
  refine ⟨hne h.ne_empty, hne h.ne_empty', ?_, ?_, ?_⟩
  · rw [Raw.size_append, Raw.size_append, h.size]
  · rw [String.toList_append, String.toList_append, List.mem_append, List.mem_append, h.nul]
  · rw [String.toList_append, String.toList_append]
    by_cases hnil : s.toList = []
    · rw [hnil, List.append_nil, List.append_nil, h.slash]
    · rw [List.getLast?_append_of_ne_nil _ hnil, List.getLast?_append_of_ne_nil _ hnil]

theorem SameShape.join {p p' : String} (h : SameShape p p') (s : String) :
    Path.join p' s = Path.join p s ∨ SameShape (Path.join p s) (Path.join p' s) := by
  have hempty : p.isEmpty = false := by simpa [String.isEmpty_iff] using h.ne_empty
  have hempty' : p'.isEmpty = false := by simpa [String.isEmpty_iff] using h.ne_empty'
  unfold Path.join
  by_cases habs : Path.isAbsolute s = true
  · rw [if_pos habs, if_pos habs]
    exact .inl rfl
  · rw [if_neg habs, if_neg habs, hempty, hempty']
    by_cases hslash : p.toList.getLast? = some '/'
    · rw [if_pos (.inr (h.slash.2 hslash)), if_pos (.inr hslash)]
      exact .inr (h.append s)
    · rw [if_neg (by simpa using mt h.slash.1 hslash), if_neg (by simpa using hslash)]
      exact .inr ((h.append "/").append s)

/-- **Behind paths of the same shape the system takes the same steps.** -/
theorem SameShape.checkPath_descend {p p' : String} (h : SameShape p p') (steps : List String) :
    checkPath (Path.descend p' steps) = checkPath (Path.descend p steps) := by
  induction steps generalizing p p' with
  | nil => exact h.checkPath_eq
  | cons step steps ih =>
    rw [Path.descend_cons, Path.descend_cons]
    rcases h.join step with hsame | hshape
    · rw [hsame]
    · exact ih hshape

/-! ### Moving a tree -/

/-- A location that the system goes to if there is a directory. -/
structure IsPlace (l : Location) : Prop where
  isName : ∀ name ∈ l, Path.IsName name
  size : ∀ name ∈ l, Raw.size name ≤ nameLimit
  checked : checkPath l.path = .ok ()

/-- The directories on the way to a location. -/
def directoriesTo (l : Location) : List (Location × Node) :=
  (List.range l.length).map fun n => (l.take (n + 1), .directory)

/-- A file system with all that it holds moved below a location. -/
def movedBelow (l : Location) (fs : FileSystem) : FileSystem where
  nodes := directoriesTo l ++ fs.nodes.map fun e => (l ++ e.1, e.2)
  workingDirectory := l ++ fs.workingDirectory

theorem lookup_directoriesTo_append (l : Location) {r : Location} (hr : r ≠ []) :
    (directoriesTo l).lookup (l ++ r) = none := by
  rw [List.lookup_eq_none_iff]
  intro e he
  obtain ⟨n, -, rfl⟩ := List.mem_map.1 he
  rw [bne_iff_ne]
  intro heq
  have hlength := congrArg List.length heq
  have hpos := List.length_pos_iff.2 hr
  rw [List.length_append, List.length_take] at hlength
  omega

theorem lookup_directoriesTo {l k : Location} (hk : k ≠ []) (h : k <+: l) :
    (directoriesTo l).lookup k = some .directory := by
  have hmem : (k, .directory) ∈ directoriesTo l := by
    have hpos := List.length_pos_iff.2 hk
    have hlength := h.length_le
    refine List.mem_map.2 ⟨k.length - 1, List.mem_range.2 (by omega), ?_⟩
    rw [Nat.sub_add_cancel hpos, ← List.prefix_iff_eq_take.1 h]
  obtain ⟨n, hn⟩ : ∃ n, (directoriesTo l).lookup k = some n := by
    rw [← Option.isSome_iff_exists, Option.isSome_iff_ne_none, Ne, List.lookup_eq_none_iff]
    intro hall
    simpa using hall _ hmem
  obtain ⟨_, _, hm⟩ := List.mem_map.1 (mem_of_lookup hn)
  rw [hn, ← (Prod.mk.inj hm).2]

theorem lookup_map_append (l r : Location) (nodes : List (Location × Node)) :
    (nodes.map fun e => (l ++ e.1, e.2)).lookup (l ++ r) = nodes.lookup r := by
  induction nodes with
  | nil => rfl
  | cons e nodes ih =>
    have hkey : (l ++ r == l ++ e.1) = (r == e.1) := by
      rw [Bool.eq_iff_iff, beq_iff_eq, beq_iff_eq, List.append_cancel_left_eq]
    rw [List.map_cons, List.lookup_cons, List.lookup_cons, ih, hkey]

/-- **Below the location stands what stood below the top.** -/
theorem node?_movedBelow (l r : Location) (fs : FileSystem) :
    (movedBelow l fs).node? (l ++ r) = fs.node? r := by
  by_cases hr : r = []
  · subst hr
    rw [List.append_nil, node?_nil]
    by_cases hl : l = []
    · subst hl
      rfl
    · rw [node?_of_ne_nil hl, movedBelow, List.lookup_append, lookup_directoriesTo hl List.prefix_rfl]
      rfl
  · have hne : l ++ r ≠ [] := List.append_ne_nil_of_right_ne_nil l hr
    rw [node?_of_ne_nil hne, node?_of_ne_nil hr, movedBelow, List.lookup_append,
      lookup_directoriesTo_append l hr, lookup_map_append]
    rfl

theorem node?_movedBelow_above {l k : Location} (h : k <+: l) (fs : FileSystem) :
    (movedBelow l fs).node? k = some .directory := by
  by_cases hk : k = []
  · subst hk
    exact node?_nil _
  · rw [node?_of_ne_nil hk, movedBelow, List.lookup_append, lookup_directoriesTo hk h]
    rfl

theorem hasNoLinks_movedBelow (l : Location) (h : fs.hasNoLinks) : (movedBelow l fs).hasNoLinks := by
  intro k target hmem
  rcases List.mem_append.1 hmem with hmem | hmem
  · obtain ⟨n, _, heq⟩ := List.mem_map.1 hmem
    cases heq
  · obtain ⟨e, he, heq⟩ := List.mem_map.1 hmem
    exact h e.1 target (by rw [← (Prod.mk.inj heq).2]; exact he)

theorem isProper_movedBelow (hl : IsPlace l) (h : fs.IsProper) (htop : [] ∉ fs.nodes.map Prod.fst) :
    (movedBelow l fs).IsProper := by
  have hkeys : (movedBelow l fs).nodes.map Prod.fst =
      ((List.range l.length).map fun n => l.take (n + 1)) ++ (fs.nodes.map Prod.fst).map (l ++ ·) := by
    simp [movedBelow, directoriesTo, Function.comp_def]
  have hkey : ∀ k ∈ (movedBelow l fs).nodes.map Prod.fst, (∃ n, n < l.length ∧ k = l.take (n + 1)) ∨
      ∃ r ∈ fs.nodes.map Prod.fst, k = l ++ r := by
    intro k hk
    rw [hkeys] at hk
    rcases List.mem_append.1 hk with hk | hk
    · obtain ⟨n, hn, rfl⟩ := List.mem_map.1 hk
      exact .inl ⟨n, List.mem_range.1 hn, rfl⟩
    · obtain ⟨r, hr, rfl⟩ := List.mem_map.1 hk
      exact .inr ⟨r, hr, rfl⟩
  refine ⟨?_, fun k hk => ?_, fun k hk => ?_⟩
  · rw [hkeys, List.nodup_append]
    refine ⟨List.Nodup.map_on ?_ List.nodup_range, h.distinct.map (List.append_right_injective l), ?_⟩
    · intro n hn m hm heq
      have hlength := congrArg List.length heq
      rw [List.length_take, List.length_take] at hlength
      have hn := List.mem_range.1 hn
      have hm := List.mem_range.1 hm
      omega
    · intro k hk k' hk' heq
      obtain ⟨n, _, rfl⟩ := List.mem_map.1 hk
      obtain ⟨r, hr, rfl⟩ := List.mem_map.1 hk'
      have hlength := congrArg List.length heq
      have hpos := List.length_pos_iff.2 fun hnil => htop (hnil ▸ hr)
      rw [List.length_take, List.length_append] at hlength
      omega
  · rcases hkey k hk with ⟨n, _, rfl⟩ | ⟨r, hr, rfl⟩
    · exact fun name hname => hl.isName name (List.mem_of_mem_take hname)
    · exact fun name hname => (List.mem_append.1 hname).elim (hl.isName name) (h.names r hr name)
  · rcases hkey k hk with ⟨n, _, rfl⟩ | ⟨r, hr, rfl⟩
    · rw [node?_movedBelow_above ((List.dropLast_prefix _).trans (List.take_prefix _ _))]
      rfl
    · have hnil : r ≠ [] := fun hnil => htop (hnil ▸ hr)
      rw [List.dropLast_append_of_ne_nil hnil, node?_movedBelow]
      exact h.inDirectory r hr

/-- The location that all was moved below can be reached. -/
theorem find_movedBelow (hl : IsPlace l) (h : fs.IsProper) (htop : [] ∉ fs.nodes.map Prod.fst) :
    (movedBelow l fs).find true l.path = .ok (l, .directory) := by
  have htree := (isProper_movedBelow hl h htop).isTree
  have hthere : (movedBelow l fs).node? ([] ++ l) = some .directory :=
    node?_movedBelow_above List.prefix_rfl fs
  exact find_path hl.isName (walks_of_node? htree hl.isName hl.size hthere) hl.checked

end Ingot.FileSystem
