import Ingot.Proofs.FileSystem.Standing
import Ingot.Proofs.Outcome

/-!
# Steps from a location

A path may be given by the path of a location and by steps from there, each of which is a relative
path that may have several names in it (`Path.descend`). **Such a path leads where the names of its
steps lead from that location** (`resolve_descend`, `makeDirectory_descend`), and the path above it
has all of these names but the last (`Path.parent?_descend`).
-/

namespace Ingot.Path

/-! ### Steps from a path -/

theorem descend_append (base : String) (a b : List String) :
    descend base (a ++ b) = descend (descend base a) b := List.foldl_append

theorem segments_descend {base : String} (hbase : isAbsolute base = true) {steps : List String}
    (h : ∀ s ∈ steps, isAbsolute s = false) :
    segments (descend base steps) = segments base ++ steps.flatMap segments := by
  induction steps generalizing base with
  | nil => simp [descend]
  | cons step steps ih =>
    obtain ⟨hstep, hsteps⟩ := List.forall_mem_cons.1 h
    rw [descend_cons, ih (isAbsolute_join hbase step) hsteps,
      segments_join_relative (ne_empty_of_isAbsolute hbase) hstep, List.append_assoc]
    rfl

theorem flatMap_segments {names : List String} (h : ∀ name ∈ names, IsLeaf name) :
    names.flatMap segments = names := by
  induction names with
  | nil => rfl
  | cons name names ih =>
    obtain ⟨hname, hnames⟩ := List.forall_mem_cons.1 h
    rw [List.flatMap_cons, segments_of_isLeaf hname, ih hnames]
    rfl

theorem segments_path {l : Location} (h : ∀ name ∈ l, IsName name) : segments l.path = l := by
  have hleaf : ∀ name ∈ l, IsLeaf name := fun name hname => (h name hname).toIsLeaf
  rw [path_eq_descend h, segments_descend (by decide) fun name hname =>
    not_isAbsolute_of_noSlash (hleaf name hname).noSlash, flatMap_segments hleaf]
  rfl

/-- The path of the top and of names behind it goes through those names. -/
theorem ofComponents_eq_descend (names : List String) :
    ofComponents (.root :: names.map componentOf) = descend "/" names := by
  rw [ofComponents, List.foldl_cons, List.foldl_map, descend]
  exact List.foldl_ext _ _ _ fun p name _ => by rw [text_componentOf]

/-- Whether a path ends with a slash is told by what was last put behind it. -/
theorem getLast?_join {base p : String} (hbase : isAbsolute base = true)
    (hp : isAbsolute p = false) : (join base p).toList.getLast? = some '/' ↔
      p.isEmpty = true ∨ p.toList.getLast? = some '/' := by
  have hempty : base.isEmpty = false := by
    simpa [String.isEmpty_iff] using ne_empty_of_isAbsolute hbase
  rw [join, hp, if_neg Bool.false_ne_true, hempty]
  by_cases hnil : p.toList = []
  · have hpe : p = "" := String.toList_inj.1 hnil
    subst hpe
    by_cases hlast : base.toList.getLast? = some '/'
    · rw [if_pos (.inr hlast)]
      simpa using hlast
    · rw [if_neg (by simpa using hlast)]
      simp
  · have hpe : p.isEmpty = false := by
      rw [Bool.eq_false_iff]
      intro he
      exact hnil (by rw [String.isEmpty_iff.1 he]; rfl)
    rw [hpe]
    split
    · rw [String.toList_append, List.getLast?_append_of_ne_nil _ hnil]
      simp
    · rw [String.toList_append, List.getLast?_append_of_ne_nil _ hnil]
      simp

/-! ### Above steps -/

/-- The names of steps without single dots. -/
def wayOfSteps (steps : List String) : List String := (steps.flatMap segments).filter (· != ".")

theorem isLeaf_of_mem_wayOfSteps {steps : List String} {name : String}
    (h : name ∈ wayOfSteps steps) : IsLeaf name ∧ name ≠ "." := by
  obtain ⟨hmem, hdot⟩ := List.mem_filter.1 h
  obtain ⟨s, _, hs⟩ := List.mem_flatMap.1 hmem
  exact ⟨isLeaf_of_mem_segments hs, by simpa using hdot⟩

/-- Names without single dots are their own way. -/
theorem wayOfSteps_eq_self {names : List String} (h : ∀ name ∈ names, IsLeaf name ∧ name ≠ ".") :
    wayOfSteps names = names := by
  rw [wayOfSteps, flatMap_segments fun name hname => (h name hname).1, List.filter_eq_self]
  intro name hname
  simpa using (h name hname).2

theorem way_descend_path {l : Location} (hl : ∀ name ∈ l, IsName name) {steps : List String}
    (h : ∀ s ∈ steps, isAbsolute s = false) :
    way (descend l.path steps) = l ++ wayOfSteps steps := by
  have hdots : l.filter (· != ".") = l := List.filter_eq_self.2 fun name hname => by
    simpa using (hl name hname).ne_dot
  rw [way, segments_descend (isAbsolute_path l) h, segments_path hl, List.filter_append, hdots]
  rfl

/-- The path above steps that lead somewhere goes through all names but the last. -/
theorem parent?_descend {l : Location} (hl : ∀ name ∈ l, IsName name) {steps : List String}
    (h : ∀ s ∈ steps, isAbsolute s = false) (hne : wayOfSteps steps ≠ []) :
    parent? (descend l.path steps) = some (descend l.path (wayOfSteps steps).dropLast) := by
  obtain ⟨front, last, hway⟩ := (List.eq_nil_or_concat' (wayOfSteps steps)).resolve_left hne
  rw [parent?, components_of_isAbsolute (isAbsolute_descend (isAbsolute_path l)),
    way_descend_path hl h, hway, List.dropLast_concat, ← List.append_assoc, List.map_append,
    List.map_singleton, ← List.cons_append, List.getLast?_concat, List.dropLast_concat,
    ofComponents_eq_descend, descend_append, ← path_eq_descend hl]
  split
  · rename_i hroot
    cases hroot
  · rename_i hroot
    rw [componentOf] at hroot
    split at hroot
    · cases hroot
    · cases hroot
  · rfl

end Ingot.Path

namespace Ingot.FileSystem

variable {fs : FileSystem} {l : Location}

/-! ### Steps from a location -/

/-- From a place below a location, names lead nowhere above that location on their way. -/
def StaysBelow : Location → List String → Prop
  | _, [] => True
  | r, name :: rest => (name = ".." → r ≠ []) ∧ StaysBelow (enter r name) rest

instance : (r : Location) → (names : List String) → Decidable (StaysBelow r names)
  | _, [] => isTrue trivial
  | r, name :: rest =>
    have := instDecidableStaysBelow (enter r name) rest
    inferInstanceAs (Decidable ((name = ".." → r ≠ []) ∧ StaysBelow (enter r name) rest))

theorem staysBelow_append {r : Location} {a b : List String} :
    StaysBelow r (a ++ b) ↔ StaysBelow r a ∧ StaysBelow (follow r a) b := by
  induction a generalizing r with
  | nil => simp [StaysBelow, follow]
  | cons name a ih =>
    rw [List.cons_append, StaysBelow, StaysBelow, ih, and_assoc]
    rfl

/-- Names without two dots stay below. -/
theorem staysBelow_of_noUp {r : Location} {names : List String} (h : ".." ∉ names) :
    StaysBelow r names := by
  induction names generalizing r with
  | nil => trivial
  | cons name names ih =>
    obtain ⟨hname, hnames⟩ := not_or.1 (mt List.mem_cons.2 h)
    exact ⟨fun hup => absurd hup.symm hname, ih hnames⟩

/-- Single dots mean nothing on the way. -/
theorem staysBelow_filter {r : Location} {names : List String} :
    StaysBelow r (names.filter (· != ".")) ↔ StaysBelow r names := by
  induction names generalizing r with
  | nil => rfl
  | cons name names ih =>
    by_cases h : name = "."
    · subst h
      rw [StaysBelow, List.filter_cons_of_neg (by simp), ih]
      exact (and_iff_right fun hup => absurd hup (by decide)).symm
    · rw [List.filter_cons_of_pos (by simpa using h), StaysBelow, StaysBelow, ih]

/-- A relative path that leads nowhere above where it starts. -/
structure StaysInside (path : String) : Prop where
  relative : Path.isAbsolute path = false
  stays : StaysBelow [] (Path.segments path)

instance (path : String) : Decidable (StaysInside path) :=
  decidable_of_iff (Path.isAbsolute path = false ∧ StaysBelow [] (Path.segments path))
    ⟨fun h => ⟨h.1, h.2⟩, fun h => ⟨h.relative, h.stays⟩⟩

/-- The names of steps. A slash at the end means that a directory must be there. -/
def namesOfSteps (steps : List String) : List String :=
  let names := steps.flatMap Path.segments
  if steps.getLast?.any fun s => s.isEmpty || s.toList.getLast? == some '/' then names ++ ["."]
  else names

theorem staysBelow_namesOfSteps {steps : List String}
    (h : StaysBelow [] (steps.flatMap Path.segments)) : StaysBelow [] (namesOfSteps steps) := by
  unfold namesOfSteps
  dsimp only
  split
  · exact staysBelow_append.2 ⟨h, staysBelow_of_noUp (by decide)⟩
  · exact h

theorem endsWithSlash_descend {steps : List String} (hne : steps ≠ [])
    (h : ∀ s ∈ steps, Path.isAbsolute s = false) :
    (Path.descend l.path steps).toList.getLast? = some '/' ↔
      (steps.getLast?.any fun s => s.isEmpty || s.toList.getLast? == some '/') = true := by
  obtain ⟨front, last, rfl⟩ := List.eq_nil_or_concat' steps |>.resolve_left hne
  rw [Path.descend_append, Path.descend_cons, Path.descend, List.foldl_nil, Path.getLast?_join
    (Path.isAbsolute_descend (Path.isAbsolute_path l)) (h last (by simp))]
  simp

/-! ### Paths below a directory -/

/-- A walk that goes on behind one to a directory starts there. -/
theorem Walks.walk_append {at_ : Location} {names : List String} {spot : Spot}
    (h : Walks fs at_ names spot) {directory : Location} (hspot : spot = .found directory .directory)
    (followLast : Bool) (links : ℕ) (rest : List String) :
    fs.walk followLast links at_ (names ++ rest) = fs.walk followLast links directory rest := by
  induction h with
  | here =>
    cases hspot
    rfl
  | dot _ ih =>
    rw [List.cons_append, walk]
    exact ih hspot
  | up _ ih =>
    rw [List.cons_append, walk]
    exact ih hspot
  | into hdot hup hsize hdir _ ih =>
    rw [List.cons_append, walk_name _ _ _ _ _ hdot hup hsize, hdir]
    exact ih hspot
  | file => cases hspot
  | free => cases hspot

/-- A path below a directory leads where its steps lead from there. -/
theorem resolve_descend (hnames : ∀ name ∈ l, Path.IsName name)
    (hreaches : Walks fs [] l (.found l .directory)) {steps : List String}
    (hrelative : ∀ s ∈ steps, Path.isAbsolute s = false) (followLast : Bool) :
    fs.resolve followLast (Path.descend l.path steps) =
      match checkPath (Path.descend l.path steps) with
      | .error fault => .error fault
      | .ok () => fs.walk followLast linkLimit l (namesOfSteps steps) := by
  have habs : Path.isAbsolute (Path.descend l.path steps) = true :=
    Path.isAbsolute_descend (Path.isAbsolute_path l)
  have hsegments := Path.segments_descend (Path.isAbsolute_path l) hrelative
  rw [Path.segments_path hnames] at hsegments
  have hwalk := hreaches.walk_append rfl followLast linkLimit
  have hdot : fs.walk followLast linkLimit l ["."] = fs.walk followLast linkLimit l [] :=
    (walk_of_walks (.dot .here) _ _).trans (walk_of_walks .here _ _).symm
  unfold FileSystem.resolve
  cases checkPath (Path.descend l.path steps) with
  | error fault => rfl
  | ok u =>
    dsimp only
    rw [startOf, if_pos habs, namesOf, hsegments, namesOfSteps]
    by_cases hflat : steps.flatMap Path.segments = []
    · -- Only dots can be left, and they lead nowhere else.
      rw [hflat, List.append_nil]
      have hleft : ∀ c : Prop, [Decidable c] →
          fs.walk followLast linkLimit [] (if c then l ++ ["."] else l) =
            fs.walk followLast linkLimit l [] := by
        intro c _
        split
        · rw [hwalk, hdot]
        · have hnone := hwalk []
          rwa [List.append_nil] at hnone
      rw [hleft]
      split
      · exact hdot.symm
      · rfl
    · have hsteps : steps ≠ [] := by
        rintro rfl
        exact hflat rfl
      have hsome : (l ++ steps.flatMap Path.segments).isEmpty = false := by simp [hflat]
      have hslash := endsWithSlash_descend (l := l) hsteps hrelative
      by_cases hends : (Path.descend l.path steps).toList.getLast? = some '/'
      · rw [if_pos ⟨hends, by rw [hsome]; rfl⟩, if_pos (hslash.1 hends), List.append_assoc, hwalk]
      · rw [if_neg fun hboth => hends hboth.1, if_neg (mt hslash.2 hends), hwalk]

/-- How a directory is made below one, by the last of the names that lead there. -/
theorem makeDirectory_descend (hnames : ∀ name ∈ l, Path.IsName name)
    (hreaches : Walks fs [] l (.found l .directory)) {steps : List String}
    (hrelative : ∀ s ∈ steps, Path.isAbsolute s = false) :
    fs.makeDirectory (Path.descend l.path steps) =
      match checkPath (Path.descend l.path steps) with
      | .error fault => .error fault
      | .ok () =>
        match (steps.flatMap Path.segments).getLast? with
        | none => .error .alreadyThere
        | some last =>
          if last = "." ∨ last = ".." then
            match fs.walk true linkLimit l ((steps.flatMap Path.segments).dropLast ++ ["."]) with
            | .error fault => .error fault
            | .ok _ => .error .alreadyThere
          else
            match fs.walk false linkLimit l (steps.flatMap Path.segments) with
            | .error fault => .error fault
            | .ok (.found _ _) => .error .alreadyThere
            | .ok (.vacant location) => .ok (fs.put location .directory) := by
  have habs : Path.isAbsolute (Path.descend l.path steps) = true :=
    Path.isAbsolute_descend (Path.isAbsolute_path l)
  have hsegments := Path.segments_descend (Path.isAbsolute_path l) hrelative
  rw [Path.segments_path hnames] at hsegments
  have hwalk := fun follow => hreaches.walk_append rfl follow linkLimit
  unfold FileSystem.makeDirectory
  cases checkPath (Path.descend l.path steps) with
  | error fault => rfl
  | ok u =>
    dsimp only
    rw [startOf, if_pos habs, hsegments]
    rcases List.eq_nil_or_concat' (steps.flatMap Path.segments) with hflat | ⟨front, last, hflat⟩
    · rw [hflat, List.append_nil]
      cases hlast : l.getLast? with
      | none => rfl
      | some last =>
        have hname := hnames last (List.mem_of_getLast? hlast)
        dsimp only
        rw [if_neg (not_or.2 ⟨hname.ne_dot, hname.ne_up⟩), walk_of_walks hreaches]
        rfl
    · rw [hflat, ← List.append_assoc, List.getLast?_concat, List.getLast?_concat,
        List.dropLast_concat, List.dropLast_concat]
      dsimp only
      rewrite [List.append_assoc, List.append_assoc, hwalk, hwalk]
      rfl

theorem checkPath_ne_notFound {path : String} (hpath : path ≠ "") :
    checkPath path ≠ .error .notFound := by
  have hempty : path.isEmpty = false := by simpa [String.isEmpty_iff] using hpath
  unfold checkPath
  rw [hempty]
  split
  · simp
  · split
    · simp_all
    · split
      · simp
      · simp

/-- A directory above which nothing is missing is not missed itself. -/
theorem makeDirectory_ne_notFound (hnames : ∀ name ∈ l, Path.IsName name)
    (hreaches : Walks fs [] l (.found l .directory)) {steps : List String}
    (hrelative : ∀ s ∈ steps, Path.isAbsolute s = false) (hway : Path.wayOfSteps steps = []) :
    fs.makeDirectory (Path.descend l.path steps) ≠ .error .notFound := by
  have hdots : ∀ name ∈ steps.flatMap Path.segments, name = "." := by
    intro name hname
    simpa using List.filter_eq_nil_iff.1 hway name hname
  have hwalks : ∀ {names : List String}, (∀ name ∈ names, name = ".") →
      Walks fs l names (.found l .directory) := by
    intro names hnames
    induction names with
    | nil => exact .here
    | cons name names ih =>
      obtain ⟨rfl, hrest⟩ := List.forall_mem_cons.1 hnames
      exact .dot (ih hrest)
  rw [makeDirectory_descend hnames hreaches hrelative]
  cases hcheck : checkPath (Path.descend l.path steps) with
  | error fault =>
    rintro heq
    cases heq
    exact checkPath_ne_notFound (Path.ne_empty_of_isAbsolute
      (Path.isAbsolute_descend (Path.isAbsolute_path l))) hcheck
  | ok u =>
    dsimp only
    rcases List.eq_nil_or_concat' (steps.flatMap Path.segments) with hflat | ⟨front, last, hflat⟩
    · rw [hflat]
      simp
    · rw [hflat] at hdots ⊢
      obtain rfl : last = "." := hdots last (by simp)
      rw [List.getLast?_concat, List.dropLast_concat]
      dsimp only
      rw [if_pos (.inl rfl), walk_of_walks (hwalks hdots)]
      simp

/-- Making a directory that may be there, and making none above it. -/
def makeOnce (fs : FileSystem) (path : String) : FileSystem × Except IoFault Unit :=
  match fs.makeDirectory path with
  | .ok fs' => (fs', .ok ())
  | .error fault => if fs.isDirectory path then (fs, .ok ()) else (fs, .error fault)

theorem makeWithParents_of_fault {depth : ℕ} {path : String} {fault : IoFault}
    (hpath : ¬path.isEmpty = true) (hmake : fs.makeDirectory path = .error fault)
    (hfault : fault ≠ .notFound) : FileSystem.makeWithParents (depth + 1) fs path =
      if fs.isDirectory path then (fs, .ok ()) else (fs, .error fault) := by
  rw [FileSystem.makeWithParents, if_neg hpath, hmake]
  split
  · rename_i heq
    cases heq
  · rename_i heq
    exact absurd (Except.error.inj heq) hfault
  · rename_i heq
    rw [Except.error.inj heq]

theorem makeWithParents_of_missing {depth : ℕ} {path parent : String}
    (hpath : ¬path.isEmpty = true) (hmake : fs.makeDirectory path = .error .notFound)
    (hparent : Path.parent? path = some parent) :
    FileSystem.makeWithParents (depth + 1) fs path =
      match (FileSystem.makeWithParents depth fs parent).2 with
      | .error fault => ((FileSystem.makeWithParents depth fs parent).1, .error fault)
      | .ok () => makeOnce (FileSystem.makeWithParents depth fs parent).1 path := by
  rw [FileSystem.makeWithParents, if_neg hpath, hmake]
  dsimp only
  rw [hparent]
  dsimp only
  rcases FileSystem.makeWithParents depth fs parent with ⟨fs₁, fault | u⟩
  · rfl
  · rfl

end Ingot.FileSystem
