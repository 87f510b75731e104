import Ingot.Proofs.FileSystem.Entries

/-!
# Paths of locations

The path of a location goes from the top through its names (`path_eq_descend`): its way is the
location itself, and it leads there (`place_path`). What is found in a file system that can be
stands where it is found (`node?_of_find`), so **a canonical path that leads somewhere is the
path of the location where it leads** (`path_of_canonicalOr`).
-/

namespace Ingot.Path

/-! ### The path of a location -/

theorem isAbsolute_path (l : Location) : isAbsolute l.path = true := by
  rw [Location.path, isAbsolute, String.toList_append]
  rfl

theorem getLast?_append_isLeaf (p : String) {name : String} (h : IsLeaf name) :
    (p ++ name).toList.getLast? ≠ some '/' := by
  rw [String.toList_append, List.getLast?_append_of_ne_nil _ h.toList_ne_nil]
  exact fun hlast => h.noSlash (List.mem_of_getLast? hlast)

theorem join_of_noSlash {p name : String} (hp : p ≠ "") (hlast : p.toList.getLast? ≠ some '/')
    (h : IsLeaf name) : join p name = p ++ "/" ++ name := by
  have hempty : p.isEmpty = false := by simpa [String.isEmpty_iff] using hp
  rw [join, not_isAbsolute_of_noSlash h.noSlash, if_neg Bool.false_ne_true, hempty,
    if_neg (by simpa using hlast)]

theorem descend_of_noSlash {p name : String} {names : List String} (hp : p ≠ "")
    (hlast : p.toList.getLast? ≠ some '/') (h : ∀ n ∈ name :: names, IsName n) :
    descend p (name :: names) = p ++ "/" ++ "/".intercalate (name :: names) := by
  induction names generalizing p name with
  | nil =>
    rw [descend_cons, join_of_noSlash hp hlast (h name List.mem_cons_self).toIsLeaf,
      String.intercalate_singleton]
    rfl
  | cons second names ih =>
    obtain ⟨hname, hnames⟩ := List.forall_mem_cons.1 h
    rw [descend_cons, join_of_noSlash hp hlast hname.toIsLeaf, String.intercalate_cons_cons,
      ih _ (getLast?_append_isLeaf _ hname.toIsLeaf) hnames]
    · simp only [String.append_assoc]
    · simp

/-- **The path of a location goes from the top through its names.** -/
theorem path_eq_descend {l : Location} (h : ∀ name ∈ l, IsName name) :
    Location.path l = descend "/" l := by
  cases l with
  | nil => rfl
  | cons name names =>
    obtain ⟨hname, hnames⟩ := List.forall_mem_cons.1 h
    have hjoin : join "/" name = "/" ++ name := by
      rw [join, not_isAbsolute_of_noSlash hname.noSlash, if_neg Bool.false_ne_true]
      exact if_pos (.inr (by decide))
    rw [Location.path, descend_cons, hjoin]
    cases names with
    | nil =>
      rw [String.intercalate_singleton]
      rfl
    | cons second names =>
      rw [String.intercalate_cons_cons,
        descend_of_noSlash _ (getLast?_append_isLeaf _ hname.toIsLeaf) hnames]
      · simp only [String.append_assoc]
      · simp

theorem way_descend {p : String} {names : List String} (hp : p ≠ "")
    (h : ∀ name ∈ names, IsName name) : way (descend p names) = way p ++ names := by
  induction names generalizing p with
  | nil => simp [descend]
  | cons name names ih =>
    obtain ⟨hname, hnames⟩ := List.forall_mem_cons.1 h
    rw [descend_cons, ih (join_ne_empty hp hname.toIsLeaf) hnames,
      way_join hp hname.toIsLeaf hname.ne_dot, List.append_assoc]
    rfl

theorem isAbsolute_descend {p : String} {names : List String} (h : isAbsolute p = true) :
    isAbsolute (descend p names) = true := by
  induction names generalizing p with
  | nil => exact h
  | cons name names ih => exact ih (isAbsolute_join h name)

theorem way_path {l : Location} (h : ∀ name ∈ l, IsName name) : way l.path = l := by
  rw [path_eq_descend h, way_descend (by decide) h]
  rfl

/-- An absolute path without two dots has the names on its way as components. -/
theorem components_of_noUp {p : String} (h : isAbsolute p = true) (hup : ".." ∉ way p) :
    components p = .root :: (way p).map .name := by
  rw [components_of_isAbsolute h, map_componentOf fun name hname => ?_]
  obtain ⟨hleaf, hdot⟩ := isLeaf_of_mem_way hname
  exact ⟨hleaf, hdot, fun heq => hup (heq ▸ hname)⟩

/-- What lies below the path of a location has its names behind those of the location. -/
theorem components_descend_path {l : Location} (hl : ∀ name ∈ l, IsName name) {names : List String}
    (hnames : ∀ name ∈ names, IsName name) :
    components (descend l.path names) = .root :: (l ++ names).map .name := by
  have hup : ".." ∉ way l.path := by
    rw [way_path hl]
    exact fun hmem => (hl _ hmem).ne_up rfl
  rw [components_descend (ne_empty_of_isAbsolute (isAbsolute_path l)) hnames,
    components_of_noUp (isAbsolute_path l) hup, way_path hl, List.map_append]
  rfl

end Ingot.Path

namespace Ingot.FileSystem

variable {fs : FileSystem}

/-! ### Where it leads -/

theorem follow_of_isName (at_ : Location) {names : List String}
    (h : ∀ name ∈ names, name ≠ "." ∧ name ≠ "..") : follow at_ names = at_ ++ names := by
  induction names generalizing at_ with
  | nil => simp [follow]
  | cons name names ih =>
    obtain ⟨⟨hdot, hup⟩, hnames⟩ := List.forall_mem_cons.1 h
    rw [follow, List.foldl_cons, enter, if_neg hdot, if_neg hup]
    exact (ih (at_ ++ [name]) hnames).trans (by simp)

/-- An absolute path without two dots leads along its way. -/
theorem place_of_noUp {p : String} (h : Path.isAbsolute p = true) (hup : ".." ∉ Path.way p) :
    fs.place p = Path.way p := by
  rw [place, startOf, h, if_pos rfl, follow_of_isName _ fun name hname => ?_, List.nil_append]
  exact ⟨(Path.isLeaf_of_mem_way hname).2, fun heq => hup (heq ▸ hname)⟩

theorem place_descend_path {l : Location} (h : ∀ name ∈ l, Path.IsName name) {names : List String}
    (hnames : ∀ name ∈ names, Path.IsName name) :
    fs.place (Path.descend l.path names) = l ++ names := by
  have hway : Path.way (Path.descend l.path names) = l ++ names := by
    rw [Path.way_descend (Path.ne_empty_of_isAbsolute (Path.isAbsolute_path l)) hnames,
      Path.way_path h]
  rw [place_of_noUp (Path.isAbsolute_descend (Path.isAbsolute_path l)), hway]
  rw [hway]
  intro hup
  rcases List.mem_append.1 hup with hup | hup
  · exact (h _ hup).ne_up rfl
  · exact (hnames _ hup).ne_up rfl

/-- The path of a location leads there. -/
theorem place_path {l : Location} (h : ∀ name ∈ l, Path.IsName name) : fs.place l.path = l := by
  have hplace : fs.place (Path.descend l.path []) = l ++ [] :=
    place_descend_path h (List.forall_mem_nil _)
  simpa [Path.descend] using hplace

/-! ### What is found -/

/-- Without links a walk that starts in a directory ends at what stands there. -/
theorem Walks.node? (htree : fs.IsTree) {at_ : Location} {todo : List String} {spot : Spot}
    (h : Walks fs at_ todo spot) (hat : fs.node? at_ = some .directory) {l : Location} {n : Node}
    (hspot : spot = .found l n) : fs.node? l = some n := by
  induction h with
  | here =>
    cases hspot
    exact hat
  | dot _ ih => exact ih hat hspot
  | @up at_ rest spot _ ih =>
    refine ih ?_ hspot
    cases at_ using List.reverseRecOn with
    | nil => rfl
    | append_singleton front name =>
      rw [List.dropLast_concat]
      exact htree front name (by simp [hat])
  | into _ _ _ hdir _ ih => exact ih hdir hspot
  | file _ _ _ hfile =>
    cases hspot
    exact hfile
  | free => cases hspot

/-- From a directory that is there a search finds what stands where it says. -/
theorem node?_of_find (htree : fs.IsTree) (hlinks : fs.NoLinks)
    (hwd : fs.node? fs.workingDirectory = some .directory) {path : String} {l : Location}
    {n : Node} (h : fs.find true path = .ok (l, n)) : fs.node? l = some n := by
  obtain ⟨_, hwalks⟩ := (resolve_eq_ok hlinks).1 (find_eq_ok.1 h)
  refine hwalks.node? htree ?_ rfl
  rw [startOf]
  split
  · rfl
  · exact hwd

theorem canonicalOr_of_find {path : String} {l : Location} {n : Node}
    (h : fs.find true path = .ok (l, n)) : fs.canonicalOr path = l.path := by
  rw [canonicalOr, canonical, h]
  rfl

/-- A path that is canonical or leads nowhere, where that path itself leads somewhere. -/
theorem exists_find_of_canonicalOr {path : String} {found : Location × Node}
    (h : fs.find true (fs.canonicalOr path) = .ok found) :
    ∃ l n, fs.find true path = .ok (l, n) := by
  cases hfind : fs.find true path with
  | error fault =>
    have hpath : fs.canonicalOr path = path := by
      rw [canonicalOr, canonical, hfind]
      rfl
    rw [hpath, hfind] at h
    cases h
  | ok found => exact ⟨_, _, rfl⟩

/-- **A canonical path that leads somewhere is the path of the location where it leads.** -/
theorem path_of_canonicalOr (hfs : fs.IsProper) (hlinks : fs.NoLinks)
    (hwd : fs.node? fs.workingDirectory = some .directory) {path : String} {l : Location} {n : Node}
    (h : fs.find true (fs.canonicalOr path) = .ok (l, n)) :
    fs.canonicalOr path = l.path ∧ (∀ name ∈ l, Path.IsName name) ∧
      ∃ n', fs.find true path = .ok (l, n') := by
  obtain ⟨l', n', hfind⟩ := exists_find_of_canonicalOr h
  have hnode := node?_of_find hfs.isTree hlinks hwd hfind
  have hnames := hfs.isName_of_node? (hnode ▸ Option.some_ne_none n')
  have hplace := location_of_resolve hlinks (find_eq_ok.1 h)
  rw [canonicalOr_of_find hfind, place_path hnames] at hplace
  obtain rfl : l = l' := hplace
  exact ⟨canonicalOr_of_find hfind, hnames, n', hfind⟩

end Ingot.FileSystem
