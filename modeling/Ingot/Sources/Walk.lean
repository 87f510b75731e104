import Ingot.FileSystem.Resolve

/-!
# Walking a directory tree

All files and directories below a path, every directory before what is in it and the names
in a directory in order. Links are followed; a link that leads to a directory in which the
walk already is would lead in circles, and is a fault. Below the start, directories that
are to be left out are not entered.
-/

namespace Ingot.Sources

/-- Why the walk cannot go on at some entry. -/
inductive WalkFault where
  /-- An entry cannot be looked at. -/
  | unreadable (path : String) (fault : IoFault)
  /-- A link leads back to a directory that the walk is in. -/
  | circle (path ancestor : String)
  deriving DecidableEq, Repr

/-- The path at which a walk fails. -/
def WalkFault.path : WalkFault → String
  | unreadable path _ => path
  | circle path _ => path

/-- A fault in words. -/
def WalkFault.message : WalkFault → String
  | unreadable path fault => s!"IO error for operation on {Raw.shown path}: {fault.message}"
  | circle path ancestor =>
    s!"File system loop found: {Raw.shown path} points to an ancestor {Raw.shown ancestor}"

/-- What a walk comes by. -/
structure Entry where
  /-- The path by which the walk came here. -/
  path : String
  /-- Whether a file stands here, or else a directory. -/
  isFile : Bool
  deriving DecidableEq, Repr

/-- A directory that the walk is in. -/
structure Ancestor where
  /-- Where it is. -/
  location : Location
  /-- The path by which the walk came here. -/
  path : String
  deriving DecidableEq, Repr

/-! ### How deep a walk can go -/

/-- All locations at which something stands. -/
def locations (fs : FileSystem) : List Location := [] :: fs.nodes.map Prod.fst

/-- The length of the longest location. -/
def deepest (fs : FileSystem) : Nat := ((locations fs).map List.length).foldr max 0

/-- In how many places the walk is not. -/
def unvisited (fs : FileSystem) (ancestors : List Ancestor) : Nat :=
  (locations fs).countP fun l => !ancestors.any fun a => a.location == l

theorem mem_map_fst_of_lookup {l : Location} {n : Node} :
    ∀ {nodes : List (Location × Node)}, nodes.lookup l = some n → l ∈ nodes.map Prod.fst
  | [], h => by simp at h
  | (k, m) :: nodes, h => by
    by_cases hk : l = k
    · simp [hk]
    · have hb : (l == k) = false := by simp [hk]
      simp only [List.lookup_cons, hb] at h
      exact List.mem_cons_of_mem _ (mem_map_fst_of_lookup h)

theorem mem_locations_of_node {fs : FileSystem} {l : Location} {n : Node}
    (h : fs.node? l = some n) : l ∈ locations fs := by
  cases l with
  | nil => exact List.mem_cons_self
  | cons name l => exact List.mem_cons_of_mem _ (mem_map_fst_of_lookup h)

theorem le_foldr_max {x : Nat} : ∀ {xs : List Nat}, x ∈ xs → x ≤ xs.foldr max 0
  | [], h => by cases h
  | y :: ys, h => by
    simp only [List.foldr_cons]
    rcases List.mem_cons.1 h with rfl | h
    · exact Nat.le_max_left ..
    · exact Nat.le_trans (le_foldr_max h) (Nat.le_max_right ..)

theorem length_le_deepest {fs : FileSystem} {l : Location} (h : l ∈ locations fs) :
    l.length ≤ deepest fs :=
  le_foldr_max (List.mem_map.2 ⟨l, h, rfl⟩)

theorem countP_lt_of_imp {α : Type} {p q : α → Bool} (hpq : ∀ a, p a = true → q a = true) {x : α}
    (hp : ¬p x = true) (hq : q x = true) : ∀ {xs : List α}, x ∈ xs → xs.countP p < xs.countP q
  | [], h => by cases h
  | y :: ys, h => by
    rcases List.mem_cons.1 h with rfl | h
    · rw [List.countP_cons_of_neg hp, List.countP_cons_of_pos hq]
      exact Nat.lt_succ_of_le (List.countP_mono_left fun a _ => hpq a)
    · have ih := countP_lt_of_imp hpq hp hq h
      by_cases hpy : p y = true
      · rw [List.countP_cons_of_pos hpy, List.countP_cons_of_pos (hpq y hpy)]
        omega
      · rw [List.countP_cons_of_neg hpy, List.countP_cons]
        omega

theorem unvisited_cons_le (fs : FileSystem) (a : Ancestor) (ancestors : List Ancestor) :
    unvisited fs (a :: ancestors) ≤ unvisited fs ancestors :=
  List.countP_mono_left fun l _ h => by simp_all [List.any_cons]

theorem unvisited_cons_lt {fs : FileSystem} {a : Ancestor} {ancestors : List Ancestor}
    (hmem : a.location ∈ locations fs) (hnew : ∀ b ∈ ancestors, b.location ≠ a.location) :
    unvisited fs (a :: ancestors) < unvisited fs ancestors :=
  countP_lt_of_imp (fun l h => by simp_all [List.any_cons]) (x := a.location) (by simp)
    (by simpa using hnew) hmem

/-! ### Walking -/

/-- What the walk meets when it follows a link. -/
inductive Step (fs : FileSystem) (ancestors : List Ancestor) where
  /-- A file. -/
  | file
  /-- A directory to enter. -/
  | enter (location : Location) (isThere : location ∈ locations fs)
    (isNew : ∀ a ∈ ancestors, a.location ≠ location)
  /-- A fault. -/
  | fault (fault : WalkFault)

/-- Follows a link in a directory. -/
def followLink (fs : FileSystem) (ancestors : List Ancestor) (directory : Location)
    (name path : String) : Step fs ancestors :=
  match fs.walk true FileSystem.linkLimit directory [name] with
  | .error fault => .fault (.unreadable path fault)
  | .ok (.vacant _) => .fault (.unreadable path .notFound)
  | .ok (.found location node) =>
    if node.isDirectory then
      match h : ancestors.find? fun a => a.location == location with
      | some ancestor => .fault (.circle path ancestor.path)
      | none =>
        if hl : location ∈ locations fs then
          .enter location hl (fun a ha hloc => by
            have := List.find?_eq_none.1 h a ha
            simp [hloc] at this)
        else .fault (.unreadable path .notFound)
    else .file

/-- What is in a directory, given the directories that the walk is in, the nearest one
first; these include the directory itself. -/
def walkInside (fs : FileSystem) (leaveOut : String → String → Bool)
    (ancestors : List Ancestor) (directory : Location) (path : String) :
    List (Except WalkFault Entry) :=
  (fs.namesIn directory).flatMap fun name =>
    let here := Path.join path name
    match _h : fs.node? (directory ++ [name]) with
    | none => []
    | some (.file _ _) => [.ok ⟨here, true⟩]
    | some .directory =>
      if leaveOut name here then []
      else
        .ok ⟨here, false⟩ ::
          walkInside fs leaveOut (⟨directory ++ [name], here⟩ :: ancestors) (directory ++ [name])
            here
    | some (.link _) =>
      match followLink fs ancestors directory name here with
      | .fault fault => [.error fault]
      | .file => [.ok ⟨here, true⟩]
      | .enter location _ _ =>
        if leaveOut name here then []
        else .ok ⟨here, false⟩ :: walkInside fs leaveOut (⟨location, here⟩ :: ancestors) location here
termination_by unvisited fs ancestors * (deepest fs + 1) + (deepest fs - directory.length)
decreasing_by
  · have hle := Nat.mul_le_mul_right (deepest fs + 1)
      (unvisited_cons_le fs ⟨directory ++ [name], Path.join path name⟩ ancestors)
    have hdeep := length_le_deepest (mem_locations_of_node _h)
    simp only [List.length_append, List.length_cons, List.length_nil] at hdeep ⊢
    omega
  · rename_i isThere isNew _
    have hlt := Nat.mul_le_mul_right (deepest fs + 1)
      (unvisited_cons_lt (a := ⟨location, Path.join path name⟩) isThere isNew)
    rw [Nat.succ_mul] at hlt
    omega

/-- What stands at a path and, if it is a directory, all that is below. -/
def walk (fs : FileSystem) (leaveOut : String → String → Bool) (path : String) :
    List (Except WalkFault Entry) :=
  match fs.find true path with
  | .error fault => [.error (.unreadable path fault)]
  | .ok (location, .directory) =>
    .ok ⟨path, false⟩ :: walkInside fs leaveOut [⟨location, path⟩] location path
  | .ok (_, _) => [.ok ⟨path, true⟩]

end Ingot.Sources
