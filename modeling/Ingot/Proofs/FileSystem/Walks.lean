import Ingot.FileSystem.Access
import Ingot.Proofs.FileSystem.Paths
import Ingot.Proofs.Outcome

/-!
# File systems without links

Where there are no links, a path leads to one place, which can be told from the path alone
(`place`): the names of its way are entered one after the other, and two dots lead back. What
is found there depends on the directories on the way and on the place itself, and on nothing
else: **what is done elsewhere with files is not noticed** (`find_congr`).
-/

namespace Ingot.FileSystem

variable {fs fs' : FileSystem}

/-! ### What stands where -/

/-- Nowhere stands a link. -/
def NoLinks (fs : FileSystem) : Prop := ∀ l target, fs.node? l ≠ some (.link target)

/-- What stands anywhere stands in a directory. -/
def IsTree (fs : FileSystem) : Prop :=
  ∀ l name, fs.node? (l ++ [name]) ≠ none → fs.node? l = some .directory

/-- What something stands below is a directory. -/
theorem IsTree.node?_above (htree : fs.IsTree) (l : Location) (name : String) {more : List String}
    (h : fs.node? (l ++ name :: more) ≠ none) : fs.node? l = some .directory := by
  induction more using List.reverseRecOn with
  | nil => exact htree l name h
  | append_singleton more last ih =>
    refine ih ?_
    rw [← List.cons_append, ← List.append_assoc] at h
    rw [htree _ _ h]
    exact Option.some_ne_none _

theorem noLinks_of_hasNoLinks (h : fs.hasNoLinks) : fs.NoLinks := by
  intro l target hnode
  rw [node?] at hnode
  split at hnode
  · cases hnode
  · exact h l target (mem_of_lookup hnode)

theorem node?_nil (fs : FileSystem) : fs.node? [] = some .directory := rfl

theorem node?_of_ne_nil {l : Location} (h : l ≠ []) : fs.node? l = fs.nodes.lookup l := by
  rw [node?, if_neg (by simpa using h)]

theorem lookup_replace_self {l : Location} {n : Node} {nodes : List (Location × Node)}
    (h : (nodes.lookup l).isSome = true) :
    (nodes.map fun e => if e.1 == l then (l, n) else e).lookup l = some n := by
  induction nodes with
  | nil => cases h
  | cons e nodes ih =>
    obtain ⟨k, m⟩ := e
    by_cases hk : k = l
    · subst hk
      simp
    · have hne : (l == k) = false := by simpa using Ne.symm hk
      rw [List.lookup_cons, hne] at h
      simp only [List.map_cons, beq_iff_eq, hk, if_false, List.lookup_cons, hne]
      simpa using ih h

theorem lookup_replace_of_ne {l l' : Location} (hne : l' ≠ l) (n : Node)
    (nodes : List (Location × Node)) :
    (nodes.map fun e => if e.1 == l then (l, n) else e).lookup l' = nodes.lookup l' := by
  have hb : (l' == l) = false := by simpa using hne
  induction nodes with
  | nil => rfl
  | cons e nodes ih =>
    obtain ⟨k, m⟩ := e
    by_cases hk : k = l
    · subst hk
      simp only [List.map_cons, beq_self_eq_true, if_true, List.lookup_cons, hb]
      simpa using ih
    · simp only [List.map_cons, beq_iff_eq, hk, if_false, List.lookup_cons]
      cases l' == k
      · simpa using ih
      · rfl

/-- What stands at each location after something was put somewhere. -/
theorem node?_put {l : Location} (hl : l ≠ []) (n : Node) (l' : Location) :
    (fs.put l n).node? l' = if l' = l then some n else fs.node? l' := by
  by_cases hnil : l' = []
  · subst hnil
    rw [node?_nil, node?_nil, if_neg (Ne.symm hl)]
  · rw [node?_of_ne_nil hnil, node?_of_ne_nil hnil, put]
    by_cases heq : l' = l
    · subst heq
      rw [if_pos rfl]
      split
      · rename_i hsome
        exact lookup_replace_self hsome
      · rename_i hnone
        rw [Bool.not_eq_true, Option.isSome_eq_false_iff, Option.isNone_iff_eq_none] at hnone
        simp [List.lookup_append, hnone]
    · rw [if_neg heq]
      split
      · exact lookup_replace_of_ne heq n fs.nodes
      · have hb : (l' == l) = false := by simpa using heq
        rw [List.lookup_append, List.lookup_cons, hb]
        simp

theorem put_of_vacant {l : Location} (h : fs.node? l = none) (n : Node) :
    fs.put l n = { fs with nodes := fs.nodes ++ [(l, n)] } := by
  have hl : l ≠ [] := by
    rintro rfl
    cases h
  rw [node?_of_ne_nil hl] at h
  rw [put, h]
  rfl

theorem NoLinks.put (h : fs.NoLinks) {l : Location} (hl : l ≠ []) {n : Node}
    (hn : ∀ target, n ≠ .link target) : (fs.put l n).NoLinks := by
  intro l' target hnode
  rw [node?_put hl] at hnode
  split at hnode
  · exact hn target (Option.some.inj hnode)
  · exact h l' target hnode

/-! ### Where a path leads -/

/-- The place that a name leads to from a directory. -/
def enter (at_ : Location) (name : String) : Location :=
  if name = "." then at_ else if name = ".." then at_.dropLast else at_ ++ [name]

/-- The place that names lead to. -/
def follow (at_ : Location) (names : List String) : Location := names.foldl enter at_

/-- The place that a path leads to, where there are no links. -/
def place (fs : FileSystem) (path : String) : Location :=
  follow (startOf fs.workingDirectory path) (Path.way path)

/-- Where a spot is. -/
def Spot.location : Spot → Location
  | found location _ => location
  | vacant location => location

theorem follow_append (at_ : Location) (a b : List String) :
    follow at_ (a ++ b) = follow (follow at_ a) b := List.foldl_append

theorem follow_filter (at_ : Location) (names : List String) :
    follow at_ (names.filter (· != ".")) = follow at_ names := by
  induction names generalizing at_ with
  | nil => rfl
  | cons name names ih =>
    by_cases h : name = "."
    · subst h
      exact ih at_
    · rw [List.filter_cons_of_pos (by simpa using h)]
      exact ih (enter at_ name)

theorem follow_namesOf (at_ : Location) (path : String) :
    follow at_ (namesOf path) = follow at_ (Path.way path) := by
  rw [Path.way, follow_filter, namesOf]
  split
  · rw [follow_append]
    rfl
  · rfl

/-- How a walk without links comes to a spot. -/
inductive Walks (fs : FileSystem) : Location → List String → Spot → Prop where
  /-- No name is left. -/
  | here {at_ : Location} : Walks fs at_ [] (.found at_ .directory)
  /-- A single dot means nothing. -/
  | dot {at_ : Location} {rest : List String} {spot : Spot} :
      Walks fs at_ rest spot → Walks fs at_ ("." :: rest) spot
  /-- Two dots lead back. -/
  | up {at_ : Location} {rest : List String} {spot : Spot} :
      Walks fs at_.dropLast rest spot → Walks fs at_ (".." :: rest) spot
  /-- A directory is entered. -/
  | into {at_ : Location} {name : String} {rest : List String} {spot : Spot} :
      name ≠ "." → name ≠ ".." → Raw.size name ≤ nameLimit →
      fs.node? (at_ ++ [name]) = some .directory →
      Walks fs (at_ ++ [name]) rest spot → Walks fs at_ (name :: rest) spot
  /-- A file is found. -/
  | file {at_ : Location} {name : String} {content : ByteArray} {permissions : Permissions} :
      name ≠ "." → name ≠ ".." → Raw.size name ≤ nameLimit →
      fs.node? (at_ ++ [name]) = some (.file content permissions) →
      Walks fs at_ [name] (.found (at_ ++ [name]) (.file content permissions))
  /-- The last name is free. -/
  | free {at_ : Location} {name : String} :
      name ≠ "." → name ≠ ".." → Raw.size name ≤ nameLimit →
      fs.node? (at_ ++ [name]) = none → Walks fs at_ [name] (.vacant (at_ ++ [name]))

theorem walks_of_walk (h : fs.NoLinks) {followLast : Bool} {links : ℕ} {at_ : Location}
    {todo : List String} {spot : Spot} (hwalk : fs.walk followLast links at_ todo = .ok spot) :
    Walks fs at_ todo spot := by
  fun_induction walk fs followLast links at_ todo with
  | case1 links at_ =>
    cases hwalk
    exact .here
  | case2 links at_ rest ih => exact .dot (ih hwalk)
  | case3 links at_ rest ih => exact .up (ih hwalk)
  | case5 links at_ name rest hdot hup hsize here hnone hlast =>
    cases hwalk
    obtain rfl := List.isEmpty_iff.1 hlast
    exact .free hdot hup (Nat.le_of_not_lt hsize) hnone
  | case7 links at_ name rest hdot hup hsize here hdir ih =>
    exact .into hdot hup (Nat.le_of_not_lt hsize) hdir (ih hwalk)
  | case8 links at_ name rest hdot hup hsize here content permissions hfile hlast =>
    cases hwalk
    obtain rfl := List.isEmpty_iff.1 hlast
    exact .file hdot hup (Nat.le_of_not_lt hsize) hfile
  | case10 links at_ name rest hdot hup hsize here target hlink =>
    exact absurd hlink (h _ target)
  | case13 at_ name rest hdot hup hsize here target hlink => exact absurd hlink (h _ target)
  | _ => cases hwalk

theorem walk_name (fs : FileSystem) (followLast : Bool) (links : ℕ) (at_ : Location)
    {name : String} (rest : List String) (hdot : name ≠ ".") (hup : name ≠ "..")
    (hsize : Raw.size name ≤ nameLimit) :
    fs.walk followLast links at_ (name :: rest) =
      match fs.node? (at_ ++ [name]) with
      | none => if rest.isEmpty then .ok (.vacant (at_ ++ [name])) else .error .notFound
      | some .directory => fs.walk followLast links (at_ ++ [name]) rest
      | some (.file content permissions) =>
        if rest.isEmpty then .ok (.found (at_ ++ [name]) (.file content permissions))
        else .error .notDirectory
      | some (.link target) =>
        if rest.isEmpty ∧ !followLast then .ok (.found (at_ ++ [name]) (.link target))
        else
          match links with
          | 0 => .error .tooManyLinks
          | links + 1 =>
            if target.isEmpty then .error .notFound
            else fs.walk followLast links (startOf at_ target) (namesOf target ++ rest) := by
  rw [walk]
  · rw [if_neg (Nat.not_lt.2 hsize)]
    dsimp only
    cases fs.node? (at_ ++ [name]) with
    | none => rfl
    | some node => cases node <;> rfl
  · exact hdot
  · exact hup

theorem walk_of_walks {at_ : Location} {todo : List String} {spot : Spot}
    (h : Walks fs at_ todo spot) (followLast : Bool) (links : ℕ) :
    fs.walk followLast links at_ todo = .ok spot := by
  induction h with
  | here => rw [walk]
  | dot _ ih =>
    rw [walk]
    exact ih
  | up _ ih =>
    rw [walk]
    exact ih
  | into hdot hup hsize hdir _ ih =>
    rw [walk_name _ _ _ _ _ hdot hup hsize, hdir]
    exact ih
  | file hdot hup hsize hfile =>
    rw [walk_name _ _ _ _ _ hdot hup hsize, hfile]
    rfl
  | free hdot hup hsize hnone =>
    rw [walk_name _ _ _ _ _ hdot hup hsize, hnone]
    rfl

/-- **Without links a walk ends where its names lead.** -/
theorem Walks.location {at_ : Location} {todo : List String} {spot : Spot}
    (h : Walks fs at_ todo spot) : spot.location = follow at_ todo := by
  induction h with
  | here => rfl
  | dot _ ih => exact ih
  | up _ ih => exact ih
  | into hdot hup _ _ _ ih =>
    rw [ih, follow, follow, List.foldl_cons, enter, if_neg hdot, if_neg hup]
  | file hdot hup _ _ =>
    rw [follow, List.foldl_cons, enter, if_neg hdot, if_neg hup]
    rfl
  | free hdot hup _ _ =>
    rw [follow, List.foldl_cons, enter, if_neg hdot, if_neg hup]
    rfl

/-- What a spot says of its location; a directory that a walk does not leave is one that it has
come through before. -/
def Spot.Holds (fs : FileSystem) : Spot → Prop
  | found location (.file content permissions) =>
    fs.node? location = some (.file content permissions)
  | found _ .directory => True
  | found _ (.link _) => False
  | vacant location => fs.node? location = none

theorem Walks.holds {at_ : Location} {todo : List String} {spot : Spot}
    (h : Walks fs at_ todo spot) : spot.Holds fs := by
  induction h with
  | here => trivial
  | dot _ ih => exact ih
  | up _ ih => exact ih
  | into _ _ _ _ _ ih => exact ih
  | file _ _ _ hfile => exact hfile
  | free _ _ _ hnone => exact hnone

/-- What a walk finds is still found when all directories are still there and so is what
stands at its end. -/
theorem Walks.congr {at_ : Location} {todo : List String} {spot : Spot}
    (h : Walks fs at_ todo spot)
    (hdirs : ∀ l, fs.node? l = some .directory → fs'.node? l = some .directory)
    (hend : fs'.node? spot.location = fs.node? spot.location) : Walks fs' at_ todo spot := by
  induction h with
  | here => exact .here
  | dot _ ih => exact .dot (ih hend)
  | up _ ih => exact .up (ih hend)
  | into hdot hup hsize hdir _ ih => exact .into hdot hup hsize (hdirs _ hdir) (ih hend)
  | file hdot hup hsize hfile => exact .file hdot hup hsize (hend.trans hfile)
  | free hdot hup hsize hnone => exact .free hdot hup hsize (hend.trans hnone)

/-! ### Resolving -/

theorem resolve_eq_ok (h : fs.NoLinks) {followLast : Bool} {path : String} {spot : Spot} :
    fs.resolve followLast path = .ok spot ↔ checkPath path = .ok () ∧
      Walks fs (startOf fs.workingDirectory path) (namesOf path) spot := by
  unfold resolve
  cases hcheck : checkPath path with
  | error fault => simp
  | ok u =>
    simp only [true_and]
    exact ⟨walks_of_walk h, fun hw => walk_of_walks hw _ _⟩

/-- **A path leads to its place.** -/
theorem location_of_resolve (h : fs.NoLinks) {followLast : Bool} {path : String} {spot : Spot}
    (hr : fs.resolve followLast path = .ok spot) : spot.location = fs.place path := by
  rw [((resolve_eq_ok h).1 hr).2.location, follow_namesOf]
  rfl

theorem holds_of_resolve (h : fs.NoLinks) {followLast : Bool} {path : String} {spot : Spot}
    (hr : fs.resolve followLast path = .ok spot) : spot.Holds fs :=
  ((resolve_eq_ok h).1 hr).2.holds

/-- A path leads to the same spot as long as all directories are still there and so is what
stood at the spot. -/
theorem resolve_congr (h : fs.NoLinks) (h' : fs'.NoLinks) {followLast : Bool} {path : String}
    {spot : Spot} (hwd : fs'.workingDirectory = fs.workingDirectory)
    (hdirs : ∀ l, fs.node? l = some .directory → fs'.node? l = some .directory)
    (hend : fs'.node? spot.location = fs.node? spot.location)
    (hr : fs.resolve followLast path = .ok spot) : fs'.resolve followLast path = .ok spot := by
  obtain ⟨hcheck, hw⟩ := (resolve_eq_ok h).1 hr
  refine (resolve_eq_ok h').2 ⟨hcheck, ?_⟩
  rw [hwd]
  exact hw.congr hdirs hend

theorem find_eq_ok {followLast : Bool} {path : String} {l : Location} {n : Node} :
    fs.find followLast path = .ok (l, n) ↔ fs.resolve followLast path = .ok (.found l n) := by
  unfold find
  constructor
  · intro hf
    split at hf
    · cases hf
    · cases hf
    · rename_i hr
      cases hf
      exact hr
  · intro hr
    rw [hr]

end Ingot.FileSystem
