import Ingot.Proofs.FileSystem.PathOrder
import Ingot.Proofs.FileSystem.Walks
import Ingot.Sources.Walk

/-!
# Names in directories

A file system that can be has one thing at each location, in directories and under names that
can be names (`IsProper`). Such a name stands for what is under it or, where that is a link, for
what the link leads to (`StandsFor`); one name after the other leads through directories
(`Leads`). **The order in which the entries of a file system are listed does not matter**: what
stands where, where a path leads and the names in a directory, which are in order, are the same
in any other order (`IsReordering.node?`, `IsReordering.find`, `IsReordering.namesIn`).
-/

namespace Ingot.FileSystem

variable {fs fs' : FileSystem}

/-- A file system that can be: one thing stands at each location, all names can be names in a
directory, and all that stands anywhere stands in one. -/
structure IsProper (fs : FileSystem) : Prop where
  distinct : (fs.nodes.map Prod.fst).Nodup
  names : ∀ l ∈ fs.nodes.map Prod.fst, ∀ name ∈ l, Path.IsName name
  inDirectory : ∀ l ∈ fs.nodes.map Prod.fst, (fs.node? l.dropLast).any Node.isDirectory = true

instance (fs : FileSystem) : Decidable fs.IsProper :=
  decidable_of_iff ((fs.nodes.map Prod.fst).Nodup ∧
      (∀ l ∈ fs.nodes.map Prod.fst, ∀ name ∈ l, Path.IsName name) ∧
      ∀ l ∈ fs.nodes.map Prod.fst, (fs.node? l.dropLast).any Node.isDirectory = true)
    ⟨fun h => ⟨h.1, h.2.1, h.2.2⟩, fun h => ⟨h.distinct, h.names, h.inDirectory⟩⟩

/-- The same file system, with its entries listed in another order. -/
structure IsReordering (fs fs' : FileSystem) : Prop where
  nodes : fs'.nodes.Perm fs.nodes
  workingDirectory : fs'.workingDirectory = fs.workingDirectory

/-! ### Names and what they lead to -/

/-- What a name in a directory stands for, links followed. -/
inductive StandsFor (fs : FileSystem) (at_ : Location) (name : String) : Location → Node → Prop where
  /-- A file or a directory stands for itself. -/
  | itself {n : Node} :
      fs.node? (at_ ++ [name]) = some n → (∀ target, n ≠ .link target) →
      StandsFor fs at_ name (at_ ++ [name]) n
  /-- A link stands for what it leads to. -/
  | linked {target : String} {l : Location} {n : Node} :
      fs.node? (at_ ++ [name]) = some (.link target) →
      fs.walk true linkLimit at_ [name] = .ok (.found l n) → StandsFor fs at_ name l n

/-- What names lead to from a directory, one after the other, links followed. -/
inductive Leads (fs : FileSystem) : Location → List String → Location → Node → Prop where
  /-- The last name stands for it. -/
  | last {at_ l : Location} {name : String} {n : Node} :
      fs.StandsFor at_ name l n → Leads fs at_ [name] l n
  /-- The first name stands for a directory, from which the others lead to it. -/
  | into {at_ l l' : Location} {name second : String} {more : List String} {n : Node} :
      fs.StandsFor at_ name l .directory → Leads fs l (second :: more) l' n →
      Leads fs at_ (name :: second :: more) l' n

theorem StandsFor.unique {at_ l l' : Location} {name : String} {n n' : Node}
    (h : fs.StandsFor at_ name l n) (h' : fs.StandsFor at_ name l' n') : l = l' ∧ n = n' := by
  cases h with
  | itself hn hlink =>
    cases h' with
    | itself hn' _ =>
      rw [hn] at hn'
      exact ⟨rfl, Option.some.inj hn'⟩
    | linked hn' _ =>
      rw [hn] at hn'
      exact absurd (Option.some.inj hn') (hlink _)
  | linked hn hwalk =>
    cases h' with
    | itself hn' hlink =>
      rw [hn] at hn'
      exact absurd (Option.some.inj hn').symm (hlink _)
    | linked _ hwalk' =>
      rw [hwalk] at hwalk'
      cases hwalk'
      exact ⟨rfl, rfl⟩

theorem StandsFor.node? {at_ l : Location} {name : String} {n : Node}
    (h : fs.StandsFor at_ name l n) : fs.node? (at_ ++ [name]) ≠ none := by
  cases h with
  | itself hn _ => simp [hn]
  | linked hn _ => simp [hn]

/-! ### Names in a directory -/

/-- The last name of a location in a directory. -/
def nameIn (directory l : Location) : Option String :=
  if l.dropLast == directory then l.getLast? else none

theorem nameIn_eq_some_iff {directory l : Location} {name : String} :
    nameIn directory l = some name ↔ l = directory ++ [name] := by
  constructor
  · intro h
    rw [nameIn] at h
    split at h
    · rename_i hdirectory
      rw [List.getLast?_eq_some_iff] at h
      obtain ⟨front, rfl⟩ := h
      rw [List.dropLast_concat, beq_iff_eq] at hdirectory
      rw [hdirectory]
    · cases h
  · rintro rfl
    simp [nameIn]

theorem namesIn_eq (fs : FileSystem) (l : Location) : fs.namesIn l =
    ((fs.nodes.map Prod.fst).filterMap (nameIn l)).mergeSort Raw.le := by
  rw [namesIn, List.filterMap_map]
  rfl

theorem node?_eq_none_iff {l : Location} (hl : l ≠ []) :
    fs.node? l = none ↔ l ∉ fs.nodes.map Prod.fst := by
  rw [node?_of_ne_nil hl, List.lookup_eq_none_iff]
  simp only [List.mem_map, not_exists, not_and]
  constructor
  · rintro h e he rfl
    simpa using h e he
  · rintro h e he
    simpa using fun heq => h e he heq.symm

/-- The names in a directory are those under which something stands there. -/
theorem mem_namesIn_iff {l : Location} {name : String} :
    name ∈ fs.namesIn l ↔ fs.node? (l ++ [name]) ≠ none := by
  rw [namesIn_eq, List.mem_mergeSort, List.mem_filterMap, Ne,
    node?_eq_none_iff (by simp), not_not]
  constructor
  · rintro ⟨k, hk, hname⟩
    rwa [← nameIn_eq_some_iff.1 hname]
  · intro hmem
    exact ⟨_, hmem, nameIn_eq_some_iff.2 rfl⟩

theorem pairwise_namesIn (fs : FileSystem) (l : Location) :
    (fs.namesIn l).Pairwise fun a b => Raw.le a b = true := by
  rw [namesIn_eq]
  exact List.pairwise_mergeSort (fun a b c => @Raw.le_trans a b c) (fun a b => Raw.le_total a b) _

theorem isDirectory_iff {n : Node} : n.isDirectory = true ↔ n = .directory := by
  cases n <;> simp [Node.isDirectory]

theorem any_isDirectory_iff {n : Option Node} :
    n.any Node.isDirectory = true ↔ n = some .directory := by
  cases n <;> simp [isDirectory_iff]

/-- Where there are no links, a path of a directory leads to its place. -/
theorem find_of_isDirectory (hlinks : fs.NoLinks) {path : String}
    (h : fs.isDirectory path = true) : fs.find true path = .ok (fs.place path, .directory) := by
  unfold isDirectory at h
  split at h
  · rename_i l n hfind
    obtain rfl := isDirectory_iff.1 h
    have hplace : l = fs.place path := location_of_resolve hlinks (find_eq_ok.1 hfind)
    rw [← hplace, hfind]
  · cases h

namespace IsProper

theorem isTree (h : fs.IsProper) : fs.IsTree := by
  intro l name hname
  rw [Ne, node?_eq_none_iff (by simp), not_not] at hname
  simpa using any_isDirectory_iff.1 (h.inDirectory _ hname)

/-- Something that is there is there under names. -/
theorem isName_of_node? (h : fs.IsProper) {l : Location} (hl : fs.node? l ≠ none) :
    ∀ name ∈ l, Path.IsName name := by
  by_cases hnil : l = []
  · subst hnil
    exact List.forall_mem_nil _
  · rw [Ne, node?_eq_none_iff hnil, not_not] at hl
    exact h.names l hl

theorem nodup_namesIn (h : fs.IsProper) (l : Location) : (fs.namesIn l).Nodup := by
  rw [namesIn_eq, (List.mergeSort_perm _ _).nodup_iff]
  refine List.Pairwise.filterMap _ (fun a b hne name ha other hb hsame => hne ?_) h.distinct
  rw [nameIn_eq_some_iff.1 ha, nameIn_eq_some_iff.1 hb, hsame]

theorem isName_of_mem_namesIn (h : fs.IsProper) {l : Location} {name : String}
    (hname : name ∈ fs.namesIn l) : Path.IsName name :=
  h.isName_of_node? (mem_namesIn_iff.1 hname) name (List.mem_append_right _ List.mem_cons_self)

theorem isName_of_leads (h : fs.IsProper) {at_ l : Location} {names : List String} {n : Node}
    (hl : fs.Leads at_ names l n) : ∀ name ∈ names, Path.IsName name := by
  induction hl with
  | last hname =>
    exact List.forall_mem_singleton.2 (h.isName_of_mem_namesIn (mem_namesIn_iff.2 hname.node?))
  | into hname _ ih =>
    exact List.forall_mem_cons.2 ⟨h.isName_of_mem_namesIn (mem_namesIn_iff.2 hname.node?), ih⟩

end IsProper

/-! ### Where a path leads depends on what stands where -/

theorem walk_tooLong (fs : FileSystem) (followLast : Bool) (links : ℕ) (at_ : Location)
    {name : String} (rest : List String) (hdot : name ≠ ".") (hup : name ≠ "..")
    (hsize : Raw.size name > nameLimit) :
    fs.walk followLast links at_ (name :: rest) = .error .nameTooLong := by
  rw [walk]
  · exact if_pos hsize
  · exact hdot
  · exact hup

theorem walk_congr (h : ∀ l, fs'.node? l = fs.node? l) (followLast : Bool) (links : ℕ)
    (at_ : Location) (todo : List String) :
    fs'.walk followLast links at_ todo = fs.walk followLast links at_ todo := by
  fun_induction fs.walk followLast links at_ todo with
  | case1 => rw [walk]
  | case2 links at_ rest ih => rw [walk, ih]
  | case3 links at_ rest ih => rw [walk, ih]
  | case4 links at_ name rest hdot hup hsize => exact walk_tooLong _ _ _ _ _ hdot hup hsize
  | case5 links at_ name rest hdot hup hsize here hnone hlast =>
    rw [walk_name _ _ _ _ _ hdot hup (Nat.le_of_not_lt hsize), h, hnone]
    exact if_pos hlast
  | case6 links at_ name rest hdot hup hsize here hnone hlast =>
    rw [walk_name _ _ _ _ _ hdot hup (Nat.le_of_not_lt hsize), h, hnone]
    exact if_neg hlast
  | case7 links at_ name rest hdot hup hsize here hdir ih =>
    rw [walk_name _ _ _ _ _ hdot hup (Nat.le_of_not_lt hsize), h, hdir]
    exact ih
  | case8 links at_ name rest hdot hup hsize here content permissions hfile hlast =>
    rw [walk_name _ _ _ _ _ hdot hup (Nat.le_of_not_lt hsize), h, hfile]
    exact if_pos hlast
  | case9 links at_ name rest hdot hup hsize here content permissions hfile hlast =>
    rw [walk_name _ _ _ _ _ hdot hup (Nat.le_of_not_lt hsize), h, hfile]
    exact if_neg hlast
  | case10 links at_ name rest hdot hup hsize here target hlink hlast =>
    rw [walk_name _ _ _ _ _ hdot hup (Nat.le_of_not_lt hsize), h, hlink]
    exact if_pos hlast
  | case11 at_ name rest hdot hup hsize here target hlink hlast =>
    rw [walk_name _ _ _ _ _ hdot hup (Nat.le_of_not_lt hsize), h, hlink]
    exact if_neg hlast
  | case12 at_ name rest hdot hup hsize here target hlink hlast links hempty =>
    rw [walk_name _ _ _ _ _ hdot hup (Nat.le_of_not_lt hsize), h, hlink]
    exact (if_neg hlast).trans (if_pos hempty)
  | case13 at_ name rest hdot hup hsize here target hlink hlast links hempty ih =>
    rw [walk_name _ _ _ _ _ hdot hup (Nat.le_of_not_lt hsize), h, hlink]
    exact (if_neg hlast).trans ((if_neg hempty).trans ih)

theorem find_congr_node? (h : ∀ l, fs'.node? l = fs.node? l)
    (hwd : fs'.workingDirectory = fs.workingDirectory) (followLast : Bool) (path : String) :
    fs'.find followLast path = fs.find followLast path := by
  simp only [find, resolve, walk_congr h, hwd]

/-! ### Entries in another order -/

namespace IsReordering

theorem node? (h : IsReordering fs fs') (hfs : fs.IsProper) (l : Location) :
    fs'.node? l = fs.node? l := by
  by_cases hl : l = []
  · rw [hl]
    rfl
  · have hdistinct : (fs'.nodes.map Prod.fst).Nodup :=
      (h.nodes.map Prod.fst).nodup_iff.2 hfs.distinct
    rw [node?_of_ne_nil hl, node?_of_ne_nil hl]
    refine Option.ext fun n => ?_
    rw [lookup_eq_some_iff_mem hdistinct, lookup_eq_some_iff_mem hfs.distinct]
    exact h.nodes.mem_iff

theorem find (h : IsReordering fs fs') (hfs : fs.IsProper) (followLast : Bool) (path : String) :
    fs'.find followLast path = fs.find followLast path :=
  find_congr_node? (h.node? hfs) h.workingDirectory followLast path

theorem namesIn (h : IsReordering fs fs') (l : Location) : fs'.namesIn l = fs.namesIn l := by
  have hperm : (fs'.namesIn l).Perm (fs.namesIn l) := by
    rw [namesIn_eq, namesIn_eq]
    exact (List.mergeSort_perm _ _).trans
      (((h.nodes.map Prod.fst).filterMap _).trans (List.mergeSort_perm _ _).symm)
  exact hperm.eq_of_pairwise (fun a b _ _ => Raw.eq_of_le)
    (pairwise_namesIn fs' l) (pairwise_namesIn fs l)

theorem mem_locations (h : IsReordering fs fs') {l : Location} :
    l ∈ Sources.locations fs' ↔ l ∈ Sources.locations fs := by
  rw [Sources.locations, Sources.locations, List.mem_cons, List.mem_cons,
    (h.nodes.map Prod.fst).mem_iff]

end IsReordering

end Ingot.FileSystem
