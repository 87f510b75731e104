import Ingot.Proofs.FileSystem.Entries
import Ingot.Proofs.FileSystem.Rewriting

/-!
# Replacing a file

A file is replaced in two steps. What stands at the end of its path is removed, which for a link
is the link itself, and then something is put where the path leads. Without an entry a path leads
where it led or nowhere (`walk_extends`), and the path of the entry leads to the free place that it
has left, unless it comes through the entry on its way as well (`walk_drop`). A path that leads to
a free place leads to what is put there, and all that was found before is still found
(`find_put_of_vacant`, `resolve_extends`). To remove what was put at a free place brings back what
was there before (`drop_put_of_vacant`).

A copy to a free place is made to its end (`copyFile_eq_ok`) or is cut short, and then it leaves
nothing or a beginning (`copyFile_eq_error`).
-/

namespace Ingot.FileSystem

variable {fs fs' : FileSystem}

/-! ### Entries that go and come -/

/-- What stands anywhere in the first file system stands there in the second one too. -/
def Extends (fs fs' : FileSystem) : Prop := ∀ l n, fs.node? l = some n → fs'.node? l = some n

theorem lookup_filter_self (l : Location) (nodes : List (Location × Node)) :
    (nodes.filter fun e => e.1 != l).lookup l = none := by
  rw [List.lookup_eq_none_iff]
  intro e he
  have hne : e.1 ≠ l := by simpa using (List.mem_filter.1 he).2
  simpa using Ne.symm hne

theorem lookup_filter_of_ne {l l' : Location} (hne : l' ≠ l) (nodes : List (Location × Node)) :
    (nodes.filter fun e => e.1 != l).lookup l' = nodes.lookup l' := by
  induction nodes with
  | nil => rfl
  | cons e nodes ih =>
    obtain ⟨k, n⟩ := e
    by_cases hk : k = l
    · subst hk
      have hb : (l' == k) = false := by simpa using hne
      rw [List.filter_cons_of_neg (by simp), List.lookup_cons, hb]
      exact ih
    · rw [List.filter_cons_of_pos (by simpa using hk), List.lookup_cons, List.lookup_cons, ih]

/-- What stands at each location after an entry was removed. -/
theorem node?_drop {l : Location} (hl : l ≠ []) (l' : Location) :
    (fs.drop l).node? l' = if l' = l then none else fs.node? l' := by
  by_cases hnil : l' = []
  · subst hnil
    rw [node?_nil, node?_nil, if_neg (Ne.symm hl)]
  · rw [node?_of_ne_nil hnil, node?_of_ne_nil hnil, drop]
    split
    · rename_i heq
      rw [heq]
      exact lookup_filter_self l fs.nodes
    · rename_i hne
      exact lookup_filter_of_ne hne fs.nodes

theorem workingDirectory_put (l : Location) (n : Node) :
    (fs.put l n).workingDirectory = fs.workingDirectory := by
  rw [put]
  split
  · rfl
  · rfl

theorem extends_drop {l : Location} (hl : l ≠ []) : Extends (fs.drop l) fs := by
  intro l' n h
  rw [node?_drop hl] at h
  split at h
  · cases h
  · exact h

theorem ne_nil_of_vacant {l : Location} (h : fs.node? l = none) : l ≠ [] := by
  rintro rfl
  cases h

theorem extends_put {l : Location} (h : fs.node? l = none) (n : Node) :
    Extends fs (fs.put l n) := by
  intro l' n' h'
  rw [node?_put (ne_nil_of_vacant h), if_neg, h']
  rintro rfl
  rw [h] at h'
  cases h'

/-- **To remove what was put at a free place brings back what was there before.** -/
theorem drop_put_of_vacant {l : Location} (h : fs.node? l = none) (n : Node) :
    (fs.put l n).drop l = fs := by
  have hfree : ∀ e ∈ fs.nodes, (e.1 != l) = true := by
    rintro e he
    rw [node?_eq_none_iff (ne_nil_of_vacant h)] at h
    simpa using fun heq => h (List.mem_map.2 ⟨e, he, heq⟩)
  rw [put_of_vacant h, drop]
  simp [List.filter_append, List.filter_eq_self.2 hfree]

/-! ### Walks that may follow links -/

/-- What a spot says of its location, links at the end of a path among it; a directory is only
known to have been come through. -/
def Spot.Stands (fs : FileSystem) : Spot → Prop
  | found location node => node ≠ .directory → fs.node? location = some node
  | vacant location => fs.node? location = none

/-- A spot as it is found in another file system, in which something may stand where it was free. -/
def Spot.later (fs : FileSystem) : Spot → Spot
  | found location node => found location node
  | vacant location =>
    match fs.node? location with
    | none => vacant location
    | some node => found location node

section Walks

variable {followLast : Bool} {links : ℕ} {at_ : Location} {todo : List String} {spot : Spot}

/-- What a walk ends at stands there. -/
theorem stands_of_walk (h : fs.walk followLast links at_ todo = .ok spot) : spot.Stands fs := by
  fun_induction walk fs followLast links at_ todo with
  | case1 links at_ =>
    cases h
    exact fun hn => absurd rfl hn
  | case2 links at_ rest ih => exact ih h
  | case3 links at_ rest ih => exact ih h
  | case5 links at_ name rest hdot hup hsize here hnone hlast =>
    cases h
    exact hnone
  | case7 links at_ name rest hdot hup hsize here hdir ih => exact ih h
  | case8 links at_ name rest hdot hup hsize here content permissions hnode hlast =>
    cases h
    exact fun _ => hnode
  | case10 links at_ name rest hdot hup hsize here target hnode hlast =>
    cases h
    exact fun _ => hnode
  | case13 at_ name rest hdot hup hsize here target hnode hlast links htarget ih => exact ih h
  | _ => cases h

/-- What is found is found as well where more stands; a free place is taken there at most by what
is no link. -/
theorem walk_extends (h : Extends fs fs')
    (hlink : ∀ l target, spot = .vacant l → fs'.node? l ≠ some (.link target))
    (hwalk : fs.walk followLast links at_ todo = .ok spot) :
    fs'.walk followLast links at_ todo = .ok (spot.later fs') := by
  fun_induction walk fs followLast links at_ todo with
  | case1 links at_ =>
    cases hwalk
    rw [walk]
    rfl
  | case2 links at_ rest ih =>
    rw [walk]
    exact ih hwalk
  | case3 links at_ rest ih =>
    rw [walk]
    exact ih hwalk
  | case5 links at_ name rest hdot hup hsize here hnone hlast =>
    -- the place was free, and what stands there now decides
    cases hwalk
    obtain rfl := List.isEmpty_iff.1 hlast
    rw [walk_name _ _ _ _ _ hdot hup (Nat.le_of_not_lt hsize), Spot.later]
    cases hnode : fs'.node? (at_ ++ [name]) with
    | none => rfl
    | some node =>
      cases node with
      | directory =>
        dsimp only
        rw [walk]
      | file content permissions => rfl
      | link target => exact absurd hnode (hlink _ target rfl)
  | case7 links at_ name rest hdot hup hsize here hdir ih =>
    rw [walk_name _ _ _ _ _ hdot hup (Nat.le_of_not_lt hsize), h _ _ hdir]
    exact ih hwalk
  | case8 links at_ name rest hdot hup hsize here content permissions hnode hlast =>
    cases hwalk
    rw [walk_name _ _ _ _ _ hdot hup (Nat.le_of_not_lt hsize), h _ _ hnode]
    exact if_pos hlast
  | case10 links at_ name rest hdot hup hsize here target hnode hlast =>
    cases hwalk
    rw [walk_name _ _ _ _ _ hdot hup (Nat.le_of_not_lt hsize), h _ _ hnode]
    exact if_pos hlast
  | case13 at_ name rest hdot hup hsize here target hnode hlast links htarget ih =>
    rw [walk_name _ _ _ _ _ hdot hup (Nat.le_of_not_lt hsize), h _ _ hnode]
    exact (if_neg hlast).trans ((if_neg htarget).trans (ih hwalk))
  | _ => cases hwalk

/-- Without the entry that a walk ends at, the walk ends at the free place; or it comes through
the entry before, and then ends nowhere. -/
theorem walk_drop {l : Location} {n : Node} (hn : n ≠ .directory)
    (h : fs.walk false links at_ todo = .ok (.found l n)) :
    (∀ followLast, (fs.drop l).walk followLast links at_ todo = .ok (.vacant l)) ∨
      ∀ followLast, (fs.drop l).walk followLast links at_ todo = .error .notFound := by
  have hnode : fs.node? l = some n := stands_of_walk h hn
  have hl : l ≠ [] := by
    rintro rfl
    exact hn (Option.some.inj hnode).symm
  have hself : (fs.drop l).node? l = none := by rw [node?_drop hl, if_pos rfl]
  have hother : ∀ {l' n'}, fs.node? l' = some n' → n' ≠ n → (fs.drop l).node? l' = some n' := by
    rintro l' n' hnode' hne
    rw [node?_drop hl, if_neg, hnode']
    rintro rfl
    exact hne (Option.some.inj (hnode'.symm.trans hnode))
  fun_induction walk fs false links at_ todo with
  | case1 links at_ =>
    cases h
    exact absurd rfl hn
  | case2 links at_ rest ih =>
    simp only [walk]
    exact ih h
  | case3 links at_ rest ih =>
    simp only [walk]
    exact ih h
  | case7 links at_ name rest hdot hup hsize here hdir ih =>
    simp only [walk_directory hdot hup hsize (hother hdir (Ne.symm hn))]
    exact ih h
  | case8 links at_ name rest hdot hup hsize here content permissions hfile hlast =>
    obtain rfl : at_ ++ [name] = l := (Spot.found.inj (Except.ok.inj h)).1
    refine .inl fun followLast => ?_
    rw [walk_name _ _ _ _ _ hdot hup (Nat.le_of_not_lt hsize), hself]
    exact if_pos hlast
  | case10 links at_ name rest hdot hup hsize here target hlink hlast =>
    obtain rfl : at_ ++ [name] = l := (Spot.found.inj (Except.ok.inj h)).1
    refine .inl fun followLast => ?_
    rw [walk_name _ _ _ _ _ hdot hup (Nat.le_of_not_lt hsize), hself]
    exact if_pos hlast.1
  | case13 at_ name rest hdot hup hsize here target hlink hlast links htarget ih =>
    have hrest : ¬rest.isEmpty := fun hempty => hlast ⟨hempty, rfl⟩
    by_cases hhere : at_ ++ [name] = l
    · -- a link that is followed and that is the entry itself
      subst hhere
      refine .inr fun followLast => ?_
      rw [walk_name _ _ _ _ _ hdot hup (Nat.le_of_not_lt hsize), hself]
      exact if_neg hrest
    · have hlink' : (fs.drop l).node? (at_ ++ [name]) = some (.link target) := by
        rw [node?_drop hl, if_neg hhere]
        exact hlink
      have hstep : ∀ followLast, (fs.drop l).walk followLast (links + 1) at_ (name :: rest) =
          (fs.drop l).walk followLast links (startOf at_ target) (namesOf target ++ rest) :=
        fun followLast => walk_link hdot hup hsize hlink' (fun hc => hrest hc.1) htarget
      simp only [hstep]
      exact ih h
  | _ => cases h

/-- A path that leads to a free place ends there, or at a link that leads there. -/
theorem walk_of_vacant {l : Location}
    (h : fs.walk true links at_ todo = .ok (.vacant l)) :
    fs.walk false links at_ todo = .ok (.vacant l) ∨
      ∃ m target, fs.walk false links at_ todo = .ok (.found m (.link target)) := by
  fun_induction walk fs true links at_ todo with
  | case2 links at_ rest ih =>
    simp only [walk]
    exact ih h
  | case3 links at_ rest ih =>
    simp only [walk]
    exact ih h
  | case5 links at_ name rest hdot hup hsize here hnone hlast =>
    rw [walk_name _ _ _ _ _ hdot hup (Nat.le_of_not_lt hsize), hnone]
    exact .inl ((if_pos hlast).trans h)
  | case7 links at_ name rest hdot hup hsize here hdir ih =>
    rw [walk_directory hdot hup hsize hdir]
    exact ih h
  | case13 at_ name rest hdot hup hsize here target hlink hlast links htarget ih =>
    by_cases hrest : rest.isEmpty
    · refine .inr ⟨at_ ++ [name], target, ?_⟩
      rw [walk_name _ _ _ _ _ hdot hup (Nat.le_of_not_lt hsize), hlink]
      exact if_pos ⟨hrest, rfl⟩
    · rw [walk_link hdot hup hsize hlink (fun hc => hrest hc.1) htarget]
      exact ih h
  | _ => cases h

end Walks

/-! ### Paths -/

section Paths

variable {followLast : Bool} {path : String} {spot : Spot} {l : Location} {n : Node}

theorem stands_of_resolve (h : fs.resolve followLast path = .ok spot) : spot.Stands fs := by
  unfold resolve at h
  split at h
  · cases h
  · exact stands_of_walk h

theorem resolve_extends (h : Extends fs fs') (hwd : fs'.workingDirectory = fs.workingDirectory)
    (hlink : ∀ l target, spot = .vacant l → fs'.node? l ≠ some (.link target))
    (hresolve : fs.resolve followLast path = .ok spot) :
    fs'.resolve followLast path = .ok (spot.later fs') := by
  unfold resolve at hresolve ⊢
  split at hresolve
  · cases hresolve
  · rw [hwd]
    exact walk_extends h hlink hresolve

/-- What is found is found as well where more stands. -/
theorem find_extends (h : Extends fs fs') (hwd : fs'.workingDirectory = fs.workingDirectory)
    (hfind : fs.find followLast path = .ok (l, n)) : fs'.find followLast path = .ok (l, n) :=
  find_eq_ok.2 (resolve_extends h hwd (fun _ _ heq => Spot.noConfusion heq) (find_eq_ok.1 hfind))

/-- A path that led to a free place leads to what was put there. -/
theorem find_put_of_vacant (h : fs.resolve followLast path = .ok (.vacant l))
    (content : ByteArray) (permissions : Permissions) :
    (fs.put l (.file content permissions)).find followLast path =
      .ok (l, .file content permissions) := by
  have hnone : fs.node? l = none := stands_of_resolve h
  have hput : (fs.put l (.file content permissions)).node? l = some (.file content permissions) := by
    rw [node?_put (ne_nil_of_vacant hnone), if_pos rfl]
  refine find_eq_ok.2 ((resolve_extends (extends_put hnone _) (workingDirectory_put ..) ?_ h).trans ?_)
  · rintro _ target ⟨⟩ hlink
    rw [hput] at hlink
    cases hlink
  · rw [Spot.later, hput]

/-- **Without the entry at its end a path leads to the free place, or nowhere.** -/
theorem resolve_drop (hn : n ≠ .directory) (h : fs.find false path = .ok (l, n)) :
    (∀ followLast, (fs.drop l).resolve followLast path = .ok (.vacant l)) ∨
      ∀ followLast, (fs.drop l).resolve followLast path = .error .notFound := by
  have hresolve := find_eq_ok.1 h
  unfold resolve at hresolve ⊢
  split at hresolve
  · cases hresolve
  · exact walk_drop hn hresolve

/-- If it leads to a free place then, that is the one of the entry. -/
theorem eq_of_resolve_drop {l' : Location} (hn : n ≠ .directory)
    (h : fs.find false path = .ok (l, n))
    (hplace : (fs.drop l).resolve true path = .ok (.vacant l')) :
    l' = l ∧ ∀ followLast, (fs.drop l).resolve followLast path = .ok (.vacant l) := by
  rcases resolve_drop hn h with hvacant | herror
  · cases hplace.symm.trans (hvacant true)
    exact ⟨rfl, hvacant⟩
  · cases hplace.symm.trans (herror true)

theorem resolve_of_vacant (h : fs.resolve true path = .ok (.vacant l)) :
    fs.resolve false path = .ok (.vacant l) ∨
      ∃ m target, fs.resolve false path = .ok (.found m (.link target)) := by
  unfold resolve at h ⊢
  split at h
  · cases h
  · exact walk_of_vacant h

theorem isThere_eq_true_iff : fs.isThere path = true ↔ ∃ l n, fs.find true path = .ok (l, n) := by
  unfold isThere
  cases h : fs.find true path with
  | error fault => simp
  | ok e =>
    obtain ⟨l, node⟩ := e
    simp

theorem isThere_of_vacant (h : fs.resolve true path = .ok (.vacant l)) :
    fs.isThere path = false := by
  unfold isThere find
  rw [h]

theorem isFile_eq_true_iff : fs.isFile path = true ↔
    ∃ l content permissions, fs.find true path = .ok (l, .file content permissions) := by
  unfold isFile
  cases h : fs.find true path with
  | error fault => simp
  | ok e =>
    obtain ⟨l, node⟩ := e
    cases node <;> simp [Node.isFile]

/-! ### Removing and copying -/

variable {obstacles : Obstacles}

theorem removeFile_eq_ok : fs.removeFile obstacles path = .ok fs' ↔
    ∃ l n, fs.find false path = .ok (l, n) ∧ n ≠ .directory ∧ obstacles.removal fs l = none ∧
      fs' = fs.drop l := by
  unfold removeFile
  cases h : fs.find false path with
  | error fault => simp
  | ok e =>
    obtain ⟨l, node⟩ := e
    cases hremoval : obstacles.removal fs l with
    | some fault => simp [hremoval]
    | none => cases node <;> simp [hremoval, Node.isDirectory, eq_comm]

/-- There is a file that a copy can be made of, and a free place for the copy. -/
def CanBeCopied (fs : FileSystem) (source target : String) (content : ByteArray)
    (permissions : Permissions) (l : Location) : Prop :=
  (∃ origin, fs.resolve true source = .ok (.found origin (.file content permissions))) ∧
    permissions.readable = true ∧ fs.resolve true target = .ok (.vacant l)

/-- To copy to where nothing is comes down to filling a file with what can be read; all else is a
fault that leaves all as it is. -/
theorem copyFile_cases {source : String} (hthere : fs.isThere path = false) :
    ((∃ fault, fs.copyFile obstacles source path = (fs, .error fault)) ∧
        ∀ content permissions l, ¬fs.CanBeCopied source path content permissions l) ∨
      ∃ content permissions l, fs.CanBeCopied source path content permissions l ∧
        fs.copyFile obstacles source path = fs.fillFile obstacles l content permissions := by
  have hfound : ∀ l n, fs.resolve true path ≠ .ok (.found l n) := by
    intro l n hresolve
    rw [isThere_eq_true_iff.2 ⟨l, n, find_eq_ok.2 hresolve⟩] at hthere
    cases hthere
  by_cases hcan : ∃ content permissions l, fs.CanBeCopied source path content permissions l
  · obtain ⟨content, permissions, l, hcan⟩ := hcan
    refine .inr ⟨content, permissions, l, hcan, ?_⟩
    obtain ⟨⟨origin, hsource⟩, hreadable, hplace⟩ := hcan
    unfold copyFile
    rw [find_eq_ok.2 hsource]
    dsimp only
    rw [if_neg (by simp [hreadable]), hplace]
  · refine .inl ⟨?_, fun content permissions l h => hcan ⟨content, permissions, l, h⟩⟩
    unfold copyFile
    split
    · exact ⟨_, rfl⟩
    · rename_i origin content permissions hsource
      split
      · exact ⟨_, rfl⟩
      · rename_i hreadable
        split
        · exact ⟨_, rfl⟩
        · rename_i l hplace
          exact absurd ⟨content, permissions, l, ⟨origin, find_eq_ok.1 hsource⟩,
            by simpa using hreadable, hplace⟩ hcan
        · exact absurd ‹_› (hfound _ _)
        · exact ⟨_, rfl⟩
    · exact ⟨_, rfl⟩

theorem CanBeCopied.unique {source : String} {content content' : ByteArray}
    {permissions permissions' : Permissions} {l l' : Location}
    (h : fs.CanBeCopied source path content permissions l)
    (h' : fs.CanBeCopied source path content' permissions' l') :
    content' = content ∧ permissions' = permissions ∧ l' = l := by
  obtain ⟨⟨_, hsource⟩, _, hplace⟩ := h
  obtain ⟨⟨_, hsource'⟩, _, hplace'⟩ := h'
  cases hsource.symm.trans hsource'
  cases hplace.symm.trans hplace'
  exact ⟨rfl, rfl, rfl⟩

/-- A copy is made to its end where there is a file to copy and a free place, and nothing is in the
way. -/
theorem copyFile_eq_ok {source : String} (hthere : fs.isThere path = false) :
    fs.copyFile obstacles source path = (fs', .ok ()) ↔
      ∃ content permissions l, fs.CanBeCopied source path content permissions l ∧
        obstacles.copy fs l = none ∧ fs' = fs.put l (.file content permissions) := by
  rcases copyFile_cases hthere with ⟨⟨fault, hfails⟩, hnone⟩ |
    ⟨content, permissions, l, hcan, hfills⟩
  · rw [hfails]
    constructor
    · intro h
      cases h
    · rintro ⟨content, permissions, l, hcan, _⟩
      exact absurd hcan (hnone _ _ _)
  · rw [hfills, fillFile]
    constructor
    · intro h
      split at h
      · rename_i hfree
        exact ⟨content, permissions, l, hcan, hfree, (Prod.mk.inj h).1.symm⟩
      · cases h
      · cases h
    · rintro ⟨content', permissions', l', hcan', hfree, rfl⟩
      obtain ⟨rfl, rfl, rfl⟩ := hcan.unique hcan'
      rw [hfree]

/-- A copy that is not made to its end leaves all as it is, or a beginning. -/
theorem copyFile_eq_error {source : String} {fault : IoFault} (hthere : fs.isThere path = false)
    (h : fs.copyFile obstacles source path = (fs', .error fault)) :
    fs' = fs ∨ ∃ content permissions l size, fs.CanBeCopied source path content permissions l ∧
      obstacles.copy fs l = some (.after size fault) ∧
        fs' = fs.put l (.file (content.extract 0 size) permissions) := by
  rcases copyFile_cases hthere with ⟨⟨fault, hfails⟩, _⟩ |
    ⟨content, permissions, l, hcan, hfills⟩
  · rw [hfails] at h
    exact .inl (Prod.mk.inj h).1.symm
  · rw [hfills, fillFile] at h
    split at h
    · cases h
    · exact .inl (Prod.mk.inj h).1.symm
    · rename_i size fault' hcut
      obtain ⟨rfl, hfault⟩ := Prod.mk.inj h
      cases hfault
      exact .inr ⟨content, permissions, l, size, hcan, hcut, rfl⟩

end Paths

end Ingot.FileSystem
