import Ingot.Proofs.FileSystem.Canonical
import Ingot.Proofs.FileSystem.Writes

/-!
# What still stands

Where all that stood still stands, and is still a file or a directory (`Lasts`), a path that led
to something still leads there. A file system that can be stays one when a directory is made or a
file is written (`IsProper.makeDirectory`, `WritesAt.isProper`), and **a directory that is made is
there, so it is not made again** (`ensureDirectory_again`).
-/

namespace Ingot.FileSystem

variable {fs fs' fs'' : FileSystem} {path : String}

/-! ### File systems in which all still stands -/

/-- All that stood still stands, files as files and directories as directories. -/
structure Lasts (fs fs' : FileSystem) : Prop where
  workingDirectory : fs'.workingDirectory = fs.workingDirectory
  noLinks : fs'.NoLinks
  directories : ∀ l, fs.node? l = some .directory → fs'.node? l = some .directory
  files : ∀ l content permissions, fs.node? l = some (.file content permissions) →
    ∃ content' permissions', fs'.node? l = some (.file content' permissions')

theorem Keeps.lasts {touched : Location → Prop} (h : Keeps touched fs fs')
    (htouched : ∀ l, touched l → ∀ content permissions,
      fs.node? l = some (.file content permissions) →
      ∃ content' permissions', fs'.node? l = some (.file content' permissions')) :
    Lasts fs fs' := by
  refine ⟨h.workingDirectory, h.noLinks, h.directories, fun l content permissions hl => ?_⟩
  by_cases hl' : touched l
  · exact htouched l hl' content permissions hl
  · exact ⟨content, permissions, (h.elsewhere l hl').trans hl⟩

/-- A walk to something still leads there, and to a file or a directory as before. -/
theorem Walks.lasts {at_ : Location} {todo : List String} {spot : Spot}
    (h : Walks fs at_ todo spot) (hlasts : Lasts fs fs') {l : Location} {n : Node}
    (hspot : spot = .found l n) : ∃ n', Walks fs' at_ todo (.found l n') ∧
      n'.isDirectory = n.isDirectory ∧ n'.isFile = n.isFile := by
  induction h with
  | here =>
    cases hspot
    exact ⟨.directory, .here, rfl, rfl⟩
  | dot _ ih =>
    obtain ⟨n', hn', hkind⟩ := ih hspot
    exact ⟨n', .dot hn', hkind⟩
  | up _ ih =>
    obtain ⟨n', hn', hkind⟩ := ih hspot
    exact ⟨n', .up hn', hkind⟩
  | into hdot hup hsize hdir _ ih =>
    obtain ⟨n', hn', hkind⟩ := ih hspot
    exact ⟨n', .into hdot hup hsize (hlasts.directories _ hdir) hn', hkind⟩
  | file hdot hup hsize hfile =>
    cases hspot
    obtain ⟨content', permissions', hfile'⟩ := hlasts.files _ _ _ hfile
    exact ⟨_, .file hdot hup hsize hfile', rfl, rfl⟩
  | free => cases hspot

/-- A walk to a directory still leads there when all directories are still there. -/
theorem Walks.of_directories {at_ : Location} {todo : List String} {spot : Spot}
    (h : Walks fs at_ todo spot)
    (hdirs : ∀ l, fs.node? l = some .directory → fs'.node? l = some .directory) {l : Location}
    (hspot : spot = .found l .directory) : Walks fs' at_ todo (.found l .directory) := by
  induction h with
  | here =>
    cases hspot
    exact .here
  | dot _ ih => exact .dot (ih hspot)
  | up _ ih => exact .up (ih hspot)
  | into hdot hup hsize hdir _ ih => exact .into hdot hup hsize (hdirs _ hdir) (ih hspot)
  | file => cases hspot
  | free => cases hspot

theorem Keeps.isDirectory {touched : Location → Prop} (h : Keeps touched fs fs') (hfs : fs.NoLinks)
    (hpath : fs.isDirectory path = true) : fs'.isDirectory path = true := by
  unfold FileSystem.isDirectory at hpath
  split at hpath
  · rename_i l n hfind
    obtain rfl := isDirectory_iff.1 hpath
    obtain ⟨hcheck, hwalks⟩ := (resolve_eq_ok hfs).1 (find_eq_ok.1 hfind)
    have hfind' : fs'.find true path = .ok (l, .directory) :=
      find_eq_ok.2 ((resolve_eq_ok h.noLinks).2
        ⟨hcheck, h.workingDirectory ▸ hwalks.of_directories h.directories rfl⟩)
    rw [FileSystem.isDirectory, hfind']
    rfl
  · cases hpath

namespace Lasts

variable (h : Lasts fs fs') (hfs : fs.NoLinks)

include h hfs

theorem find {l : Location} {n : Node} (hfind : fs.find true path = .ok (l, n)) :
    ∃ n', fs'.find true path = .ok (l, n') ∧
      n'.isDirectory = n.isDirectory ∧ n'.isFile = n.isFile := by
  obtain ⟨hcheck, hwalks⟩ := (resolve_eq_ok hfs).1 (find_eq_ok.1 hfind)
  obtain ⟨n', hn', hkind⟩ := hwalks.lasts h rfl
  refine ⟨n', find_eq_ok.2 ((resolve_eq_ok h.noLinks).2 ⟨hcheck, ?_⟩), hkind⟩
  rwa [h.workingDirectory]

theorem isDirectory (hpath : fs.isDirectory path = true) : fs'.isDirectory path = true := by
  unfold FileSystem.isDirectory at hpath
  split at hpath
  · rename_i l n hfind
    obtain ⟨n', hfind', hkind, _⟩ := h.find hfs hfind
    rw [FileSystem.isDirectory, hfind']
    exact hkind.trans hpath
  · cases hpath

theorem isFile (hpath : fs.isFile path = true) : fs'.isFile path = true := by
  unfold FileSystem.isFile at hpath
  split at hpath
  · rename_i l n hfind
    obtain ⟨n', hfind', _, hkind⟩ := h.find hfs hfind
    rw [FileSystem.isFile, hfind']
    exact hkind.trans hpath
  · cases hpath

theorem canonicalOr {l : Location} {n : Node} (hfind : fs.find true path = .ok (l, n)) :
    fs'.canonicalOr path = fs.canonicalOr path := by
  obtain ⟨n', hfind', _⟩ := h.find hfs hfind
  rw [canonicalOr_of_find hfind, canonicalOr_of_find hfind']

end Lasts

/-! ### File systems that can be -/

namespace IsProper

theorem keys_put_found {l : Location} {old n : Node} (hl : l ≠ [])
    (hold : fs.node? l = some old) :
    (fs.put l n).nodes.map Prod.fst = fs.nodes.map Prod.fst := by
  rw [node?_of_ne_nil hl] at hold
  rw [put, if_pos (by rw [hold]; rfl)]
  dsimp only
  rw [List.map_map]
  refine List.map_congr_left fun e _ => ?_
  dsimp only [Function.comp_apply]
  split
  · rename_i heq
    exact (eq_of_beq heq).symm
  · rfl

/-- A file system that can be stays one when a file is replaced by another. -/
theorem put_file (h : fs.IsProper) {l : Location} {old content : ByteArray}
    {before permissions : Permissions} (hold : fs.node? l = some (.file old before)) :
    (fs.put l (.file content permissions)).IsProper := by
  have hl : l ≠ [] := by
    rintro rfl
    cases hold
  have hkeys := keys_put_found (n := .file content permissions) hl hold
  refine ⟨hkeys ▸ h.distinct, hkeys ▸ h.names, ?_⟩
  rw [hkeys]
  intro l' hl'
  have hdir := h.inDirectory l' hl'
  rw [node?_put hl, if_neg]
  · exact hdir
  · intro heq
    rw [heq, hold] at hdir
    cases hdir

/-- A file system that can be stays one when something is put under a free name in a directory. -/
theorem put_vacant (h : fs.IsProper) {at_ : Location} {name : String}
    (hat : fs.node? at_ = some .directory) (hname : Path.IsName name)
    (hfree : fs.node? (at_ ++ [name]) = none) (n : Node) :
    (fs.put (at_ ++ [name]) n).IsProper := by
  have hl : at_ ++ [name] ≠ [] := by simp
  have hkeys : (fs.put (at_ ++ [name]) n).nodes.map Prod.fst =
      fs.nodes.map Prod.fst ++ [at_ ++ [name]] := by
    rw [put_of_vacant hfree]
    simp
  have hdirectory : ∀ l', (fs.node? l').any Node.isDirectory = true →
      ((fs.put (at_ ++ [name]) n).node? l').any Node.isDirectory = true := by
    intro l' hl'
    rw [node?_put hl, if_neg]
    · exact hl'
    · rintro rfl
      rw [hfree] at hl'
      cases hl'
  refine ⟨?_, ?_, ?_⟩
  · rw [hkeys]
    refine List.nodup_append.2 ⟨h.distinct, List.pairwise_singleton _ _, ?_⟩
    rintro l' hl' _ hmem rfl
    obtain rfl := List.mem_singleton.1 hmem
    exact (node?_eq_none_iff hl).1 hfree hl'
  · rw [hkeys]
    intro l' hl'
    rcases List.mem_append.1 hl' with hl' | hl'
    · exact h.names l' hl'
    · obtain rfl := List.mem_singleton.1 hl'
      rw [List.forall_mem_append]
      exact ⟨h.isName_of_node? (by rw [hat]; exact Option.some_ne_none _),
        List.forall_mem_singleton.2 hname⟩
  · rw [hkeys]
    intro l' hl'
    rcases List.mem_append.1 hl' with hl' | hl'
    · exact hdirectory _ (h.inDirectory l' hl')
    · obtain rfl := List.mem_singleton.1 hl'
      rw [List.dropLast_concat]
      exact hdirectory _ (any_isDirectory_iff.2 hat)

end IsProper

/-- A walk that ends at a free name ends in a directory. -/
theorem Walks.exists_directory (htree : fs.IsTree) {at_ : Location} {todo : List String}
    {spot : Spot} (h : Walks fs at_ todo spot) (hat : fs.node? at_ = some .directory)
    {l : Location} (hspot : spot = .vacant l) : ∃ directory name, l = directory ++ [name] ∧
      fs.node? directory = some .directory ∧ name ∈ todo ∧ name ≠ "." ∧ name ≠ ".." := by
  induction h with
  | here => cases hspot
  | dot _ ih =>
    obtain ⟨directory, name, hl, hdirectory, hmem, hname⟩ := ih hat hspot
    exact ⟨directory, name, hl, hdirectory, List.mem_cons_of_mem _ hmem, hname⟩
  | @up at_ rest spot _ ih =>
    have hup : fs.node? at_.dropLast = some .directory := by
      rcases List.eq_nil_or_concat' at_ with rfl | ⟨front, last, rfl⟩
      · exact node?_nil fs
      · rw [List.dropLast_concat]
        exact htree front last (by rw [hat]; exact Option.some_ne_none _)
    obtain ⟨directory, name, hl, hdirectory, hmem, hname⟩ := ih hup hspot
    exact ⟨directory, name, hl, hdirectory, List.mem_cons_of_mem _ hmem, hname⟩
  | into _ _ _ hdir _ ih =>
    obtain ⟨directory, name, hl, hdirectory, hmem, hname⟩ := ih hdir hspot
    exact ⟨directory, name, hl, hdirectory, List.mem_cons_of_mem _ hmem, hname⟩
  | file => cases hspot
  | @free at_ name hdot hup =>
    cases hspot
    exact ⟨at_, name, rfl, hat, List.mem_cons_self, hdot, hup⟩

theorem isLeaf_of_mem_namesOf {name : String} (h : name ∈ namesOf path) (hdot : name ≠ ".") :
    Path.IsLeaf name := by
  unfold namesOf at h
  dsimp only at h
  split at h
  · rcases List.mem_append.1 h with h | h
    · exact Path.isLeaf_of_mem_segments h
    · exact absurd (List.mem_singleton.1 h) hdot
  · exact Path.isLeaf_of_mem_segments h

theorem node?_startOf (habs : Path.isAbsolute path = true) (directory : Location) :
    fs.node? (startOf directory path) = some .directory := by
  rw [startOf, if_pos habs]
  exact node?_nil fs

theorem IsProper.put_of_walks (h : fs.IsProper) {at_ l : Location} {todo : List String}
    (hwalks : Walks fs at_ todo (.vacant l)) (hat : fs.node? at_ = some .directory)
    (hleaf : ∀ name ∈ todo, name ≠ "." → Path.IsLeaf name) (n : Node) : (fs.put l n).IsProper := by
  obtain ⟨directory, name, rfl, hdirectory, hmem, hdot, hup⟩ :=
    hwalks.exists_directory h.isTree hat rfl
  have hfree : fs.node? (directory ++ [name]) = none := hwalks.holds
  exact h.put_vacant hdirectory ⟨hleaf name hmem hdot, hdot, hup⟩ hfree n

/-- **A file system that can be stays one when a file is written.** -/
theorem WritesAt.isProper (h : WritesAt fs path fs') (hfs : fs.IsProper) (hlinks : fs.NoLinks)
    (habs : Path.isAbsolute path = true) : fs'.IsProper := by
  cases h with
  | nothing => exact hfs
  | fresh hresolve =>
    obtain ⟨_, hwalks⟩ := (resolve_eq_ok hlinks).1 hresolve
    exact hfs.put_of_walks hwalks (node?_startOf habs _)
      (fun _ hmem hdot => isLeaf_of_mem_namesOf hmem hdot) _
  | @replaced l old content before permissions hresolve =>
    have hold : fs.node? l = some (.file old before) := holds_of_resolve hlinks hresolve
    exact hfs.put_file hold

/-! ### Directories that are made -/

/-- A directory is made under a name that was free. -/
theorem makeDirectory_eq_ok (hlinks : fs.NoLinks) (h : fs.makeDirectory path = .ok fs') :
    ∃ l, fs' = fs.put l .directory ∧ checkPath path = .ok () ∧
      Walks fs (startOf fs.workingDirectory path) (Path.segments path) (.vacant l) := by
  simp only [makeDirectory] at h
  split at h
  · cases h
  · rename_i hcheck
    split at h
    · cases h
    · split at h
      · split at h
        · cases h
        · cases h
      · split at h
        · cases h
        · cases h
        · rename_i l hwalk
          cases h
          exact ⟨l, rfl, hcheck, walks_of_walk hlinks hwalk⟩

theorem IsProper.makeDirectory (h : fs.IsProper) (hlinks : fs.NoLinks)
    (habs : Path.isAbsolute path = true) (hmake : fs.makeDirectory path = .ok fs') :
    fs'.IsProper := by
  obtain ⟨l, rfl, _, hwalks⟩ := makeDirectory_eq_ok hlinks hmake
  exact h.put_of_walks hwalks (node?_startOf habs _)
    (fun _ hmem _ => Path.isLeaf_of_mem_segments hmem) _

/-- What holds of a file system, whichever directories are made in it, holds after a directory is
made with those it is in. -/
theorem makeWithParents_invariant {P : FileSystem → Prop}
    (hmake : ∀ fs fs' path, Path.isAbsolute path = true → P fs →
      fs.makeDirectory path = .ok fs' → P fs') (depth : ℕ) {path : String}
    (habs : Path.isAbsolute path = true) (hfs : P fs) : P (makeWithParents depth fs path).1 := by
  induction depth generalizing fs path with
  | zero => exact hfs
  | succ depth ih =>
    rw [makeWithParents]
    split
    · exact hfs
    · split
      · rename_i fs₁ hmade
        exact hmake _ _ _ habs hfs hmade
      · split
        · exact hfs
        · rename_i parent hparent
          have hparents := ih (Path.parent?_of_isAbsolute habs hparent).1 hfs
          split
          · rename_i fs₁ fault heq
            rw [heq] at hparents
            exact hparents
          · rename_i fs₁ heq
            rw [heq] at hparents
            split
            · rename_i fs₂ hmade
              exact hmake _ _ _ habs hparents hmade
            · split
              · exact hparents
              · exact hparents
      · split
        · exact hfs
        · exact hfs

theorem makeDirectory_noLinks (hlinks : fs.NoLinks) (h : fs.makeDirectory path = .ok fs') :
    fs'.NoLinks := (makeDirectory_grows hlinks h).noLinks hlinks

theorem IsProper.ensureDirectory (h : fs.IsProper) (hlinks : fs.NoLinks)
    (habs : Path.isAbsolute path = true) : (fs.ensureDirectory path).1.IsProper := by
  have hmade := (makeWithParents_invariant (P := fun fs => fs.IsProper ∧ fs.NoLinks)
    (fun _ _ _ habs hfs hmake => ⟨hfs.1.makeDirectory hfs.2 habs hmake,
      makeDirectory_noLinks hfs.2 hmake⟩)
    ((Path.components path).length + 1) habs ⟨h, hlinks⟩).1
  rw [FileSystem.ensureDirectory, makeDirectories]
  split
  · exact h
  · split
    · rename_i heq
      rwa [heq] at hmade
    · rename_i heq
      rwa [heq] at hmade

/-- Where a walk ends at a free name, it ends at a directory once that is made. -/
theorem Walks.put_directory {at_ : Location} {todo : List String} {spot : Spot}
    (h : Walks fs at_ todo spot) {l : Location} (hspot : spot = .vacant l) (hl : fs.node? l = none) :
    Walks (fs.put l .directory) at_ todo (.found l .directory) := by
  have hnil : l ≠ [] := by
    rintro rfl
    cases hl
  induction h with
  | here => cases hspot
  | dot _ ih => exact .dot (ih hspot)
  | up _ ih => exact .up (ih hspot)
  | into hdot hup hsize hdir _ ih =>
    refine .into hdot hup hsize ?_ (ih hspot)
    rw [node?_put hnil, if_neg]
    · exact hdir
    · rintro rfl
      rw [hdir] at hl
      cases hl
  | file => cases hspot
  | free hdot hup hsize _ =>
    cases hspot
    refine .into hdot hup hsize ?_ .here
    rw [node?_put hnil, if_pos rfl]

/-- A single dot behind a walk to a directory changes nothing. -/
theorem Walks.append_dot {at_ : Location} {todo : List String} {spot : Spot}
    (h : Walks fs at_ todo spot) {l : Location} (hspot : spot = .found l .directory) :
    Walks fs at_ (todo ++ ["."]) (.found l .directory) := by
  induction h with
  | here =>
    cases hspot
    exact .dot .here
  | dot _ ih => exact .dot (ih hspot)
  | up _ ih => exact .up (ih hspot)
  | into hdot hup hsize hdir _ ih => exact .into hdot hup hsize hdir (ih hspot)
  | file => cases hspot
  | free => cases hspot

theorem isDirectory_of_makeDirectory (hlinks : fs.NoLinks)
    (h : fs.makeDirectory path = .ok fs') : fs'.isDirectory path = true := by
  have hlinks' := makeDirectory_noLinks hlinks h
  have hwd := (makeDirectory_grows hlinks h).workingDirectory
  obtain ⟨l, rfl, hcheck, hwalks⟩ := makeDirectory_eq_ok hlinks h
  have hmade := hwalks.put_directory rfl hwalks.holds
  have hfind : (fs.put l .directory).find true path = .ok (l, .directory) := by
    refine find_eq_ok.2 ((resolve_eq_ok hlinks').2 ⟨hcheck, ?_⟩)
    rw [hwd, namesOf]
    split
    · exact hmade.append_dot rfl
    · exact hmade
  rw [isDirectory, hfind]
  rfl

theorem isDirectory_of_makeWithParents (habs : Path.isAbsolute path = true) (depth : ℕ)
    (hlinks : fs.NoLinks) (h : makeWithParents depth fs path = (fs', .ok ())) :
    fs'.isDirectory path = true := by
  have hne : ¬path.isEmpty = true := by
    simpa [String.isEmpty_iff] using Path.ne_empty_of_isAbsolute habs
  cases depth with
  | zero => cases h
  | succ depth =>
    rw [makeWithParents, if_neg hne] at h
    split at h
    · rename_i hmade
      cases h
      exact isDirectory_of_makeDirectory hlinks hmade
    · split at h
      · cases h
      · rename_i parent hparent
        have hlinks₁ := makeWithParents_invariant (P := NoLinks)
          (fun _ _ _ _ hfs hmake => makeDirectory_noLinks hfs hmake) depth
          (Path.parent?_of_isAbsolute habs hparent).1 hlinks
        split at h
        · cases h
        · rename_i heq
          rw [heq] at hlinks₁
          split at h
          · rename_i hmade
            cases h
            exact isDirectory_of_makeDirectory hlinks₁ hmade
          · split at h
            · rename_i hthere
              cases h
              exact hthere
            · cases h
    · split at h
      · rename_i hthere
        cases h
        exact hthere
      · cases h

/-- **A directory that was made sure of is there.** -/
theorem isDirectory_of_ensureDirectory (habs : Path.isAbsolute path = true) (hlinks : fs.NoLinks)
    {isNew : Bool} (h : fs.ensureDirectory path = (fs', .ok isNew)) :
    fs'.isDirectory path = true := by
  rw [ensureDirectory] at h
  split at h
  · rename_i hthere
    cases h
    exact hthere
  · split at h
    · cases h
    · rename_i hmade
      cases h
      exact isDirectory_of_makeWithParents habs _ hlinks hmade

/-- A directory that is there is not made again. -/
theorem ensureDirectory_again (h : fs.isDirectory path = true) :
    fs.ensureDirectory path = (fs, .ok false) := by
  rw [ensureDirectory, if_pos h]

end Ingot.FileSystem
