import Ingot.Proofs.Bitcode.RoundTrip
import Ingot.Proofs.FileSystem.Writes

/-!
# Writing over a file

A path may lead to a file through links and dots. Once the file is written over, it still leads
there, since on the way only directories and links are looked at. So **what is read behind a
write is what was written**, with links or without (`readText_of_writeText`). To write what a file
holds already changes nothing (`HoldsOpen.writeBytes`).
-/

namespace Ingot.FileSystem

variable {fs fs' : FileSystem}

/-! ### Single steps of a walk -/

section Steps

variable {followLast : Bool} {links : ℕ} {at_ : Location} {name : String} {rest : List String}
  (hdot : name ≠ ".") (hup : name ≠ "..") (hsize : ¬Raw.size name > nameLimit)

include hdot hup hsize

theorem walk_directory (h : fs.node? (at_ ++ [name]) = some .directory) :
    fs.walk followLast links at_ (name :: rest) = fs.walk followLast links (at_ ++ [name]) rest := by
  rw [walk.eq_4 _ _ _ _ _ _ hdot hup, if_neg hsize]
  dsimp only
  split
  · simp_all
  · rfl
  · simp_all
  · simp_all

theorem walk_file {content : ByteArray} {permissions : Permissions}
    (h : fs.node? (at_ ++ [name]) = some (.file content permissions)) :
    fs.walk followLast links at_ [name] = .ok (.found (at_ ++ [name]) (.file content permissions)) := by
  rw [walk.eq_4 _ _ _ _ _ _ hdot hup, if_neg hsize]
  dsimp only
  split
  · simp_all
  · simp_all
  · simp_all
  · simp_all

theorem walk_link {target : String} (h : fs.node? (at_ ++ [name]) = some (.link target))
    (hfollow : ¬(rest.isEmpty ∧ !followLast)) (htarget : ¬target.isEmpty) :
    fs.walk followLast (links + 1) at_ (name :: rest) =
      fs.walk followLast links (startOf at_ target) (namesOf target ++ rest) := by
  rw [walk.eq_4 _ _ _ _ _ _ hdot hup, if_neg hsize]
  dsimp only
  split
  · simp_all
  · simp_all
  · simp_all
  · rename_i target' heq
    rw [h] at heq
    cases heq
    rw [if_neg hfollow, if_neg htarget]

end Steps

/-- A walk that ends at a file ends there too when the file is written over. -/
theorem walk_put_file {l : Location} {old : ByteArray} {before : Permissions}
    (hfile : fs.node? l = some (.file old before)) (new : ByteArray)
    (permissions : Permissions) {followLast : Bool} {links : ℕ} {at_ : Location}
    {todo : List String}
    (h : fs.walk followLast links at_ todo = .ok (.found l (.file old before))) :
    (fs.put l (.file new permissions)).walk followLast links at_ todo =
      .ok (.found l (.file new permissions)) := by
  have hl : l ≠ [] := by
    rintro rfl
    cases hfile
  have hself : (fs.put l (.file new permissions)).node? l = some (.file new permissions) := by
    rw [node?_put hl, if_pos rfl]
  have hother : ∀ {l' node}, fs.node? l' = some node → (∀ content p, node ≠ .file content p) →
      (fs.put l (.file new permissions)).node? l' = some node := by
    intro l' node hnode hnot
    rw [node?_put hl, if_neg, hnode]
    rintro rfl
    rw [hfile] at hnode
    exact hnot _ _ (Option.some.inj hnode).symm
  fun_induction walk fs followLast links at_ todo with
  | case2 links at_ rest ih =>
    rw [walk]
    exact ih h
  | case3 links at_ rest ih =>
    rw [walk]
    exact ih h
  | case7 links at_ name rest hdot hup hsize here hdir ih =>
    rw [walk_directory hdot hup hsize (hother hdir fun _ _ => Node.noConfusion)]
    exact ih h
  | case8 links at_ name rest hdot hup hsize here content p hnode hlast =>
    obtain rfl : at_ ++ [name] = l := (Spot.found.inj (Except.ok.inj h)).1
    obtain rfl := List.isEmpty_iff.1 hlast
    exact walk_file hdot hup hsize hself
  | case13 at_ name rest hdot hup hsize here target hnode hfollow links htarget ih =>
    rw [walk_link hdot hup hsize (hother hnode fun _ _ => Node.noConfusion) hfollow htarget]
    exact ih h
  | _ => simp at h

/-- What a walk ends at stands there. -/
theorem node?_of_walk {followLast : Bool} {links : ℕ} {at_ : Location} {todo : List String}
    {l : Location} {content : ByteArray} {permissions : Permissions}
    (h : fs.walk followLast links at_ todo = .ok (.found l (.file content permissions))) :
    fs.node? l = some (.file content permissions) := by
  fun_induction walk fs followLast links at_ todo with
  | case2 links at_ rest ih => exact ih h
  | case3 links at_ rest ih => exact ih h
  | case7 links at_ name rest hdot hup hsize here hdir ih => exact ih h
  | case8 links at_ name rest hdot hup hsize here content p hnode hlast =>
    obtain ⟨hl, hfile⟩ := Spot.found.inj (Except.ok.inj h)
    rw [← hl, ← hfile]
    exact hnode
  | case13 at_ name rest hdot hup hsize here target hnode hfollow links htarget ih => exact ih h
  | _ => simp at h

/-- A path leads to a file also when the file was written over. -/
theorem resolve_put_file {path : String} {l : Location} {old : ByteArray} {before : Permissions}
    (h : fs.resolve true path = .ok (.found l (.file old before))) (new : ByteArray)
    (permissions : Permissions) :
    (fs.put l (.file new permissions)).resolve true path =
      .ok (.found l (.file new permissions)) := by
  have hdirectory : (fs.put l (.file new permissions)).workingDirectory = fs.workingDirectory := by
    rw [put]
    split
    · rfl
    · rfl
  unfold resolve at h ⊢
  split at h
  · cases h
  · rw [hdirectory]
    exact walk_put_file (node?_of_walk h) new permissions h

/-- A path leads to a file that may be written over. -/
def IsWritable (fs : FileSystem) (path : String) : Prop :=
  ∃ l content permissions, fs.resolve true path = .ok (.found l (.file content permissions)) ∧
    permissions.writable = true

/-- A file that may be written over is written over. -/
theorem IsWritable.writeText {path : String} (h : fs.IsWritable path)
    (hslash : path.toList.getLast? ≠ some '/') (text : String) :
    ∃ fs', fs.writeText path text = .ok fs' := by
  obtain ⟨l, content, permissions, hresolve, hwritable⟩ := h
  refine ⟨fs.put l (.file text.toUTF8 permissions), ?_⟩
  unfold FileSystem.writeText writeBytes writeWith
  rw [if_neg hslash, hresolve]
  exact if_pos hwritable

/-- **What was read is read as it was written over.** -/
theorem readText_of_writeText {path old new : String} (hread : fs.readText path = .ok old)
    (hwrite : fs.writeText path new = .ok fs') : fs'.readText path = .ok new := by
  obtain ⟨content, hbytes, -⟩ := readBytes_of_readText hread
  obtain ⟨l, permissions, hresolve, hreadable⟩ := readBytes_eq_ok.1 hbytes
  have hput : fs' = fs.put l (.file new.toUTF8 permissions) := by
    unfold writeText writeBytes writeWith at hwrite
    rw [hresolve] at hwrite
    split at hwrite
    · cases hwrite
    · dsimp only at hwrite
      split at hwrite
      · cases hwrite
        rfl
      · cases hwrite
  have hnew : fs'.readBytes path = .ok new.toUTF8 := by
    rw [hput]
    exact readBytes_eq_ok.2 ⟨l, permissions, resolve_put_file hresolve _ _, hreadable⟩
  exact readText_of_readBytes hnew (Bitcode.text_of_utf8 new)

/-! ### Writing the same again -/

/-- File systems in which the same stands everywhere. -/
abbrev Untouched (fs fs' : FileSystem) : Prop := Keeps (fun _ => False) fs fs'

theorem Untouched.node? (h : Untouched fs fs') (l : Location) : fs'.node? l = fs.node? l :=
  h.elsewhere l not_false

/-- A path leads to a file that holds a content, and that may be read and written over. -/
structure HoldsOpen (fs : FileSystem) (path : String) (content : ByteArray) : Prop where
  isFile : ∃ l permissions, fs.resolve true path = .ok (.found l (.file content permissions)) ∧
    permissions.readable = true ∧ permissions.writable = true
  noSlash : path.toList.getLast? ≠ some '/'

/-- What was written and can be read is open. -/
theorem holdsOpen_of_writeBytes (hfs : fs.NoLinks) {path : String} {content found : ByteArray}
    (hwrite : fs.writeBytes path content = .ok fs') (hread : fs'.readBytes path = .ok found) :
    fs'.HoldsOpen path content := by
  have hkeeps := (writeWith_eq_ok hwrite).1.keeps hfs
  obtain ⟨l, permissions, hresolve, hreadable⟩ := readBytes_eq_ok.1 hread
  have hplace : l = fs'.place path := location_of_resolve hkeeps.noLinks hresolve
  have hnode : fs'.node? l = some (.file found permissions) :=
    holds_of_resolve hkeeps.noLinks hresolve
  have hput : ∀ l' permissions' {spot : Spot}, fs.resolve true path = .ok spot → spot.location = l' →
      l' ≠ [] → fs' = fs.put l' (.file content permissions') →
      found = content ∧ permissions = permissions' := by
    rintro l' permissions' spot hspot rfl hnil rfl
    rw [hplace, hkeeps.place, location_of_resolve hfs hspot, node?_put
      (location_of_resolve hfs hspot ▸ hnil), if_pos rfl] at hnode
    cases hnode
    exact ⟨rfl, rfl⟩
  unfold writeBytes writeWith at hwrite
  split at hwrite
  · cases hwrite
  · rename_i hslash
    split at hwrite
    · cases hwrite
    · rename_i l' hspot
      have hnil : l' ≠ [] := by
        rintro rfl
        have hnone : fs.node? [] = none := holds_of_resolve hfs hspot
        cases hnone
      obtain ⟨rfl, rfl⟩ := hput l' _ hspot rfl hnil (Except.ok.inj hwrite).symm
      exact ⟨⟨l, _, hresolve, hreadable, rfl⟩, hslash⟩
    · rename_i l' old permissions' hspot
      have hnil : l' ≠ [] := by
        rintro rfl
        have hfile : fs.node? [] = some (.file old permissions') := holds_of_resolve hfs hspot
        cases hfile
      split at hwrite
      · rename_i hwritable
        obtain ⟨rfl, rfl⟩ := hput l' _ hspot rfl hnil (Except.ok.inj hwrite).symm
        exact ⟨⟨l, _, hresolve, hreadable, hwritable⟩, hslash⟩
      · cases hwrite
    · cases hwrite

namespace HoldsOpen

variable {path : String} {content : ByteArray}

theorem readBytes (h : fs.HoldsOpen path content) : fs.readBytes path = .ok content := by
  obtain ⟨l, permissions, hresolve, hreadable, _⟩ := h.isFile
  exact readBytes_eq_ok.2 ⟨l, permissions, hresolve, hreadable⟩

theorem of_keeps {touched : Location → Prop} (h : fs.HoldsOpen path content) (hfs : fs.NoLinks)
    (hkeeps : Keeps touched fs fs') (hplace : ¬touched (fs.place path)) :
    fs'.HoldsOpen path content := by
  obtain ⟨l, permissions, hresolve, hopen⟩ := h.isFile
  exact ⟨⟨l, permissions, hkeeps.resolve hfs hresolve hplace, hopen⟩, h.noSlash⟩

/-- **Writing what a file holds changes nothing.** -/
theorem writeBytes (h : fs.HoldsOpen path content) (hfs : fs.NoLinks) :
    ∃ fs', fs.writeBytes path content = .ok fs' ∧ Untouched fs fs' := by
  obtain ⟨l, permissions, hresolve, _, hwritable⟩ := h.isFile
  have hnode : fs.node? l = some (.file content permissions) := holds_of_resolve hfs hresolve
  have hwrite : fs.writeBytes path content = .ok (fs.put l (.file content permissions)) := by
    unfold FileSystem.writeBytes writeWith
    rw [if_neg h.noSlash, hresolve]
    exact if_pos hwritable
  have hkeeps := keeps_put hfs (l := l) (by rw [hnode]; simp) content permissions
  have hnil : l ≠ [] := by
    rintro rfl
    cases hnode
  refine ⟨_, hwrite, hkeeps.workingDirectory, hkeeps.noLinks, hkeeps.directories, fun l' _ => ?_⟩
  rw [node?_put hnil]
  split
  · rename_i heq
    rw [heq, hnode]
  · rfl

end HoldsOpen

end Ingot.FileSystem
