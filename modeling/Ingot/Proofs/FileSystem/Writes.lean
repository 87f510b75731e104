import Ingot.Proofs.FileSystem.Directories

/-!
# Writing files

Writing to a path changes at most what stands at its place, and only where nothing or a file
stands there (`WritesAt`). So directories stay, and **what any other path leads to is read as
before** (`Keeps.readBytes`).
-/

namespace Ingot.FileSystem

variable {fs fs' fs'' : FileSystem} {touched touched' : Location → Prop} {path : String}

/-! ### What is kept -/

/-- A file system in which all directories are still there, and anything else is another at
most at some locations. -/
structure Keeps (touched : Location → Prop) (fs fs' : FileSystem) : Prop where
  workingDirectory : fs'.workingDirectory = fs.workingDirectory
  noLinks : fs'.NoLinks
  directories : ∀ l, fs.node? l = some .directory → fs'.node? l = some .directory
  elsewhere : ∀ l, ¬touched l → fs'.node? l = fs.node? l

theorem Keeps.refl (h : fs.NoLinks) (touched : Location → Prop) : Keeps touched fs fs :=
  ⟨rfl, h, fun _ hl => hl, fun _ _ => rfl⟩

theorem Keeps.mono (h : Keeps touched fs fs') (hsub : ∀ l, touched l → touched' l) :
    Keeps touched' fs fs' :=
  ⟨h.workingDirectory, h.noLinks, h.directories, fun l hl => h.elsewhere l (mt (hsub l) hl)⟩

theorem Keeps.trans (h : Keeps touched fs fs') (h' : Keeps touched fs' fs'') :
    Keeps touched fs fs'' := by
  refine ⟨h'.workingDirectory.trans h.workingDirectory, h'.noLinks, ?_, ?_⟩
  · intro l hl
    exact h'.directories l (h.directories l hl)
  · intro l hl
    exact (h'.elsewhere l hl).trans (h.elsewhere l hl)

theorem Keeps.place (h : Keeps touched fs fs') (path : String) :
    fs'.place path = fs.place path := by
  rw [FileSystem.place, FileSystem.place, h.workingDirectory]

theorem Grows.keeps {news : List Location} (h : Grows path fs fs' news) (hfs : fs.NoLinks) :
    Keeps (· ∈ news) fs fs' := by
  refine ⟨h.workingDirectory, h.noLinks hfs, ?_, ?_⟩
  · intro l hl
    rw [h.node?]
    split
    · rfl
    · exact hl
  · intro l hl
    rw [h.node?, if_neg hl]

/-! ### Reading -/

theorem readBytes_eq_ok {content : ByteArray} : fs.readBytes path = .ok content ↔
    ∃ l permissions, fs.resolve true path = .ok (.found l (.file content permissions)) ∧
      permissions.readable = true := by
  unfold readBytes
  constructor
  · intro h
    split at h
    · cases h
    · rename_i l content' permissions hfind
      split at h
      · rename_i hreadable
        cases h
        exact ⟨l, permissions, find_eq_ok.1 hfind, hreadable⟩
      · cases h
    · cases h
  · rintro ⟨l, permissions, hresolve, hreadable⟩
    rw [find_eq_ok.2 hresolve]
    exact if_pos hreadable

theorem readBytes_of_readText {text : String} (h : fs.readText path = .ok text) :
    ∃ content, fs.readBytes path = .ok content ∧ String.fromUTF8? content = some text := by
  unfold readText at h
  split at h
  · cases h
  · rename_i content hread
    split at h
    · cases h
    · rename_i text' htext
      cases h
      exact ⟨content, hread, htext⟩

theorem readText_of_readBytes {content : ByteArray} {text : String}
    (hread : fs.readBytes path = .ok content) (hutf8 : String.fromUTF8? content = some text) :
    fs.readText path = .ok text := by
  unfold readText
  rw [hread]
  dsimp only
  rw [hutf8]

/-- What can be read stands at the place of the path. -/
theorem node?_of_readBytes (hfs : fs.NoLinks) {content : ByteArray}
    (h : fs.readBytes path = .ok content) :
    ∃ permissions, fs.node? (fs.place path) = some (.file content permissions) := by
  obtain ⟨l, permissions, hresolve, _⟩ := readBytes_eq_ok.1 h
  have hl : l = fs.place path := location_of_resolve hfs hresolve
  have hnode : fs.node? l = some (.file content permissions) := holds_of_resolve hfs hresolve
  exact ⟨permissions, hl ▸ hnode⟩

theorem Grows.not_mem_of_readBytes {made : String} {news : List Location}
    (h : Grows made fs fs' news) (hfs : fs.NoLinks) {content : ByteArray}
    (hread : fs.readBytes path = .ok content) : fs.place path ∉ news := by
  intro hmem
  obtain ⟨_, hnode⟩ := node?_of_readBytes hfs hread
  rw [h.free _ hmem] at hnode
  cases hnode

/-- A path leads to the same spot as before, if that was not touched. -/
theorem Keeps.resolve (h : Keeps touched fs fs') (hfs : fs.NoLinks) {followLast : Bool}
    {spot : Spot} (hresolve : fs.resolve followLast path = .ok spot)
    (hplace : ¬touched (fs.place path)) : fs'.resolve followLast path = .ok spot := by
  have hend : fs'.node? spot.location = fs.node? spot.location := by
    rw [location_of_resolve hfs hresolve]
    exact h.elsewhere _ hplace
  exact resolve_congr hfs h.noLinks h.workingDirectory h.directories hend hresolve

/-- **What stands elsewhere is read as before.** -/
theorem Keeps.readBytes (h : Keeps touched fs fs') (hfs : fs.NoLinks) {content : ByteArray}
    (hread : fs.readBytes path = .ok content) (hplace : ¬touched (fs.place path)) :
    fs'.readBytes path = .ok content := by
  obtain ⟨l, permissions, hresolve, hreadable⟩ := readBytes_eq_ok.1 hread
  exact readBytes_eq_ok.2 ⟨l, permissions, h.resolve hfs hresolve hplace, hreadable⟩

/-! ### Writing -/

/-- A file system after something was written to a path, or was not. -/
inductive WritesAt (fs : FileSystem) (path : String) : FileSystem → Prop where
  /-- Nothing was written. -/
  | nothing : WritesAt fs path fs
  /-- A new file was made. -/
  | fresh {l : Location} {content : ByteArray} {permissions : Permissions} :
      fs.resolve true path = .ok (.vacant l) →
      WritesAt fs path (fs.put l (.file content permissions))
  /-- A file was written over. -/
  | replaced {l : Location} {old content : ByteArray} {before permissions : Permissions} :
      fs.resolve true path = .ok (.found l (.file old before)) →
      WritesAt fs path (fs.put l (.file content permissions))

theorem keeps_put (hfs : fs.NoLinks) {l : Location} (hl : fs.node? l ≠ some .directory)
    (content : ByteArray) (permissions : Permissions) :
    Keeps (· = l) fs (fs.put l (.file content permissions)) := by
  have hnil : l ≠ [] := by
    rintro rfl
    exact hl (node?_nil fs)
  refine ⟨?_, hfs.put hnil fun _ => Node.noConfusion, ?_, ?_⟩
  · rw [put]
    split
    · rfl
    · rfl
  · intro l' hl'
    rw [node?_put hnil, if_neg]
    · exact hl'
    · rintro rfl
      exact hl hl'
  · intro l' hl'
    rw [node?_put hnil, if_neg hl']

theorem WritesAt.keeps (h : WritesAt fs path fs') (hfs : fs.NoLinks) :
    Keeps (· = fs.place path) fs fs' := by
  cases h with
  | nothing => exact .refl hfs _
  | @fresh l content permissions hresolve =>
    have hl : l = fs.place path := location_of_resolve hfs hresolve
    have hnone : fs.node? l = none := holds_of_resolve hfs hresolve
    exact hl ▸ keeps_put hfs (by rw [hnone]; simp) content permissions
  | @replaced l old content before permissions hresolve =>
    have hl : l = fs.place path := location_of_resolve hfs hresolve
    have hfile : fs.node? l = some (.file old before) := holds_of_resolve hfs hresolve
    exact hl ▸ keeps_put hfs (by rw [hfile]; simp) content permissions

/-- What was written is a file at the place of the path. -/
theorem writeWith_eq_ok {fresh : Permissions} {content : ByteArray}
    (h : fs.writeWith fresh path content = .ok fs') :
    WritesAt fs path fs' ∧ ∃ l permissions, fs' = fs.put l (.file content permissions) ∧
      ((fs.resolve true path = .ok (.vacant l)) ∨
        ∃ old before, fs.resolve true path = .ok (.found l (.file old before))) := by
  unfold writeWith at h
  split at h
  · cases h
  · split at h
    · cases h
    · rename_i l hresolve
      cases h
      exact ⟨.fresh hresolve, l, fresh, rfl, .inl hresolve⟩
    · rename_i l old permissions hresolve
      split at h
      · cases h
        exact ⟨.replaced hresolve, l, permissions, rfl, .inr ⟨old, permissions, hresolve⟩⟩
      · cases h
    · cases h

theorem node?_of_writeWith (hfs : fs.NoLinks) {fresh : Permissions} {content : ByteArray}
    (h : fs.writeWith fresh path content = .ok fs') :
    ∃ permissions, fs'.node? (fs.place path) = some (.file content permissions) := by
  obtain ⟨_, l, permissions, rfl, hresolve⟩ := writeWith_eq_ok h
  refine ⟨permissions, ?_⟩
  have hl : l = fs.place path ∧ l ≠ [] := by
    rcases hresolve with hresolve | ⟨old, before, hresolve⟩
    · refine ⟨location_of_resolve hfs hresolve, ?_⟩
      rintro rfl
      have hnone : fs.node? [] = none := holds_of_resolve hfs hresolve
      cases hnone
    · refine ⟨location_of_resolve hfs hresolve, ?_⟩
      rintro rfl
      have hfile : fs.node? [] = some (.file old before) := holds_of_resolve hfs hresolve
      cases hfile
  rw [← hl.1, node?_put hl.2, if_pos rfl]

/-- **What is read after writing is what was written.** -/
theorem eq_of_writeWith_of_readBytes (hfs : fs.NoLinks) {fresh : Permissions}
    {content found : ByteArray} (hwrite : fs.writeWith fresh path content = .ok fs')
    (hread : fs'.readBytes path = .ok found) : found = content := by
  have hkeeps := (writeWith_eq_ok hwrite).1.keeps hfs
  obtain ⟨_, hnode⟩ := node?_of_writeWith hfs hwrite
  obtain ⟨_, hfound⟩ := node?_of_readBytes hkeeps.noLinks hread
  rw [hkeeps.place, hnode] at hfound
  cases hfound
  rfl

end Ingot.FileSystem
