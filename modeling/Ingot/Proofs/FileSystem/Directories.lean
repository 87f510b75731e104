import Ingot.Proofs.FileSystem.Walks

/-!
# Making directories

Making a directory together with those it is in may stop half way, but whatever happens,
**all that is new are directories on the way of the path** (`makeWithParents_grows`). In a
file system that is a tree nothing stands below them but other new ones.
-/

namespace Ingot.FileSystem

variable {fs fs' fs'' : FileSystem}

/-! ### File systems that grow -/

/-- A file system with directories at places that were free, all of them on the way of a path. -/
structure Grows (path : String) (fs fs' : FileSystem) (news : List Location) : Prop where
  eq : fs' = { fs with nodes := fs.nodes ++ news.map fun l => (l, .directory) }
  free : ∀ l ∈ news, fs.node? l = none
  onWay : ∀ l ∈ news, ∃ names, names <+: Path.way path ∧
    l = follow (startOf fs.workingDirectory path) names

theorem Grows.refl (path : String) (fs : FileSystem) : Grows path fs fs [] := by
  refine ⟨?_, ?_, ?_⟩
  · simp
  · intro l hl
    cases hl
  · intro l hl
    cases hl

theorem lookup_map_pair (n : Node) (news : List Location) (l : Location) :
    (news.map fun l => (l, n)).lookup l = if l ∈ news then some n else none := by
  induction news with
  | nil => rfl
  | cons first news ih =>
    rw [List.map_cons, List.lookup_cons]
    by_cases h : l = first
    · subst h
      simp
    · have hb : (l == first) = false := by simpa using h
      rw [hb, ih]
      simp [h]

theorem Grows.node? {path : String} {news : List Location} (h : Grows path fs fs' news)
    (l : Location) : fs'.node? l = if l ∈ news then some .directory else fs.node? l := by
  by_cases hnil : l = []
  · subst hnil
    have hold : [] ∉ news := by
      intro hmem
      have := h.free [] hmem
      rw [node?_nil] at this
      cases this
    rw [if_neg hold, node?_nil, node?_nil]
  · rw [h.eq, node?_of_ne_nil hnil, List.lookup_append, lookup_map_pair,
      ← node?_of_ne_nil hnil]
    by_cases hmem : l ∈ news
    · rw [if_pos hmem, if_pos hmem, h.free l hmem]
      rfl
    · rw [if_neg hmem, if_neg hmem, Option.or_none]

theorem Grows.workingDirectory {path : String} {news : List Location}
    (h : Grows path fs fs' news) : fs'.workingDirectory = fs.workingDirectory := by
  rw [h.eq]

theorem Grows.noLinks {path : String} {news : List Location} (h : Grows path fs fs' news)
    (hfs : fs.NoLinks) : fs'.NoLinks := by
  intro l target hnode
  rw [h.node?] at hnode
  split at hnode
  · cases hnode
  · exact hfs l target hnode

theorem Grows.trans {path : String} {news news' : List Location} (h : Grows path fs fs' news)
    (h' : Grows path fs' fs'' news') : Grows path fs fs'' (news ++ news') := by
  refine ⟨?_, ?_, ?_⟩
  · rw [h'.eq, h.eq]
    simp
  · intro l hl
    rcases List.mem_append.1 hl with hl | hl
    · exact h.free l hl
    · have hnone := h'.free l hl
      rw [h.node?] at hnone
      split at hnone
      · cases hnone
      · exact hnone
  · intro l hl
    rcases List.mem_append.1 hl with hl | hl
    · exact h.onWay l hl
    · rw [← h.workingDirectory]
      exact h'.onWay l hl

theorem IsTree.node?_eq_none (h : fs.IsTree) {l : Location} (hl : fs.node? l = none)
    (names : List String) : fs.node? (l ++ names) = none := by
  induction names using List.reverseRecOn with
  | nil =>
    rw [List.append_nil]
    exact hl
  | append_singleton names name ih =>
    by_contra hne
    rw [← List.append_assoc] at hne
    rw [h _ _ hne] at ih
    cases ih

/-- Nothing but other new directories stands below a new directory. -/
theorem Grows.mem_of_below {path : String} {news : List Location} (h : Grows path fs fs' news)
    (hfs : fs.IsTree) {l l' : Location} (hl : l ∈ news) (hll : l <+: l')
    (hnode : fs'.node? l' ≠ none) : l' ∈ news := by
  obtain ⟨names, rfl⟩ := hll
  by_contra hmem
  rw [h.node?, if_neg hmem, hfs.node?_eq_none (h.free l hl) names] at hnode
  exact hnode rfl

/-! ### Making directories -/

theorem makeDirectory_grows (h : fs.NoLinks) {path : String}
    (hmake : fs.makeDirectory path = .ok fs') : Grows path fs fs' [fs.place path] := by
  simp only [makeDirectory] at hmake
  split at hmake
  · cases hmake
  · split at hmake
    · cases hmake
    · split at hmake
      · split at hmake
        · cases hmake
        · cases hmake
      · split at hmake
        · cases hmake
        · cases hmake
        · rename_i location hwalk
          cases hmake
          have hw := walks_of_walk h hwalk
          have hplace : location = fs.place path := by
            have hloc := hw.location
            rw [place, Path.way, follow_filter]
            exact hloc
          have hnone : fs.node? location = none := hw.holds
          refine ⟨?_, ?_, ?_⟩
          · rw [put_of_vacant hnone, ← hplace]
            rfl
          · intro l hl
            obtain rfl := List.mem_singleton.1 hl
            exact hplace ▸ hnone
          · intro l hl
            obtain rfl := List.mem_singleton.1 hl
            exact ⟨Path.way path, List.prefix_rfl, rfl⟩

/-- What is on the way of the path above is on the way of the path. -/
theorem Grows.of_parent {path parent : String} {news : List Location}
    (habs : Path.isAbsolute path = true) (hparent : Path.parent? path = some parent)
    (h : Grows parent fs fs' news) : Grows path fs fs' news := by
  obtain ⟨habs', _, hway⟩ := Path.parent?_of_isAbsolute habs hparent
  refine ⟨h.eq, h.free, fun l hl => ?_⟩
  obtain ⟨names, hnames, rfl⟩ := h.onWay l hl
  rw [hway] at hnames
  refine ⟨names, hnames.trans (List.dropLast_prefix _), ?_⟩
  rw [startOf, startOf, habs, habs']

/-- **Making a directory with those it is in adds directories on the way**, also where it
fails. -/
theorem makeWithParents_grows {path : String} (habs : Path.isAbsolute path = true) (depth : ℕ)
    (hfs : fs.NoLinks) : ∃ news, Grows path fs (makeWithParents depth fs path).1 news := by
  induction depth generalizing fs path with
  | zero => exact ⟨[], .refl path fs⟩
  | succ depth ih =>
    rw [makeWithParents]
    split
    · exact ⟨[], .refl path fs⟩
    · split
      · rename_i fs₁ hmake
        exact ⟨_, makeDirectory_grows hfs hmake⟩
      · split
        · exact ⟨[], .refl path fs⟩
        · rename_i parent hparent
          obtain ⟨habs', _, _⟩ := Path.parent?_of_isAbsolute habs hparent
          obtain ⟨news, hnews⟩ := ih habs' hfs
          have hgrows := hnews.of_parent habs hparent
          split
          · rename_i fs₁ fault heq
            rw [heq] at hgrows
            exact ⟨news, hgrows⟩
          · rename_i fs₁ heq
            rw [heq] at hgrows
            split
            · rename_i fs₂ hmake
              exact ⟨_, hgrows.trans (makeDirectory_grows (hgrows.noLinks hfs) hmake)⟩
            · split
              · exact ⟨news, hgrows⟩
              · exact ⟨news, hgrows⟩
      · split
        · exact ⟨[], .refl path fs⟩
        · exact ⟨[], .refl path fs⟩

theorem ensureDirectory_grows {path : String} (habs : Path.isAbsolute path = true)
    (hfs : fs.NoLinks) : ∃ news, Grows path fs (fs.ensureDirectory path).1 news := by
  rw [ensureDirectory]
  split
  · exact ⟨[], .refl path fs⟩
  · obtain ⟨news, hnews⟩ := makeWithParents_grows habs ((Path.components path).length + 1) hfs
    rw [makeDirectories]
    split
    · rename_i fs₁ fault heq
      rw [heq] at hnews
      exact ⟨news, hnews⟩
    · rename_i fs₁ heq
      rw [heq] at hnews
      exact ⟨news, hnews⟩

end Ingot.FileSystem
