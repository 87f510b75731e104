import Mathlib.Data.List.Basic
import Mathlib.Data.List.Induction
import Ingot.Path

/-!
# Names along a path

The *way* of a path are its names from left to right, without the single dots, which mean
nothing. A name put behind a path comes behind its way (`way_join`), and the path above an
absolute one has its way without the last name (`parent?_of_isAbsolute`). A file name is the
last name of the way (`way_of_fileName?`).
-/

namespace Ingot.Path

/-! ### Names -/

/-- A text that can be a name in a path. -/
structure IsLeaf (name : String) : Prop where
  ne_empty : name ≠ ""
  noSlash : '/' ∉ name.toList

theorem IsLeaf.toList_ne_nil {name : String} (h : IsLeaf name) : name.toList ≠ [] := by
  intro hnil
  exact h.ne_empty (String.toList_inj.1 hnil)

theorem pieces_ne_nil (text : List Char) : pieces text ≠ [] := by
  cases text with
  | nil => exact List.cons_ne_nil _ _
  | cons c rest =>
    rw [pieces]
    split
    · exact List.cons_ne_nil _ _
    · split
      · exact List.cons_ne_nil _ _
      · exact List.cons_ne_nil _ _

theorem pieces_append_slash (a b : List Char) : pieces (a ++ '/' :: b) = pieces a ++ pieces b := by
  induction a with
  | nil =>
    rw [List.nil_append, pieces]
    exact if_pos rfl
  | cons c a ih =>
    rw [List.cons_append, pieces, pieces]
    by_cases hc : c = '/'
    · rw [if_pos hc, if_pos hc, ih]
      rfl
    · rw [if_neg hc, if_neg hc, ih]
      cases ha : pieces a with
      | nil => exact absurd ha (pieces_ne_nil a)
      | cons piece more => rfl

theorem pieces_of_noSlash {a : List Char} (h : '/' ∉ a) : pieces a = [a] := by
  induction a with
  | nil => rfl
  | cons c a ih =>
    obtain ⟨hc, ha⟩ := not_or.1 (mt List.mem_cons.2 h)
    rw [pieces, if_neg (Ne.symm hc), ih ha]

theorem noSlash_of_mem_pieces {a piece : List Char} (h : piece ∈ pieces a) : '/' ∉ piece := by
  induction a generalizing piece with
  | nil =>
    obtain rfl := List.mem_singleton.1 h
    exact List.not_mem_nil
  | cons c a ih =>
    rw [pieces] at h
    by_cases hc : c = '/'
    · rw [if_pos hc] at h
      rcases List.mem_cons.1 h with rfl | h
      · exact List.not_mem_nil
      · exact ih h
    · rw [if_neg hc] at h
      cases ha : pieces a with
      | nil => exact absurd ha (pieces_ne_nil a)
      | cons first more =>
        rw [ha] at h ih
        rcases List.mem_cons.1 h with rfl | h
        · exact mt List.mem_cons.1 (not_or.2 ⟨Ne.symm hc, ih List.mem_cons_self⟩)
        · exact ih (List.mem_cons_of_mem _ h)

theorem pieces_append_of_noSlash (a : List Char) {b : List Char} (hb : '/' ∉ b) :
    ∃ init last, pieces (a ++ b) = init ++ [last ++ b] := by
  induction a with
  | nil => exact ⟨[], [], pieces_of_noSlash hb⟩
  | cons c a ih =>
    obtain ⟨init, last, ih⟩ := ih
    rw [List.cons_append, pieces]
    by_cases hc : c = '/'
    · rw [if_pos hc, ih]
      exact ⟨[] :: init, last, rfl⟩
    · rw [if_neg hc, ih]
      cases init with
      | nil => exact ⟨[], c :: last, rfl⟩
      | cons first init => exact ⟨(c :: first) :: init, last, rfl⟩

theorem isLeaf_of_mem_segments {p name : String} (h : name ∈ segments p) : IsLeaf name := by
  obtain ⟨piece, hpiece, rfl⟩ := List.mem_map.1 h
  obtain ⟨hmem, hne⟩ := List.mem_filter.1 hpiece
  refine ⟨?_, ?_⟩
  · intro hempty
    have hnil := congrArg String.toList hempty
    rw [String.toList_ofList] at hnil
    rw [hnil] at hne
    cases hne
  · rw [String.toList_ofList]
    exact noSlash_of_mem_pieces hmem

/-! ### Putting a name behind a path -/

theorem not_isAbsolute_of_noSlash {name : String} (h : '/' ∉ name.toList) :
    isAbsolute name = false := by
  rw [isAbsolute]
  cases hl : name.toList with
  | nil => rfl
  | cons c rest =>
    have hc : c ≠ '/' := by
      rintro rfl
      exact h (hl ▸ List.mem_cons_self)
    simpa using hc

/-- The pieces of a relative path come behind those of the path that it is put behind. -/
theorem segments_join_relative {base p : String} (hbase : base ≠ "") (hp : isAbsolute p = false) :
    segments (join base p) = segments base ++ segments p := by
  have hempty : base.isEmpty = false := by simpa [String.isEmpty_iff] using hbase
  have hsplit : ∀ {a : List Char} {q : String}, q.toList = a ++ '/' :: p.toList →
      (pieces a).filter (fun piece => !piece.isEmpty) =
        (pieces base.toList).filter (fun piece => !piece.isEmpty) →
      segments q = segments base ++ segments p := by
    intro a q hq ha
    rw [segments, hq, pieces_append_slash, List.filter_append, ha, List.map_append]
    rfl
  rw [join, hp, if_neg Bool.false_ne_true, hempty]
  by_cases hlast : base.toList.getLast? = some '/'
  · rw [if_pos (.inr hlast)]
    obtain ⟨a, ha⟩ := List.getLast?_eq_some_iff.1 hlast
    refine hsplit (a := a) ?_ ?_
    · rw [String.toList_append, ha]
      simp
    · rw [ha, pieces_append_slash, List.filter_append]
      simp [pieces]
  · rw [if_neg (by simpa using hlast)]
    refine hsplit (a := base.toList) ?_ rfl
    simp

theorem segments_of_isLeaf {name : String} (h : IsLeaf name) : segments name = [name] := by
  have hne : [name.toList].filter (fun piece => !piece.isEmpty) = [name.toList] := by
    simpa using h.toList_ne_nil
  rw [segments, pieces_of_noSlash h.noSlash, hne, List.map_singleton, String.ofList_toList]

theorem segments_join {base name : String} (hbase : base ≠ "") (h : IsLeaf name) :
    segments (join base name) = segments base ++ [name] := by
  rw [segments_join_relative hbase (not_isAbsolute_of_noSlash h.noSlash), segments_of_isLeaf h]

theorem isAbsolute_join {base : String} (hbase : isAbsolute base = true) (p : String) :
    isAbsolute (join base p) = true := by
  rw [join]
  split
  · assumption
  · obtain ⟨rest, hrest⟩ : ∃ rest, base.toList = '/' :: rest := by
      rw [isAbsolute] at hbase
      cases hl : base.toList with
      | nil => rw [hl] at hbase; cases hbase
      | cons c rest =>
        rw [hl] at hbase
        exact ⟨rest, by simpa using hbase⟩
    split
    · rw [isAbsolute, String.toList_append, hrest]
      rfl
    · rw [isAbsolute, String.toList_append, String.toList_append, hrest]
      rfl

theorem ne_empty_of_isAbsolute {p : String} (h : isAbsolute p = true) : p ≠ "" := by
  rintro rfl
  cases h

/-! ### Ways -/

/-- The names of a path without single dots. -/
def way (p : String) : List String := (segments p).filter (· != ".")

theorem way_join {base name : String} (hbase : base ≠ "") (h : IsLeaf name) (hdot : name ≠ ".") :
    way (join base name) = way base ++ [name] := by
  rw [way, segments_join hbase h, List.filter_append, way]
  simp [hdot]

/-- The last name of a path that ends in characters without a slash ends in them. -/
theorem way_of_suffix {p : String} {a b : List Char} (hp : p.toList = a ++ b) (hb : '/' ∉ b)
    (hlong : 1 < b.length) : ∃ names stem, way p = names ++ [String.ofList (stem ++ b)] := by
  obtain ⟨init, last, hpieces⟩ := pieces_append_of_noSlash a hb
  have hne : last ++ b ≠ [] := by
    intro hnil
    obtain ⟨-, rfl⟩ := List.append_eq_nil_iff.1 hnil
    simp at hlong
  have hdot : String.ofList (last ++ b) ≠ "." := by
    intro heq
    have hlength := congrArg (fun name => name.toList.length) heq
    simp only [String.toList_ofList, List.length_append] at hlength
    have hone : (".".toList.length) = 1 := rfl
    omega
  refine ⟨((init.filter fun piece => !piece.isEmpty).map String.ofList).filter (· != "."), last, ?_⟩
  rw [way, segments, hp, hpieces, List.filter_append, List.map_append, List.filter_append,
    List.filter_cons_of_pos (by simpa using hne), List.filter_nil, List.map_singleton,
    List.filter_cons_of_pos (p := fun name => name != ".") (bne_iff_ne.2 hdot), List.filter_nil]

theorem isLeaf_of_mem_way {p name : String} (h : name ∈ way p) : IsLeaf name ∧ name ≠ "." := by
  obtain ⟨hmem, hdot⟩ := List.mem_filter.1 h
  exact ⟨isLeaf_of_mem_segments hmem, by simpa using hdot⟩

theorem components_of_isAbsolute {p : String} (h : isAbsolute p = true) :
    components p = .root :: (way p).map componentOf := by
  simp only [components, h, if_true, way]

theorem text_componentOf (name : String) : (componentOf name).text = name := by
  rw [componentOf]
  split
  · rename_i h
    exact h.symm
  · rfl

/-- The path of the root and names behind it: it is absolute, and these are its way. -/
theorem way_ofComponents {names : List String} (h : ∀ name ∈ names, IsLeaf name ∧ name ≠ ".") :
    isAbsolute (ofComponents (.root :: names.map componentOf)) = true ∧
      way (ofComponents (.root :: names.map componentOf)) = names := by
  induction names using List.reverseRecOn with
  | nil => exact ⟨by decide, by decide⟩
  | append_singleton names name ih =>
    obtain ⟨habs, hway⟩ := ih fun n hn => h n (List.mem_append_left _ hn)
    obtain ⟨hleaf, hdot⟩ := h name (List.mem_append_right _ List.mem_cons_self)
    have heq : ofComponents (.root :: (names ++ [name]).map componentOf) =
        join (ofComponents (.root :: names.map componentOf)) name := by
      rw [ofComponents, List.map_append, ← List.cons_append, List.foldl_append]
      simp only [List.map_singleton, List.foldl_cons, List.foldl_nil, text_componentOf]
      rfl
    rw [heq]
    exact ⟨isAbsolute_join habs name,
      by rw [way_join (ne_empty_of_isAbsolute habs) hleaf hdot, hway]⟩

/-- The path above an absolute one, which there is if it has any name. -/
theorem parent?_of_isAbsolute {p parent : String} (h : isAbsolute p = true)
    (hparent : parent? p = some parent) :
    isAbsolute parent = true ∧ way p ≠ [] ∧ way parent = (way p).dropLast := by
  rw [parent?, components_of_isAbsolute h] at hparent
  cases hway : way p using List.reverseRecOn with
  | nil =>
    rw [hway] at hparent
    cases hparent
  | append_singleton names name =>
    rw [hway, List.map_append, List.map_singleton, ← List.cons_append, List.getLast?_concat,
      List.dropLast_concat] at hparent
    have hleaf : ∀ n ∈ names, IsLeaf n ∧ n ≠ "." := fun n hn =>
      isLeaf_of_mem_way (hway ▸ List.mem_append_left _ hn)
    obtain ⟨habs, hnames⟩ := way_ofComponents hleaf
    have hsome : parent = ofComponents (.root :: names.map componentOf) := by
      split at hparent
      · cases hparent
      · rename_i hroot
        rw [componentOf] at hroot
        split at hroot
        · cases hroot
        · cases hroot
      · exact (Option.some.inj hparent).symm
    rw [hsome, List.dropLast_concat]
    exact ⟨habs, by simp, hnames⟩

/-! ### The last name -/

theorem toList_of_cutAtDot {name ending : String} (h : (cutAtDot name).2 = some ending) :
    ∃ stem, name.toList = stem ++ '.' :: ending.toList := by
  have hname := List.takeWhile_append_dropWhile (p := (· != '.')) (l := name.toList.reverse)
  unfold cutAtDot at h
  dsimp only at h
  split at h
  · rename_i c stem hdrop
    cases h
    rw [hdrop] at hname
    have hreverse := congrArg List.reverse hname
    rw [List.reverse_append, List.reverse_reverse, List.reverse_cons, List.append_assoc]
      at hreverse
    refine ⟨(c :: stem).reverse, ?_⟩
    rw [String.toList_ofList]
    exact hreverse.symm
  · cases h

/-- A name with an ending is cut before it, if something stands before its last dot. -/
theorem cutAtDot_append {name stem ending : String} (hstem : stem ≠ "")
    (hending : '.' ∉ ending.toList) (h : name.toList = stem.toList ++ '.' :: ending.toList) :
    cutAtDot name = (stem, some ending) := by
  have hreverse : name.toList.reverse = ending.toList.reverse ++ '.' :: stem.toList.reverse := by
    rw [h, List.reverse_append, List.reverse_cons, List.append_assoc]
    rfl
  have hall : ∀ c ∈ ending.toList.reverse, (c != '.') = true := by
    intro c hc
    refine bne_iff_ne.2 ?_
    rintro rfl
    exact hending (List.mem_reverse.1 hc)
  have htake : name.toList.reverse.takeWhile (· != '.') = ending.toList.reverse := by
    rw [hreverse, List.takeWhile_append_of_pos hall]
    simp
  have hdrop : name.toList.reverse.dropWhile (· != '.') = '.' :: stem.toList.reverse := by
    rw [hreverse, List.dropWhile_append_of_pos hall]
    simp
  cases hrest : stem.toList.reverse with
  | nil =>
    refine absurd (String.toList_inj.1 ?_) hstem
    rw [← List.reverse_reverse stem.toList, hrest]
    rfl
  | cons c rest =>
    have hback : (c :: rest).reverse = stem.toList := by rw [← hrest, List.reverse_reverse]
    simp only [cutAtDot, htake, hdrop, hrest, hback, List.reverse_reverse, String.ofList_toList]

/-- A name put behind an absolute path is the file name. -/
theorem fileName?_join {base name : String} (hbase : isAbsolute base = true) (h : IsLeaf name)
    (hdot : name ≠ ".") (hup : name ≠ "..") : fileName? (join base name) = some name := by
  rw [fileName?, components_of_isAbsolute (isAbsolute_join hbase name),
    way_join (ne_empty_of_isAbsolute hbase) h hdot, List.map_append, List.map_singleton,
    ← List.cons_append, List.getLast?_concat, componentOf, if_neg hup]
  rfl

/-- The way of a path with a file name ends in that name. -/
theorem way_of_fileName? {p name : String} (h : fileName? p = some name) :
    name ≠ ".." ∧ ∃ names, way p = names ++ [name] := by
  obtain ⟨c, hlast, hname⟩ := Option.bind_eq_some_iff.1 h
  have hinner : ((way p).map componentOf).getLast? = some c := by
    have hfirst : ∀ first : Component, first.name? = none →
        (first :: (way p).map componentOf).getLast? = some c →
        ((way p).map componentOf).getLast? = some c := by
      intro first hnone hcons
      cases hway : (way p).map componentOf with
      | nil =>
        rw [hway, List.getLast?_singleton] at hcons
        obtain rfl := Option.some.inj hcons
        rw [hnone] at hname
        cases hname
      | cons second more =>
        rw [hway] at hcons
        exact hcons
    unfold components at hlast
    dsimp only at hlast
    split at hlast
    · exact hfirst _ rfl hlast
    · split at hlast
      · exact hfirst _ rfl hlast
      · exact hlast
  rw [List.getLast?_map, Option.map_eq_some_iff] at hinner
  obtain ⟨segment, hsegment, rfl⟩ := hinner
  rw [componentOf] at hname
  split at hname
  · cases hname
  · rename_i hup
    cases hname
    obtain ⟨names, hway⟩ := List.getLast?_eq_some_iff.1 hsegment
    exact ⟨hup, names, hway⟩

end Ingot.Path
