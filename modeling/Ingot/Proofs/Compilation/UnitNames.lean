import Ingot.Compilation.Project
import Ingot.Proofs.FileSystem.Paths
import Ingot.Proofs.Text.Raw

/-!
# Names of units and of their files

The name of a unit is made of names on the path of its source, with dots between them. It can
be a name in a path itself (`isLeaf_unitName`): it is not empty and there is no slash in it, so
**a file that is called by it stands right in the directory it is put in, and files of
different units have different paths** (`join_injective`).
-/

namespace Ingot.Path

/-! ### Components -/

/-- A component that, if it is a name, can be a name in a path. -/
def Component.Proper (c : Component) : Prop := ∀ name, c.name? = some name → IsLeaf name

theorem proper_of_mem_components {p : String} {c : Component} (h : c ∈ components p) :
    c.Proper := by
  have hinner : ∀ c ∈ ((segments p).filter (· != ".")).map componentOf, c.Proper := by
    intro c hc name hname
    obtain ⟨segment, hsegment, rfl⟩ := List.mem_map.1 hc
    rw [componentOf] at hname
    split at hname
    · cases hname
    · cases hname
      exact isLeaf_of_mem_segments (List.mem_of_mem_filter hsegment)
  have hother : ∀ c : Component, c.name? = none → c.Proper := by
    intro c hc name hname
    rw [hc] at hname
    cases hname
  unfold components at h
  dsimp only at h
  split at h
  · rcases List.mem_cons.1 h with rfl | h
    · exact hother _ rfl
    · exact hinner c h
  · split at h
    · rcases List.mem_cons.1 h with rfl | h
      · exact hother _ rfl
      · exact hinner c h
    · exact hinner c h

theorem below?_suffix {base cs rest : List Component} (h : below? base cs = some rest) :
    rest <:+ cs := by
  induction base generalizing cs with
  | nil =>
    cases h
    exact List.suffix_rfl
  | cons b base ih =>
    cases cs with
    | nil => cases h
    | cons c cs =>
      rw [below?] at h
      split at h
      · exact (ih h).trans (List.suffix_cons c cs)
      · cases h

theorem componentsBelow_suffix (base p : String) : componentsBelow base p <:+ components p := by
  unfold componentsBelow
  cases h : below? (components base) (components p) with
  | none => exact List.suffix_rfl
  | some rest => exact below?_suffix h

theorem mem_cutAtDot {name : String} {c : Char} (h : c ∈ (cutAtDot name).1.toList) :
    c ∈ name.toList := by
  unfold cutAtDot at h
  dsimp only at h
  split at h
  · rename_i d stem hdrop
    rw [String.toList_ofList, List.mem_reverse] at h
    refine List.mem_reverse.1 ((List.dropWhile_suffix (· != '.')).mem ?_)
    rw [hdrop]
    exact List.mem_cons_of_mem _ h
  · exact h

theorem cutAtDot_ne_empty {name : String} (h : name ≠ "") : (cutAtDot name).1 ≠ "" := by
  unfold cutAtDot
  dsimp only
  split
  · intro heq
    have hlist := congrArg String.toList heq
    simp at hlist
  · exact h

/-- What stands before the last dot of a name can be a name as well. -/
theorem IsLeaf.cutAtDot {name : String} (h : IsLeaf name) : IsLeaf (cutAtDot name).1 :=
  ⟨cutAtDot_ne_empty h.ne_empty, mt mem_cutAtDot h.noSlash⟩

theorem IsLeaf.shown {name : String} (h : IsLeaf name) : IsLeaf (Raw.shown name) :=
  ⟨Raw.shown_ne_empty h.ne_empty, mt (Raw.mem_shown_iff (by decide)).1 h.noSlash⟩

theorem IsLeaf.ofText {text : String} (h : IsLeaf text) : IsLeaf (Raw.ofText text) :=
  ⟨Raw.ofText_ne_empty h.ne_empty, mt (Raw.mem_ofText_iff (by decide)).1 h.noSlash⟩

theorem proper_of_mem_withoutExtension {cs : List Component} (h : ∀ c ∈ cs, c.Proper)
    {c : Component} (hc : c ∈ withoutExtension cs) : c.Proper := by
  unfold withoutExtension at hc
  split at hc
  · rename_i name hlast
    rcases List.mem_append.1 hc with hc | hc
    · exact h c ((List.dropLast_prefix cs).mem hc)
    · split at hc
      · cases hc
      · obtain rfl := List.mem_singleton.1 hc
        intro stem hstem
        cases hstem
        exact (h _ (List.mem_of_getLast? hlast) name rfl).cutAtDot
  · exact h c hc

/-! ### Files in a directory -/

/-- Names without a slash that are put behind a path make different paths. -/
theorem join_injective {base a b : String} (ha : '/' ∉ a.toList) (hb : '/' ∉ b.toList)
    (h : join base a = join base b) : a = b := by
  rw [join, join, not_isAbsolute_of_noSlash ha, not_isAbsolute_of_noSlash hb,
    if_neg Bool.false_ne_true, if_neg Bool.false_ne_true] at h
  split at h
  · exact (String.append_right_inj base).1 h
  · exact (String.append_right_inj (base ++ "/")).1 h

end Ingot.Path

namespace Ingot.Compilation

/-! ### Names of units -/

/-- The names of a path without the ending of the last one. -/
theorem names_withoutExtension (dirs : List String) (last : String) :
    Path.names (Path.withoutExtension ((dirs ++ [last]).map .name)) =
      dirs ++ if (Path.cutAtDot last).1 = "." ∨ (Path.cutAtDot last).1 = ".." then []
        else [(Path.cutAtDot last).1] := by
  have hdirs : Path.names (dirs.map .name) = dirs := by
    rw [Path.names, List.filterMap_map]
    exact List.filterMap_some
  rw [List.map_append, List.map_singleton, Path.withoutExtension, List.getLast?_concat]
  dsimp only
  rw [List.dropLast_concat, Path.names, List.filterMap_append]
  change Path.names (dirs.map .name) ++ _ = _
  rw [hdirs]
  split
  · rfl
  · rfl

/-- A name with an ending is what stands before its last dot, the dot and the ending. -/
theorem toList_eq_of_cutAtDot {name ending : String} (h : (Path.cutAtDot name).2 = some ending)
    (hending : '.' ∉ ending.toList) :
    name.toList = (Path.cutAtDot name).1.toList ++ '.' :: ending.toList := by
  obtain ⟨stem, hname⟩ := Path.toList_of_cutAtDot h
  have hstem : String.ofList stem ≠ "" := by
    -- a dot that nothing stands before does not end a name
    intro hempty
    obtain rfl : stem = [] := by simpa using congrArg String.toList hempty
    have hreverse : name.toList.reverse = ending.toList.reverse ++ ['.'] := by
      rw [hname, List.nil_append, List.reverse_cons]
    have hdrop : name.toList.reverse.dropWhile (· != '.') = ['.'] := by
      rw [hreverse, List.dropWhile_append_of_pos fun c hc => bne_iff_ne.2 ?_]
      · rfl
      · rintro rfl
        exact hending (List.mem_reverse.1 hc)
    simp only [Path.cutAtDot, hdrop] at h
    cases h
  rw [Path.cutAtDot_append hstem hending (by rw [hname, String.toList_ofList]),
    String.toList_ofList, hname]

theorem isLeaf_intercalate {names : List String} (hne : names ≠ [])
    (h : ∀ name ∈ names, Path.IsLeaf name) : Path.IsLeaf (".".intercalate names) := by
  induction names with
  | nil => exact absurd rfl hne
  | cons name names ih =>
    have hfirst := h name List.mem_cons_self
    cases names with
    | nil =>
      rw [String.intercalate_singleton]
      exact hfirst
    | cons second names =>
      have hrest := ih (List.cons_ne_nil _ _) fun n hn => h n (List.mem_cons_of_mem _ hn)
      rw [String.intercalate_cons_cons]
      refine ⟨fun hempty => hfirst.ne_empty ?_, ?_⟩
      · have hlist := congrArg String.toList hempty
        simp at hlist
      · rw [String.toList_append, String.toList_append]
        intro hmem
        rcases List.mem_append.1 hmem with hmem | hmem
        · rcases List.mem_append.1 hmem with hmem | hmem
          · exact hfirst.noSlash hmem
          · exact absurd hmem (by decide)
        · exact hrest.noSlash hmem

/-- **The name of a unit can be a name in a path.** -/
theorem isLeaf_unitName (root file : String) : Path.IsLeaf (unitName root file) := by
  have hnames : ∀ name ∈ Path.names (Path.withoutExtension (Path.componentsBelow root file)),
      Path.IsLeaf name := by
    intro name hname
    obtain ⟨c, hc, hsome⟩ := List.mem_filterMap.1 hname
    refine Path.proper_of_mem_withoutExtension (fun c hc => ?_) hc name hsome
    exact Path.proper_of_mem_components ((Path.componentsBelow_suffix root file).mem hc)
  unfold unitName
  split
  · exact ⟨by decide, by decide⟩
  · rename_i hne
    refine isLeaf_intercalate (mt List.map_eq_nil_iff.1 hne) fun name hname => ?_
    obtain ⟨raw, hraw, rfl⟩ := List.mem_map.1 hname
    exact (hnames raw hraw).shown

end Ingot.Compilation
