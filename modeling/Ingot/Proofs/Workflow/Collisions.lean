import Ingot.Proofs.Compilation.DottedNames
import Ingot.Proofs.Workflow.Artifacts
import Ingot.Proofs.Workflow.Workers

/-!
# Collisions of units

Two sources collide if their units have the same name: their artifacts would be the same file, so
compiling them is refused. As the dots between the names on a path are the only thing that the name
of a unit adds to them, **sources whose names are texts without other dots never collide**
(`dotless_never_collide`): their units have different names, these have different files in either
form, and compiling them, by whatever schedule, is not refused for a repeated name. Names that are
no texts may be shown alike, and then they do (`dotless_not_always_apart`).
-/

namespace Ingot.Path

theorem components_of_isName {name : String} (h : IsName name) :
    components name = [.name name] := by
  have hpieces := pieces_of_noSlash h.noSlash
  have hfirst : (pieces name.toList).head? ≠ some ['.'] := by
    rw [hpieces]
    intro heq
    exact h.ne_dot (String.toList_inj.1 (Option.some.inj heq))
  have hsegments : (segments name).filter (· != ".") = [name] := by
    rw [segments_of_isLeaf h.toIsLeaf]
    simp [h.ne_dot]
  simp only [components, not_isAbsolute_of_noSlash h.noSlash, if_neg hfirst, hsegments,
    List.map_singleton, componentOf_isName h, Bool.false_eq_true, if_false]

/-- A name behind any path, also behind the empty one, is its last component. -/
theorem components_join_isName (base : String) {name : String} (h : IsName name) :
    components (join base name) = components base ++ [.name name] := by
  by_cases hbase : base = ""
  · subst hbase
    have hjoin : join "" name = name := by
      rw [join, not_isAbsolute_of_noSlash h.noSlash, if_neg Bool.false_ne_true, if_pos (.inl rfl),
        String.empty_append]
    rw [hjoin, components_of_isName h]
    rfl
  · exact components_join hbase h

end Ingot.Path

namespace Ingot.Workflow

open Compilation (CompiledUnit FrontEnd IsDotless IsSourcePath standardFrontEnd unitName)

/-! ### Paths of artifacts -/

theorem components_artifactPath (output : String) (form : ArtifactForm) {unit : String}
    (h : '/' ∉ unit.toList) : Path.components (artifactPath output form unit) =
      Path.components output ++ [.name (artifactName form unit)] :=
  Path.components_join_isName output
    ⟨isLeaf_artifactName h, artifactName_ne form unit (by decide),
      artifactName_ne form unit (by decide)⟩

/-- Units whose artifacts have the same path have the same name. -/
theorem unit_eq_of_same_artifactPath {output : String} {form form' : ArtifactForm} {a b : String}
    (ha : '/' ∉ a.toList) (hb : '/' ∉ b.toList)
    (h : Path.same (artifactPath output form a) (artifactPath output form' b) = true) : a = b := by
  have hcomponents := beq_iff_eq.1 h
  rw [components_artifactPath output form ha, components_artifactPath output form' hb] at hcomponents
  exact artifactName_injective
    (Path.Component.name.inj (List.head_eq_of_cons_eq (List.append_cancel_left hcomponents)))

/-! ### Compiling -/

/-- Sources whose units have different names, all of them new, are not refused for a repeated
name. -/
theorem compileLoop_ne_repeatedUnit {frontEnd : FrontEnd} {fs : FileSystem} {root : String}
    (hname : ∀ file unit, frontEnd fs root file = .ok unit → unit.name = unitName root file)
    {units : List CompiledUnit} {files : List String} (hfiles : (files.map (unitName root)).Nodup)
    (hunits : ∀ unit ∈ units, unit.name ∉ files.map (unitName root)) (unit first second : String) :
    compileLoop frontEnd fs root units files ≠ .error (.repeatedUnit unit first second) := by
  induction files generalizing units with
  | nil => exact fun h => by cases h
  | cons file files ih =>
    rw [compileLoop]
    cases hunit : frontEnd fs root file with
    | error fault => exact fun h => by cases h
    | ok made =>
      have hmade := hname file made hunit
      obtain ⟨hnew, hfiles⟩ := List.nodup_cons.1 hfiles
      have hfind : units.find? (fun other => other.name == made.name) = none := by
        rw [List.find?_eq_none]
        intro other hother
        have hother := hunits other hother
        rw [List.map_cons, List.mem_cons, ← hmade] at hother
        simpa using (not_or.1 hother).1
      simp only [hfind]
      refine ih hfiles fun other hother => ?_
      rcases List.mem_append.1 hother with hother | hother
      · exact mt (List.mem_cons_of_mem _) (hunits other hother)
      · obtain rfl := List.mem_singleton.1 hother
        rw [hmade]
        exact hnew

theorem name_of_standardFrontEnd {fs : FileSystem} {root file : String} {unit : CompiledUnit}
    (h : standardFrontEnd fs root file = .ok unit) : unit.name = unitName root file := by
  obtain ⟨m, _, rfl⟩ := of_except_map_ok h
  rfl

/-! ### Sources without dots -/

/-- **Sources with texts for names collide only by dots.** Of different sources below a root, where
the names of the directories below the root and the stem of a file are texts without a dot, the
units have different names, and these have different files wherever they are put and in whatever
form. Compiling the sources, one after the other or by any other schedule, does not fail for a
repeated name. -/
theorem dotless_never_collide {root : String} {files : List String}
    (hfiles : ∀ file ∈ files, IsDotless root file)
    (hdistinct : files.Pairwise fun f g => Path.same f g = false) :
    (files.Pairwise fun f g => unitName root f ≠ unitName root g) ∧
    (∀ output form form', files.Pairwise fun f g =>
      Path.same (artifactPath output form (unitName root f))
        (artifactPath output form' (unitName root g)) = false) ∧
    (∀ w unit first second, (Effect.outcome (compileSources standardFrontEnd root files) w).1 ≠
      .error (.repeatedUnit unit first second)) ∧
    ∀ fs workers slots, Reached standardFrontEnd fs root files workers → workers.Done slots →
      ∀ unit first second, collect .empty slots ≠ .error (.repeatedUnit unit first second) := by
  have hnames : files.Pairwise fun f g => unitName root f ≠ unitName root g := by
    refine hdistinct.imp_of_mem fun hf hg hapart heq => ?_
    have hsame := (hfiles _ hf).components_eq (hfiles _ hg) heq
    rw [Path.same, hsame, beq_self_eq_true] at hapart
    cases hapart
  have hloop : ∀ fs unit first second, compileLoop standardFrontEnd fs root [] files ≠
      .error (.repeatedUnit unit first second) := fun fs =>
    compileLoop_ne_repeatedUnit (fun _ _ => name_of_standardFrontEnd) (List.pairwise_map.2 hnames)
      (List.forall_mem_nil _)
  refine ⟨hnames, fun output form form' => hnames.imp fun hne => ?_, ?_, ?_⟩
  · rw [Bool.eq_false_iff]
    exact fun hsame => hne (unit_eq_of_same_artifactPath
      (Compilation.isLeaf_unitName root _).noSlash (Compilation.isLeaf_unitName root _).noSlash hsame)
  · intro w unit first second
    obtain ⟨told, hout⟩ := outcome_compileSources standardFrontEnd root files w
    rw [hout]
    exact hloop w.files unit first second
  · intro fs workers slots hreached hdone unit first second
    rw [hreached.collect_eq hdone]
    exact hloop fs unit first second

/-- Sources whose names would run together without the dots between them. -/
theorem dotless_never_collide_nested : (["/p/a/b.ion", "/p/ab.ion", "/p/a.ion"] : List String).Pairwise
    fun f g => unitName "/p" f ≠ unitName "/p" g := by
  have hdotless : ∀ (dirs : List String) (stem : String),
      (∀ name ∈ dirs ++ [stem ++ ".ion"], Path.IsName name) → stem ≠ "" →
      (∀ name ∈ dirs ++ [stem], '.' ∉ name.toList ∧ Raw.ofText name = name) →
      IsDotless "/p" (Path.descend "/p" (dirs ++ [stem ++ ".ion"])) :=
    fun dirs stem hnames hstem hdots =>
      ⟨dirs, stem, Compilation.isSourcePath_descend (by decide) hnames hstem,
        fun name hname => ⟨(hdots name hname).1, name, (hdots name hname).2⟩⟩
  refine (dotless_never_collide ?_ (by decide)).1
  intro file hfile
  simp only [List.mem_cons, List.not_mem_nil, or_false] at hfile
  rcases hfile with rfl | rfl | rfl
  · exact hdotless ["a"] "b" (by decide) (by decide) (by decide +kernel)
  · exact hdotless [] "ab" (by decide) (by decide) (by decide +kernel)
  · exact hdotless [] "a" (by decide) (by decide) (by decide +kernel)

/-- **Names without dots are not always kept apart**: of a byte that is in no character only a mark
is shown. -/
theorem dotless_not_always_apart :
    ¬∀ (root : String) (files : List String),
      (∀ file ∈ files, ∃ dirs stem, IsSourcePath root dirs stem file ∧
        ∀ name ∈ dirs ++ [stem], '.' ∉ name.toList) →
      (files.Pairwise fun f g => Path.same f g = false) →
      files.Pairwise fun f g => unitName root f ≠ unitName root g := by
  intro hapart
  have hsource : ∀ b : UInt8, Path.IsName (Raw.ofBytes [b] ++ ".ion") → Raw.ofBytes [b] ≠ "" →
      IsSourcePath "/p" [] (Raw.ofBytes [b])
        (Path.descend "/p" ([] ++ [Raw.ofBytes [b] ++ ".ion"])) := fun b hname hstem =>
    Compilation.isSourcePath_descend (by decide) (List.forall_mem_singleton.2 hname) hstem
  have hnames := hapart "/p"
    ["/p/" ++ Raw.ofBytes [0xFF] ++ ".ion", "/p/" ++ Raw.ofBytes [0xFE] ++ ".ion"] ?_
    (by decide +kernel)
  · exact List.rel_of_pairwise_cons hnames List.mem_cons_self (by decide +kernel)
  · intro file hfile
    simp only [List.mem_cons, List.not_mem_nil, or_false] at hfile
    rcases hfile with rfl | rfl
    · exact ⟨[], _, hsource 0xFF (by decide +kernel) (by decide +kernel), by decide +kernel⟩
    · exact ⟨[], _, hsource 0xFE (by decide +kernel) (by decide +kernel), by decide +kernel⟩

end Ingot.Workflow
