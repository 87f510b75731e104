import Ingot.Proofs.FileSystem.Relocation
import Ingot.Proofs.Sources.Scanning

/-!
# Scans of the same tree

Where two file systems hold the same tree, a name leads to a source below the one location if it
does below the other (`isSourceBelow_alike`): nothing that is asked of a source looks at the names
above that location. So **both scans find the same sources in the same order** (`scan_alike`), and
a pattern that is none for the one is none for the other.
-/

namespace Ingot.Path

/-- Whether two paths below a location are the same is told by what lies behind the location. -/
theorem same_descend {l l' : Location} (hl : ∀ name ∈ l, IsName name)
    (hl' : ∀ name ∈ l', IsName name) {names steps : List String}
    (hnames : ∀ name ∈ names, IsName name) (hsteps : ∀ s ∈ steps, isAbsolute s = false) :
    same (descend l'.path names) (descend l'.path steps) =
      same (descend l.path names) (descend l.path steps) := by
  have hsame : ∀ k : Location, (∀ name ∈ k, IsName name) →
      (same (descend k.path names) (descend k.path steps) = true ↔
        names.map componentOf = (wayOfSteps steps).map componentOf) := by
    intro k hk
    have habs : isAbsolute (descend k.path steps) = true := isAbsolute_descend (isAbsolute_path k)
    have hall : ∀ name ∈ k ++ names, IsName name := fun name hname =>
      (List.mem_append.1 hname).elim (hk name) (hnames name)
    rw [same, beq_iff_eq, components_descend_path hk hnames, components_of_isAbsolute habs,
      way_descend_path hk hsteps, ← map_componentOf hall, List.map_append, List.map_append,
      List.cons.injEq, List.append_cancel_left_eq]
    exact and_iff_right rfl
  rw [Bool.eq_iff_iff, hsame l hl, hsame l' hl']

end Ingot.Path

namespace Ingot.Sources

open FileSystem (IsProper SameTree)

variable {l l' : Location} {fs fs' : FileSystem}

/-- Patterns are read alike for two directories. -/
theorem readPatterns_alike (root root' : String) (patterns : List String) :
    Alike (fun fault fault' => ∃ pattern cause, fault = .badPattern root pattern cause ∧
        fault' = .badPattern root' pattern cause) Eq
      (readPatterns root patterns) (readPatterns root' patterns) := by
  unfold readPatterns
  induction patterns with
  | nil => exact .ok rfl
  | cons text patterns ih =>
    rw [List.mapM_cons, List.mapM_cons]
    cases Glob.Pattern.parse text with
    | error cause => exact .error ⟨text, cause, rfl, rfl⟩
    | ok pattern =>
      obtain ⟨fault, fault', he, he', hfault⟩ | ⟨more, _, hok, hok', rfl⟩ := ih.eq_or_eq
      · rw [he, he']
        exact .error hfault
      · rw [hok, hok']
        exact .ok rfl

/-- The sources below a location that lie below some names, and not in a directory to which steps
lead. -/
def scopeAt (l : Location) (sources steps : List String) (excluded : List Glob.Pattern) : Scope :=
  ⟨Path.descend l.path sources, some (Path.descend l.path steps), excluded⟩

/-- **The same is a source in both places.** -/
theorem isSourceBelow_alike (h : SameTree l l' fs fs') (hfs : fs.IsProper) (hfs' : fs'.IsProper)
    {sources steps names : List String} (hsources : ∀ name ∈ sources, Path.IsName name)
    (hsteps : ∀ s ∈ steps, Path.isAbsolute s = false) {excluded : List Glob.Pattern} :
    (scopeAt l' sources steps excluded).IsSourceBelow fs' (l' ++ sources) names ↔
      (scopeAt l sources steps excluded).IsSourceBelow fs (l ++ sources) names := by
  rw [Scope.isSourceBelow_iff_node? hfs'.isTree h.noLinks',
    Scope.isSourceBelow_iff_node? hfs.isTree h.noLinks, List.append_assoc, List.append_assoc, h.node?]
  refine and_congr_right fun ⟨hne, content, permissions, hnode⟩ => ?_
  have hnames : ∀ name ∈ names, Path.IsName name := fun name hname =>
    hfs.isName_of_node? (by rw [hnode]; exact Option.some_ne_none _) name
      (List.mem_append_right _ (List.mem_append_right _ hname))
  have hbelow : ∀ k : Location, ∀ more, Path.descend (Path.descend k.path sources) more =
      Path.descend k.path (sources ++ more) := fun k more => (Path.descend_append _ _ _).symm
  have hroot : ∀ k : Location, Path.descend k.path sources ≠ "" := fun k =>
    Path.ne_empty_of_isAbsolute (Path.isAbsolute_descend (Path.isAbsolute_path k))
  refine and_congr ?_ (and_congr ?_ Iff.rfl)
  · refine forall_congr' fun dirs => forall_congr' fun name => forall_congr' fun more =>
      forall_congr' fun heq => forall_congr' fun _ => and_congr Iff.rfl ?_
    have hdirs : ∀ n ∈ sources ++ (dirs ++ [name]), Path.IsName n := by
      intro n hn
      refine (List.mem_append.1 hn).elim (hsources n) fun hn => hnames n ?_
      rw [heq, List.append_cons]
      exact List.mem_append_left _ hn
    simp only [scopeAt, Option.mem_def, Option.some.injEq, forall_eq', hbelow,
      Path.same_descend h.isName h.isName' hdirs hsteps]
  · unfold Path.extension?
    dsimp only [scopeAt]
    rw [Path.fileName?_descend (hroot l) (hroot l') hne hnames]

/-- **Scans of the same tree find the same sources in the same order.** -/
theorem scan_alike (h : SameTree l l' fs fs') (hfs : fs.IsProper) (hfs' : fs'.IsProper)
    {sources steps : List String} (hsources : ∀ name ∈ sources, Path.IsName name)
    (hsteps : ∀ s ∈ steps, Path.isAbsolute s = false) (excluded : List Glob.Pattern)
    (hfind : fs.find true (Path.descend l.path sources) = .ok (l ++ sources, .directory))
    (hfind' : fs'.find true (Path.descend l'.path sources) = .ok (l' ++ sources, .directory)) :
    ∃ rows : List (List String),
      (scopeAt l sources steps excluded).scan fs =
          .ok (rows.map fun names => Path.descend l.path (sources ++ names)) ∧
        (scopeAt l' sources steps excluded).scan fs' =
            .ok (rows.map fun names => Path.descend l'.path (sources ++ names)) ∧
          ∀ names ∈ rows, names ≠ [] ∧ ∀ name ∈ names, Path.IsName name := by
  have hruns : (scopeAt l sources steps excluded).Runs fs (l ++ sources) :=
    Scope.runs_of_noLinks hfs h.noLinks hfind
  have hruns' : (scopeAt l' sources steps excluded).Runs fs' (l' ++ sources) :=
    Scope.runs_of_noLinks hfs' h.noLinks' hfind'
  obtain ⟨rows, hscan, hscan', hrows⟩ := hruns.scan_names hruns' fun names =>
    isSourceBelow_alike h hfs hfs' hsources hsteps
  have hbelow : ∀ k : Location, rows.map (Path.descend (Path.descend k.path sources)) =
      rows.map fun names => Path.descend k.path (sources ++ names) := fun k =>
    List.map_congr_left fun names _ => (Path.descend_append _ _ _).symm
  refine ⟨rows, hbelow l ▸ hscan, hbelow l' ▸ hscan', fun names hmem => ⟨?_, ?_⟩⟩
  · exact ((Scope.isSourceBelow_iff_node? hfs.isTree h.noLinks).1 (hrows names hmem)).1.1
  · exact hruns.isName (hrows names hmem)

end Ingot.Sources
