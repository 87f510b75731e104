import Ingot.Proofs.FileSystem.Paths
import Ingot.Proofs.Text.Raw

/-!
# The order of paths, and paths below one another

Paths are compared component by component, and components that differ are never equal in the
order: **the order of paths is one** (`le_trans`, `le_total`), and two paths that come before
each other have the same components (`components_eq_of_le`). What lies below a path is named by
the names behind it (`descend`), and its components are those of the path with these names at
their end (`components_descend`).
-/

namespace Ingot.Path

/-! ### The order of components -/

theorem Component.le_total (a b : Component) : (a.le b || b.le a) = true := by
  cases a with
  | name x =>
    cases b with
    | name y => exact Raw.le_total x y
    | _ => simp [Component.le, Component.rank]
  | _ => cases b <;> simp [Component.le, Component.rank]

theorem Component.le_trans {a b c : Component} (hab : a.le b = true) (hbc : b.le c = true) :
    a.le c = true := by
  cases b with
  | name y =>
    cases a with
    | name x =>
      cases c with
      | name z => exact Raw.le_trans hab hbc
      | _ => simp [Component.le, Component.rank] at hbc
    | _ => cases c <;> simp_all [Component.le, Component.rank]
  | _ => cases a <;> cases c <;> simp_all [Component.le, Component.rank]

theorem Component.eq_of_le {a b : Component} (hab : a.le b = true) (hba : b.le a = true) :
    a = b := by
  cases a with
  | name x =>
    cases b with
    | name y => exact congrArg Component.name (Raw.eq_of_le hab hba)
    | _ => simp [Component.le, Component.rank] at hab
  | _ => cases b <;> simp_all [Component.le, Component.rank]

/-! ### The order of paths -/

theorem componentsLe_total (as bs : List Component) :
    (componentsLe as bs || componentsLe bs as) = true := by
  induction as generalizing bs with
  | nil => simp [componentsLe]
  | cons a as ih =>
    cases bs with
    | nil => simp [componentsLe]
    | cons b bs =>
      by_cases h : a = b
      · simpa [componentsLe, h] using ih bs
      · simpa [componentsLe, h, Ne.symm h] using Component.le_total a b

theorem componentsLe_trans {as bs cs : List Component} (hab : componentsLe as bs = true)
    (hbc : componentsLe bs cs = true) : componentsLe as cs = true := by
  induction as generalizing bs cs with
  | nil => rfl
  | cons a as ih =>
    cases bs with
    | nil => cases hab
    | cons b bs =>
      cases cs with
      | nil => cases hbc
      | cons c cs =>
        rw [componentsLe] at hab hbc ⊢
        split at hab
        · subst a
          split
          · rename_i hbc'
            rw [if_pos hbc'] at hbc
            exact ih hab hbc
          · rename_i hbc'
            rwa [if_neg hbc'] at hbc
        · rename_i hne
          split at hbc
          · subst b
            rwa [if_neg hne]
          · split
            · subst a
              exact absurd (Component.eq_of_le hab hbc) hne
            · exact Component.le_trans hab hbc

theorem components_eq_of_componentsLe {as bs : List Component} (hab : componentsLe as bs = true)
    (hba : componentsLe bs as = true) : as = bs := by
  induction as generalizing bs with
  | nil =>
    cases bs with
    | nil => rfl
    | cons b bs => cases hba
  | cons a as ih =>
    cases bs with
    | nil => cases hab
    | cons b bs =>
      rw [componentsLe] at hab hba
      split at hab
      · subst a
        rw [if_pos rfl] at hba
        rw [ih hab hba]
      · rename_i hne
        rw [if_neg (Ne.symm hne)] at hba
        exact absurd (Component.eq_of_le hab hba) hne

theorem le_total (p q : String) : (le p q || le q p) = true := componentsLe_total _ _

theorem le_trans {p q r : String} (hpq : le p q = true) (hqr : le q r = true) : le p r = true :=
  componentsLe_trans hpq hqr

/-- **Paths that come before each other have the same components.** -/
theorem components_eq_of_le {p q : String} (hpq : le p q = true) (hqp : le q p = true) :
    components p = components q :=
  components_eq_of_componentsLe hpq hqp

/-! ### Names in a directory -/

/-- A text that can be the name of something in a directory. -/
structure IsName (name : String) : Prop extends IsLeaf name where
  ne_dot : name ≠ "."
  ne_up : name ≠ ".."

instance (name : String) : Decidable (IsName name) :=
  decidable_of_iff ((name ≠ "" ∧ '/' ∉ name.toList) ∧ name ≠ "." ∧ name ≠ "..")
    ⟨fun h => ⟨⟨h.1.1, h.1.2⟩, h.2.1, h.2.2⟩, fun h => ⟨⟨h.ne_empty, h.noSlash⟩, h.ne_dot, h.ne_up⟩⟩

theorem componentOf_isName {name : String} (h : IsName name) : componentOf name = .name name :=
  if_neg h.ne_up

theorem map_componentOf {names : List String} (h : ∀ name ∈ names, IsName name) :
    names.map componentOf = names.map .name :=
  List.map_congr_left fun name hname => componentOf_isName (h name hname)

theorem isAbsolute_append {p : String} (hp : p ≠ "") (q : String) :
    isAbsolute (p ++ q) = isAbsolute p := by
  have hne : p.toList ≠ [] := fun h => hp (String.toList_inj.1 h)
  rw [isAbsolute, isAbsolute, String.toList_append, List.head?_append_of_ne_nil _ hne]

/-- A name put behind a path is put behind its text, with a slash between them if there is
none. -/
theorem join_eq {base name : String} (hbase : base ≠ "") (h : IsLeaf name) :
    ∃ a, base.toList = a ++ ['/'] ∧ join base name = base ++ name ∨
      join base name = base ++ "/" ++ name := by
  have hempty : base.isEmpty = false := by simpa [String.isEmpty_iff] using hbase
  rw [join, not_isAbsolute_of_noSlash h.noSlash, if_neg (by simp), hempty]
  by_cases hlast : base.toList.getLast? = some '/'
  · obtain ⟨a, ha⟩ := List.getLast?_eq_some_iff.1 hlast
    exact ⟨a, .inl ⟨ha, if_pos (.inr hlast)⟩⟩
  · exact ⟨[], .inr (if_neg (by simpa using hlast))⟩

theorem join_ne_empty {base name : String} (hbase : base ≠ "") (h : IsLeaf name) :
    join base name ≠ "" := by
  intro hempty
  obtain ⟨a, ⟨_, hjoin⟩ | hjoin⟩ := join_eq hbase h
  · have hboth : base = "" ∧ name = "" := by simpa [hjoin] using hempty
    exact hbase hboth.1
  · simp [hjoin] at hempty

theorem head?_pieces_append_slash (a b : List Char) :
    (pieces (a ++ '/' :: b)).head? = (pieces a).head? := by
  rw [pieces_append_slash, List.head?_append_of_ne_nil _ (pieces_ne_nil a)]

/-- **The components of a name behind a path.** -/
theorem components_join {base name : String} (hbase : base ≠ "") (h : IsName name) :
    components (join base name) = components base ++ [.name name] := by
  have habs : isAbsolute (join base name) = isAbsolute base := by
    obtain ⟨a, ⟨_, hjoin⟩ | hjoin⟩ := join_eq hbase h.toIsLeaf
    · rw [hjoin, isAbsolute_append hbase]
    · rw [hjoin, String.append_assoc, isAbsolute_append hbase]
  have hfirst : (pieces (join base name).toList).head? = (pieces base.toList).head? := by
    obtain ⟨a, ⟨ha, hjoin⟩ | hjoin⟩ := join_eq hbase h.toIsLeaf
    · rw [hjoin, String.toList_append, ha, List.append_assoc]
      exact (head?_pieces_append_slash _ _).trans (head?_pieces_append_slash _ _).symm
    · rw [hjoin, String.append_assoc, String.toList_append, String.toList_append]
      exact head?_pieces_append_slash _ _
  have hinner : ((segments (join base name)).filter (· != ".")).map componentOf =
      ((segments base).filter (· != ".")).map componentOf ++ [.name name] := by
    rw [segments_join hbase h.toIsLeaf, List.filter_append, List.map_append]
    simp [h.ne_dot, componentOf_isName h]
  simp only [components, habs, hfirst, hinner]
  split
  · rfl
  · split
    · rfl
    · rfl

/-! ### Below a path -/

/-- The path that names lead to from a path. -/
def descend (p : String) (names : List String) : String := names.foldl join p

theorem descend_cons (p name : String) (names : List String) :
    descend p (name :: names) = descend (join p name) names := rfl

theorem components_descend {p : String} {names : List String} (hp : p ≠ "")
    (h : ∀ name ∈ names, IsName name) :
    components (descend p names) = components p ++ names.map .name := by
  induction names generalizing p with
  | nil => simp [descend]
  | cons name names ih =>
    obtain ⟨hname, hnames⟩ := List.forall_mem_cons.1 h
    rw [descend_cons, ih (join_ne_empty hp hname.toIsLeaf) hnames, components_join hp hname]
    simp

/-- What lies below a path has the file name that the names behind that path say. -/
theorem fileName?_descend {p p' : String} (hp : p ≠ "") (hp' : p' ≠ "") {names : List String}
    (hne : names ≠ []) (h : ∀ name ∈ names, IsName name) :
    fileName? (descend p' names) = fileName? (descend p names) := by
  have hsome : names.map Component.name ≠ [] := by simpa using hne
  unfold fileName?
  rw [components_descend hp' h, components_descend hp h, List.getLast?_append_of_ne_nil _ hsome,
    List.getLast?_append_of_ne_nil _ hsome]

/-- Other names lead to another path. -/
theorem descend_injective {p : String} {names names' : List String} (hp : p ≠ "")
    (hnames : ∀ name ∈ names, IsName name) (hnames' : ∀ name ∈ names', IsName name)
    (h : descend p names = descend p names') : names = names' := by
  have hcomponents := congrArg components h
  rw [components_descend hp hnames, components_descend hp hnames'] at hcomponents
  exact List.map_injective_iff.2 (fun _ _ heq => Component.name.inj heq)
    (List.append_cancel_left hcomponents)

theorem componentsLe_append (cs as bs : List Component) :
    componentsLe (cs ++ as) (cs ++ bs) = componentsLe as bs := by
  induction cs with
  | nil => rfl
  | cons c cs ih => rw [List.cons_append, List.cons_append, componentsLe, if_pos rfl, ih]

/-- Paths below one path come in the order of the names behind it. -/
theorem le_descend {p : String} {names names' : List String} (hp : p ≠ "")
    (h : ∀ name ∈ names, IsName name) (h' : ∀ name ∈ names', IsName name) :
    le (descend p names) (descend p names') =
      componentsLe (names.map .name) (names'.map .name) := by
  rw [le, components_descend hp h, components_descend hp h', componentsLe_append]

theorem below?_append (base cs : List Component) : below? base (base ++ cs) = some cs := by
  induction base with
  | nil => rfl
  | cons c base ih => rw [List.cons_append, below?, if_pos rfl, ih]

/-- What lies below a path is told by the names behind it. -/
theorem componentsBelow_descend {p : String} {names : List String} (hp : p ≠ "")
    (h : ∀ name ∈ names, IsName name) :
    componentsBelow p (descend p names) = names.map .name := by
  rw [componentsBelow, components_descend hp h, below?_append]
  rfl

end Ingot.Path
