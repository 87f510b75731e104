import Ingot.Proofs.Code.Checks

/-!
# Programs that have code

A program has a meaning if the names of its functions differ and in each function those of the
parameters, if nothing stands behind a return statement, if each variable is a parameter or bound by
a statement before, and if calls agree in their numbers of arguments: with the function that is
called, if the program defines it, and else with each other (`Program.WellMeant`).

**The programs that are lowered are those that have a meaning, and the fault of any other program is
the first violation among its places** (`lower_exact`).
-/

namespace Ingot.Source

/-! ### Meaning -/

/-- What is used in a program. -/
def Program.uses (program : Program) : List Use :=
  program.functions.flatMap fun f => f.body.flatMap fun s => s.expression.uses

/-- A program that has a meaning. -/
structure Program.WellMeant (program : Program) : Prop where
  functions : (program.functions.map Function.name).Nodup
  parameters : ∀ f ∈ program.functions, (f.parameters.map Parameter.name).Nodup
  results : ∀ f ∈ program.functions, ∀ before s behind, f.body = before ++ s :: behind →
    s.isResult = true → behind = []
  bound : ∀ f ∈ program.functions, ∀ before s behind, f.body = before ++ s :: behind →
    ∀ name p, .var name p ∈ s.expression.uses → name ∈ boundNames f.parameters before
  defined : ∀ f ∈ program.functions, ∀ supplied p, .call f.name supplied p ∈ program.uses →
    supplied = f.arity
  undefined : ∀ function, function ∉ program.functions.map Function.name →
    ∀ supplied p supplied' p', .call function supplied p ∈ program.uses →
      .call function supplied' p' ∈ program.uses → supplied = supplied'

/-- The call at a place: the function and the number of arguments. -/
def Place.call? : Place → Option (String × Nat)
  | use _ _ (.call name supplied _) => some (name, supplied)
  | _ => none

theorem Place.call?_eq_some {place : Place} {function : String} {supplied : Nat} :
    place.call? = some (function, supplied) ↔
      ∃ parameters earlier p, place = .use parameters earlier (.call function supplied p) := by
  constructor
  · intro h
    match place with
    | .use parameters earlier (.call _ _ p) =>
      cases h
      exact ⟨parameters, earlier, p, rfl⟩
  · rintro ⟨parameters, earlier, p, rfl⟩
    rfl

/-- What is wrong at a place of a program, with the places before it. -/
inductive Violates (program : Program) (before : List Place) : Place → Fault → Prop where
  /-- A function before this one has its name. -/
  | function {earlier : List Function} {f : Function} : f.name ∈ earlier.map Function.name →
      Violates program before (.function earlier f) (.meaning f.position (.repeatedFunction f.name))
  /-- A parameter before this one has its name. -/
  | parameter {earlier : List Parameter} {x : Parameter} : x.name ∈ earlier.map Parameter.name →
      Violates program before (.parameter earlier x)
        (.meaning x.position (.repeatedParameter x.name))
  /-- A statement before this one returns. -/
  | statement {earlier : List Statement} {s t : Statement} : t ∈ earlier → t.isResult = true →
      Violates program before (.statement earlier s) (.meaning s.position .unreachable)
  /-- The variable is neither a parameter nor bound by a statement before. -/
  | unbound {parameters : List Parameter} {earlier : List Statement} {name : String}
      {p : Position} : name ∉ boundNames parameters earlier →
      Violates program before (.use parameters earlier (.var name p))
        (.meaning p (.unboundName name))
  /-- The function that is called has another number of parameters. -/
  | defined {parameters : List Parameter} {earlier : List Statement} {f : Function}
      {supplied : Nat} {p : Position} : f ∈ program.functions → f.arity ≠ supplied →
      Violates program before (.use parameters earlier (.call f.name supplied p))
        (.meaning p (.wrongArity f.name f.arity supplied))
  /-- The function that is called is not defined, and its first call has another number of
  arguments. -/
  | undefined {parameters : List Parameter} {earlier : List Statement} {function : String}
      {expected supplied : Nat} {p : Position} :
      function ∉ program.functions.map Function.name →
      (before.filterMap Place.call?).lookup function = some expected → expected ≠ supplied →
      Violates program before (.use parameters earlier (.call function supplied p))
        (.meaning p (.wrongArity function expected supplied))

/-- What is wrong at the first place at which something is, among places that stand behind
others. -/
inductive IsFirstViolation (program : Program) : List Place → List Place → Fault → Prop where
  /-- Something is wrong at this place. -/
  | here {before behind : List Place} {place : Place} {fault : Fault} :
      Violates program before place fault → IsFirstViolation program before (place :: behind) fault
  /-- Nothing is wrong at this place, but behind it. -/
  | later {before behind : List Place} {place : Place} {fault : Fault} :
      (∀ fault, ¬ Violates program before place fault) →
      IsFirstViolation program (before ++ [place]) behind fault →
      IsFirstViolation program before (place :: behind) fault

section Violations

variable {program : Program} {before : List Place}

theorem isFirstViolation_cons {place : Place} {behind : List Place} {fault : Fault} :
    IsFirstViolation program before (place :: behind) fault ↔
      Violates program before place fault ∨ ((∀ fault, ¬ Violates program before place fault) ∧
        IsFirstViolation program (before ++ [place]) behind fault) := by
  constructor
  · intro h
    cases h with
    | here h => exact .inl h
    | later hnone h => exact .inr ⟨hnone, h⟩
  · rintro (h | ⟨hnone, h⟩)
    · exact .here h
    · exact .later hnone h

theorem not_isFirstViolation_nil {fault : Fault} :
    ¬ IsFirstViolation program before [] fault := nofun

theorem isFirstViolation_singleton {place : Place} {fault : Fault} :
    IsFirstViolation program before [place] fault ↔ Violates program before place fault := by
  rw [isFirstViolation_cons]
  exact or_iff_left fun h => not_isFirstViolation_nil h.2

theorem isFirstViolation_append {ps qs : List Place} {fault : Fault} :
    IsFirstViolation program before (ps ++ qs) fault ↔
      IsFirstViolation program before ps fault ∨
        ((∀ fault, ¬ IsFirstViolation program before ps fault) ∧
          IsFirstViolation program (before ++ ps) qs fault) := by
  induction ps generalizing before fault with
  | nil =>
    rw [List.nil_append, List.append_nil]
    constructor
    · intro h
      exact .inr ⟨fun _ => not_isFirstViolation_nil, h⟩
    · rintro (h | ⟨-, h⟩)
      · exact absurd h not_isFirstViolation_nil
      · exact h
  | cons place ps ih =>
    simp only [List.cons_append, List.nil_append, isFirstViolation_cons, ih, List.append_assoc]
    constructor
    · rintro (h | ⟨hnone, h | ⟨hclear, h⟩⟩)
      · exact .inl (.inl h)
      · exact .inl (.inr ⟨hnone, h⟩)
      · refine .inr ⟨?_, h⟩
        rintro fault' (h' | ⟨-, h'⟩)
        · exact hnone _ h'
        · exact hclear _ h'
    · rintro ((h | ⟨hnone, h⟩) | ⟨hclear, h⟩)
      · exact .inl h
      · exact .inr ⟨hnone, .inl h⟩
      · have hnone : ∀ fault, ¬ Violates program before place fault :=
          fun fault' h' => hclear fault' (.inl h')
        exact .inr ⟨hnone, .inr ⟨fun fault' h' => hclear fault' (.inr ⟨hnone, h'⟩), h⟩⟩

/-- There is no first violation just if nothing is wrong at any place. -/
theorem no_firstViolation_iff {ps : List Place} :
    (∀ fault, ¬ IsFirstViolation program before ps fault) ↔
      ∀ front place behind, ps = front ++ place :: behind →
        ∀ fault, ¬ Violates program (before ++ front) place fault := by
  induction ps generalizing before with
  | nil => simp [not_isFirstViolation_nil]
  | cons place ps ih =>
    constructor
    · intro hclear front place' behind heq
      have hnone : ∀ fault, ¬ Violates program before place fault :=
        fun fault h => hclear fault (.here h)
      cases front with
      | nil =>
        obtain ⟨rfl, rfl⟩ := List.cons.inj heq
        rw [List.append_nil]
        exact hnone
      | cons t front =>
        obtain ⟨rfl, rfl⟩ := List.cons.inj heq
        have hbehind := ih.1 (fun fault h => hclear fault (.later hnone h)) front place' behind rfl
        rwa [List.append_assoc, List.singleton_append] at hbehind
    · intro hnone fault h
      cases h with
      | here h =>
        refine hnone [] place ps rfl fault ?_
        rwa [List.append_nil]
      | later _ h =>
        refine ih.2 (fun front place' behind heq => ?_) fault h
        have hbehind := hnone (place :: front) place' behind (congrArg _ heq)
        rwa [List.append_assoc, List.singleton_append]

end Violations

/-! ### Meaning and violations -/

/-- Different names are those of elements none of which has the name of one before it. -/
theorem nodup_map_iff_splits {α : Type} {name : α → String} {xs : List α} :
    (xs.map name).Nodup ↔
      ∀ earlier x behind, xs = earlier ++ x :: behind → name x ∉ earlier.map name := by
  constructor
  · rintro hnodup earlier x behind rfl hmem
    rw [List.map_append, List.map_cons] at hnodup
    exact (List.nodup_append.1 hnodup).2.2 _ hmem _ List.mem_cons_self rfl
  · intro hsplits
    induction xs using List.reverseRecOn with
    | nil => exact List.nodup_nil
    | append_singleton xs last ih =>
      rw [List.map_append, List.map_singleton, List.nodup_append]
      refine ⟨ih fun earlier x behind heq => ?_, List.nodup_singleton _, ?_⟩
      · refine hsplits earlier x (behind ++ [last]) ?_
        rw [heq, List.append_assoc, List.cons_append]
      · rintro _ hmem _ hlast rfl
        exact hsplits xs last [] rfl (List.mem_singleton.1 hlast ▸ hmem)

/-- What is used in a program has its place. -/
theorem mem_uses {program : Program} {use : Use} : use ∈ program.uses ↔
    ∃ parameters earlier, Place.use parameters earlier use ∈ program.places := by
  simp only [Program.uses, List.mem_flatMap, use_mem_places]
  constructor
  · rintro ⟨f, hf, s, hs, huse⟩
    obtain ⟨earlier, behind, heq⟩ := List.append_of_mem hs
    exact ⟨f.parameters, earlier, f, hf, s, ⟨behind, heq⟩, huse, rfl⟩
  · rintro ⟨parameters, earlier, f, hf, s, ⟨behind, heq⟩, huse, -⟩
    exact ⟨f, hf, s, heq ▸ List.mem_append_right _ List.mem_cons_self, huse⟩

/-- Where a program has a meaning, nothing is wrong at its places. -/
theorem Program.WellMeant.not_violates {program : Program} (h : program.WellMeant)
    {front behind : List Place} {place : Place} (hsplit : program.places = front ++ place :: behind)
    (fault : Fault) : ¬ Violates program front place fault := by
  intro hviolates
  have hplace : place ∈ program.places := hsplit ▸ List.mem_append_right _ List.mem_cons_self
  cases hviolates with
  | function hmem =>
    obtain ⟨rest, heq⟩ := function_mem_places.1 hplace
    exact nodup_map_iff_splits.1 h.functions _ _ rest heq hmem
  | parameter hmem =>
    obtain ⟨f, hf, rest, heq⟩ := parameter_mem_places.1 hplace
    exact nodup_map_iff_splits.1 (h.parameters f hf) _ _ rest heq hmem
  | @statement earlier s t ht hresult =>
    obtain ⟨f, hf, rest, heq⟩ := statement_mem_places.1 hplace
    obtain ⟨before, between, rfl⟩ := List.append_of_mem ht
    have hnil := h.results f hf before t (between ++ s :: rest) (by simpa using heq) hresult
    simp at hnil
  | unbound hfree =>
    obtain ⟨f, hf, s, ⟨rest, heq⟩, huse, rfl⟩ := use_mem_places.1 hplace
    exact hfree (h.bound f hf _ s rest heq _ _ huse)
  | defined hf hne => exact hne (h.defined _ hf _ _ (mem_uses.2 ⟨_, _, hplace⟩)).symm
  | @undefined _ _ function expected supplied p hundefined hfirst hne =>
    obtain ⟨first, hbefore, hcall⟩ := List.mem_filterMap.1 (mem_of_lookup hfirst)
    obtain ⟨_, _, p', rfl⟩ := Place.call?_eq_some.1 hcall
    have hplace' := hsplit ▸ List.mem_append_left _ hbefore
    exact hne (h.undefined function hundefined _ p' _ p (mem_uses.2 ⟨_, _, hplace'⟩)
      (mem_uses.2 ⟨_, _, hplace⟩))

/-- Where nothing is wrong, a call of a function that is not defined has the number of arguments of
the first call. -/
theorem lookup_call_of_clear {program : Program}
    (hclear : ∀ front place behind, program.places = front ++ place :: behind →
      ∀ fault, ¬ Violates program front place fault)
    {function : String} (hundefined : function ∉ program.functions.map Function.name)
    {supplied : ℕ} {p : Position} (huse : .call function supplied p ∈ program.uses) :
    (program.places.filterMap Place.call?).lookup function = some supplied := by
  obtain ⟨parameters, earlier, hplace⟩ := mem_uses.1 huse
  obtain ⟨front, behind, hsplit⟩ := List.append_of_mem hplace
  rw [hsplit, List.filterMap_append, List.lookup_append]
  cases hfirst : (front.filterMap Place.call?).lookup function with
  | none =>
    show List.lookup function ((function, supplied) :: behind.filterMap Place.call?) = _
    rw [List.lookup_cons, beq_self_eq_true]
  | some expected =>
    rw [Option.some_or]
    by_contra hne
    refine hclear front _ behind hsplit _ (.undefined hundefined hfirst fun heq => hne ?_)
    rw [heq]

/-- A program at whose places nothing is wrong has a meaning. -/
theorem wellMeant_of_clear {program : Program}
    (hclear : ∀ front place behind, program.places = front ++ place :: behind →
      ∀ fault, ¬ Violates program front place fault) : program.WellMeant := by
  have hplace : ∀ place ∈ program.places, ∃ front,
      ∀ fault, ¬ Violates program front place fault := by
    intro place hmem
    obtain ⟨front, behind, hsplit⟩ := List.append_of_mem hmem
    exact ⟨front, hclear front place behind hsplit⟩
  constructor
  case functions =>
    rw [nodup_map_iff_splits]
    intro earlier f behind heq hmem
    obtain ⟨front, hnone⟩ := hplace _ (function_mem_places.2 ⟨behind, heq⟩)
    exact hnone _ (.function hmem)
  case parameters =>
    intro f hf
    rw [nodup_map_iff_splits]
    intro earlier x behind heq hmem
    obtain ⟨front, hnone⟩ := hplace _ (parameter_mem_places.2 ⟨f, hf, behind, heq⟩)
    exact hnone _ (.parameter hmem)
  case results =>
    intro f hf before s behind heq hresult
    cases behind with
    | nil => rfl
    | cons t behind =>
      rw [List.append_cons] at heq
      obtain ⟨front, hnone⟩ := hplace _ (statement_mem_places.2 ⟨f, hf, behind, heq⟩)
      exact absurd (.statement (by simp) hresult) (hnone _)
  case bound =>
    intro f hf before s behind heq name p huse
    obtain ⟨front, hnone⟩ := hplace _ (use_mem_places.2 ⟨f, hf, s, ⟨behind, heq⟩, huse, rfl⟩)
    by_contra hfree
    exact hnone _ (.unbound hfree)
  case defined =>
    intro f hf supplied p huse
    obtain ⟨parameters, earlier, hmem⟩ := mem_uses.1 huse
    obtain ⟨front, hnone⟩ := hplace _ hmem
    by_contra hne
    exact hnone _ (.defined hf (Ne.symm hne))
  case undefined =>
    intro function hundefined supplied p supplied' p' huse huse'
    have hfirst := lookup_call_of_clear hclear hundefined huse
    rw [lookup_call_of_clear hclear hundefined huse'] at hfirst
    exact (Option.some.inj hfirst).symm

/-- A program has a meaning just if nothing is wrong at any of its places. -/
theorem wellMeant_iff {program : Program} : program.WellMeant ↔
    ∀ fault, ¬ IsFirstViolation program [] program.places fault := by
  rw [no_firstViolation_iff]
  constructor
  · intro hmeant front place behind hsplit fault
    exact hmeant.not_violates hsplit fault
  · exact wellMeant_of_clear

end Ingot.Source

namespace Ingot.Code

open Source

/-! ### Checks and violations -/

/-- The functions that were declared are those of the calls at some places that the program does
not define, each with its first number of arguments. -/
def Declares (program : Program) (before : List Place) (declared : Arities) : Prop :=
  ∀ function, function ∉ program.functions.map Function.name →
    declared.lookup function = (before.filterMap Place.call?).lookup function

/-- What checks at some places come to: nothing is wrong there, or they end with the fault of the
first violation. -/
def Settles (program : Program) (before ps : List Place) : Except Fault Arities → Prop
  | .ok declared => (∀ fault, ¬ IsFirstViolation program before ps fault) ∧
      Declares program (before ++ ps) declared
  | .error fault => ∀ fault', IsFirstViolation program before ps fault' ↔ fault' = fault

section Settling

variable {program : Program} {before : List Place} {declared : Arities}

theorem map_fst_arities (program : Program) :
    (arities program).map Prod.fst = (program.functions.map Function.name).reverse := by
  rw [arities, List.map_reverse, List.map_map]
  rfl

theorem lookup_arities_eq_none {function : String}
    (h : function ∉ program.functions.map Function.name) :
    (arities program).lookup function = none := by
  rw [List.lookup_eq_none_iff]
  intro entry hentry
  obtain ⟨f, hf, rfl⟩ := List.mem_map.1 (List.mem_reverse.1 hentry)
  rw [bne_iff_ne]
  rintro rfl
  exact h (List.mem_map_of_mem hf)

theorem lookup_arities {f : Function} (hnames : (program.functions.map Function.name).Nodup)
    (hf : f ∈ program.functions) : (arities program).lookup f.name = some f.arity := by
  have hkeys : ((arities program).map Prod.fst).Nodup := by
    rw [map_fst_arities, List.nodup_reverse]
    exact hnames
  rw [lookup_eq_some_iff_mem hkeys, arities, List.mem_reverse]
  exact List.mem_map_of_mem hf

/-- A call of a function at this point is expected to have a number of arguments. -/
def Expects (program : Program) (before : List Place) (function : String) (expected : ℕ) : Prop :=
  (∃ f ∈ program.functions, f.name = function ∧ f.arity = expected) ∨
    (function ∉ program.functions.map Function.name ∧
      (before.filterMap Place.call?).lookup function = some expected)

theorem violates_call_iff {parameters : List Parameter} {earlier : List Statement}
    {function : String} {supplied : ℕ} {p : Position} {fault : Fault} :
    Violates program before (.use parameters earlier (.call function supplied p)) fault ↔
      ∃ expected, Expects program before function expected ∧ expected ≠ supplied ∧
        fault = .meaning p (.wrongArity function expected supplied) := by
  constructor
  · intro h
    cases h with
    | defined hf hne => exact ⟨_, .inl ⟨_, hf, rfl, rfl⟩, hne, rfl⟩
    | undefined hundefined hfirst hne => exact ⟨_, .inr ⟨hundefined, hfirst⟩, hne, rfl⟩
  · rintro ⟨expected, ⟨f, hf, rfl, rfl⟩ | ⟨hundefined, hfirst⟩, hne, rfl⟩
    · exact .defined hf hne
    · exact .undefined hundefined hfirst hne

/-- What is expected of a call is in the table of the functions that are defined or declared. -/
theorem expects_iff {function : String} {expected : ℕ}
    (hnames : (program.functions.map Function.name).Nodup)
    (hdeclared : Declares program before declared) :
    Expects program before function expected ↔
      (arities program ++ declared).lookup function = some expected := by
  rw [List.lookup_append, Expects]
  by_cases hdefined : function ∈ program.functions.map Function.name
  · obtain ⟨f, hf, rfl⟩ := List.mem_map.1 hdefined
    rw [lookup_arities hnames hf, Option.some_or]
    constructor
    · rintro (⟨g, hg, hname, rfl⟩ | ⟨hundefined, -⟩)
      · rw [← lookup_arities hnames hf, ← hname, lookup_arities hnames hg]
      · exact absurd hdefined hundefined
    · intro h
      exact .inl ⟨f, hf, rfl, Option.some.inj h⟩
  · rw [lookup_arities_eq_none hdefined, Option.none_or, hdeclared function hdefined]
    constructor
    · rintro (⟨g, hg, rfl, -⟩ | ⟨-, hfirst⟩)
      · exact absurd (List.mem_map_of_mem hg) hdefined
      · exact hfirst
    · intro hfirst
      exact .inr ⟨hdefined, hfirst⟩

theorem Declares.other (h : Declares program before declared) {place : Place}
    (hplace : place.call? = none) : Declares program (before ++ [place]) declared := by
  intro function hfunction
  rw [List.filterMap_append, List.filterMap_cons_none hplace, List.filterMap_nil, List.append_nil]
  exact h function hfunction

/-- A call of a function that is defined, or was called before, declares nothing. -/
theorem Declares.known (h : Declares program before declared) {parameters : List Parameter}
    {earlier : List Statement} {function : String} {supplied : ℕ} {p : Position}
    (hknown : function ∈ program.functions.map Function.name ∨
      (declared.lookup function).isSome) :
    Declares program (before ++ [.use parameters earlier (.call function supplied p)])
      declared := by
  intro name hname
  rw [List.filterMap_append, List.lookup_append, ← h name hname]
  show _ = (declared.lookup name).or (List.lookup name [(function, supplied)])
  by_cases heq : name = function
  · subst heq
    obtain ⟨expected, hexpected⟩ := Option.isSome_iff_exists.1 (hknown.resolve_left hname)
    rw [hexpected, Option.some_or]
  · rw [List.lookup_cons, beq_false_of_ne heq]
    simp

/-- The first call of a function that is not defined declares it. -/
theorem Declares.first (h : Declares program before declared) {parameters : List Parameter}
    {earlier : List Statement} {function : String} {supplied : ℕ} {p : Position} :
    Declares program (before ++ [.use parameters earlier (.call function supplied p)])
      (declared ++ [(function, supplied)]) := by
  intro name hname
  rw [List.filterMap_append, List.lookup_append, List.lookup_append, ← h name hname]
  rfl

theorem settles_ok {place : Place} (hnone : ∀ fault, ¬ Violates program before place fault)
    (hdeclared : Declares program (before ++ [place]) declared) :
    Settles program before [place] (.ok declared) :=
  ⟨fun fault h => hnone fault (isFirstViolation_singleton.1 h), hdeclared⟩

theorem settles_error {place : Place} {fault : Fault} (h : Violates program before place fault)
    (hunique : ∀ fault', Violates program before place fault' → fault' = fault) :
    Settles program before [place] (.error fault) := by
  intro fault'
  rw [isFirstViolation_singleton]
  constructor
  · exact hunique fault'
  · rintro rfl
    exact h

/-- The check of a call comes to what is wrong with it: it has as many arguments as what it calls
expects, where that is known, and says what it expects, where it is not. -/
theorem checkCall_settles (parameters : List Parameter) (earlier : List Statement) (function : String)
    (supplied : ℕ) (p : Position) (hnames : (program.functions.map Function.name).Nodup)
    (hdeclared : Declares program before declared) :
    Settles program before [.use parameters earlier (.call function supplied p)]
      (check (arities program) declared (.use parameters earlier (.call function supplied p))) := by
  have hexpects : ∀ expected, Expects program before function expected ↔
      (arities program ++ declared).lookup function = some expected :=
    fun _ => expects_iff hnames hdeclared
  rw [check]
  cases hlookup : (arities program ++ declared).lookup function with
  | none =>
    refine settles_ok (fun fault h => ?_) hdeclared.first
    obtain ⟨expected, hexpected, -⟩ := violates_call_iff.1 h
    rw [hexpects, hlookup] at hexpected
    cases hexpected
  | some expected =>
    have hexpected := (hexpects expected).2 hlookup
    have honly : ∀ fault, Violates program before
        (.use parameters earlier (.call function supplied p)) fault →
        expected ≠ supplied ∧ fault = .meaning p (.wrongArity function expected supplied) := by
      intro fault h
      obtain ⟨expected', hexpected', hne, rfl⟩ := violates_call_iff.1 h
      rw [hexpects, hlookup] at hexpected'
      cases hexpected'
      exact ⟨hne, rfl⟩
    by_cases harity : expected = supplied
    · simp only [if_pos harity]
      refine settles_ok (fun fault h => (honly fault h).1 harity) (hdeclared.known ?_)
      rw [or_iff_not_imp_left]
      intro hundefined
      rw [List.lookup_append, lookup_arities_eq_none hundefined, Option.none_or] at hlookup
      rw [hlookup]
      rfl
    · simp only [if_neg harity]
      refine settles_error (violates_call_iff.2 ⟨expected, hexpected, harity, rfl⟩) ?_
      exact fun fault h => (honly fault h).2

/-- The check at a place comes to what is wrong there. -/
theorem check_settles (place : Place)
    (hnames : place.call?.isSome → (program.functions.map Function.name).Nodup)
    (hdeclared : Declares program before declared) :
    Settles program before [place] (check (arities program) declared place) := by
  match place with
  | .function earlier f =>
    rw [check]
    by_cases hmem : f.name ∈ earlier.map Function.name
    · rw [if_pos hmem]
      exact settles_error (.function hmem) fun _ h => by cases h; rfl
    · rw [if_neg hmem]
      exact settles_ok (fun _ h => by cases h; contradiction) (hdeclared.other rfl)
  | .parameter earlier x =>
    rw [check]
    by_cases hmem : x.name ∈ earlier.map Parameter.name
    · rw [if_pos hmem]
      exact settles_error (.parameter hmem) fun _ h => by cases h; rfl
    · rw [if_neg hmem]
      exact settles_ok (fun _ h => by cases h; contradiction) (hdeclared.other rfl)
  | .statement earlier s =>
    rw [check]
    by_cases hany : earlier.any Statement.isResult
    · rw [if_pos hany]
      obtain ⟨t, ht, hresult⟩ := List.any_eq_true.1 hany
      exact settles_error (.statement ht hresult) fun _ h => by cases h; rfl
    · rw [if_neg hany]
      refine settles_ok (fun _ h => ?_) (hdeclared.other rfl)
      cases h with
      | statement ht hresult => exact hany (List.any_eq_true.2 ⟨_, ht, hresult⟩)
  | .use parameters earlier (.var name p) =>
    rw [check]
    by_cases hmem : name ∈ boundNames parameters earlier
    · rw [if_pos hmem]
      exact settles_ok (fun _ h => by cases h; contradiction) (hdeclared.other rfl)
    · rw [if_neg hmem]
      exact settles_error (.unbound hmem) fun _ h => by cases h; rfl
  | .use parameters earlier (.call function supplied p) =>
    exact checkCall_settles parameters earlier function supplied p (hnames rfl) hdeclared

/-- Checks go on behind checks. -/
theorem Settles.append {ps qs : List Place}
    (hps : Settles program before ps (checks (arities program) declared ps))
    (hqs : ∀ declared', (∀ fault, ¬ IsFirstViolation program before ps fault) →
      Declares program (before ++ ps) declared' →
      Settles program (before ++ ps) qs (checks (arities program) declared' qs)) :
    Settles program before (ps ++ qs) (checks (arities program) declared (ps ++ qs)) := by
  rw [checks_append]
  cases hchecks : checks (arities program) declared ps with
  | error fault =>
    rw [hchecks] at hps
    intro fault'
    rw [isFirstViolation_append, ← hps fault']
    exact or_iff_left fun h => h.1 fault ((hps fault).2 rfl)
  | ok declared' =>
    rw [hchecks] at hps
    obtain ⟨hclear, hdeclared⟩ := hps
    have hbehind := hqs declared' hclear hdeclared
    show Settles program before (ps ++ qs) (checks (arities program) declared' qs)
    have hfirst : ∀ fault, IsFirstViolation program before (ps ++ qs) fault ↔
        IsFirstViolation program (before ++ ps) qs fault := by
      intro fault
      rw [isFirstViolation_append, or_iff_right (hclear fault)]
      exact and_iff_right hclear
    cases hrest : checks (arities program) declared' qs with
    | error fault =>
      rw [hrest] at hbehind
      exact fun fault' => (hfirst fault').trans (hbehind fault')
    | ok declared'' =>
      rw [hrest] at hbehind
      refine ⟨fun fault h => hbehind.1 fault ((hfirst fault).1 h), ?_⟩
      rw [← List.append_assoc]
      exact hbehind.2

/-- **Checks at places come to the first violation there.** -/
theorem checks_settle (ps : List Place)
    (hnames : ∀ place ∈ ps, place.call?.isSome → (program.functions.map Function.name).Nodup)
    (hdeclared : Declares program before declared) :
    Settles program before ps (checks (arities program) declared ps) := by
  induction ps generalizing before declared with
  | nil =>
    refine ⟨fun fault => not_isFirstViolation_nil, ?_⟩
    rw [List.append_nil]
    exact hdeclared
  | cons place ps ih =>
    obtain ⟨hplace, hps⟩ := List.forall_mem_cons.1 hnames
    have hfirst : Settles program before [place] (checks (arities program) declared [place]) := by
      rw [checks_singleton]
      exact check_settles place hplace hdeclared
    exact hfirst.append fun declared' _ hdeclared' => ih hps hdeclared'

end Settling

theorem call?_of_mem_functionPlaces {functions : List Function} {place : Place}
    (h : place ∈ functionPlaces [] functions) : place.call? = none := by
  obtain ⟨earlier, f, behind, -, rfl⟩ := mem_functionPlaces.1 h
  rfl

/-- The names of functions are different if nothing is wrong at the functions themselves. -/
theorem nodup_of_clear {program : Program}
    (hclear : ∀ fault, ¬ IsFirstViolation program [] (functionPlaces [] program.functions) fault) :
    (program.functions.map Function.name).Nodup := by
  rw [nodup_map_iff_splits]
  intro earlier f behind heq hmem
  have hplace : Place.function earlier f ∈ functionPlaces [] program.functions :=
    mem_functionPlaces.2 ⟨earlier, f, behind, heq, rfl⟩
  obtain ⟨front, back, hsplit⟩ := List.append_of_mem hplace
  exact no_firstViolation_iff.1 hclear front _ back hsplit _ (.function hmem)

/-- **The checks at the places of a program come to its first violation.** -/
theorem program_settles (program : Program) :
    Settles program [] program.places (checks (arities program) [] program.places) := by
  have hnone : Declares program [] [] := fun function _ => rfl
  have hfunctions : Settles program [] (functionPlaces [] program.functions)
      (checks (arities program) [] (functionPlaces [] program.functions)) := by
    refine checks_settle _ (fun place hplace hcall => ?_) hnone
    rw [call?_of_mem_functionPlaces hplace] at hcall
    cases hcall
  exact hfunctions.append fun declared' hclear hdeclared =>
    checks_settle _ (fun _ _ _ => nodup_of_clear hclear) hdeclared

/-- Lowering a program fails with the fault of its first violation. -/
theorem lower_eq_error_iff (name sourceName : String) (program : Program) (fault : Fault) :
    lower name sourceName program = .error fault ↔
      IsFirstViolation program [] program.places fault := by
  have hlower := lower_checks name sourceName program
  have hsettles := program_settles program
  cases hchecks : checks (arities program) [] program.places with
  | error fault' =>
    rw [hchecks] at hlower hsettles
    rw [hsettles fault]
    cases hm : lower name sourceName program with
    | error fault'' =>
      rw [hm] at hlower
      cases hlower
      rw [Except.error.injEq, eq_comm]
    | ok m =>
      rw [hm] at hlower
      cases hlower
  | ok declared =>
    rw [hchecks] at hlower hsettles
    refine iff_of_false (fun hm => ?_) (hsettles.1 fault)
    rw [hm] at hlower
    cases hlower

/-- The programs that are lowered are those that have a meaning. -/
theorem exists_lower_iff (name sourceName : String) (program : Program) :
    (∃ m, lower name sourceName program = .ok m) ↔ program.WellMeant := by
  rw [wellMeant_iff]
  simp only [← lower_eq_error_iff name sourceName program]
  cases lower name sourceName program with
  | error fault => simp
  | ok m => simp

/-- **The programs that are lowered are those that have a meaning, and any other program fails with
the fault of its first violation**: of the functions themselves first, then function by function of
the parameters and of the statements, each statement before its expression, what is on the left
before what is on the right and a call before its arguments. -/
theorem lower_exact (name sourceName : String) (program : Program) :
    ((∃ m, lower name sourceName program = .ok m) ↔ program.WellMeant) ∧
      ∀ fault, lower name sourceName program = .error fault ↔
        IsFirstViolation program [] program.places fault :=
  ⟨exists_lower_iff name sourceName program, lower_eq_error_iff name sourceName program⟩

/-- The outer one of two calls counts as the first, though its argument is lowered before it. -/
example : lower "m" "m.ion"
    ⟨[⟨"f", [], [.effect (.call "g" [.call "g" [] ⟨1, 3⟩] ⟨1, 1⟩)], ⟨1, 1⟩⟩]⟩ =
    .error (.meaning ⟨1, 3⟩ (.wrongArity "g" 1 0)) := by rfl

end Ingot.Code
