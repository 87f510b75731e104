import Ingot.Proofs.Code.WellFormed

/-!
# What lowering checks

The places of a program at which something can be wrong with its meaning, in the order in which
lowering comes to them (`Program.places`): the functions of the whole program, and then, function by
function, the parameters and the statements, each statement before its expression, a call before
its arguments and what is on the left before what is on the right. At each place there is one
check (`Place.check`).

**Lowering a program is checking its places one after the other**: it goes as far, it fails with
the same fault, and in between it has declared the same functions (`lower_checks`). What else
lowering does, the code, has no part in that.
-/

namespace Ingot.Source

/-! ### Places -/

/-- The elements of a list, each with those that stand in front of it. -/
def splitsFrom {α : Type} (before : List α) : List α → List (List α × α)
  | [] => []
  | x :: behind => (before, x) :: splitsFrom (before ++ [x]) behind

/-- What an expression uses of what is around it. -/
inductive Use where
  /-- A variable. -/
  | var (name : String) (position : Position)
  /-- A call of a function with a number of arguments. -/
  | call (function : String) (supplied : Nat) (position : Position)

mutual

/-- What is used in an expression: what is on the left before what is on the right, and a call
before its arguments. -/
def Expr.uses : Expr → List Use
  | .number _ _ => []
  | .var name p => [.var name p]
  | .neg operand _ => operand.uses
  | .binary _ left right _ => left.uses ++ right.uses
  | .call function arguments p => .call function arguments.length p :: argumentUses arguments

/-- What is used in the arguments of a call. -/
def argumentUses : List Expr → List Use
  | [] => []
  | argument :: more => argument.uses ++ argumentUses more

end

/-- A place at which something can be wrong with the meaning of a program. -/
inductive Place where
  /-- A function behind others. -/
  | function (earlier : List Function) (f : Function)
  /-- A parameter behind others of its function. -/
  | parameter (earlier : List Parameter) (x : Parameter)
  /-- A statement behind others of its function. -/
  | statement (earlier : List Statement) (s : Statement)
  /-- A use in a statement that stands behind others of its function. -/
  | use (parameters : List Parameter) (earlier : List Statement) (use : Use)

/-- The expression of a statement. -/
def Statement.expression : Statement → Expr
  | bind _ value _ => value
  | result value _ => value
  | effect value => value

/-- The name that a statement binds. -/
def Statement.bound? : Statement → Option String
  | bind name _ _ => some name
  | _ => none

/-- Is this a return statement? -/
def Statement.isResult : Statement → Bool
  | result _ _ => true
  | _ => false

/-- The names that stand for something behind some statements of a function. -/
def boundNames (parameters : List Parameter) (earlier : List Statement) : List String :=
  parameters.map Parameter.name ++ earlier.filterMap Statement.bound?

theorem boundNames_append (parameters : List Parameter) (earlier : List Statement)
    (s : Statement) :
    boundNames parameters (earlier ++ [s]) = boundNames parameters earlier ++ s.bound?.toList := by
  rw [boundNames, boundNames, List.filterMap_append, List.append_assoc]
  cases s <;> rfl

/-- The places of a statement that stands behind others. -/
def Statement.places (parameters : List Parameter) (earlier : List Statement) (s : Statement) :
    List Place :=
  .statement earlier s :: s.expression.uses.map (.use parameters earlier)

/-- The places of statements that stand behind others. -/
def bodyPlaces (parameters : List Parameter) (earlier statements : List Statement) : List Place :=
  (splitsFrom earlier statements).flatMap fun (before, s) =>
    s.places parameters before

/-- The places of parameters that stand behind others. -/
def parameterPlaces (earlier parameters : List Parameter) : List Place :=
  (splitsFrom earlier parameters).map fun (before, x) => .parameter before x

/-- The places of functions themselves that stand behind others. -/
def functionPlaces (earlier functions : List Function) : List Place :=
  (splitsFrom earlier functions).map fun (before, f) => .function before f

/-- The places in a function. -/
def Function.places (f : Function) : List Place :=
  parameterPlaces [] f.parameters ++ bodyPlaces f.parameters [] f.body

/-- The places of a program: the functions themselves, and then what is in them. -/
def Program.places (program : Program) : List Place :=
  functionPlaces [] program.functions ++ program.functions.flatMap Function.places

section Membership

variable {α : Type} {before earlier xs : List α} {x : α}

theorem mem_splitsFrom : (earlier, x) ∈ splitsFrom before xs ↔
    ∃ front behind, xs = front ++ x :: behind ∧ earlier = before ++ front := by
  induction xs generalizing before with
  | nil => simp [splitsFrom]
  | cons y xs ih =>
    rw [splitsFrom, List.mem_cons, ih]
    constructor
    · rintro (heq | ⟨front, behind, rfl, rfl⟩)
      · obtain ⟨rfl, rfl⟩ := Prod.mk.inj heq
        exact ⟨[], xs, rfl, (List.append_nil _).symm⟩
      · exact ⟨y :: front, behind, rfl, List.append_assoc _ _ _⟩
    · rintro ⟨front, behind, heq, rfl⟩
      cases front with
      | nil =>
        obtain ⟨rfl, rfl⟩ := List.cons.inj heq
        exact .inl (by rw [List.append_nil])
      | cons z front =>
        obtain ⟨rfl, rfl⟩ := List.cons.inj heq
        exact .inr ⟨front, behind, rfl, by rw [List.append_assoc, List.singleton_append]⟩

theorem mem_splits :
    (earlier, x) ∈ splitsFrom [] xs ↔ ∃ behind, xs = earlier ++ x :: behind := by
  rw [mem_splitsFrom]
  constructor
  · rintro ⟨front, behind, rfl, rfl⟩
    exact ⟨behind, rfl⟩
  · rintro ⟨behind, rfl⟩
    exact ⟨earlier, behind, rfl, rfl⟩

end Membership

section Membership

variable {place : Place}

theorem mem_functionPlaces {functions : List Function} : place ∈ functionPlaces [] functions ↔
    ∃ earlier f behind, functions = earlier ++ f :: behind ∧ place = .function earlier f := by
  rw [functionPlaces, List.mem_map, Prod.exists]
  refine exists_congr fun earlier => exists_congr fun f => ?_
  rw [mem_splits, ← exists_and_right]
  exact exists_congr fun behind => and_congr_right fun _ => eq_comm

theorem mem_parameterPlaces {parameters : List Parameter} :
    place ∈ parameterPlaces [] parameters ↔
      ∃ earlier x behind, parameters = earlier ++ x :: behind ∧ place = .parameter earlier x := by
  rw [parameterPlaces, List.mem_map, Prod.exists]
  refine exists_congr fun earlier => exists_congr fun x => ?_
  rw [mem_splits, ← exists_and_right]
  exact exists_congr fun behind => and_congr_right fun _ => eq_comm

theorem mem_bodyPlaces {parameters : List Parameter} {statements : List Statement} :
    place ∈ bodyPlaces parameters [] statements ↔
      ∃ earlier s behind, statements = earlier ++ s :: behind ∧
        (place = .statement earlier s ∨
          ∃ use ∈ s.expression.uses, place = .use parameters earlier use) := by
  rw [bodyPlaces, List.mem_flatMap, Prod.exists]
  refine exists_congr fun earlier => exists_congr fun s => ?_
  rw [mem_splits, ← exists_and_right]
  refine exists_congr fun behind => and_congr_right fun _ => ?_
  show place ∈ Place.statement earlier s :: s.expression.uses.map (.use parameters earlier) ↔ _
  rw [List.mem_cons, List.mem_map]
  exact or_congr_right (exists_congr fun use => and_congr_right fun _ => eq_comm)

theorem mem_places {program : Program} : place ∈ program.places ↔
    place ∈ functionPlaces [] program.functions ∨ ∃ f ∈ program.functions,
      place ∈ parameterPlaces [] f.parameters ∨ place ∈ bodyPlaces f.parameters [] f.body := by
  rw [Program.places, List.mem_append, List.mem_flatMap]
  refine or_congr_right (exists_congr fun f => and_congr_right fun _ => ?_)
  rw [Function.places, List.mem_append]

end Membership

section Membership

variable {program : Program}

theorem function_mem_places {earlier : List Function} {f : Function} :
    Place.function earlier f ∈ program.places ↔
      ∃ behind, program.functions = earlier ++ f :: behind := by
  simp [mem_places, mem_functionPlaces, mem_parameterPlaces, mem_bodyPlaces]

theorem parameter_mem_places {earlier : List Parameter} {x : Parameter} :
    Place.parameter earlier x ∈ program.places ↔
      ∃ f ∈ program.functions, ∃ behind, f.parameters = earlier ++ x :: behind := by
  simp [mem_places, mem_functionPlaces, mem_parameterPlaces, mem_bodyPlaces]

theorem statement_mem_places {earlier : List Statement} {s : Statement} :
    Place.statement earlier s ∈ program.places ↔
      ∃ f ∈ program.functions, ∃ behind, f.body = earlier ++ s :: behind := by
  simp [mem_places, mem_functionPlaces, mem_parameterPlaces, mem_bodyPlaces]

theorem use_mem_places {parameters : List Parameter} {earlier : List Statement} {use : Use} :
    Place.use parameters earlier use ∈ program.places ↔
      ∃ f ∈ program.functions, ∃ s, (∃ behind, f.body = earlier ++ s :: behind) ∧
        use ∈ s.expression.uses ∧ parameters = f.parameters := by
  simp [mem_places, mem_functionPlaces, mem_parameterPlaces, mem_bodyPlaces]

end Membership

end Ingot.Source

namespace Ingot.Code

open Source

/-! ### Checks -/

/-- The check at a place, which knows the functions that are defined and those declared so far.
The first call of a function that is not defined declares it. -/
def check (defined declared : Arities) : Place → Except Fault Arities
  | .function earlier f =>
    if f.name ∈ earlier.map Function.name then
      .error (.meaning f.position (.repeatedFunction f.name))
    else .ok declared
  | .parameter earlier x =>
    if x.name ∈ earlier.map Parameter.name then
      .error (.meaning x.position (.repeatedParameter x.name))
    else .ok declared
  | .statement earlier s =>
    if earlier.any Statement.isResult then .error (.meaning s.position .unreachable)
    else .ok declared
  | .use parameters earlier (.var name p) =>
    if name ∈ boundNames parameters earlier then .ok declared
    else .error (.meaning p (.unboundName name))
  | .use _ _ (.call function supplied p) =>
    match (defined ++ declared).lookup function with
    | some expected =>
      if expected = supplied then .ok declared
      else .error (.meaning p (.wrongArity function expected supplied))
    | none => .ok (declared ++ [(function, supplied)])

/-- The checks at places, one after the other. -/
def checks (defined : Arities) : Arities → List Place → Except Fault Arities
  | declared, [] => .ok declared
  | declared, place :: more => do
    let declared ← check defined declared place
    checks defined declared more

theorem checks_singleton (defined declared : Arities) (place : Place) :
    checks defined declared [place] = check defined declared place := by
  rw [checks]
  cases check defined declared place with
  | error fault => rfl
  | ok declared => rfl

theorem checks_append (defined : Arities) (ps qs : List Place) (declared : Arities) :
    checks defined declared (ps ++ qs) =
      (checks defined declared ps >>= fun declared => checks defined declared qs) := by
  induction ps generalizing declared with
  | nil => rfl
  | cons place ps ih =>
    rw [List.cons_append, checks, checks]
    cases check defined declared place with
    | error fault => rfl
    | ok declared => exact ih declared

/-- A step of lowering does the checks at some places, and declares what they declare. -/
def Lower.Checks {α : Type} (defined : Arities) (x : Lower α) (places : List Place) : Prop :=
  ∀ p : Progress, (x p).map (fun r => r.2.declared) = checks defined p.declared places

section Steps

variable {α β : Type} {defined : Arities}

theorem checks_pure (a : α) : Lower.Checks defined (pure a) [] := fun _ => rfl

theorem Lower.Checks.bind {x : Lower α} {f : α → Lower β} {ps qs : List Place}
    (hx : Lower.Checks defined x ps) (hf : ∀ a, Lower.Checks defined (f a) qs) :
    Lower.Checks defined (x >>= f) (ps ++ qs) := by
  intro p
  have hfirst := hx p
  rw [checks_append, ← hfirst]
  show Except.map _ (x p >>= fun r => f r.1 r.2) = _
  rcases x p with fault | ⟨a, p'⟩
  · rfl
  · exact hf a p'

/-- A step without a place of its own behind one that has places. -/
theorem Lower.Checks.last {x : Lower α} {f : α → Lower β} {ps : List Place}
    (hx : Lower.Checks defined x ps) (hf : ∀ a, Lower.Checks defined (f a) []) :
    Lower.Checks defined (x >>= f) ps := by
  have h := hx.bind hf
  rwa [List.append_nil] at h

theorem checks_emitTo (instruction : Nat → Instruction) :
    Lower.Checks defined (emitTo instruction) [] := fun _ => rfl

theorem checks_emit (instruction : Instruction) : Lower.Checks defined (emit instruction) [] :=
  fun _ => rfl

theorem checks_reject {position : Position} {fault : MeaningFault} {place : Place}
    (h : ∀ declared, check defined declared place = .error (.meaning position fault))
    (more : List Place) :
    Lower.Checks defined (reject position fault : Lower α) (place :: more) := by
  intro p
  rw [checks, h]
  rfl

/-- A step behind a check that is passed and declares nothing. -/
theorem Lower.Checks.behind {x : Lower α} {place : Place} {ps : List Place}
    (hplace : ∀ declared, check defined declared place = .ok declared)
    (hx : Lower.Checks defined x ps) : Lower.Checks defined x (place :: ps) := by
  intro p
  rw [checks, hplace]
  exact hx p

/-- The number of arguments of a call is checked before what comes behind. -/
theorem checks_expectedArity {function : String} {supplied : Nat} {position : Position}
    {parameters : List Parameter} {earlier : List Statement} {y : Lower α} {ps : List Place}
    (hy : Lower.Checks defined y ps) :
    Lower.Checks defined (do
      let expected ← expectedArity defined function supplied
      if expected = supplied then y
      else reject position (.wrongArity function expected supplied))
      (.use parameters earlier (.call function supplied position) :: ps) := by
  have hknown : ∀ (p : Progress) (expected : Nat),
      ((if expected = supplied then y
        else reject position (.wrongArity function expected supplied)) p).map
          (fun r => r.2.declared) =
        ((if expected = supplied then .ok p.declared
          else .error (.meaning position (.wrongArity function expected supplied))) >>=
            fun declared => checks defined declared ps) := by
    intro p expected
    by_cases harity : expected = supplied
    · rw [if_pos harity, if_pos harity]
      exact hy p
    · rw [if_neg harity, if_neg harity]
      rfl
  intro p
  rw [checks, check, List.lookup_append]
  show Except.map _ (expectedArity defined function supplied p >>= fun r => _) = _
  unfold expectedArity
  cases defined.lookup function with
  | some expected => exact hknown p expected
  | none =>
    cases p.declared.lookup function with
    | some expected => exact hknown p expected
    | none =>
      have hfirst := hknown { p with declared := p.declared ++ [(function, supplied)] } supplied
      rw [if_pos rfl, if_pos rfl] at hfirst
      show Except.map _ ((if supplied = supplied then y else _) _) = _
      rw [if_pos rfl]
      exact hfirst

/-- The names under which something is entered. -/
def HasNames {β : Type} (entries : List (String × β)) (names : List String) : Prop :=
  ∀ name, (entries.lookup name).isSome ↔ name ∈ names

theorem HasNames.cons {γ : Type} {entries : List (String × γ)} {names : List String}
    (h : HasNames entries names) (name : String) (c : γ) :
    HasNames ((name, c) :: entries) (names ++ [name]) := by
  intro name'
  rw [List.mem_append, List.lookup_cons]
  by_cases hname : name' = name
  · simp [hname]
  · rw [beq_false_of_ne hname]
    simp [hname, h name']

mutual

/-- **Lowering an expression does the checks at its places.** -/
theorem lowerExpr_checks {scope : Scope} {parameters : List Parameter} {earlier : List Statement}
    (hscope : HasNames scope (boundNames parameters earlier)) (e : Expr) :
    Lower.Checks defined (lowerExpr defined scope e) (e.uses.map (.use parameters earlier)) := by
  cases e with
  | number value position => exact checks_pure _
  | var name position =>
    rw [lowerExpr, Expr.uses]
    cases hlook : scope.lookup name with
    | some operand =>
      have hbound : name ∈ boundNames parameters earlier := (hscope name).1 (by rw [hlook]; rfl)
      exact (checks_pure operand).behind fun declared => if_pos hbound
    | none =>
      have hfree : name ∉ boundNames parameters earlier := by
        intro hmem
        have hsome := (hscope name).2 hmem
        rw [hlook] at hsome
        cases hsome
      have hreject : ∀ declared,
          check defined declared (.use parameters earlier (.var name position)) =
            .error (.meaning position (.unboundName name)) := fun declared => if_neg hfree
      exact checks_reject hreject []
  | neg operand position =>
    rw [lowerExpr, Expr.uses]
    exact (lowerExpr_checks hscope operand).last fun value => checks_emitTo _
  | binary op left right position =>
    rw [lowerExpr, Expr.uses, List.map_append]
    refine (lowerExpr_checks hscope left).bind fun l => ?_
    exact (lowerExpr_checks hscope right).last fun r => checks_emitTo _
  | call function arguments position =>
    rw [lowerExpr, Expr.uses]
    refine checks_expectedArity ?_
    exact (lowerArguments_checks hscope arguments).last fun operands => checks_emitTo _

theorem lowerArguments_checks {scope : Scope} {parameters : List Parameter}
    {earlier : List Statement} (hscope : HasNames scope (boundNames parameters earlier))
    (es : List Expr) : Lower.Checks defined (lowerArguments defined scope es)
      ((argumentUses es).map (.use parameters earlier)) := by
  cases es with
  | nil => exact checks_pure _
  | cons e more =>
    rw [lowerArguments, argumentUses, List.map_append]
    refine (lowerExpr_checks hscope e).bind fun o => ?_
    exact (lowerArguments_checks hscope more).last fun os => checks_pure _

end

/-- Lowering statements does the checks at their places, if no return statement stands in front of
them. -/
theorem lowerBody_checks {parameters : List Parameter} (statements : List Statement)
    {earlier : List Statement} {scope : Scope}
    (hscope : HasNames scope (boundNames parameters earlier))
    (hopen : earlier.any Statement.isResult = false) :
    Lower.Checks defined (lowerBody defined scope statements)
      (bodyPlaces parameters earlier statements) := by
  induction statements generalizing earlier scope with
  | nil => exact checks_emit _
  | cons s more ih =>
    have hs : ∀ declared, check defined declared (.statement earlier s) = .ok declared :=
      fun declared => if_neg (Bool.not_eq_true _ ▸ hopen)
    have hvalue : Lower.Checks defined (lowerExpr defined scope s.expression)
        (s.expression.uses.map (.use parameters earlier)) := lowerExpr_checks hscope s.expression
    cases s with
    | bind name value position =>
      refine (hvalue.bind fun o => ?_).behind hs
      refine ih ?_ (by simpa [Statement.isResult] using hopen)
      rw [boundNames_append]
      exact hscope.cons name o
    | effect value =>
      refine (hvalue.bind fun o => ?_).behind hs
      refine ih ?_ (by simpa [Statement.isResult] using hopen)
      rw [boundNames_append]
      exact (List.append_nil _).symm ▸ hscope
    | result value position =>
      refine (hvalue.bind fun o => ?_).behind hs
      cases more with
      | nil => exact (checks_emit (.ret o)).last fun _ => checks_pure ()
      | cons behind others =>
        have hbehind :
            (earlier ++ [Statement.result value position]).any Statement.isResult = true := by
          simp [Statement.isResult]
        have hreject : ∀ declared,
            check defined declared (.statement (earlier ++ [.result value position]) behind) =
              .error (.meaning behind.position .unreachable) := fun declared => if_pos hbehind
        exact (checks_emit (.ret o)).bind fun _ => checks_reject hreject _

/-! ### Functions and programs -/

end Steps

section Functions

variable (defined : Arities)

/-- Putting parameters into a scope does the checks at their places. -/
theorem parameterScope_checks (parameters : List Parameter) {earlier : List Parameter}
    {scope : Scope} (hscope : HasNames scope (earlier.map Parameter.name)) (declared : Arities) :
    (parameterScope scope parameters).map (fun _ => declared) =
        checks defined declared (parameterPlaces earlier parameters) ∧
      ∀ scope', parameterScope scope parameters = .ok scope' →
        HasNames scope' ((earlier ++ parameters).map Parameter.name) := by
  induction parameters generalizing earlier scope with
  | nil =>
    refine ⟨rfl, fun scope' h => ?_⟩
    cases h
    rw [List.append_nil]
    exact hscope
  | cons x more ih =>
    have hplaces : parameterPlaces earlier (x :: more) =
        .parameter earlier x :: parameterPlaces (earlier ++ [x]) more := rfl
    rw [hplaces, checks, check, parameterScope]
    by_cases hrepeated : x.name ∈ earlier.map Parameter.name
    · rw [if_pos hrepeated, if_pos ((hscope x.name).2 hrepeated)]
      exact ⟨rfl, fun _ h => by cases h⟩
    · rw [if_neg hrepeated, if_neg fun hsome => hrepeated ((hscope x.name).1 hsome)]
      have hmore : HasNames ((x.name, Operand.parameter x.name) :: scope)
          ((earlier ++ [x]).map Parameter.name) := by
        rw [List.map_append]
        exact hscope.cons x.name _
      obtain ⟨hchecks, hnames⟩ := ih hmore
      refine ⟨hchecks, fun scope' h => ?_⟩
      rw [List.append_cons]
      exact hnames scope' h

/-- The table of the functions that are defined is made with the checks at their places. -/
theorem definedArities_checks (functions : List Function) {earlier : List Function}
    {seen : Arities} (hseen : HasNames seen (earlier.map Function.name)) (declared : Arities) :
    (definedArities seen functions).map (fun _ => declared) =
      checks defined declared (functionPlaces earlier functions) := by
  induction functions generalizing earlier seen with
  | nil => rfl
  | cons f more ih =>
    have hplaces : functionPlaces earlier (f :: more) =
        .function earlier f :: functionPlaces (earlier ++ [f]) more := rfl
    rw [hplaces, checks, check, definedArities]
    by_cases hrepeated : f.name ∈ earlier.map Function.name
    · rw [if_pos hrepeated, if_pos ((hseen f.name).2 hrepeated)]
      rfl
    · rw [if_neg hrepeated, if_neg fun hsome => hrepeated ((hseen f.name).1 hsome)]
      have hmore : HasNames ((f.name, f.arity) :: seen) ((earlier ++ [f]).map Function.name) := by
        rw [List.map_append]
        exact hseen.cons f.name _
      exact ih hmore

theorem lowerFunction_checks (f : Function) (declared : Arities) :
    (lowerFunction defined declared f).map Prod.snd = checks defined declared f.places := by
  have hempty : HasNames ([] : Scope) (([] : List Parameter).map Parameter.name) := by
    intro name
    simp
  obtain ⟨hparameters, hnames⟩ := parameterScope_checks defined f.parameters hempty declared
  rw [Function.places, checks_append, ← hparameters, lowerFunction]
  cases hscope : parameterScope [] f.parameters with
  | error fault => rfl
  | ok scope =>
    have hbound : HasNames scope (boundNames f.parameters []) := by
      rw [boundNames, List.filterMap_nil, List.append_nil]
      exact hnames scope hscope
    have hbody : Lower.Checks defined (lowerBody defined scope f.body)
        (bodyPlaces f.parameters [] f.body) := lowerBody_checks f.body hbound rfl
    show _ = checks defined declared _
    rw [← hbody ⟨0, #[], declared⟩]
    show Except.map _ (lowerBody defined scope f.body ⟨0, #[], declared⟩ >>= fun r => _) = _
    cases lowerBody defined scope f.body ⟨0, #[], declared⟩ with
    | error fault => rfl
    | ok r => rfl

theorem lowerFunctions_checks (functions : List Function) (declared : Arities) :
    (lowerFunctions defined declared functions).map Prod.snd =
      checks defined declared (functions.flatMap Function.places) := by
  induction functions generalizing declared with
  | nil => rfl
  | cons f more ih =>
    rw [List.flatMap_cons, checks_append, ← lowerFunction_checks, lowerFunctions]
    cases lowerFunction defined declared f with
    | error fault => rfl
    | ok r =>
      show Except.map _ (lowerFunctions defined r.2 more >>= fun rs => _) = checks defined r.2 _
      rw [← ih r.2]
      cases lowerFunctions defined r.2 more with
      | error fault => rfl
      | ok rs => rfl

end Functions

/-- The numbers of parameters of the functions of a program, the last function first. -/
def arities (program : Program) : Arities :=
  (program.functions.map fun f => (f.name, f.arity)).reverse

/-- **Lowering a program does the checks at its places**, and fails only if one of them does. -/
theorem lower_checks (name sourceName : String) (program : Program) :
    (lower name sourceName program).map (fun _ => ()) =
      (checks (arities program) [] program.places).map fun _ => () := by
  have hempty : HasNames ([] : Arities) (([] : List Function).map Function.name) := by
    intro name
    simp
  rw [Program.places, checks_append,
    ← definedArities_checks (arities program) program.functions hempty, lower]
  cases hdefined : definedArities [] program.functions with
  | error fault => rfl
  | ok defined =>
    obtain ⟨hreverse, -⟩ := of_definedArities_ok hdefined
    rw [List.append_nil] at hreverse
    obtain rfl : defined = arities program := hreverse
    show Except.map _ (lowerFunctions (arities program) [] program.functions >>= fun r => _) =
      (checks (arities program) [] _).map _
    rw [← lowerFunctions_checks]
    cases lowerFunctions (arities program) [] program.functions with
    | error fault => rfl
    | ok r => rfl

end Ingot.Code
