import Ingot.Proofs.Code.Meaningful

/-!
# The order of functions

Functions of a program may call each other wherever they stand, and what is declared is sorted by
name. So **the order of the functions of a program does not matter**: in any other order it is
lowered just if it was before, to the same lines of names, the same blocks in the new order and the
same declarations (`lower_reordered`).

Whether a program is lowered is a matter of its meaning, in which the order plays no part
(`WellMeant.perm`). The code of a function is the same in any two runs that come to it
(`HasCode.unique`): what else is defined or declared decides whether lowering goes on, and nothing
about the code. And what is declared are the functions that are called and not defined
(`mem_declared_iff`).
-/

namespace Ingot.Source

/-- The functions of a program in another order. -/
def Program.reordered (program : Program) (order : Equiv.Perm (Fin program.functions.length)) :
    Program :=
  ⟨List.ofFn fun i => program.functions.get (order i)⟩

theorem Program.reordered_perm (program : Program)
    (order : Equiv.Perm (Fin program.functions.length)) :
    (program.reordered order).functions.Perm program.functions := by
  have hperm := order.ofFn_comp_perm program.functions.get
  rwa [List.ofFn_get] at hperm

/-! ### Meaning -/

section Meaning

variable {program program' : Program}

theorem mem_uses_of_perm (hperm : program.functions.Perm program'.functions) {use : Use} :
    use ∈ program.uses ↔ use ∈ program'.uses := by
  simp only [Program.uses, List.mem_flatMap, hperm.mem_iff]

theorem mem_names_of_perm (hperm : program.functions.Perm program'.functions) {name : String} :
    name ∈ program.functions.map Function.name ↔ name ∈ program'.functions.map Function.name :=
  (hperm.map Function.name).mem_iff

/-- A program that has a meaning has one in any order of its functions. -/
theorem Program.WellMeant.perm (h : program.WellMeant)
    (hperm : program.functions.Perm program'.functions) : program'.WellMeant := by
  constructor
  case functions => exact (hperm.map Function.name).nodup_iff.1 h.functions
  case parameters => exact fun f hf => h.parameters f (hperm.mem_iff.2 hf)
  case results => exact fun f hf => h.results f (hperm.mem_iff.2 hf)
  case bound => exact fun f hf => h.bound f (hperm.mem_iff.2 hf)
  case defined =>
    intro f hf supplied p huse
    exact h.defined f (hperm.mem_iff.2 hf) supplied p ((mem_uses_of_perm hperm).2 huse)
  case undefined =>
    intro function hundefined supplied p supplied' p' huse huse'
    refine h.undefined function ?_ supplied p supplied' p' ((mem_uses_of_perm hperm).2 huse)
      ((mem_uses_of_perm hperm).2 huse')
    rwa [mem_names_of_perm hperm]

end Meaning

end Ingot.Source

namespace Ingot.Code

open Source

/-! ### The code of a function -/

/-- Two points of lowering with the same code so far. -/
structure Progress.SameCode (p p' : Progress) : Prop where
  temporaries : p.temporaries = p'.temporaries
  body : p.body = p'.body

/-- Two steps of lowering that append the same code and answer the same, if both come to an end. -/
def Lower.SameCode {α : Type} (x x' : Lower α) : Prop :=
  ∀ p p' a a' q q', p.SameCode p' → x p = .ok (a, q) → x' p' = .ok (a', q') →
    a = a' ∧ q.SameCode q'

section Steps

variable {α β : Type} {defined defined' : Arities}

theorem sameCode_pure (a : α) : Lower.SameCode (pure a) (pure a) := by
  intro p p' a₁ a₂ q q' hp h h'
  cases h
  cases h'
  exact ⟨rfl, hp⟩

theorem Lower.SameCode.bind {x x' : Lower α} {f f' : α → Lower β} (hx : x.SameCode x')
    (hf : ∀ a, (f a).SameCode (f' a)) : (x >>= f).SameCode (x' >>= f') := by
  intro p p' b b' q q' hp h h'
  obtain ⟨a, q₁, hfirst, hrest⟩ := of_stateT_bind_ok h
  obtain ⟨a', q₁', hfirst', hrest'⟩ := of_stateT_bind_ok h'
  obtain ⟨rfl, hq₁⟩ := hx _ _ _ _ _ _ hp hfirst hfirst'
  exact hf a _ _ _ _ _ _ hq₁ hrest hrest'

theorem sameCode_emitTo (instruction : Nat → Instruction) :
    Lower.SameCode (emitTo instruction) (emitTo instruction) := by
  intro p p' o o' q q' hp h h'
  cases h
  cases h'
  rw [hp.temporaries, hp.body]
  exact ⟨rfl, rfl, rfl⟩

theorem sameCode_emit (instruction : Instruction) :
    Lower.SameCode (emit instruction) (emit instruction) := by
  intro p p' a a' q q' hp h h'
  cases h
  cases h'
  exact ⟨rfl, hp.temporaries, congrArg (fun body => body.push instruction) hp.body⟩

/-- What stops has no code to be compared. -/
theorem sameCode_reject (position : Position) (fault : MeaningFault) (x : Lower α) :
    Lower.SameCode (reject position fault) x := by
  intro p p' a a' q q' hp h h'
  cases h

theorem sameCode_of_expectedArity {function : String} {supplied expected : ℕ} {p p' : Progress}
    (h : expectedArity defined function supplied p = .ok (expected, p')) : p'.SameCode p := by
  unfold expectedArity at h
  split at h
  · cases h
    exact ⟨rfl, rfl⟩
  · split at h
    · cases h
      exact ⟨rfl, rfl⟩
    · cases h
      exact ⟨rfl, rfl⟩

/-- A call whose number of arguments is the expected one goes on, with the same code. -/
theorem of_call_ok {function : String} {supplied : ℕ} {position : Position} {y : Lower α}
    {p q : Progress} {a : α}
    (h : (expectedArity defined function supplied >>= fun expected =>
      if expected = supplied then y
      else reject position (.wrongArity function expected supplied)) p = .ok (a, q)) :
    ∃ p₁ : Progress, p₁.SameCode p ∧ y p₁ = .ok (a, q) := by
  obtain ⟨expected, p₁, hfirst, hrest⟩ := of_stateT_bind_ok h
  refine ⟨p₁, sameCode_of_expectedArity hfirst, ?_⟩
  by_cases harity : expected = supplied
  · rwa [if_pos harity] at hrest
  · rw [if_neg harity] at hrest
    cases hrest

mutual

/-- **The code of an expression is the same, whatever else is defined or declared.** -/
theorem lowerExpr_sameCode (scope : Scope) (e : Expr) :
    Lower.SameCode (lowerExpr defined scope e) (lowerExpr defined' scope e) := by
  cases e with
  | number value position =>
    rw [lowerExpr, lowerExpr]
    exact sameCode_pure _
  | var name position =>
    rw [lowerExpr, lowerExpr]
    cases scope.lookup name with
    | none => exact sameCode_reject _ _ _
    | some operand => exact sameCode_pure _
  | neg operand position =>
    rw [lowerExpr, lowerExpr]
    exact (lowerExpr_sameCode scope operand).bind fun value => sameCode_emitTo _
  | binary op left right position =>
    rw [lowerExpr, lowerExpr]
    refine (lowerExpr_sameCode scope left).bind fun l => ?_
    exact (lowerExpr_sameCode scope right).bind fun r => sameCode_emitTo _
  | call function arguments position =>
    have harguments : Lower.SameCode
        (lowerArguments defined scope arguments >>= fun operands =>
          emitTo (.call · function operands))
        (lowerArguments defined' scope arguments >>= fun operands =>
          emitTo (.call · function operands)) :=
      (lowerArguments_sameCode scope arguments).bind fun operands => sameCode_emitTo _
    rw [lowerExpr, lowerExpr]
    intro p p' o o' q q' hp h h'
    obtain ⟨p₁, hp₁, hrest⟩ := of_call_ok h
    obtain ⟨p₁', hp₁', hrest'⟩ := of_call_ok h'
    have hsame : p₁.SameCode p₁' := ⟨by rw [hp₁.temporaries, hp.temporaries, hp₁'.temporaries],
      by rw [hp₁.body, hp.body, hp₁'.body]⟩
    exact harguments _ _ _ _ _ _ hsame hrest hrest'

theorem lowerArguments_sameCode (scope : Scope) (es : List Expr) :
    Lower.SameCode (lowerArguments defined scope es) (lowerArguments defined' scope es) := by
  cases es with
  | nil =>
    rw [lowerArguments, lowerArguments]
    exact sameCode_pure _
  | cons e more =>
    rw [lowerArguments, lowerArguments]
    refine (lowerExpr_sameCode scope e).bind fun o => ?_
    exact (lowerArguments_sameCode scope more).bind fun os => sameCode_pure _

end

theorem lowerBody_sameCode (statements : List Statement) (scope : Scope) :
    Lower.SameCode (lowerBody defined scope statements) (lowerBody defined' scope statements) := by
  induction statements generalizing scope with
  | nil => exact sameCode_emit _
  | cons s more ih =>
    cases s with
    | bind name value position => exact (lowerExpr_sameCode scope value).bind fun o => ih _
    | effect value => exact (lowerExpr_sameCode scope value).bind fun o => ih _
    | result value position =>
      refine (lowerExpr_sameCode scope value).bind fun o => ?_
      refine (sameCode_emit _).bind fun _ => ?_
      cases more with
      | nil => exact sameCode_pure ()
      | cons behind others => exact sameCode_reject _ _ _

end Steps

/-- Code that a function is lowered to, whatever else is defined or declared. -/
def HasCode (f : Function) (c : FunctionCode) : Prop :=
  ∃ defined declared declared', lowerFunction defined declared f = .ok (c, declared')

/-- A function has one code. -/
theorem HasCode.unique {f : Function} {c c' : FunctionCode} (h : HasCode f c)
    (h' : HasCode f c') : c = c' := by
  obtain ⟨defined₁, declared₁, declared₂, h⟩ := h
  obtain ⟨defined₂, declared₃, declared₄, h'⟩ := h'
  unfold lowerFunction at h h'
  obtain ⟨scope, hscope, h⟩ := of_except_bind_ok h
  rw [except_bind_of_ok hscope] at h'
  obtain ⟨⟨⟨⟩, progress⟩, hbody, h⟩ := of_except_bind_ok h
  obtain ⟨⟨⟨⟩, progress'⟩, hbody', h'⟩ := of_except_bind_ok h'
  cases h
  cases h'
  have hstart : Progress.SameCode ⟨0, #[], declared₁⟩ ⟨0, #[], declared₃⟩ := ⟨rfl, rfl⟩
  obtain ⟨-, hsame⟩ := lowerBody_sameCode f.body scope _ _ _ _ _ _ hstart hbody hbody'
  rw [hsame.body]

theorem lowerFunctions_hasCode {defined declared declared' : Arities} {functions : List Function}
    {codes : List FunctionCode}
    (h : lowerFunctions defined declared functions = .ok (codes, declared')) :
    List.Forall₂ HasCode functions codes := by
  induction functions generalizing declared codes with
  | nil =>
    cases h
    exact .nil
  | cons f more ih =>
    unfold lowerFunctions at h
    obtain ⟨⟨code, declared₁⟩, hfirst, h⟩ := of_except_bind_ok h
    obtain ⟨⟨codes, declared₂⟩, hmore, h⟩ := of_except_bind_ok h
    cases h
    exact .cons ⟨_, _, _, hfirst⟩ (ih hmore)

/-- The codes of functions, if they have any, are given by the functions one by one. -/
theorem exists_code : ∃ code : Function → FunctionCode, ∀ functions codes,
    List.Forall₂ HasCode functions codes → codes = functions.map code := by
  have hcode : ∀ f : Function, ∃ c, ∀ c', HasCode f c' → c' = c := by
    intro f
    by_cases h : ∃ c, HasCode f c
    · obtain ⟨c, hc⟩ := h
      exact ⟨c, fun c' hc' => hc'.unique hc⟩
    · exact ⟨⟨f.name, [], []⟩, fun c' hc' => absurd ⟨c', hc'⟩ h⟩
  choose code hcode using hcode
  refine ⟨code, fun functions codes h => ?_⟩
  induction h with
  | nil => rfl
  | cons hfirst _ ih => rw [List.map_cons, ← ih, hcode _ _ hfirst]

/-! ### Declarations -/

/-- A check declares nothing, or a function that was neither defined nor declared. -/
theorem of_check_ok {defined declared declared' : Arities} {place : Place}
    (h : check defined declared place = .ok declared') :
    declared' = declared ∨ ∃ function supplied, (defined ++ declared).lookup function = none ∧
      declared' = declared ++ [(function, supplied)] := by
  match place with
  | .function earlier f =>
    rw [check] at h
    split at h
    · cases h
    · exact .inl (Except.ok.inj h).symm
  | .parameter earlier x =>
    rw [check] at h
    split at h
    · cases h
    · exact .inl (Except.ok.inj h).symm
  | .statement earlier s =>
    rw [check] at h
    split at h
    · cases h
    · exact .inl (Except.ok.inj h).symm
  | .use parameters earlier (.var name p) =>
    rw [check] at h
    split at h
    · exact .inl (Except.ok.inj h).symm
    · cases h
  | .use parameters earlier (.call function supplied p) =>
    rw [check] at h
    split at h
    · split at h
      · exact .inl (Except.ok.inj h).symm
      · cases h
    · rename_i hnone
      exact .inr ⟨function, supplied, hnone, (Except.ok.inj h).symm⟩

/-- No function is declared twice, nor one that is defined. -/
theorem nodup_of_checks {defined declared declared' : Arities} {ps : List Place}
    (hdistinct : ((defined ++ declared).map Prod.fst).Nodup)
    (h : checks defined declared ps = .ok declared') :
    ((defined ++ declared').map Prod.fst).Nodup := by
  induction ps generalizing declared with
  | nil =>
    cases h
    exact hdistinct
  | cons place ps ih =>
    obtain ⟨declared₁, hfirst, hrest⟩ := of_except_bind_ok h
    refine ih ?_ hrest
    obtain rfl | ⟨function, supplied, hnew, rfl⟩ := of_check_ok hfirst
    · exact hdistinct
    · rw [← List.append_assoc, List.map_append, List.nodup_append]
      refine ⟨hdistinct, List.nodup_singleton _, ?_⟩
      rintro name hname _ hfunction rfl
      obtain rfl : name = function := by simpa using hfunction
      obtain ⟨entry, hentry, rfl⟩ := List.mem_map.1 hname
      simpa using List.lookup_eq_none_iff.1 hnew entry hentry

/-- Functions that are declared, in the order of their names. -/
def sortedDeclarations (declared : Arities) : List Declaration :=
  (declared.map fun entry => (⟨entry.1, entry.2⟩ : Declaration)).mergeSort
    fun a b => decide (a.name ≤ b.name)

/-- What was lowered has the code of the functions and declares what the checks do. -/
theorem of_lower_ok {name sourceName : String} {program : Program} {m : ModuleCode}
    (h : lower name sourceName program = .ok m) :
    ∃ codes declared, List.Forall₂ HasCode program.functions codes ∧
      checks (arities program) [] program.places = .ok declared ∧
      m = ⟨name, sourceName, codes, sortedDeclarations declared⟩ := by
  have hempty : HasNames ([] : Arities) (([] : List Function).map Function.name) := by
    intro name
    simp
  unfold lower at h
  obtain ⟨defined, hdefined, h⟩ := of_except_bind_ok h
  obtain ⟨⟨codes, declared⟩, hcodes, h⟩ := of_except_bind_ok h
  cases h
  obtain ⟨hreverse, -⟩ := of_definedArities_ok hdefined
  rw [List.append_nil] at hreverse
  obtain rfl : defined = arities program := hreverse
  refine ⟨codes, declared, lowerFunctions_hasCode hcodes, ?_, rfl⟩
  rw [Program.places, checks_append,
    ← definedArities_checks (arities program) program.functions hempty, hdefined]
  show checks (arities program) [] _ = _
  rw [← lowerFunctions_checks, hcodes]
  rfl

/-- No function is defined or declared twice. -/
theorem nodup_declared {program : Program} {declared : Arities}
    (h : checks (arities program) [] program.places = .ok declared) :
    ((arities program ++ declared).map Prod.fst).Nodup := by
  have hsettles := program_settles program
  rw [h] at hsettles
  refine nodup_of_checks ?_ h
  rw [List.append_nil, map_fst_arities, List.nodup_reverse]
  exact (wellMeant_iff.2 hsettles.1).functions

/-- No function is declared twice. -/
theorem nodup_keys_declared {program : Program} {declared : Arities}
    (h : checks (arities program) [] program.places = .ok declared) :
    (declared.map Prod.fst).Nodup := by
  have hdistinct := nodup_declared h
  rw [List.map_append] at hdistinct
  exact (List.nodup_append.1 hdistinct).2.1

/-- What is declared are the functions that are called and not defined. -/
theorem mem_declared_iff {program : Program} {declared : Arities}
    (h : checks (arities program) [] program.places = .ok declared) {function : String}
    {supplied : ℕ} : (function, supplied) ∈ declared ↔
      function ∉ program.functions.map Function.name ∧
        ∃ p, .call function supplied p ∈ program.uses := by
  have hsettles := program_settles program
  rw [h] at hsettles
  obtain ⟨hclear, hdeclares⟩ := hsettles
  have hdistinct := nodup_declared h
  rw [List.map_append, map_fst_arities] at hdistinct
  obtain ⟨-, -, hapart⟩ := List.nodup_append.1 hdistinct
  constructor
  · intro hmem
    have hundefined : function ∉ program.functions.map Function.name := by
      intro hdefined
      exact hapart _ (List.mem_reverse.2 hdefined) _ (List.mem_map_of_mem hmem) rfl
    refine ⟨hundefined, ?_⟩
    have hlookup := (lookup_eq_some_iff_mem (nodup_keys_declared h)).2 hmem
    rw [hdeclares function hundefined] at hlookup
    obtain ⟨place, hplace, hcall⟩ := List.mem_filterMap.1 (mem_of_lookup hlookup)
    obtain ⟨parameters, earlier, p, rfl⟩ := Place.call?_eq_some.1 hcall
    exact ⟨p, mem_uses.2 ⟨_, _, hplace⟩⟩
  · rintro ⟨hundefined, p, huse⟩
    have hlookup := lookup_call_of_clear (no_firstViolation_iff.1 hclear) hundefined huse
    have hdeclared := hdeclares function hundefined
    rw [List.nil_append, hlookup] at hdeclared
    exact mem_of_lookup hdeclared

/-- Declarations in the order of their names do not depend on the order in which they were made. -/
theorem sortedDeclarations_eq {declared declared' : Arities}
    (h : (declared.map Prod.fst).Nodup) (hperm : declared.Perm declared') :
    sortedDeclarations declared = sortedDeclarations declared' := by
  have hnames : ∀ declared : Arities, (declared.map Prod.fst).Nodup →
      (sortedDeclarations declared).Pairwise fun a b => a.name < b.name := by
    intro declared hdistinct
    refine List.pairwise_map.1 (sorted_declarations ?_)
    rwa [List.map_map]
  have hsame : (sortedDeclarations declared).Perm (sortedDeclarations declared') :=
    ((List.mergeSort_perm _ _).trans (hperm.map _)).trans (List.mergeSort_perm _ _).symm
  refine hsame.eq_of_pairwise (fun a b _ _ hab hba => absurd hab (lt_asymm hba)) (hnames _ h)
    (hnames _ ?_)
  exact (hperm.map Prod.fst).nodup_iff.1 h

/-- Programs of the same functions have the same functions declared. -/
theorem declared_perm {program program' : Program} {declared declared' : Arities}
    (hperm : program.functions.Perm program'.functions)
    (h : checks (arities program) [] program.places = .ok declared)
    (h' : checks (arities program') [] program'.places = .ok declared') :
    declared.Perm declared' := by
  rw [List.perm_ext_iff_of_nodup (nodup_keys_declared h).of_map (nodup_keys_declared h').of_map]
  rintro ⟨function, supplied⟩
  rw [mem_declared_iff h, mem_declared_iff h', mem_names_of_perm hperm]
  simp only [mem_uses_of_perm hperm]

/-- The lines of declarations that the text of a module ends with. -/
def ModuleCode.trailer (m : ModuleCode) : String :=
  if m.declarations.isEmpty then "" else
    "\n" ++ String.join (m.declarations.map Declaration.text)

theorem ModuleCode.text_eq_trailer (m : ModuleCode) :
    m.text = m.heading ++ String.join (m.functions.map fun c => "\n" ++ c.text) ++ m.trailer := by
  rw [m.text_eq_heading, String.append_assoc]
  rfl

/-- What a program is lowered to is, in another order, made of the same parts. -/
theorem codes_of_reordered {name sourceName : String} {program : Program}
    {order : Equiv.Perm (Fin program.functions.length)} {m m' : ModuleCode}
    (h : lower name sourceName program = .ok m)
    (h' : lower name sourceName (program.reordered order) = .ok m') :
    ∃ codes : Fin program.functions.length → FunctionCode,
      m.functions = List.ofFn codes ∧ m'.functions = List.ofFn (codes ∘ order) ∧
        m.heading = m'.heading ∧ m.declarations = m'.declarations := by
  obtain ⟨codes, declared, hcodes, hdeclared, rfl⟩ := of_lower_ok h
  obtain ⟨codes', declared', hcodes', hdeclared', rfl⟩ := of_lower_ok h'
  obtain ⟨code, hcode⟩ := exists_code
  refine ⟨fun i => code (program.functions.get i), ?_, ?_, rfl, ?_⟩
  · show codes = _
    have hmap : (List.ofFn program.functions.get).map code =
        List.ofFn fun i => code (program.functions.get i) := List.map_ofFn
    rw [hcode _ _ hcodes, ← hmap, List.ofFn_get]
  · show codes' = _
    rw [hcode _ _ hcodes', Program.reordered, List.map_ofFn]
    rfl
  · exact sortedDeclarations_eq (nodup_keys_declared hdeclared)
      (declared_perm (program.reordered_perm order).symm hdeclared hdeclared')

/-- **The order of the functions of a program does not matter.** In another order the program is
lowered just if it was before, and the text is made of the same lines of names, the same blocks in
the new order and the same declarations. -/
theorem lower_reordered (name sourceName : String) (program : Program)
    (order : Equiv.Perm (Fin program.functions.length)) :
    Alike (fun _ _ => True)
      (fun m m' => ∃ codes : Fin program.functions.length → FunctionCode,
        m.functions = List.ofFn codes ∧ m'.functions = List.ofFn (codes ∘ order) ∧
        m.heading = m'.heading ∧ m.trailer = m'.trailer ∧
        m.text = m.heading ++ String.join (List.ofFn fun i => "\n" ++ (codes i).text) ++
          m.trailer ∧
        m'.text = m.heading ++ String.join (List.ofFn fun i => "\n" ++ (codes (order i)).text) ++
          m.trailer)
      (lower name sourceName program) (lower name sourceName (program.reordered order)) := by
  have hperm := program.reordered_perm order
  have haccepted : (∃ m, lower name sourceName program = .ok m) ↔
      ∃ m', lower name sourceName (program.reordered order) = .ok m' := by
    rw [exists_lower_iff, exists_lower_iff]
    exact ⟨fun h => h.perm hperm.symm, fun h => h.perm hperm⟩
  cases h : lower name sourceName program with
  | error fault =>
    cases h' : lower name sourceName (program.reordered order) with
    | error fault' => exact .error trivial
    | ok m' =>
      obtain ⟨m, hm⟩ := haccepted.2 ⟨m', h'⟩
      rw [h] at hm
      cases hm
  | ok m =>
    obtain ⟨m', h'⟩ := haccepted.1 ⟨m, h⟩
    obtain ⟨codes, hcodes, hcodes', hheading, hdeclarations⟩ := codes_of_reordered h h'
    have htrailer : m.trailer = m'.trailer := by
      rw [ModuleCode.trailer, ModuleCode.trailer, hdeclarations]
    rw [h']
    refine .ok ⟨codes, hcodes, hcodes', hheading, htrailer, ?_, ?_⟩
    · rw [m.text_eq_trailer, hcodes, List.map_ofFn]
      rfl
    · rw [m'.text_eq_trailer, hcodes', List.map_ofFn, ← hheading, ← htrailer]
      rfl

end Ingot.Code
