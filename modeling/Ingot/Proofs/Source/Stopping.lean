import Ingot.Proofs.Source.Cursor
import Ingot.Proofs.Source.Moving
import Mathlib.Data.List.TakeWhile

/-!
# Every pass over the tokens stops

A pass with a cursor comes to what the readers come to, from wherever it stands in front of the
first end of the text: with the same answer in front of the same tokens, or with the same fault.
That is shown part by part, by induction on the calls that may stand inside one another, of which
there have to be some for each token that is left (`Pass.Gives`). So every pass ends. No loop goes
round without having moved the cursor on, as the readers leave fewer tokens than they are given.
What a pass may leave behind (`Cursor.Sound`) is kept by every step, so that it holds at the end
(`parse_stops`).
-/

namespace Ingot.Source

/-! ### What a pass may leave behind -/

/-- A cursor over the tokens that was looked at where there are tokens, and nowhere behind an end
of the text, and whose loops did not go round without having moved it on. -/
structure Cursor.Sound (tokens : List Token) (c : Cursor) : Prop where
  tokens_eq : c.tokens = tokens
  looks : ∀ i ∈ c.looks, i < tokens.length ∧ ∀ t ∈ tokens.take i, t.lexeme ≠ .finish
  turns : ∀ turn ∈ c.turns, turn.start < turn.stop

/-- The cursor stands in front of some tokens, behind which the text ends for the first time. -/
structure Cursor.At (tokens : List Token) (finish : Position) (rest : List Token) (c : Cursor) :
    Prop extends c.Sound tokens where
  stands : ∃ front behind, tokens = front ++ (rest ++ ⟨.finish, finish⟩ :: behind) ∧
    c.index = front.length ∧ ∀ t ∈ front ++ rest, t.lexeme ≠ .finish

/-- The number of tokens in front of the first end of the text. -/
def limit (tokens : List Token) : Nat := (tokens.takeWhile Token.isInner).length

/-- The token at a cursor in front of some tokens and an end of the text. -/
def headToken (finish : Position) (rest : List Token) : Token := rest.headD ⟨.finish, finish⟩

namespace Cursor.At

variable {tokens rest : List Token} {finish : Position} {c : Cursor} {t : Token}

theorem index_add (h : c.At tokens finish rest) : c.index + rest.length = limit tokens := by
  obtain ⟨front, behind, rfl, hindex, hinner⟩ := h.stands
  rw [limit, ← List.append_assoc,
    List.takeWhile_append_of_pos fun t ht => isInner_iff.2 (hinner t ht), hindex]
  simp [Token.isInner]

theorem getElem?_index (h : c.At tokens finish rest) :
    tokens[c.index]? = some (headToken finish rest) := by
  obtain ⟨front, behind, rfl, hindex, -⟩ := h.stands
  rw [hindex, List.getElem?_append_right (Nat.le_refl _), Nat.sub_self]
  cases rest <;> rfl

theorem inner (h : c.At tokens finish (t :: rest)) : t.lexeme ≠ .finish := by
  obtain ⟨front, behind, -, -, hinner⟩ := h.stands
  exact hinner t (by simp)

/-- The cursor is looked at. -/
theorem looked (h : c.At tokens finish rest) :
    { c with looks := c.index :: c.looks }.At tokens finish rest := by
  obtain ⟨front, behind, htokens, hindex, hinner⟩ := h.stands
  refine ⟨⟨h.tokens_eq, List.forall_mem_cons.2 ⟨⟨?_, ?_⟩, h.looks⟩, h.turns⟩,
    front, behind, htokens, hindex, hinner⟩
  · exact (List.getElem?_eq_some_iff.1 h.getElem?_index).1
  · rw [htokens, hindex, List.take_left]
    exact fun t ht => hinner t (List.mem_append_left _ ht)

/-- The cursor is moved on. -/
theorem moved (h : c.At tokens finish (t :: rest)) :
    { c with index := c.index + 1 }.At tokens finish rest := by
  obtain ⟨front, behind, htokens, hindex, hinner⟩ := h.stands
  refine ⟨⟨h.tokens_eq, h.looks, h.turns⟩, front ++ [t], behind, ?_, ?_, ?_⟩
  · rw [htokens, List.append_assoc]
    rfl
  · rw [List.length_append, hindex]
    rfl
  · rwa [List.append_assoc, List.singleton_append]

/-- A loop goes round, having moved the cursor on. -/
theorem wentRound (h : c.At tokens finish rest) (loop : Loop) {start : Nat}
    (hlt : start < c.index) :
    { c with turns := ⟨loop, start, c.index⟩ :: c.turns }.At tokens finish rest :=
  ⟨⟨h.tokens_eq, h.looks, List.forall_mem_cons.2 ⟨hlt, h.turns⟩⟩, h.stands⟩

end Cursor.At

namespace Reader

variable {α β γ : Type}

theorem map_bind (r : Reader α) (next : α → Reader β) (g : β → γ) :
    (r.bind next).map g = r.bind fun a => (next a).map g := by
  funext finish tokens
  simp only [Reader.map, Reader.bind]
  cases r finish tokens <;> rfl

theorem map_map (r : Reader α) (f : α → β) (g : β → γ) :
    (r.map f).map g = r.map fun a => g (f a) :=
  map_bind r _ g

theorem map_afterComma (more last : Reader α) (g : α → β) :
    (afterComma more last).map g = afterComma (more.map g) (last.map g) := by
  funext finish tokens
  cases tokens with
  | nil => rfl
  | cons t rest =>
    simp only [Reader.map, Reader.bind, afterComma]
    by_cases hcomma : t.lexeme = .comma
    · simp only [if_pos hcomma]
    · simp only [if_neg hcomma]

theorem map_congr {r s : Reader α} {f : α → β} {finish : Position} {tokens : List Token}
    (h : r finish tokens = s finish tokens) : r.map f finish tokens = s.map f finish tokens := by
  rw [Reader.map, Reader.map, Reader.bind, Reader.bind, h]

theorem map_of_ok {r : Reader α} {f : α → β} {finish : Position} {tokens rest : List Token} {a : α}
    (h : r finish tokens = .ok (a, rest)) : r.map f finish tokens = .ok (f a, rest) := by
  rw [Reader.map, Reader.bind, h]

theorem map_of_error {r : Reader α} {f : α → β} {finish : Position} {tokens : List Token}
    {fault : Fault} (h : r finish tokens = .error fault) :
    r.map f finish tokens = .error fault := by
  rw [Reader.map, Reader.bind, h]

theorem map_nil_append (r : Reader (List α)) : (r.map fun more => [] ++ more) = r := by
  funext finish tokens
  simp only [Reader.map, Reader.bind, List.nil_append]
  cases r finish tokens <;> rfl

/-- What was found before stays in front of what a row is read as, from its first element on. -/
theorem map_append_cons {r : Reader α} {rs : Reader (List α)} {finish : Position}
    {tokens : List Token} (found : List α)
    (h : rs finish tokens = (r.bind fun next => rs.map fun more => next :: more) finish tokens) :
    rs.map (found ++ ·) finish tokens =
      (r.bind fun next => rs.map fun more => found ++ [next] ++ more) finish tokens := by
  simp only [List.append_assoc, List.singleton_append]
  rw [map_congr h, map_bind]
  simp only [map_map]

end Reader

/-! ### Passes that come to what readers come to -/

namespace Pass

variable {α β : Type} {tokens rest : List Token} {finish : Position}
  {outcome : Except Fault (α × List Token)}

theorem bind_of_ok {x : Pass α} {f : α → Pass β} {c c' : Cursor} {a : α}
    (h : x c = some (.ok a, c')) : (x >>= f) c = f a c' := by
  show (x c >>= fun r => (ExceptT.bindCont f r.1) r.2) = f a c'
  rw [h]
  rfl

theorem bind_of_error {x : Pass α} {f : α → Pass β} {c c' : Cursor} {fault : Fault}
    (h : x c = some (.error fault, c')) : (x >>= f) c = some (.error fault, c') := by
  show (x c >>= fun r => (ExceptT.bindCont f r.1) r.2) = _
  rw [h]
  rfl

/-- From in front of some tokens, a part of a pass comes to what reading them comes to: it ends
with the same fault, or with the same answer and in front of the same tokens. -/
def Gives (x : Pass α) (tokens : List Token) (finish : Position) (rest : List Token)
    (outcome : Except Fault (α × List Token)) : Prop :=
  ∀ c : Cursor, c.At tokens finish rest →
    match outcome with
    | .error fault => ∃ c', x c = some (.error fault, c') ∧ c'.Sound tokens
    | .ok (a, rest') => ∃ c', x c = some (.ok a, c') ∧ c'.At tokens finish rest'

theorem gives_pure (a : α) : (pure a : Pass α).Gives tokens finish rest (.ok (a, rest)) :=
  fun c h => ⟨c, rfl, h⟩

theorem Gives.bind {x : Pass α} {f : α → Pass β} {r : Reader α} {next : α → Reader β}
    (hx : x.Gives tokens finish rest (r finish rest))
    (hf : ∀ a rest', r finish rest = .ok (a, rest') →
      (f a).Gives tokens finish rest' (next a finish rest')) :
    (x >>= f).Gives tokens finish rest (r.bind next finish rest) := by
  intro c h
  have hfirst := hx c h
  rw [Reader.bind]
  cases hread : r finish rest with
  | error fault =>
    rw [hread] at hfirst
    obtain ⟨c', hc', hsound⟩ := hfirst
    exact ⟨c', bind_of_error hc', hsound⟩
  | ok read =>
    obtain ⟨a, rest'⟩ := read
    rw [hread] at hfirst
    obtain ⟨c', hc', hat⟩ := hfirst
    rw [bind_of_ok hc']
    exact hf a rest' hread c' hat

/-- Nothing is done behind a fault. -/
theorem Gives.stop {x : Pass α} {f : α → Pass β} {fault : Fault}
    (hx : x.Gives tokens finish rest (.error fault)) :
    (x >>= f).Gives tokens finish rest (.error fault) := by
  intro c hc
  obtain ⟨c', hc', hsound⟩ := hx c hc
  exact ⟨c', bind_of_error hc', hsound⟩

theorem Gives.map {x : Pass α} {r : Reader α} (g : α → β)
    (hx : x.Gives tokens finish rest (r finish rest)) :
    (x >>= fun a => pure (g a)).Gives tokens finish rest (r.map g finish rest) :=
  hx.bind fun _ _ _ => gives_pure _

theorem Gives.peek {f : Token → Pass α}
    (h : (f (headToken finish rest)).Gives tokens finish rest outcome) :
    (peek >>= f).Gives tokens finish rest outcome := by
  intro c hc
  have hlength : c.index < tokens.length := (List.getElem?_eq_some_iff.1 hc.getElem?_index).1
  have hpeek : Pass.peek c =
      some (.ok (headToken finish rest), { c with looks := c.index :: c.looks }) := by
    rw [Pass.peek, hc.tokens_eq, Nat.min_eq_left (by omega), hc.getElem?_index]
    rfl
  rw [bind_of_ok hpeek]
  exact h _ hc.looked

theorem Gives.advance {t : Token} {f : Token → Pass α}
    (h : (f t).Gives tokens finish rest outcome) :
    (advance >>= f).Gives tokens finish (t :: rest) outcome := by
  rw [Pass.advance, bind_assoc]
  refine .peek ?_
  intro c hc
  have hinner : (headToken finish (t :: rest)).lexeme ≠ .finish := hc.inner
  rw [if_pos hinner]
  exact h _ hc.moved

theorem Gives.check {l : Lexeme} {f : Bool → Pass α}
    (h : (f ((headToken finish rest).lexeme = l)).Gives tokens finish rest outcome) :
    (check l >>= f).Gives tokens finish rest outcome := by
  rw [Pass.check, bind_assoc]
  exact .peek h

theorem check_head {l : Lexeme} (hl : l ≠ .finish) :
    (headToken finish rest).lexeme = l ↔ ahead rest = some l := by
  cases rest with
  | nil =>
    constructor
    · intro h
      exact absurd h.symm hl
    · intro h
      cases h
  | cons t rest => exact Option.some_inj.symm

theorem Gives.check_pos {l : Lexeme} {p : Position} {f : Bool → Pass α}
    (h : (f true).Gives tokens finish (⟨l, p⟩ :: rest) outcome) :
    (Pass.check l >>= f).Gives tokens finish (⟨l, p⟩ :: rest) outcome := by
  have hl : decide ((headToken finish (⟨l, p⟩ :: rest)).lexeme = l) = true := decide_eq_true rfl
  exact .check (by rwa [hl])

theorem Gives.check_neg {l : Lexeme} (hl : l ≠ .finish) {f : Bool → Pass α}
    (hahead : ahead rest ≠ some l) (h : (f false).Gives tokens finish rest outcome) :
    (Pass.check l >>= f).Gives tokens finish rest outcome :=
  .check (by rwa [decide_eq_false fun heq => hahead ((check_head hl).1 heq)])

theorem Gives.check_end {f : Bool → Pass α} (h : (f true).Gives tokens finish [] outcome) :
    (Pass.check .finish >>= f).Gives tokens finish [] outcome := by
  have hend : decide ((headToken finish []).lexeme = .finish) = true := decide_eq_true rfl
  exact .check (by rwa [hend])

theorem Gives.check_inner {t : Token} {f : Bool → Pass α}
    (h : (f false).Gives tokens finish (t :: rest) outcome) :
    (Pass.check .finish >>= f).Gives tokens finish (t :: rest) outcome := by
  intro c hc
  have ht : decide ((headToken finish (t :: rest)).lexeme = .finish) = false :=
    decide_eq_false hc.inner
  exact Gives.check (by rwa [ht]) c hc

theorem Gives.eat_pos {l : Lexeme} {p : Position} {f : Bool → Pass α}
    (h : (f true).Gives tokens finish rest outcome) :
    (eat l >>= f).Gives tokens finish (⟨l, p⟩ :: rest) outcome := by
  rw [Pass.eat, bind_assoc]
  refine .check_pos ?_
  rw [if_pos rfl, bind_assoc]
  exact .advance h

theorem Gives.eat_neg {l : Lexeme} (hl : l ≠ .finish) {f : Bool → Pass α}
    (hahead : ahead rest ≠ some l) (h : (f false).Gives tokens finish rest outcome) :
    (eat l >>= f).Gives tokens finish rest outcome := by
  rw [Pass.eat, bind_assoc]
  refine .check_neg hl hahead ?_
  exact h

theorem Gives.expect_pos {l : Lexeme} {p : Position} {f : Position → Pass α}
    (h : (f p).Gives tokens finish rest outcome) :
    (expect l >>= f).Gives tokens finish (⟨l, p⟩ :: rest) outcome := by
  rw [expect, bind_assoc]
  refine .check_pos ?_
  rw [if_pos rfl, bind_assoc]
  exact .advance h

/-- Going on in one way behind a comma and in another way in front of something else. -/
theorem Gives.eatComma {f : Bool → Pass α} {more last : Reader α}
    (hmore : ∀ q rest', rest = ⟨.comma, q⟩ :: rest' →
      (f true).Gives tokens finish rest' (more finish rest'))
    (hlast : (f false).Gives tokens finish rest (last finish rest)) :
    (eat .comma >>= f).Gives tokens finish rest (Reader.afterComma more last finish rest) := by
  by_cases hcomma : ahead rest = some .comma
  · obtain ⟨q, rest, rfl⟩ := exists_of_ahead hcomma
    rw [Reader.afterComma, if_pos rfl]
    exact .eat_pos (hmore q rest rfl)
  · have hread : Reader.afterComma more last finish rest = last finish rest := by
      cases rest with
      | nil => rfl
      | cons t rest => exact if_neg fun heq => hcomma (congrArg some heq)
    rw [hread]
    exact .eat_neg Lexeme.noConfusion hcomma hlast

/-- Going on behind an operator, or stopping in front of something else. -/
theorem Gives.afterSign {op? : Lexeme → Option BinaryOp} (hend : op? .finish = none)
    {more : BinaryOp → Position → Pass Expr} {more' : BinaryOp → Position → Reader Expr}
    {last : Expr} (hmore : ∀ t rest' op, rest = t :: rest' →
      (more op t.position).Gives tokens finish rest' (more' op t.position finish rest')) :
    (afterSign op? last more).Gives tokens finish rest
      (Reader.afterSign op? more' last finish rest) := by
  refine .peek ?_
  cases rest with
  | nil =>
    rw [show op? (headToken finish []).lexeme = none from hend]
    exact gives_pure last
  | cons t rest =>
    rw [show headToken finish (t :: rest) = t from rfl, Reader.afterSign]
    cases op? t.lexeme with
    | none => exact gives_pure last
    | some op => exact .advance (hmore t rest op rfl)

theorem gives_refuse (expected : Expectation) :
    (refuse expected : Pass α).Gives tokens finish rest
      (.error (unexpected finish expected rest)) := by
  have h : (throw (unexpected finish expected rest) : Pass α).Gives tokens finish rest
      (.error (unexpected finish expected rest)) := fun c hc => ⟨c, rfl, hc.toSound⟩
  refine .peek ?_
  cases rest <;> exact h

theorem Gives.place {f : Nat → Pass α}
    (h : ∀ n, n + rest.length = limit tokens → (f n).Gives tokens finish rest outcome) :
    (place >>= f).Gives tokens finish rest outcome :=
  fun c hc => h c.index hc.index_add c hc

theorem Gives.goRound {x : Pass α} {loop : Loop} {n : Nat} {rest₀ : List Token}
    (hn : n + rest₀.length = limit tokens) (hlt : rest.length < rest₀.length)
    (h : x.Gives tokens finish rest outcome) :
    (goRound loop n >>= fun _ => x).Gives tokens finish rest outcome := by
  intro c hc
  have hindex := hc.index_add
  exact h _ (hc.wentRound loop (by omega))

/-- Going on behind a part that is closed by a lexeme. -/
theorem Gives.close {x : Pass α} {l : Lexeme} {f : α → Pass β} {r : Reader α}
    {next : α → Reader β}
    (hx : (x >>= fun a => expect l >>= fun _ => pure a).Gives tokens finish rest (r finish rest))
    (hf : ∀ a rest', r finish rest = .ok (a, rest') →
      (f a).Gives tokens finish rest' (next a finish rest')) :
    (x >>= fun a => expect l >>= fun _ => f a).Gives tokens finish rest
      (r.bind next finish rest) := by
  have h := hx.bind hf
  simpa only [bind_assoc, pure_bind] using h

/-! ### Single tokens -/

theorem expect_gives {l : Lexeme} (hl : l ≠ .finish) (rest : List Token) :
    (expect l).Gives tokens finish rest (lexemeReader l finish rest) := by
  by_cases hahead : ahead rest = some l
  · obtain ⟨p, rest, rfl⟩ := exists_of_ahead hahead
    rw [show lexemeReader l finish (⟨l, p⟩ :: rest) = .ok (p, rest) from
      outcome_readLexemeOf finish l p rest]
    rw [← bind_pure (expect l)]
    exact .expect_pos (gives_pure p)
  · have hread : lexemeReader l finish rest = .error (unexpected finish (.lexeme l) rest) := by
      cases rest with
      | nil => rfl
      | cons t rest => exact congrArg Reading.outcome (if_neg fun heq => hahead (congrArg some heq))
    rw [hread]
    exact .check_neg hl hahead (gives_refuse _)

/-- A row in parentheses is empty, or goes on in front of something else. -/
theorem Gives.inParens {more : Pass (List α)} {r : Reader (List α)}
    (hclosed : ∀ q rest', r finish (⟨.rightParen, q⟩ :: rest') = .ok ([], rest'))
    (hmore : ahead rest ≠ some .rightParen →
      (more >>= fun xs => expect .rightParen >>= fun _ => pure xs).Gives tokens finish rest
        (r finish rest)) :
    ((Pass.check .rightParen >>= fun closed => if closed = true then pure [] else more) >>=
      fun xs => expect .rightParen >>= fun _ => pure xs).Gives tokens finish rest
        (r finish rest) := by
  rw [bind_assoc]
  by_cases hparen : ahead rest = some .rightParen
  · obtain ⟨q, rest, rfl⟩ := exists_of_ahead hparen
    refine .check_pos ?_
    rw [if_pos rfl, pure_bind, hclosed]
    exact .expect_pos (gives_pure [])
  · exact .check_neg Lexeme.noConfusion hparen (hmore hparen)

theorem expectName_gives (rest : List Token) :
    expectName.Gives tokens finish rest (Reader.of readName finish rest) := by
  by_cases hahead : ∃ name, ahead rest = some (.name name)
  · obtain ⟨name, hname⟩ := hahead
    obtain ⟨p, rest, rfl⟩ := exists_of_ahead hname
    exact .peek (.advance (gives_pure _))
  · rw [show Reader.of readName finish rest = .error (unexpected finish .identifier rest) from
      congrArg Reading.outcome (readName_stops hahead finish)]
    refine .peek ?_
    split
    · rename_i name heq
      exact absurd ⟨name, (check_head Lexeme.noConfusion).1 heq⟩ hahead
    · exact gives_refuse _

theorem of_readType : Reader.of readType = (Reader.of readName).bind fun named => fun _ rest =>
    if named.1 = valueType then .ok ((), rest)
    else .error (.grammar named.2 (.unknownType named.1)) := by
  funext finish rest
  show (readType finish rest).outcome = _
  rw [readType, Reader.bind, Reader.of]
  rcases readName finish rest with fault | ⟨⟨⟨name, p⟩, rest'⟩, hlt⟩
  · rfl
  · simp only [Reading.outcome]
    by_cases htype : name = valueType
    · simp only [if_pos htype]
    · simp only [if_neg htype]

theorem expectType_gives (rest : List Token) :
    expectType.Gives tokens finish rest (Reader.of readType finish rest) := by
  rw [of_readType]
  refine (expectName_gives rest).bind fun named rest' _ => ?_
  obtain ⟨name, p⟩ := named
  by_cases htype : name = valueType
  · simp only [if_pos htype]
    exact gives_pure ()
  · simp only [if_neg htype]
    exact fun c hc => ⟨c, rfl, hc.toSound⟩

/-! ### Expressions -/

-- A part may need nine calls for each token that is left, and beyond these as many as its place in
-- the chain of the parts that call one another before a token is taken.
mutual

theorem sum_gives : ∀ (n : ℕ) (rest : List Token), 9 * rest.length + 5 < n →
    (sum n).Gives tokens finish rest (Reader.of readSum finish rest)
  | 0, _, hn => absurd hn (Nat.not_lt_zero _)
  | n + 1, rest, hn => by
    rw [sum, of_readSum]
    refine (product_gives n rest (by omega)).bind fun left rest' hread => ?_
    have hlt : rest'.length < rest.length := Reader.length_lt_of_read hread
    exact terms_gives n left rest' (by omega)

theorem terms_gives : ∀ (n : ℕ) (left : Expr) (rest : List Token), 9 * rest.length + 4 < n →
    (terms n left).Gives tokens finish rest (sumAfterReader left finish rest)
  | 0, _, _, hn => absurd hn (Nat.not_lt_zero _)
  | n + 1, left, rest, hn => by
    rw [terms, of_readSumAfter]
    refine .place fun start hstart => .afterSign rfl ?_
    rintro t rest' op rfl
    rw [List.length_cons] at hn
    refine (product_gives n rest' (by omega)).bind fun right rest'' hread => ?_
    have hlt : rest''.length < rest'.length := Reader.length_lt_of_read hread
    exact .goRound hstart (Nat.lt_succ_of_lt hlt) (terms_gives n _ rest'' (by omega))

theorem product_gives : ∀ (n : ℕ) (rest : List Token), 9 * rest.length + 3 < n →
    (product n).Gives tokens finish rest (Reader.of readProduct finish rest)
  | 0, _, hn => absurd hn (Nat.not_lt_zero _)
  | n + 1, rest, hn => by
    rw [product, of_readProduct]
    refine (unary_gives n rest (by omega)).bind fun left rest' hread => ?_
    have hlt : rest'.length < rest.length := Reader.length_lt_of_read hread
    exact factors_gives n left rest' (by omega)

theorem factors_gives : ∀ (n : ℕ) (left : Expr) (rest : List Token), 9 * rest.length + 2 < n →
    (factors n left).Gives tokens finish rest (productAfterReader left finish rest)
  | 0, _, _, hn => absurd hn (Nat.not_lt_zero _)
  | n + 1, left, rest, hn => by
    rw [factors, of_readProductAfter]
    refine .place fun start hstart => .afterSign rfl ?_
    rintro t rest' op rfl
    rw [List.length_cons] at hn
    refine (unary_gives n rest' (by omega)).bind fun right rest'' hread => ?_
    have hlt : rest''.length < rest'.length := Reader.length_lt_of_read hread
    exact .goRound hstart (Nat.lt_succ_of_lt hlt) (factors_gives n _ rest'' (by omega))

theorem unary_gives : ∀ (n : ℕ) (rest : List Token), 9 * rest.length + 1 < n →
    (unary n).Gives tokens finish rest (Reader.of readUnary finish rest)
  | 0, _, hn => absurd hn (Nat.not_lt_zero _)
  | n + 1, rest, hn => by
    rw [unary]
    by_cases hminus : ahead rest = some .minus
    · obtain ⟨p, rest, rfl⟩ := exists_of_ahead hminus
      rw [List.length_cons] at hn
      have hoperand := unary_gives n rest (by omega)
      rw [readUnary_minus]
      exact .check_pos (.advance (hoperand.map fun operand => Expr.neg operand p))
    · exact .check_neg Lexeme.noConfusion hminus (primary_gives n rest (by omega) hminus)

theorem primary_gives : ∀ (n : ℕ) (rest : List Token), 9 * rest.length < n →
    ahead rest ≠ some .minus →
    (primary n).Gives tokens finish rest (Reader.of readUnary finish rest)
  | 0, _, hn, _ => absurd hn (Nat.not_lt_zero _)
  | n + 1, [], _, _ => by
    rw [primary, readUnary_stops]
    · exact .peek (gives_refuse .expression)
    · rintro l ⟨⟩
  | n + 1, ⟨l, p⟩ :: rest, hn, hminus => by
    rw [List.length_cons] at hn
    rw [primary]
    refine .peek ?_
    cases l with
    | minus => exact absurd rfl hminus
    | number value =>
      rw [readUnary_number]
      exact .advance (gives_pure _)
    | name name =>
      refine .advance ?_
      by_cases hparen : ahead rest = some .leftParen
      · obtain ⟨q, rest, rfl⟩ := exists_of_ahead hparen
        rw [List.length_cons] at hn
        have harguments := callArguments_gives n rest (by omega)
        rw [readUnary_call]
        exact .eat_pos (harguments.close fun es rest' _ => gives_pure (Expr.call name es p))
      · rw [readUnary_var finish name p hparen]
        exact .eat_neg Lexeme.noConfusion hparen (gives_pure _)
    | leftParen =>
      rw [readUnary_paren]
      refine .advance ((sum_gives n rest (by omega)).bind fun inner rest' _ => ?_)
      exact (expect_gives Lexeme.noConfusion rest').map fun _ => inner
    | _ =>
      rw [readUnary_stops]
      · exact gives_refuse .expression
      · rintro l ⟨⟩
        exact id

theorem callArguments_gives : ∀ (n : ℕ) (rest : List Token), 9 * rest.length + 7 < n →
    (callArguments n >>= fun es => expect .rightParen >>= fun _ => pure es).Gives tokens finish rest
      (Reader.of readArguments finish rest)
  | 0, _, hn => absurd hn (Nat.not_lt_zero _)
  | n + 1, rest, hn => by
    rw [callArguments]
    refine .inParens (fun q _ => IsArguments.none.read finish q) fun hparen => ?_
    rw [readArguments_more hparen, ← Reader.map_nil_append (Reader.of readMoreArguments)]
    exact arguments_gives n [] rest (by omega)

theorem arguments_gives : ∀ (n : ℕ) (found : List Expr) (rest : List Token),
    9 * rest.length + 6 < n →
    (arguments n found >>= fun es => expect .rightParen >>= fun _ => pure es).Gives tokens finish
      rest ((Reader.of readMoreArguments).map (found ++ ·) finish rest)
  | 0, _, _, hn => absurd hn (Nat.not_lt_zero _)
  | n + 1, found, rest, hn => by
    rw [arguments, bind_assoc, of_readMoreArguments, Reader.map_bind]
    refine .place fun start hstart => ?_
    rw [bind_assoc]
    refine (sum_gives n rest (by omega)).bind fun first rest' hread => ?_
    have hlt : rest'.length < rest.length := Reader.length_lt_of_read hread
    rw [bind_assoc, Reader.map_afterComma, Reader.map_map, Reader.map_map]
    refine .eatComma ?_ ?_
    · rintro q rest'' rfl
      have hlt' : rest''.length < rest.length := Nat.lt_of_succ_lt hlt
      have hmore := arguments_gives n (found ++ [first]) rest'' (by omega)
      simp only [List.append_assoc, List.singleton_append] at hmore
      rw [if_pos rfl, bind_assoc]
      exact .goRound hstart hlt' hmore
    · exact (expect_gives Lexeme.noConfusion rest').map fun _ => found ++ [first]

end

/-! ### Statements and functions -/

theorem statement_gives (n : ℕ) (rest : List Token) (hn : 9 * rest.length + 5 < n) :
    (statement n).Gives tokens finish rest (Reader.of readStatement finish rest) := by
  rw [statement]
  refine .peek ?_
  by_cases hlet : ahead rest = some .letWord
  · obtain ⟨p, rest, rfl⟩ := exists_of_ahead hlet
    rw [List.length_cons] at hn
    rw [readStatement_bind]
    refine .eat_pos ((expectName_gives rest).bind fun named rest₁ hname => ?_)
    have hlt₁ : rest₁.length < rest.length := Reader.length_lt_of_read hname
    refine (expect_gives Lexeme.noConfusion rest₁).bind fun _ rest₂ hequals => ?_
    have hlt₂ : rest₂.length < rest₁.length := Reader.length_lt_of_read hequals
    refine (sum_gives n rest₂ (by omega)).bind fun value rest₃ _ => ?_
    exact (expect_gives Lexeme.noConfusion rest₃).map fun _ => Statement.bind named.1 value p
  refine .eat_neg Lexeme.noConfusion hlet ?_
  by_cases hreturn : ahead rest = some .returnWord
  · obtain ⟨p, rest, rfl⟩ := exists_of_ahead hreturn
    rw [List.length_cons] at hn
    rw [readStatement_result]
    refine .eat_pos ((sum_gives n rest (by omega)).bind fun value rest₁ _ => ?_)
    exact (expect_gives Lexeme.noConfusion rest₁).map fun _ => Statement.result value p
  refine .eat_neg Lexeme.noConfusion hreturn ?_
  rw [readStatement_effect hlet hreturn]
  refine (sum_gives n rest hn).bind fun value rest₁ _ => ?_
  exact (expect_gives Lexeme.noConfusion rest₁).map fun _ => Statement.effect value

theorem statements_gives : ∀ (n : ℕ) (found : List Statement) (rest : List Token),
    9 * rest.length + 6 < n →
    (statements n found >>= fun ss => expect .rightBrace >>= fun _ => pure ss).Gives tokens finish
      rest ((Reader.of readStatements).map (found ++ ·) finish rest)
  | 0, _, _, hn => absurd hn (Nat.not_lt_zero _)
  | n + 1, found, rest, hn => by
    rw [statements, bind_assoc]
    refine .place fun start hstart => ?_
    rw [bind_assoc]
    by_cases hbrace : ahead rest = some .rightBrace
    · obtain ⟨q, rest, rfl⟩ := exists_of_ahead hbrace
      have hread : Reader.of readStatements finish (⟨.rightBrace, q⟩ :: rest) = .ok ([], rest) :=
        IsStatements.nil.read finish q rest
      rw [Reader.map_of_ok hread, List.append_nil]
      exact .check_pos (.expect_pos (gives_pure found))
    refine .check_neg Lexeme.noConfusion hbrace ?_
    rw [if_neg Bool.false_ne_true, bind_assoc]
    cases rest with
    | nil =>
      rw [Reader.map_of_error (readStatements_nil finish)]
      exact .check_end (gives_refuse _).stop
    | cons t rest =>
      have ht : t.lexeme ≠ .rightBrace := fun heq => hbrace (congrArg some heq)
      rw [Reader.map_append_cons found (readStatements_cons ht finish rest)]
      refine .check_inner ?_
      rw [if_neg Bool.false_ne_true, bind_assoc]
      refine (statement_gives n _ (by omega)).bind fun next rest' hnext => ?_
      have hlt : rest'.length < (t :: rest).length := Reader.length_lt_of_read hnext
      rw [bind_assoc]
      exact .goRound hstart hlt (statements_gives n (found ++ [next]) rest' (by omega))

theorem parameters_gives : ∀ (n : ℕ) (found : List Parameter) (rest : List Token),
    9 * rest.length < n →
    (parameters n found >>= fun ps => expect .rightParen >>= fun _ => pure ps).Gives tokens finish
      rest ((Reader.of readMoreParameters).map (found ++ ·) finish rest)
  | 0, _, _, hn => absurd hn (Nat.not_lt_zero _)
  | n + 1, found, rest, hn => by
    rw [parameters, bind_assoc, of_readMoreParameters, Reader.map_bind]
    refine .place fun start hstart => ?_
    rw [bind_assoc]
    refine (expectName_gives rest).bind fun named rest₁ hname => ?_
    have hlt₁ : rest₁.length < rest.length := Reader.length_lt_of_read hname
    obtain ⟨name, p⟩ := named
    simp only [bind_assoc, Reader.map_bind]
    refine (expect_gives Lexeme.noConfusion rest₁).bind fun _ rest₂ hcolon => ?_
    have hlt₂ : rest₂.length < rest₁.length := Reader.length_lt_of_read hcolon
    refine (expectType_gives rest₂).bind fun _ rest₃ htype => ?_
    have hlt₃ : rest₃.length < rest₂.length := Reader.length_lt_of_read htype
    rw [Reader.map_afterComma, Reader.map_map, Reader.map_map]
    refine .eatComma ?_ ?_
    · rintro q rest₄ rfl
      rw [List.length_cons] at hlt₃
      have hlt : rest₄.length < rest.length := by omega
      have hmore := parameters_gives n (found ++ [⟨name, p⟩]) rest₄ (by omega)
      simp only [List.append_assoc, List.singleton_append] at hmore
      rw [if_pos rfl, bind_assoc]
      exact .goRound hstart hlt hmore
    · exact (expect_gives Lexeme.noConfusion rest₃).map fun _ => found ++ [Parameter.mk name p]

theorem functionParameters_gives (n : ℕ) (rest : List Token) (hn : 9 * rest.length < n) :
    (functionParameters n >>= fun ps => expect .rightParen >>= fun _ => pure ps).Gives tokens finish
      rest (Reader.of readParameters finish rest) := by
  rw [functionParameters]
  refine .inParens (IsParameters.none.read finish) fun hparen => ?_
  rw [readParameters_more hparen, ← Reader.map_nil_append (Reader.of readMoreParameters)]
  exact parameters_gives n [] rest hn

theorem function_gives (n : ℕ) (rest : List Token) (hn : 9 * rest.length + 6 < n) :
    (function n).Gives tokens finish rest (Reader.of readFunction finish rest) := by
  rw [function, of_readFunction, ← Reader.map_nil_append (Reader.of readStatements)]
  refine (expect_gives Lexeme.noConfusion rest).bind fun position rest₁ h₁ => ?_
  refine (expectName_gives rest₁).bind fun named rest₂ h₂ => ?_
  refine (expect_gives Lexeme.noConfusion rest₂).bind fun _ rest₃ h₃ => ?_
  have hlt₁ : rest₁.length < rest.length := Reader.length_lt_of_read h₁
  have hlt₂ : rest₂.length < rest₁.length := Reader.length_lt_of_read h₂
  have hlt₃ : rest₃.length < rest₂.length := Reader.length_lt_of_read h₃
  refine (functionParameters_gives n rest₃ (by omega)).close fun found rest₄ h₄ => ?_
  refine (expect_gives Lexeme.noConfusion rest₄).bind fun _ rest₅ h₅ => ?_
  refine (expectType_gives rest₅).bind fun _ rest₆ h₆ => ?_
  refine (expect_gives Lexeme.noConfusion rest₆).bind fun _ rest₇ h₇ => ?_
  have hlt₄ : rest₄.length < rest₃.length := Reader.length_lt_of_read h₄
  have hlt₅ : rest₅.length < rest₄.length := Reader.length_lt_of_read h₅
  have hlt₆ : rest₆.length < rest₅.length := Reader.length_lt_of_read h₆
  have hlt₇ : rest₇.length < rest₆.length := Reader.length_lt_of_read h₇
  exact (statements_gives n [] rest₇ (by omega)).close fun body rest₈ _ => gives_pure _

theorem functions_gives : ∀ (n : ℕ) (found : List Function) (rest : List Token),
    9 * rest.length + 7 < n →
    (functions n found).Gives tokens finish rest (functionsReader.map (found ++ ·) finish rest)
  | 0, _, _, hn => absurd hn (Nat.not_lt_zero _)
  | n + 1, found, [], _ => by
    rw [functions, Reader.map_of_ok (functionsReader_nil finish), List.append_nil]
    exact .place fun _ _ => .check_end (gives_pure found)
  | n + 1, found, t :: rest, hn => by
    rw [functions, Reader.map_append_cons found (functionsReader_cons finish t rest)]
    refine .place fun start hstart => .check_inner ?_
    refine (function_gives n _ (by omega)).bind fun next rest' hnext => ?_
    have hlt : rest'.length < (t :: rest).length := Reader.length_lt_of_read hnext
    exact .goRound hstart hlt (functions_gives n (found ++ [next]) rest' (by omega))

theorem program_gives (n : ℕ) (rest : List Token) (hn : 9 * rest.length + 7 < n) :
    (program n).Gives tokens finish rest (functionsReader.map Program.mk finish rest) := by
  rw [program, ← Reader.map_nil_append functionsReader]
  exact (functions_gives n [] rest hn).map Program.mk

end Pass

/-! ### Whole texts -/

section WholeTexts

variable {inner tokens : List Token} (hinner : ∀ t ∈ inner, t.lexeme ≠ .finish)
include hinner

theorem find?_isInner : inner.find? (fun t => !t.isInner) = none := by
  refine List.find?_eq_none.2 fun t ht => ?_
  simp [isInner_iff.2 (hinner t ht)]

/-- What stands behind the first end of the text is not read. -/
theorem parse_finish (p : Position) (behind : List Token) :
    parse (inner ++ ⟨.finish, p⟩ :: behind) =
      (functionsReader p inner).map fun read => ⟨read.1⟩ := by
  have hfinish : finishPosition (inner ++ ⟨.finish, p⟩ :: behind) = p := by
    rw [finishPosition, List.find?_append, find?_isInner hinner]
    rfl
  have htake : (inner ++ ⟨.finish, p⟩ :: behind).takeWhile Token.isInner = inner := by
    rw [List.takeWhile_append_of_pos fun t ht => isInner_iff.2 (hinner t ht)]
    exact List.append_nil inner
  rw [parse_eq, hfinish, htake]

/-- A text that has no end is read as if it ended at its last token. -/
theorem parse_endless : parse inner =
    (functionsReader (lastPosition inner) inner).map fun read => ⟨read.1⟩ := by
  have hfinish : finishPosition inner = lastPosition inner := by
    rw [finishPosition, find?_isInner hinner]
    rfl
  have htake : inner.takeWhile Token.isInner = inner :=
    List.takeWhile_eq_self_iff.2 fun t ht => isInner_iff.2 (hinner t ht)
  rw [parse_eq, hfinish, htake]

theorem closed_endless : closed inner = inner ++ [⟨.finish, lastPosition inner⟩] := by
  refine if_neg fun hfinish => ?_
  obtain ⟨t, ht, heq⟩ := Option.map_eq_some_iff.1 hfinish
  exact hinner t (List.mem_of_getLast? ht) heq

end WholeTexts

/-- Where some tokens have an end of the text among them, they have a first one. -/
theorem exists_first_finish {tokens : List Token} (h : ∃ t ∈ tokens, t.lexeme = .finish) :
    ∃ inner p behind, tokens = inner ++ ⟨.finish, p⟩ :: behind ∧
      ∀ t ∈ inner, t.lexeme ≠ .finish := by
  obtain ⟨t, ht, hfinish⟩ := h
  have hsplit : tokens.takeWhile Token.isInner ++ tokens.dropWhile Token.isInner = tokens :=
    List.takeWhile_append_dropWhile
  have hfind := tokens.find?_not_eq_head?_dropWhile Token.isInner
  cases hdrop : tokens.dropWhile Token.isInner with
  | nil =>
    have hall := List.dropWhile_eq_nil_iff.1 hdrop t ht
    exact absurd hfinish (isInner_iff.1 hall)
  | cons first behind =>
    rw [hdrop, List.head?_cons] at hfind
    obtain ⟨l, p⟩ := first
    obtain rfl : l = .finish := by
      have hnot := List.find?_some hfind
      simpa [Token.isInner] using hnot
    refine ⟨tokens.takeWhile Token.isInner, p, behind, ?_, ?_⟩
    · rw [← hdrop, hsplit]
    · exact fun t ht => isInner_iff.1 (List.mem_takeWhile_imp ht)

/-- The tokens in front of the first end that a pass finds are those that are read. -/
theorem exists_closed (tokens : List Token) : ∃ inner p behind,
    closed tokens = inner ++ ⟨.finish, p⟩ :: behind ∧ (∀ t ∈ inner, t.lexeme ≠ .finish) ∧
      inner.length ≤ tokens.length ∧
      parse tokens = (functionsReader p inner).map fun read => ⟨read.1⟩ := by
  by_cases hfinish : ∃ t ∈ tokens, t.lexeme = .finish
  · obtain ⟨inner, p, behind, rfl, hinner⟩ := exists_first_finish hfinish
    have hlength : inner.length ≤ (inner ++ ⟨.finish, p⟩ :: behind).length :=
      (List.sublist_append_left _ _).length_le
    have hparse := parse_finish hinner p behind
    -- an end may be put behind the last token though another one stands further up
    unfold closed
    split
    · exact ⟨inner, p, behind, rfl, hinner, hlength, hparse⟩
    · exact ⟨inner, p, behind ++ _, List.append_assoc _ _ _, hinner, hlength, hparse⟩
  · have hinner : ∀ t ∈ tokens, t.lexeme ≠ .finish := fun t ht heq => hfinish ⟨t, ht, heq⟩
    exact ⟨tokens, _, [], closed_endless hinner, hinner, Nat.le_refl _, parse_endless hinner⟩

/-- Every pass ends, with what the tokens are read as. -/
theorem exists_pass (tokens : List Token) {n : ℕ} (hn : 9 * tokens.length + 7 < n) :
    ∃ c : Cursor, pass n tokens = some (parse tokens, c) ∧ c.Sound (closed tokens) := by
  obtain ⟨inner, p, behind, hclosed, hinner, hlength, hparse⟩ := exists_closed tokens
  have hstart : Cursor.At (closed tokens) p inner ⟨closed tokens, 0, [], []⟩ :=
    ⟨⟨rfl, List.forall_mem_nil _, List.forall_mem_nil _⟩, [], behind, hclosed, rfl, hinner⟩
  have hend := Pass.program_gives n inner (by omega) _ hstart
  rw [hparse]
  cases hread : functionsReader p inner with
  | error fault =>
    rw [Reader.map_of_error hread] at hend
    exact hend
  | ok read =>
    rw [Reader.map_of_ok hread] at hend
    obtain ⟨c, hc, hat⟩ := hend
    exact ⟨c, hc, hat.toSound⟩

/-- **A text is read up to its first end, and reading stops.** For all tokens, also where none, or
several, of them end the text: the pass over them ends with what they are read as, and no more calls
stand inside one another than nine for each token and eight; none of its loops goes round without
having moved the cursor on; and it looks at no place behind the tokens, nor behind their first end.
So what stands behind the first end makes no difference, and a text without an end is read as if it
ended at its last token. -/
theorem parse_stops (tokens : List Token) :
    (∀ n, 9 * tokens.length + 7 < n → ∃ c : Cursor, pass n tokens = some (parse tokens, c) ∧
      (∀ turn ∈ c.turns, turn.start < turn.stop) ∧
      ∀ i ∈ c.looks, i < (closed tokens).length ∧
        ∀ t ∈ (closed tokens).take i, t.lexeme ≠ .finish) ∧
    (∀ inner p behind behind', (∀ t ∈ inner, t.lexeme ≠ .finish) →
      tokens = inner ++ ⟨.finish, p⟩ :: behind →
      parse (inner ++ ⟨.finish, p⟩ :: behind') = parse tokens) ∧
    ((∀ t ∈ tokens, t.lexeme ≠ .finish) →
      parse (tokens ++ [⟨.finish, lastPosition tokens⟩]) = parse tokens) := by
  refine ⟨?_, ?_, ?_⟩
  · intro n hn
    obtain ⟨c, hpass, hsound⟩ := exists_pass tokens hn
    exact ⟨c, hpass, hsound.turns, hsound.looks⟩
  · rintro inner p behind behind' hinner rfl
    rw [parse_finish hinner, parse_finish hinner]
  · intro hinner
    rw [parse_finish hinner, ← parse_endless hinner]

/-- A text that breaks off behind `fn`, and the same text with two ends put behind it. -/
theorem parse_stops_broken :
    (∃ c, pass 17 [⟨.fnWord, ⟨1, 1⟩⟩] = some (parse [⟨.fnWord, ⟨1, 1⟩⟩], c)) ∧
    parse [⟨.fnWord, ⟨1, 1⟩⟩, ⟨.finish, ⟨1, 1⟩⟩] = parse [⟨.fnWord, ⟨1, 1⟩⟩] ∧
    ∀ behind, parse (⟨.fnWord, ⟨1, 1⟩⟩ :: ⟨.finish, ⟨1, 1⟩⟩ :: behind) =
      parse [⟨.fnWord, ⟨1, 1⟩⟩, ⟨.finish, ⟨1, 1⟩⟩, ⟨.name "f", ⟨1, 4⟩⟩, ⟨.finish, ⟨1, 5⟩⟩] := by
  obtain ⟨hends, -, hendless⟩ := parse_stops [⟨.fnWord, ⟨1, 1⟩⟩]
  obtain ⟨c, hpass, -⟩ := hends 17 (by decide)
  obtain ⟨-, hbehind, -⟩ := parse_stops
    [⟨.fnWord, ⟨1, 1⟩⟩, ⟨.finish, ⟨1, 1⟩⟩, ⟨.name "f", ⟨1, 4⟩⟩, ⟨.finish, ⟨1, 5⟩⟩]
  refine ⟨⟨c, hpass⟩, hendless (by decide), fun behind => ?_⟩
  exact hbehind [⟨.fnWord, ⟨1, 1⟩⟩] ⟨1, 1⟩ _ behind (by decide) rfl

end Ingot.Source
