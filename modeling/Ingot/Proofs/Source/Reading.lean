import Ingot.Proofs.Source.Grammar

/-!
# The reader follows the grammar

Each reader takes from the front of the tokens a phrase with its tree (`Reading.Takes`), and if a
phrase stands there, it is taken, as long as what stands behind it cannot go on with it. So
**tokens are read as a program just when the grammar derives them, and the program is their only
tree** (`parse_derives`).
-/

namespace Ingot.Source

/-! ### What readings take -/

/-- A reading of tokens, if it comes to an end, has taken a part from the front of them that is
good for what was read. -/
def Reading.Takes {α : Type} {bound : Nat} (reading : Reading α bound) (tokens : List Token)
    (good : List Token → α → Prop) : Prop :=
  ∀ a rest h, reading = .ok ⟨(a, rest), h⟩ → ∃ front, tokens = front ++ rest ∧ good front a

namespace Reading

variable {α β : Type} {tokens : List Token} {good : List Token → α → Prop}
  {good' : List Token → β → Prop}

theorem takes_error {bound : Nat} (fault : Fault) :
    Takes (.error fault : Reading α bound) tokens good := by
  intro a rest h heq
  cases heq

theorem takes_done {a : α} (front : List Token) {rest : List Token} (hfront : good front a) :
    (done a rest).Takes (front ++ rest) good := by
  intro a' rest' h heq
  cases heq
  exact ⟨front, rfl, hfront⟩

theorem Takes.mono {bound : Nat} {reading : Reading α bound} {good' : List Token → α → Prop}
    (hr : reading.Takes tokens good) (h : ∀ front a, good front a → good' front a) :
    reading.Takes tokens good' := by
  intro a rest hlt heq
  obtain ⟨front, hfront, ha⟩ := hr a rest hlt heq
  exact ⟨front, hfront, h front a ha⟩

theorem Takes.widen {m n : Nat} {reading : Reading α m} (hr : reading.Takes tokens good)
    (h : m ≤ n) : (reading.widen h).Takes tokens good := by
  intro a rest hlt heq
  rcases reading with fault | ⟨⟨a', rest'⟩, h'⟩
  · cases heq
  · cases heq
    exact hr a rest h' rfl

theorem Takes.map {bound : Nat} {reading : Reading α bound} (hr : reading.Takes tokens good)
    {f : α → β} (hf : ∀ front a, good front a → good' front (f a)) :
    (reading.map f).Takes tokens good' := by
  intro b rest hlt heq
  rcases reading with fault | ⟨⟨a, rest'⟩, h'⟩
  · cases heq
  · cases heq
    obtain ⟨front, hfront, ha⟩ := hr a rest h' rfl
    exact ⟨front, hfront, hf front a ha⟩

/-- What is taken of the tokens behind a part is taken of all of them behind that part. -/
theorem Takes.of_front {bound : Nat} {reading : Reading α bound} (front : List Token)
    {rest : List Token} (hr : reading.Takes rest fun back a => good (front ++ back) a) :
    reading.Takes (front ++ rest) good := by
  intro a rest' h heq
  obtain ⟨back, rfl, ha⟩ := hr a rest' h heq
  exact ⟨front ++ back, (List.append_assoc _ _ _).symm, ha⟩

theorem Takes.behind {t : Token} {rest : List Token} {reading : Reading α rest.length}
    (hr : reading.Takes rest fun back a => good (t :: back) a) :
    (reading.behind t).Takes (t :: rest) good :=
  Takes.of_front [t] (hr.widen (Nat.le_succ _))

theorem Takes.andMaybe {bound : Nat} {reading : Reading α bound}
    (hr : reading.Takes tokens good)
    {next : (a : α) → (rest : List Token) → rest.length < bound → Reading β (rest.length + 1)}
    (hn : ∀ front a rest h, good front a →
      (next a rest h).Takes rest fun back b => good' (front ++ back) b) :
    (reading.andMaybe next).Takes tokens good' := by
  rcases reading with fault | ⟨⟨a, rest⟩, h⟩
  · exact takes_error fault
  · obtain ⟨front, rfl, ha⟩ := hr a rest h rfl
    exact ((hn front a rest h ha).widen h).of_front front

theorem Takes.andThen {bound : Nat} {reading : Reading α bound}
    (hr : reading.Takes tokens good)
    {next : (a : α) → (rest : List Token) → rest.length < bound → Reading β rest.length}
    (hn : ∀ front a rest h, good front a →
      (next a rest h).Takes rest fun back b => good' (front ++ back) b) :
    (reading.andThen next).Takes tokens good' := by
  rcases reading with fault | ⟨⟨a, rest⟩, h⟩
  · exact takes_error fault
  · obtain ⟨front, rfl, ha⟩ := hr a rest h rfl
    exact ((hn front a rest h ha).widen (Nat.le_of_lt h)).of_front front

end Reading

open Reading

section Readers

variable (finish : Position)

/-! ### Single tokens -/

theorem readLexemeOf_takes (expected : Lexeme) (tokens : List Token) :
    (readLexemeOf finish expected tokens).Takes tokens fun front p => front = [⟨expected, p⟩] := by
  rcases tokens with _ | ⟨⟨lexeme, p⟩, rest⟩
  · exact takes_error _
  · rw [readLexemeOf]
    split
    · rename_i heq
      obtain rfl : lexeme = expected := heq
      exact takes_done [⟨lexeme, p⟩] rfl
    · exact takes_error _

theorem readName_takes (tokens : List Token) :
    (readName finish tokens).Takes tokens fun front named =>
      front = [⟨.name named.1, named.2⟩] := by
  unfold readName
  split
  · rename_i text p rest
    exact takes_done [⟨.name text, p⟩] rfl
  · exact takes_error _

theorem readType_takes (tokens : List Token) :
    (readType finish tokens).Takes tokens fun front _ => ∃ p, front = [⟨.name valueType, p⟩] := by
  unfold readType
  split
  · exact takes_error _
  · rename_i name p rest hlt heq
    split
    · rename_i htype
      intro a rest' h heq'
      cases heq'
      obtain ⟨front, hfront, rfl⟩ := readName_takes finish tokens _ _ _ heq
      exact ⟨_, hfront, p, htype ▸ rfl⟩
    · exact takes_error _

/-! ### Expressions -/

theorem isSumOp {lexeme : Lexeme} {op : BinaryOp} (h : sumOp? lexeme = some op) :
    lexeme = op.lexeme ∧ (op = .add ∨ op = .sub) := by
  cases lexeme <;> cases h
  · exact ⟨rfl, .inl rfl⟩
  · exact ⟨rfl, .inr rfl⟩

theorem isProductOp {lexeme : Lexeme} {op : BinaryOp} (h : productOp? lexeme = some op) :
    lexeme = op.lexeme ∧ (op = .mul ∨ op = .div ∨ op = .rem) := by
  cases lexeme <;> cases h
  · exact ⟨rfl, .inl rfl⟩
  · exact ⟨rfl, .inr (.inl rfl)⟩
  · exact ⟨rfl, .inr (.inr rfl)⟩

mutual

theorem readSum_takes (tokens : List Token) :
    (readSum finish tokens).Takes tokens IsSum := by
  rw [readSum]
  refine (readProduct_takes tokens).andMaybe fun front left rest hlt hleft => ?_
  exact readSumAfter_takes front left rest (.product hleft)
termination_by (tokens.length, 4)

/-- What is left of a sum makes a longer sum of the one in front of it. -/
theorem readSumAfter_takes (front : List Token) (left : Expr) (tokens : List Token)
    (hleft : IsSum front left) :
    (readSumAfter finish left tokens).Takes tokens fun back e => IsSum (front ++ back) e := by
  match tokens with
  | [] =>
    rw [readSumAfter]
    exact takes_done [] ((List.append_nil front).symm ▸ hleft)
  | ⟨lexeme, p⟩ :: rest =>
    rw [readSumAfter]
    split
    · exact takes_done [] ((List.append_nil front).symm ▸ hleft)
    · rename_i op hop
      obtain ⟨rfl, hsign⟩ := isSumOp hop
      refine Takes.of_front [⟨op.lexeme, p⟩] (Takes.widen ?_ _)
      refine (readProduct_takes rest).andMaybe fun back right rest' hlt hright => ?_
      refine (readSumAfter_takes _ _ rest' (.more hsign hleft hright)).mono fun back' e he => ?_
      rw [List.append_assoc] at he
      exact he
termination_by (tokens.length, 3)

theorem readProduct_takes (tokens : List Token) :
    (readProduct finish tokens).Takes tokens IsProduct := by
  rw [readProduct]
  refine (readUnary_takes tokens).andMaybe fun front left rest hlt hleft => ?_
  exact readProductAfter_takes front left rest (.unary hleft)
termination_by (tokens.length, 2)

/-- What is left of a product makes a longer product of the one in front of it. -/
theorem readProductAfter_takes (front : List Token) (left : Expr) (tokens : List Token)
    (hleft : IsProduct front left) :
    (readProductAfter finish left tokens).Takes tokens fun back e =>
      IsProduct (front ++ back) e := by
  match tokens with
  | [] =>
    rw [readProductAfter]
    exact takes_done [] ((List.append_nil front).symm ▸ hleft)
  | ⟨lexeme, p⟩ :: rest =>
    rw [readProductAfter]
    split
    · exact takes_done [] ((List.append_nil front).symm ▸ hleft)
    · rename_i op hop
      obtain ⟨rfl, hsign⟩ := isProductOp hop
      refine Takes.of_front [⟨op.lexeme, p⟩] (Takes.widen ?_ _)
      refine (readUnary_takes rest).andMaybe fun back right rest' hlt hright => ?_
      refine (readProductAfter_takes _ _ rest' (.more hsign hleft hright)).mono fun back' e he => ?_
      rw [List.append_assoc] at he
      exact he
termination_by (tokens.length, 1)

theorem readUnary_takes (tokens : List Token) :
    (readUnary finish tokens).Takes tokens IsUnary := by
  match tokens with
  | [] =>
    rw [readUnary]
    exact takes_error _
  | ⟨lexeme, p⟩ :: rest =>
    rw [readUnary]
    split
    case h_1 heq =>
      obtain rfl : lexeme = .minus := heq
      exact ((readUnary_takes rest).map fun front e he => .neg he).behind
    case h_2 value heq =>
      obtain rfl : lexeme = .number value := heq
      exact takes_done [⟨.number value, p⟩] (.primary .number)
    case h_3 name heq =>
      obtain rfl : lexeme = .name name := heq
      split
      · exact takes_done [⟨.name name, p⟩] (.primary .var)
      · rename_i t' rest'
        split
        · rename_i hparen
          obtain ⟨lexeme', q⟩ := t'
          obtain rfl : lexeme' = .leftParen := hparen
          refine (((readArguments_takes rest').map fun front es hes => ?_).behind).behind
          obtain ⟨ts, r, hes, rfl⟩ := hes
          exact .primary (.call hes)
        · exact takes_done [⟨.name name, p⟩] (.primary .var)
    case h_4 heq =>
      obtain rfl : lexeme = .leftParen := heq
      refine ((readSum_takes rest).andThen fun front inner rest' hlt hinner => ?_).behind
      refine (readLexemeOf_takes finish _ rest').map fun back q hback => ?_
      subst hback
      exact .primary (.parens hinner)
    case h_5 => exact takes_error _
termination_by (tokens.length, 0)

theorem readArguments_takes (tokens : List Token) :
    (readArguments finish tokens).Takes tokens fun front es =>
      ∃ ts r, IsArguments ts es ∧ front = ts ++ [⟨.rightParen, r⟩] := by
  match tokens with
  | [] =>
    rw [readArguments]
    refine (readMoreArguments_takes []).mono ?_
    rintro _ es ⟨ts, r, hes, rfl⟩
    exact ⟨ts, r, .some hes, rfl⟩
  | ⟨lexeme, r⟩ :: rest =>
    rw [readArguments]
    split
    · rename_i heq
      obtain rfl : lexeme = .rightParen := heq
      exact takes_done [⟨.rightParen, r⟩] ⟨[], r, .none, rfl⟩
    · refine (readMoreArguments_takes (⟨lexeme, r⟩ :: rest)).mono ?_
      rintro _ es ⟨ts, r, hes, rfl⟩
      exact ⟨ts, r, .some hes, rfl⟩
termination_by (tokens.length, 6)

theorem readMoreArguments_takes (tokens : List Token) :
    (readMoreArguments finish tokens).Takes tokens fun front es =>
      ∃ ts r, IsMoreArguments ts es ∧ front = ts ++ [⟨.rightParen, r⟩] := by
  rw [readMoreArguments]
  refine (readSum_takes tokens).andThen fun front first rest hlt hfirst => ?_
  match rest, hlt with
  | [], _ => exact takes_error _
  | ⟨lexeme, p⟩ :: rest', hlt =>
    have hlt' : rest'.length < tokens.length := Nat.lt_of_succ_lt hlt
    simp only
    split
    · rename_i heq
      subst heq
      refine ((readMoreArguments_takes rest').map ?_).behind
      rintro _ more ⟨ts, r, hmore, rfl⟩
      exact ⟨_, r, .more (p := p) hfirst hmore, by simp⟩
    · refine (readLexemeOf_takes finish _ _).map ?_
      rintro _ r rfl
      exact ⟨front, r, .last hfirst, rfl⟩
termination_by (tokens.length, 5)

end

/-! ### Statements and functions -/

theorem readStatement_takes (tokens : List Token) :
    (readStatement finish tokens).Takes tokens IsStatement := by
  rcases tokens with _ | ⟨⟨lexeme, p⟩, rest⟩
  · exact takes_error _
  · rw [readStatement]
    split
    case h_1 heq =>
      obtain rfl : lexeme = .letWord := heq
      refine Takes.behind ((readName_takes finish rest).andThen fun _ named rest₁ _ hname => ?_)
      subst hname
      refine (readLexemeOf_takes finish _ rest₁).andThen fun _ r rest₂ _ hequals => ?_
      subst hequals
      refine (readSum_takes finish rest₂).andThen fun front value rest₃ _ hvalue => ?_
      refine (readLexemeOf_takes finish _ rest₃).map fun _ s hsemicolon => ?_
      subst hsemicolon
      exact .bind hvalue
    case h_2 heq =>
      obtain rfl : lexeme = .returnWord := heq
      refine Takes.behind ((readSum_takes finish rest).andThen fun front value rest₁ _ hvalue => ?_)
      refine (readLexemeOf_takes finish _ rest₁).map fun _ s hsemicolon => ?_
      subst hsemicolon
      exact .result hvalue
    case h_3 =>
      refine (readSum_takes finish _).andThen fun front value rest₁ _ hvalue => ?_
      refine (readLexemeOf_takes finish _ rest₁).map fun _ s hsemicolon => ?_
      subst hsemicolon
      exact .effect hvalue

theorem readStatements_takes (tokens : List Token) :
    (readStatements finish tokens).Takes tokens fun front statements =>
      ∃ ts p, IsStatements ts statements ∧ front = ts ++ [⟨.rightBrace, p⟩] := by
  match tokens with
  | [] =>
    rw [readStatements]
    exact takes_error _
  | ⟨lexeme, p⟩ :: rest =>
    rw [readStatements]
    split
    · rename_i heq
      obtain rfl : lexeme = .rightBrace := heq
      exact takes_done [⟨.rightBrace, p⟩] ⟨[], p, .nil, rfl⟩
    · refine (readStatement_takes finish _).andThen fun front first rest₁ _ hfirst => ?_
      refine (readStatements_takes rest₁).map ?_
      rintro _ more ⟨ts, q, hmore, rfl⟩
      exact ⟨front ++ ts, q, .cons hfirst hmore, (List.append_assoc _ _ _).symm⟩
termination_by tokens.length
decreasing_by assumption

theorem readMoreParameters_takes (tokens : List Token) :
    (readMoreParameters finish tokens).Takes tokens fun front parameters =>
      ∃ ts s, IsMoreParameters ts parameters ∧ front = ts ++ [⟨.rightParen, s⟩] := by
  rw [readMoreParameters]
  refine (readName_takes finish tokens).andThen fun _ named rest hlt hname => ?_
  subst hname
  refine (readLexemeOf_takes finish _ rest).andThen fun _ q rest₁ hlt₁ hcolon => ?_
  subst hcolon
  refine (readType_takes finish rest₁).andThen fun _ _ rest₂ hlt₂ htype => ?_
  obtain ⟨r, rfl⟩ := htype
  match rest₂, hlt₂ with
  | [], _ => exact takes_error _
  | ⟨lexeme, s⟩ :: rest₃, hlt₂ =>
    have hlt₃ : rest₃.length < tokens.length :=
      Nat.lt_trans (Nat.lt_trans (Nat.lt_of_succ_lt hlt₂) hlt₁) hlt
    simp only
    split
    · rename_i heq
      subst heq
      refine ((readMoreParameters_takes rest₃).map ?_).behind
      rintro _ more ⟨ts, s', hmore, rfl⟩
      exact ⟨_, s', .more hmore, rfl⟩
    · refine (readLexemeOf_takes finish _ _).map ?_
      rintro _ s' rfl
      exact ⟨_, s', .last, rfl⟩
termination_by tokens.length

theorem readParameters_takes (tokens : List Token) :
    (readParameters finish tokens).Takes tokens fun front parameters =>
      ∃ ts s, IsParameters ts parameters ∧ front = ts ++ [⟨.rightParen, s⟩] := by
  have hsome : ∀ ts, (readMoreParameters finish ts).Takes ts fun front parameters =>
      ∃ ts s, IsParameters ts parameters ∧ front = ts ++ [⟨.rightParen, s⟩] := by
    intro ts
    refine (readMoreParameters_takes finish ts).mono ?_
    rintro _ parameters ⟨ts, s, hparameters, rfl⟩
    exact ⟨ts, s, .some hparameters, rfl⟩
  rcases tokens with _ | ⟨⟨lexeme, s⟩, rest⟩
  · exact hsome []
  · rw [readParameters]
    split
    · rename_i heq
      obtain rfl : lexeme = .rightParen := heq
      exact takes_done [⟨.rightParen, s⟩] ⟨[], s, .none, rfl⟩
    · exact hsome _

theorem readFunction_takes (tokens : List Token) :
    (readFunction finish tokens).Takes tokens IsFunction := by
  unfold readFunction
  refine (readLexemeOf_takes finish _ tokens).andThen fun _ p rest _ hword => ?_
  subst hword
  refine (readName_takes finish rest).andThen fun _ named rest₁ _ hname => ?_
  subst hname
  refine (readLexemeOf_takes finish _ rest₁).andThen fun _ r rest₂ _ hparen => ?_
  subst hparen
  refine (readParameters_takes finish rest₂).andThen fun _ parameters rest₃ _ hparameters => ?_
  obtain ⟨ts, s, hparameters, rfl⟩ := hparameters
  refine (readLexemeOf_takes finish _ rest₃).andThen fun _ t rest₄ _ harrow => ?_
  subst harrow
  refine (readType_takes finish rest₄).andThen fun _ _ rest₅ _ htype => ?_
  obtain ⟨u, rfl⟩ := htype
  refine (readLexemeOf_takes finish _ rest₅).andThen fun _ v rest₆ _ hbrace => ?_
  subst hbrace
  refine (readStatements_takes finish rest₆).map ?_
  rintro _ statements ⟨body, w, hstatements, rfl⟩
  have h : IsFunction _ ⟨named.1, parameters, statements, p⟩ :=
    .function (q := named.2) (r := r) (s := s) (t := t) (u := u) (v := v) (w := w)
      hparameters hstatements
  simpa using h

theorem isFunctions_of_readFunctions {tokens : List Token} {functions : List Function}
    (h : readFunctions finish tokens = .ok functions) : IsFunctions tokens functions := by
  match tokens with
  | [] =>
    rw [readFunctions] at h
    cases h
    exact .nil
  | t :: rest =>
    rw [readFunctions] at h
    split at h
    · cases h
    · rename_i first rest' hlt hfirst
      obtain ⟨front, hfront, hfunction⟩ := readFunction_takes finish _ _ _ _ hfirst
      split at h
      · cases h
      · rename_i more hmore
        cases h
        rw [hfront]
        exact .cons hfunction (isFunctions_of_readFunctions hmore)
termination_by tokens.length
decreasing_by assumption

end Readers

/-! ### Phrases that are taken -/

namespace Reading

variable {α β : Type}

@[simp] theorem outcome_behind {t : Token} {rest : List Token} (reading : Reading α rest.length) :
    (reading.behind t).outcome = reading.outcome := outcome_widen _ _

theorem outcome_map {bound : Nat} {reading : Reading α bound} {f : α → β} {a : α}
    {rest : List Token} (h : reading.outcome = .ok (a, rest)) :
    (reading.map f).outcome = .ok (f a, rest) := by
  rcases reading with fault | ⟨⟨a', rest'⟩, h'⟩
  · cases h
  · cases h
    rfl

theorem outcome_andMaybe {bound : Nat} {reading : Reading α bound} {a : α} {rest : List Token}
    {next : (a : α) → (rest : List Token) → rest.length < bound → Reading β (rest.length + 1)}
    {outcome : Except Fault (β × List Token)} (h : reading.outcome = .ok (a, rest))
    (hnext : ∀ hlt, (next a rest hlt).outcome = outcome) :
    (reading.andMaybe next).outcome = outcome := by
  rcases reading with fault | ⟨⟨a', rest'⟩, h'⟩
  · cases h
  · cases h
    exact (outcome_widen _ h').trans (hnext h')

theorem outcome_andThen {bound : Nat} {reading : Reading α bound} {a : α} {rest : List Token}
    {next : (a : α) → (rest : List Token) → rest.length < bound → Reading β rest.length}
    {outcome : Except Fault (β × List Token)} (h : reading.outcome = .ok (a, rest))
    (hnext : ∀ hlt, (next a rest hlt).outcome = outcome) :
    (reading.andThen next).outcome = outcome := by
  rcases reading with fault | ⟨⟨a', rest'⟩, h'⟩
  · cases h
  · cases h
    exact (outcome_widen _ (Nat.le_of_lt h')).trans (hnext h')

end Reading

section Phrases

variable (finish : Position)

theorem outcome_readLexemeOf (l : Lexeme) (p : Position) (rest : List Token) :
    (readLexemeOf finish l (⟨l, p⟩ :: rest)).outcome = .ok (p, rest) := by
  rw [readLexemeOf, if_pos rfl]
  rfl

theorem outcome_readName (name : String) (p : Position) (rest : List Token) :
    (readName finish (⟨.name name, p⟩ :: rest)).outcome = .ok ((name, p), rest) := rfl

theorem outcome_readType (p : Position) (rest : List Token) :
    (readType finish (⟨.name valueType, p⟩ :: rest)).outcome = .ok ((), rest) := rfl

/-- The tokens do not start with a lexeme of some kind. -/
def NotAhead (kind : Lexeme → Prop) (tokens : List Token) : Prop :=
  ∀ t, tokens.head? = some t → ¬ kind t.lexeme

theorem notAhead_cons {kind : Lexeme → Prop} {l : Lexeme} {p : Position} {rest : List Token}
    (h : ¬ kind l) : NotAhead kind (⟨l, p⟩ :: rest) := by
  intro t ht
  cases ht
  exact h

/-- A lexeme that goes on with a factor. -/
def GoesOnFactor (l : Lexeme) : Prop := l = .leftParen

/-- A lexeme that goes on with a product. -/
def GoesOnProduct (l : Lexeme) : Prop := GoesOnFactor l ∨ (productOp? l).isSome

/-- A lexeme that goes on with a sum. -/
def GoesOnSum (l : Lexeme) : Prop := GoesOnProduct l ∨ (sumOp? l).isSome

theorem NotAhead.mono {kind kind' : Lexeme → Prop} {tokens : List Token}
    (h : NotAhead kind tokens) (hkind : ∀ l, kind' l → kind l) : NotAhead kind' tokens :=
  fun t ht hl => h t ht (hkind _ hl)

theorem outcome_readSumAfter {rest : List Token} (h : NotAhead GoesOnSum rest) (left : Expr) :
    (readSumAfter finish left rest).outcome = .ok (left, rest) := by
  cases rest with
  | nil =>
    rw [readSumAfter]
    rfl
  | cons t rest =>
    rw [readSumAfter]
    split
    · rfl
    · rename_i op hop
      exact absurd (.inr (Option.isSome_of_eq_some hop)) (h t rfl)

theorem outcome_readProductAfter {rest : List Token} (h : NotAhead GoesOnProduct rest)
    (left : Expr) : (readProductAfter finish left rest).outcome = .ok (left, rest) := by
  cases rest with
  | nil =>
    rw [readProductAfter]
    rfl
  | cons t rest =>
    rw [readProductAfter]
    split
    · rfl
    · rename_i op hop
      exact absurd (.inr (Option.isSome_of_eq_some hop)) (h t rfl)

theorem outcome_readSumAfter_cons {op : BinaryOp} (hop : op = .add ∨ op = .sub) (left : Expr)
    (p : Position) (rest : List Token) :
    (readSumAfter finish left (⟨op.lexeme, p⟩ :: rest)).outcome =
      ((readProduct finish rest).andMaybe fun right rest' _ =>
        readSumAfter finish (.binary op left right p) rest').outcome := by
  rcases hop with rfl | rfl
  · rw [readSumAfter]
    exact outcome_widen _ _
  · rw [readSumAfter]
    exact outcome_widen _ _

theorem outcome_readProductAfter_cons {op : BinaryOp} (hop : op = .mul ∨ op = .div ∨ op = .rem)
    (left : Expr) (p : Position) (rest : List Token) :
    (readProductAfter finish left (⟨op.lexeme, p⟩ :: rest)).outcome =
      ((readUnary finish rest).andMaybe fun right rest' _ =>
        readProductAfter finish (.binary op left right p) rest').outcome := by
  rcases hop with rfl | rfl | rfl
  · rw [readProductAfter]
    exact outcome_widen _ _
  · rw [readProductAfter]
    exact outcome_widen _ _
  · rw [readProductAfter]
    exact outcome_widen _ _

theorem not_goesOnFactor_sum {op : BinaryOp} (hop : op = .add ∨ op = .sub) :
    ¬ GoesOnProduct op.lexeme := by
  rcases hop with rfl | rfl
  · simp [GoesOnProduct, GoesOnFactor, BinaryOp.lexeme, productOp?]
  · simp [GoesOnProduct, GoesOnFactor, BinaryOp.lexeme, productOp?]

theorem not_goesOnFactor_product {op : BinaryOp} (hop : op = .mul ∨ op = .div ∨ op = .rem) :
    ¬ GoesOnFactor op.lexeme := by
  rcases hop with rfl | rfl | rfl
  · exact Lexeme.noConfusion
  · exact Lexeme.noConfusion
  · exact Lexeme.noConfusion

theorem not_goesOnSum {l : Lexeme} (h : l = .rightParen ∨ l = .comma ∨ l = .semicolon) :
    ¬ GoesOnSum l := by
  rcases h with rfl | rfl | rfl
  · simp [GoesOnSum, GoesOnProduct, GoesOnFactor, productOp?, sumOp?]
  · simp [GoesOnSum, GoesOnProduct, GoesOnFactor, productOp?, sumOp?]
  · simp [GoesOnSum, GoesOnProduct, GoesOnFactor, productOp?, sumOp?]

/-- A sum is read up to a lexeme that closes it. -/
theorem outcome_closed {ts : List Token} {e : Expr} {l : Lexeme}
    (hl : l = .rightParen ∨ l = .comma ∨ l = .semicolon)
    (h : ∀ {rest : List Token}, NotAhead GoesOnProduct rest →
      (readSum finish (ts ++ rest)).outcome = (readSumAfter finish e rest).outcome)
    (p : Position) (rest : List Token) :
    (readSum finish (ts ++ ⟨l, p⟩ :: rest)).outcome = .ok (e, ⟨l, p⟩ :: rest) := by
  have hclosed : NotAhead GoesOnSum (⟨l, p⟩ :: rest) := notAhead_cons (not_goesOnSum hl)
  exact (h (hclosed.mono fun _ => .inl)).trans (outcome_readSumAfter finish hclosed e)

mutual

/-- A sum that stands in front is read, and reading goes on behind it. -/
theorem IsSum.read {ts : List Token} {e : Expr} : IsSum ts e → ∀ {rest : List Token},
    NotAhead GoesOnProduct rest →
      (readSum finish (ts ++ rest)).outcome = (readSumAfter finish e rest).outcome
  | .product h, rest, hrest => by
    have hread := (h.read (hrest.mono fun _ => .inl)).trans
      (outcome_readProductAfter finish hrest _)
    rw [readSum]
    exact outcome_andMaybe hread fun _ => rfl
  | .more (p := p) hop hleft hright, rest, hrest => by
    have hread := (hright.read (hrest.mono fun _ => .inl)).trans
      (outcome_readProductAfter finish hrest _)
    rw [List.append_assoc, List.cons_append, hleft.read (notAhead_cons (not_goesOnFactor_sum hop)),
      outcome_readSumAfter_cons finish hop]
    exact outcome_andMaybe hread fun _ => rfl

/-- A product that stands in front is read, and reading goes on behind it. -/
theorem IsProduct.read {ts : List Token} {e : Expr} : IsProduct ts e → ∀ {rest : List Token},
    NotAhead GoesOnFactor rest →
      (readProduct finish (ts ++ rest)).outcome = (readProductAfter finish e rest).outcome
  | .unary h, rest, hrest => by
    rw [readProduct]
    exact outcome_andMaybe (h.read hrest) fun _ => rfl
  | .more (p := p) hop hleft hright, rest, hrest => by
    rw [List.append_assoc, List.cons_append,
      hleft.read (notAhead_cons (not_goesOnFactor_product hop)),
      outcome_readProductAfter_cons finish hop]
    exact outcome_andMaybe (hright.read hrest) fun _ => rfl

/-- A factor with its signs that stands in front is read. -/
theorem IsUnary.read {ts : List Token} {e : Expr} : IsUnary ts e → ∀ {rest : List Token},
    NotAhead GoesOnFactor rest → (readUnary finish (ts ++ rest)).outcome = .ok (e, rest)
  | .neg h, rest, hrest => by
    rw [List.cons_append, readUnary]
    exact (outcome_behind _).trans (outcome_map (h.read hrest))
  | .primary h, rest, hrest => h.read hrest

/-- A factor without a sign that stands in front is read. -/
theorem IsPrimary.read {ts : List Token} {e : Expr} : IsPrimary ts e → ∀ {rest : List Token},
    NotAhead GoesOnFactor rest → (readUnary finish (ts ++ rest)).outcome = .ok (e, rest)
  | .number, rest, _ => by
    rw [List.singleton_append, readUnary]
    rfl
  | .var, rest, hrest => by
    rw [List.singleton_append, readUnary]
    cases rest with
    | nil => rfl
    | cons t rest =>
      have hparen : ¬ t.lexeme = .leftParen := hrest t rfl
      simp only [if_neg hparen]
      rfl
  | .call h, rest, _ => by
    rw [List.cons_append, List.cons_append, readUnary, List.append_assoc]
    simp only [if_true]
    exact (outcome_behind _).trans ((outcome_behind _).trans (outcome_map (h.read _)))
  | .parens (r := r) h, rest, _ => by
    rw [List.cons_append, readUnary, List.append_assoc]
    refine (outcome_behind _).trans ?_
    refine outcome_andThen (outcome_closed finish (.inl rfl) h.read r rest) fun _ => ?_
    exact outcome_map (outcome_readLexemeOf finish .rightParen r rest)

/-- The arguments of a call that stand in front are read with the parenthesis behind them. -/
theorem IsArguments.read {ts : List Token} {es : List Expr} : IsArguments ts es →
    ∀ {rest : List Token} (r : Position),
      (readArguments finish (ts ++ ⟨.rightParen, r⟩ :: rest)).outcome = .ok (es, rest)
  | .none, rest, r => by
    rw [List.nil_append, readArguments]
    rfl
  | .some h, rest, r => by
    have hread : (readMoreArguments finish (ts ++ ⟨.rightParen, r⟩ :: rest)).outcome =
        .ok (es, rest) := h.read r
    obtain ⟨l, p, more, rfl, hl⟩ := h.starts
    have hparen : ¬ l = .rightParen := by
      rintro rfl
      exact hl
    rw [List.cons_append, readArguments, if_neg hparen]
    exact hread

theorem IsMoreArguments.read {ts : List Token} {es : List Expr} : IsMoreArguments ts es →
    ∀ {rest : List Token} (r : Position),
      (readMoreArguments finish (ts ++ ⟨.rightParen, r⟩ :: rest)).outcome = .ok (es, rest)
  | .last h, rest, r => by
    rw [readMoreArguments]
    refine outcome_andThen (outcome_closed finish (.inl rfl) h.read r rest) fun _ => ?_
    simp only [reduceCtorEq, if_false]
    exact outcome_map (outcome_readLexemeOf finish .rightParen r rest)
  | .more (p := p) h hmore, rest, r => by
    rw [List.append_assoc, List.cons_append, readMoreArguments]
    refine outcome_andThen (outcome_closed finish (.inr (.inl rfl)) h.read p _) fun _ => ?_
    simp only [if_true]
    exact (outcome_behind _).trans (outcome_map (hmore.read r))

end

/-- A statement that stands in front is read. -/
theorem IsStatement.read {ts : List Token} {s : Statement} (h : IsStatement ts s)
    (rest : List Token) : (readStatement finish (ts ++ rest)).outcome = .ok (s, rest) := by
  cases h with
  | bind h =>
    rw [List.cons_append, List.cons_append, List.cons_append, List.append_assoc]
    refine (outcome_behind _).trans ?_
    refine outcome_andThen (outcome_readName finish _ _ _) fun _ => ?_
    refine outcome_andThen (outcome_readLexemeOf finish _ _ _) fun _ => ?_
    refine outcome_andThen (outcome_closed finish (.inr (.inr rfl)) (h.read finish) _ _) fun _ => ?_
    exact outcome_map (outcome_readLexemeOf finish _ _ _)
  | result h =>
    rw [List.cons_append, List.append_assoc]
    refine (outcome_behind _).trans ?_
    refine outcome_andThen (outcome_closed finish (.inr (.inr rfl)) (h.read finish) _ _) fun _ => ?_
    exact outcome_map (outcome_readLexemeOf finish _ _ _)
  | effect h =>
    rename_i ts e p
    have hread := outcome_closed finish (.inr (.inr rfl)) (h.read finish) p rest
    have hstatement : ((readSum finish (ts ++ ⟨.semicolon, p⟩ :: rest)).andThen fun value rest _ =>
        (readLexemeOf finish .semicolon rest).map fun _ => Statement.effect value).outcome =
          .ok (.effect e, rest) :=
      outcome_andThen hread fun _ => outcome_map (outcome_readLexemeOf finish _ _ _)
    rw [List.append_assoc, List.singleton_append]
    obtain ⟨l, q, more, rfl, hl⟩ := h.starts
    rw [List.cons_append, readStatement]
    split
    · rename_i hlet
      obtain rfl : l = .letWord := hlet
      exact hl.elim
    · rename_i hreturn
      obtain rfl : l = .returnWord := hreturn
      exact hl.elim
    · exact hstatement

/-- A statement does not start with the brace that closes a block. -/
theorem IsStatement.head_ne {ts : List Token} {s : Statement} (h : IsStatement ts s) :
    ∃ t rest, ts = t :: rest ∧ t.lexeme ≠ .rightBrace := by
  cases h with
  | bind h => exact ⟨_, _, rfl, Lexeme.noConfusion⟩
  | result h => exact ⟨_, _, rfl, Lexeme.noConfusion⟩
  | effect h =>
    obtain ⟨l, p, rest, rfl, hl⟩ := h.starts
    refine ⟨_, _, rfl, ?_⟩
    rintro rfl
    exact hl

/-- The statements of a block that stand in front are read with the brace behind them. -/
theorem IsStatements.read {ts : List Token} {statements : List Statement}
    (h : IsStatements ts statements) (p : Position) (rest : List Token) :
    (readStatements finish (ts ++ ⟨.rightBrace, p⟩ :: rest)).outcome = .ok (statements, rest) := by
  induction h with
  | nil =>
    rw [List.nil_append, readStatements, if_pos rfl]
    rfl
  | cons hfirst _ ih =>
    have hread := hfirst.read finish
    obtain ⟨t, ts, rfl, ht⟩ := hfirst.head_ne
    rw [List.append_assoc, List.cons_append, readStatements, if_neg ht]
    exact outcome_andThen (hread _) fun _ => outcome_map ih

theorem IsMoreParameters.read {ts : List Token} {parameters : List Parameter}
    (h : IsMoreParameters ts parameters) (s : Position) (rest : List Token) :
    (readMoreParameters finish (ts ++ ⟨.rightParen, s⟩ :: rest)).outcome =
      .ok (parameters, rest) := by
  induction h with
  | last =>
    simp only [List.cons_append, List.nil_append]
    rw [readMoreParameters]
    refine outcome_andThen (outcome_readName finish _ _ _) fun _ => ?_
    refine outcome_andThen (outcome_readLexemeOf finish _ _ _) fun _ => ?_
    refine outcome_andThen (outcome_readType finish _ _) fun _ => ?_
    simp only [reduceCtorEq, if_false]
    exact outcome_map (outcome_readLexemeOf finish _ _ _)
  | more _ ih =>
    simp only [List.cons_append]
    rw [readMoreParameters]
    refine outcome_andThen (outcome_readName finish _ _ _) fun _ => ?_
    refine outcome_andThen (outcome_readLexemeOf finish _ _ _) fun _ => ?_
    refine outcome_andThen (outcome_readType finish _ _) fun _ => ?_
    simp only [if_true]
    exact (outcome_behind _).trans (outcome_map ih)

/-- The parameters of a function that stand in front are read with the parenthesis behind them. -/
theorem IsParameters.read {ts : List Token} {parameters : List Parameter}
    (h : IsParameters ts parameters) (s : Position) (rest : List Token) :
    (readParameters finish (ts ++ ⟨.rightParen, s⟩ :: rest)).outcome = .ok (parameters, rest) := by
  cases h with
  | none =>
    rw [List.nil_append, readParameters, if_pos rfl]
    rfl
  | some h =>
    have hread := h.read finish s rest
    cases h with
    | last => exact hread
    | more h => exact hread

/-- A function that stands in front is read. -/
theorem IsFunction.read {ts : List Token} {function : Function} (h : IsFunction ts function)
    (rest : List Token) : (readFunction finish (ts ++ rest)).outcome = .ok (function, rest) := by
  cases h with
  | function hparameters hbody =>
    rw [List.cons_append, List.cons_append, List.cons_append, List.append_assoc, List.cons_append,
      List.cons_append, List.cons_append, List.cons_append, List.append_assoc]
    unfold readFunction
    refine outcome_andThen (outcome_readLexemeOf finish _ _ _) fun _ => ?_
    refine outcome_andThen (outcome_readName finish _ _ _) fun _ => ?_
    refine outcome_andThen (outcome_readLexemeOf finish _ _ _) fun _ => ?_
    refine outcome_andThen (hparameters.read finish _ _) fun _ => ?_
    refine outcome_andThen (outcome_readLexemeOf finish _ _ _) fun _ => ?_
    refine outcome_andThen (outcome_readType finish _ _) fun _ => ?_
    refine outcome_andThen (outcome_readLexemeOf finish _ _ _) fun _ => ?_
    exact outcome_map (hbody.read finish _ _)

/-- A function is not empty. -/
theorem IsFunction.eq_cons {ts : List Token} {function : Function} (h : IsFunction ts function) :
    ∃ t rest, ts = t :: rest := by
  cases h with
  | function => exact ⟨_, _, rfl⟩

theorem Reading.eq_of_outcome {α : Type} {bound : Nat} {reading : Reading α bound} {a : α}
    {rest : List Token} (h : reading.outcome = .ok (a, rest)) :
    ∃ hlt, reading = .ok ⟨(a, rest), hlt⟩ := by
  rcases reading with fault | ⟨read, hlt⟩
  · cases h
  · cases h
    exact ⟨hlt, rfl⟩

/-- **Tokens are read as functions just when they are theirs.** -/
theorem readFunctions_iff {tokens : List Token} {functions : List Function} :
    readFunctions finish tokens = .ok functions ↔ IsFunctions tokens functions := by
  refine ⟨isFunctions_of_readFunctions finish, fun h => ?_⟩
  induction h with
  | nil => rw [readFunctions]
  | @cons ts rest first more hfirst _ ih =>
    obtain ⟨hlt, hread⟩ := eq_of_outcome (hfirst.read finish rest)
    obtain ⟨t, ts, rfl⟩ := hfirst.eq_cons
    simp only [List.cons_append] at hread
    rw [List.cons_append, readFunctions]
    simp only [hread, ih]

end Phrases

/-! ### Whole texts -/

theorem isInner_iff {t : Token} : t.isInner = true ↔ t.lexeme ≠ .finish := by
  simp [Token.isInner]

/-- What stands in front of the end of the text. -/
theorem takeWhile_isInner {inner : List Token} (h : ∀ t ∈ inner, t.lexeme ≠ .finish)
    (p : Position) : List.takeWhile Token.isInner (inner ++ [⟨.finish, p⟩]) = inner := by
  rw [List.takeWhile_append_of_pos fun t ht => isInner_iff.2 (h t ht)]
  exact List.append_nil inner

/-- Tokens are read as a program just when those in front of the end of the text are those of its
functions. -/
theorem parse_eq_ok_iff {inner : List Token} (h : ∀ t ∈ inner, t.lexeme ≠ .finish) {p : Position}
    {program : Program} :
    parse (inner ++ [⟨.finish, p⟩]) = .ok program ↔ IsFunctions inner program.functions := by
  rw [parse, takeWhile_isInner h, ← readFunctions_iff (finishPosition (inner ++ [⟨.finish, p⟩]))]
  split
  · rename_i fault heq
    rw [heq]
    constructor
    · intro h
      cases h
    · intro h
      cases h
  · rename_i functions heq
    rw [heq]
    cases program
    simp

/-- **Tokens that end where the text ends are read as a program just when the grammar derives
their lexemes, and what they are read as is the one program whose tokens they are.** -/
theorem parse_derives (inner : List Token) (hinner : ∀ t ∈ inner, t.lexeme ≠ .finish)
    (p : Position) :
    ((∃ program, parse (inner ++ [⟨.finish, p⟩]) = .ok program) ↔
      Derives (.phrase .file) (inner.map Token.lexeme)) ∧
    (∀ program, parse (inner ++ [⟨.finish, p⟩]) = .ok program ↔
      IsFunctions inner program.functions) ∧
    ∀ functions functions', IsFunctions inner functions → IsFunctions inner functions' →
      functions = functions' := by
  have hread : ∀ program, parse (inner ++ [⟨.finish, p⟩]) = .ok program ↔
      IsFunctions inner program.functions := fun _ => parse_eq_ok_iff hinner
  refine ⟨?_, hread, ?_⟩
  · rw [← exists_isFunctions_iff]
    constructor
    · rintro ⟨program, h⟩
      exact ⟨program.functions, (hread program).1 h⟩
    · rintro ⟨functions, h⟩
      exact ⟨⟨functions⟩, (hread ⟨functions⟩).2 h⟩
  · -- One list of tokens is read as one program.
    intro functions functions' h h'
    have hsame := ((hread ⟨functions⟩).2 h).symm.trans ((hread ⟨functions'⟩).2 h')
    exact Program.mk.inj (Except.ok.inj hsame)

/-- A function with the three lines `fn f() -> i32 {`, `return 7 - 2 - -x * 3;` and a closing
brace, as tokens. -/
def differenceTokens : List Token :=
  [⟨.fnWord, ⟨1, 1⟩⟩, ⟨.name "f", ⟨1, 4⟩⟩, ⟨.leftParen, ⟨1, 5⟩⟩, ⟨.rightParen, ⟨1, 6⟩⟩,
    ⟨.arrow, ⟨1, 8⟩⟩, ⟨.name "i32", ⟨1, 11⟩⟩, ⟨.leftBrace, ⟨1, 15⟩⟩, ⟨.returnWord, ⟨2, 1⟩⟩,
    ⟨.number 7, ⟨2, 8⟩⟩, ⟨.minus, ⟨2, 10⟩⟩, ⟨.number 2, ⟨2, 12⟩⟩, ⟨.minus, ⟨2, 14⟩⟩,
    ⟨.minus, ⟨2, 16⟩⟩, ⟨.name "x", ⟨2, 17⟩⟩, ⟨.star, ⟨2, 19⟩⟩, ⟨.number 3, ⟨2, 21⟩⟩,
    ⟨.semicolon, ⟨2, 22⟩⟩, ⟨.rightBrace, ⟨3, 1⟩⟩]

/-- The same function as a tree: seven less two first, and less the product then. -/
def differenceProgram : Program :=
  ⟨[⟨"f", [], [.result
    (.binary .sub (.binary .sub (.number 7 ⟨2, 8⟩) (.number 2 ⟨2, 12⟩) ⟨2, 10⟩)
      (.binary .mul (.neg (.var "x" ⟨2, 17⟩) ⟨2, 16⟩) (.number 3 ⟨2, 21⟩) ⟨2, 19⟩) ⟨2, 14⟩)
    ⟨2, 1⟩], ⟨1, 1⟩⟩]⟩

theorem parse_derives_difference :
    (∀ t ∈ differenceTokens, t.lexeme ≠ .finish) ∧
    parse (differenceTokens ++ [⟨.finish, ⟨3, 2⟩⟩]) = .ok differenceProgram ∧
    Derives (.phrase .file) (differenceTokens.map Token.lexeme) ∧
    IsFunctions differenceTokens differenceProgram.functions := by
  have hinner : ∀ t ∈ differenceTokens, t.lexeme ≠ .finish := by decide
  have hread : parse (differenceTokens ++ [⟨.finish, ⟨3, 2⟩⟩]) = .ok differenceProgram := by cbv
  obtain ⟨hderives, htree, -⟩ := parse_derives differenceTokens hinner ⟨3, 2⟩
  exact ⟨hinner, hread, hderives.1 ⟨_, hread⟩, (htree _).1 hread⟩

end Ingot.Source
