import Ingot.Proofs.Source.Reading

/-!
# Reading with one token ahead

A reader decides by one token ahead (`Reader.LooksAhead`) if what it takes from the front of the
tokens, and what it does behind that, is the same for all tokens that go on with the same lexeme: it
takes a part that is good for what it reads, or it stops with a fault at the token ahead, and then
what it has taken is the beginning of such a part.

Readers that are put together from readers of this kind are of this kind: where a part stops, what
was begun is completed with that part and with what may come behind it (`LooksAhead.bind`).
-/

namespace Ingot.Source

/-! ### Readers -/

/-- The lexeme that tokens start with, if there are any. -/
def ahead (tokens : List Token) : Option Lexeme := tokens.head?.map Token.lexeme

/-- Where tokens start; behind the last token the text ends. -/
def startOf (finish : Position) (tokens : List Token) : Position :=
  (tokens.head?.map Token.position).getD finish

theorem eq_nil_of_ahead {tokens : List Token} (h : ahead tokens = none) : tokens = [] := by
  cases tokens with
  | nil => rfl
  | cons t rest => cases h

theorem exists_of_ahead {tokens : List Token} {l : Lexeme} (h : ahead tokens = some l) :
    ∃ p rest, tokens = ⟨l, p⟩ :: rest := by
  cases tokens with
  | nil => cases h
  | cons t rest =>
    cases h
    exact ⟨t.position, rest, rfl⟩

theorem ahead_append {rest rest' : List Token} (h : ahead rest' = ahead rest) (front : List Token) :
    ahead (front ++ rest') = ahead (front ++ rest) := by
  cases front with
  | nil => exact h
  | cons t front => rfl

/-- A way to read tokens, which ends in a fault or in what was read and the tokens behind it. -/
abbrev Reader (α : Type) : Type := Position → List Token → Except Fault (α × List Token)

namespace Reader

variable {α β : Type}

/-- The way in which a part of a program is read. -/
def of {bound : List Token → Nat}
    (read : Position → (tokens : List Token) → Reading α (bound tokens)) : Reader α :=
  fun finish tokens => (read finish tokens).outcome

/-- Reading on behind what was read. -/
def bind (r : Reader α) (next : α → Reader β) : Reader β := fun finish tokens =>
  match r finish tokens with
  | .error fault => .error fault
  | .ok (a, rest) => next a finish rest

/-- What was read, turned into something else. -/
def map (f : α → β) (r : Reader α) : Reader β := r.bind fun a _ rest => .ok (f a, rest)

/-- Reading on behind a comma, or else reading what is last. -/
def afterComma (more last : Reader α) : Reader α := fun finish tokens =>
  match tokens with
  | [] => last finish []
  | t :: rest => if t.lexeme = .comma then more finish rest else last finish (t :: rest)

/-- Reading on behind the sign of an operation, or else taking nothing. -/
def afterSign (op? : Lexeme → Option BinaryOp) (more : BinaryOp → Position → Reader α) (last : α) :
    Reader α := fun finish tokens =>
  match tokens with
  | [] => .ok (last, [])
  | t :: rest =>
    match op? t.lexeme with
    | none => .ok (last, t :: rest)
    | some op => more op t.position finish rest

/-- The reader takes the tokens in front if a lexeme is ahead behind them. -/
def Answers (r : Reader α) (front : List Token) (next : Option Lexeme) (a : α) : Prop :=
  ∀ finish rest, ahead rest = next → r finish (front ++ rest) = .ok (a, rest)

/-- The reader stops behind the tokens in front if a lexeme is ahead there, with a fault at it. -/
def Stops (r : Reader α) (front : List Token) (next : Option Lexeme) : Prop :=
  ∀ finish rest, ahead rest = next →
    ∃ g, r finish (front ++ rest) = .error (.grammar (startOf finish rest) g)

/-- The reader takes a good part from the front of the tokens, or stops behind the beginning of a
good part, and only looks at the lexeme behind it. -/
def LooksAhead (r : Reader α) (good : List Token → α → Prop) (tokens : List Token) : Prop :=
  ∃ front rest, tokens = front ++ rest ∧
    ((∃ a, good front a ∧ r.Answers front (ahead rest) a) ∨
      (r.Stops front (ahead rest) ∧ ∃ back a, good (front ++ back) a))

section Laws

variable {r r' : Reader α} {tokens : List Token} {good : List Token → α → Prop}
  {good' : List Token → β → Prop}

theorem LooksAhead.done (front : List Token) {rest : List Token} {a : α} (ha : good front a)
    (h : r.Answers front (ahead rest) a) : r.LooksAhead good (front ++ rest) :=
  ⟨front, rest, rfl, .inl ⟨a, ha, h⟩⟩

/-- Nothing is taken where some lexeme is ahead. -/
theorem LooksAhead.pass {a : α} (ha : good [] a)
    (h : ∀ finish ts, ahead ts = ahead tokens → r finish ts = .ok (a, ts)) :
    r.LooksAhead good tokens :=
  .done [] ha h

theorem LooksAhead.stop (h : r.Stops [] (ahead tokens)) (back : List Token) (a : α)
    (ha : good back a) : r.LooksAhead good tokens :=
  ⟨[], tokens, rfl, .inr ⟨h, back, a, ha⟩⟩

theorem LooksAhead.mono {good' : List Token → α → Prop} (h : r.LooksAhead good tokens)
    (hgood : ∀ front a, good front a → good' front a) : r.LooksAhead good' tokens := by
  obtain ⟨front, rest, rfl, ⟨a, ha, hanswers⟩ | ⟨hstops, back, a, ha⟩⟩ := h
  · exact .done front (hgood _ _ ha) hanswers
  · exact ⟨front, rest, rfl, .inr ⟨hstops, back, a, hgood _ _ ha⟩⟩

/-- A reader may be replaced by one that does the same where the same lexeme is ahead. -/
theorem LooksAhead.congr (h : r'.LooksAhead good tokens)
    (hr : ∀ finish ts, ahead ts = ahead tokens → r finish ts = r' finish ts) :
    r.LooksAhead good tokens := by
  obtain ⟨front, rest, rfl, ⟨a, ha, hanswers⟩ | ⟨hstops, back, a, ha⟩⟩ := h
  · refine .done front ha fun finish rest' hahead => ?_
    rw [hr finish _ (ahead_append hahead front)]
    exact hanswers finish rest' hahead
  · refine ⟨front, rest, rfl, .inr ⟨fun finish rest' hahead => ?_, back, a, ha⟩⟩
    rw [hr finish _ (ahead_append hahead front)]
    exact hstops finish rest' hahead

/-- Reading a token first. -/
theorem LooksAhead.cons {t : Token} {rest : List Token}
    (h : r'.LooksAhead (fun front a => good (t :: front) a) rest)
    (hr : ∀ finish ts, r finish (t :: ts) = r' finish ts) : r.LooksAhead good (t :: rest) := by
  obtain ⟨front, rest, rfl, ⟨a, ha, hanswers⟩ | ⟨hstops, back, a, ha⟩⟩ := h
  · refine ⟨t :: front, rest, rfl, .inl ⟨a, ha, fun finish rest' hahead => ?_⟩⟩
    exact (hr finish _).trans (hanswers finish rest' hahead)
  · refine ⟨t :: front, rest, rfl, .inr ⟨fun finish rest' hahead => ?_, back, a, ha⟩⟩
    obtain ⟨g, hg⟩ := hstops finish rest' hahead
    exact ⟨g, (hr finish _).trans hg⟩

/-- Reading on behind a part. What is read there has to be good in front of the tokens that are
left, and of none, so that a part that was begun can be completed. -/
theorem LooksAhead.bind {next : α → Reader β} (h : r.LooksAhead good tokens)
    (hnext : ∀ front a rest, good front a → rest = [] ∨ tokens = front ++ rest →
      (next a).LooksAhead (fun back b => good' (front ++ back) b) rest) :
    (r.bind next).LooksAhead good' tokens := by
  obtain ⟨front, rest, rfl, ⟨a, ha, hanswers⟩ | ⟨hstops, back, a, ha⟩⟩ := h
  · obtain ⟨front', rest, rfl, hlast⟩ := hnext front a rest ha (.inr rfl)
    have hread : ∀ finish rest', ahead rest' = ahead rest →
        r.bind next finish (front ++ front' ++ rest') = next a finish (front' ++ rest') := by
      intro finish rest' hahead
      rw [Reader.bind, List.append_assoc, hanswers finish _ (ahead_append hahead front')]
    refine ⟨front ++ front', rest, (List.append_assoc _ _ _).symm, ?_⟩
    rcases hlast with ⟨b, hb, hanswers'⟩ | ⟨hstops', back, b, hb⟩
    · refine .inl ⟨b, hb, fun finish rest' hahead => ?_⟩
      rw [hread finish rest' hahead]
      exact hanswers' finish rest' hahead
    · refine .inr ⟨fun finish rest' hahead => ?_, back, b, ?_⟩
      · rw [hread finish rest' hahead]
        exact hstops' finish rest' hahead
      · rw [List.append_assoc]
        exact hb
  · refine ⟨front, rest, rfl, .inr ⟨fun finish rest' hahead => ?_, ?_⟩⟩
    · obtain ⟨g, hg⟩ := hstops finish rest' hahead
      exact ⟨g, by rw [Reader.bind, hg]⟩
    · -- What was begun is completed, and then what comes behind it.
      obtain ⟨front', rest', hnil, hlast⟩ := hnext (front ++ back) a [] ha (.inl rfl)
      obtain ⟨rfl, rfl⟩ := List.append_eq_nil_iff.1 hnil.symm
      rcases hlast with ⟨b, hb, -⟩ | ⟨-, back', b, hb⟩
      · exact ⟨back, b, by rwa [List.append_nil] at hb⟩
      · exact ⟨back ++ back', b, by rwa [List.nil_append, List.append_assoc] at hb⟩

theorem LooksAhead.map {f : α → β} (h : r.LooksAhead good tokens)
    (hf : ∀ front a, good front a → good' front (f a)) : (r.map f).LooksAhead good' tokens := by
  refine h.bind fun front a rest ha _ => ?_
  refine .pass ?_ fun finish ts _ => rfl
  rw [List.append_nil]
  exact hf front a ha

theorem LooksAhead.afterComma {more last : Reader α}
    (hmore : ∀ p rest, tokens = ⟨.comma, p⟩ :: rest →
      more.LooksAhead (fun front a => good (⟨.comma, p⟩ :: front) a) rest)
    (hlast : last.LooksAhead good tokens) :
    (Reader.afterComma more last).LooksAhead good tokens := by
  by_cases hcomma : ahead tokens = some .comma
  · obtain ⟨p, rest, rfl⟩ := exists_of_ahead hcomma
    refine (hmore p rest rfl).cons fun finish ts => ?_
    rw [Reader.afterComma, if_pos rfl]
  · refine hlast.congr fun finish ts hahead => ?_
    rw [← hahead] at hcomma
    cases ts with
    | nil => rfl
    | cons t ts => exact if_neg fun heq => hcomma (congrArg some heq)

theorem LooksAhead.afterSign {op? : Lexeme → Option BinaryOp}
    {more : BinaryOp → Position → Reader α} {last : α} (hlast : good [] last)
    (hmore : ∀ l p rest op, tokens = ⟨l, p⟩ :: rest → op? l = some op →
      (more op p).LooksAhead (fun front a => good (⟨l, p⟩ :: front) a) rest) :
    (Reader.afterSign op? more last).LooksAhead good tokens := by
  match tokens with
  | [] =>
    refine .pass hlast fun finish ts hts => ?_
    obtain rfl := eq_nil_of_ahead hts
    rfl
  | ⟨l, p⟩ :: rest =>
    match hop : op? l with
    | none =>
      refine .pass hlast fun finish ts hts => ?_
      obtain ⟨q, ts, rfl⟩ := exists_of_ahead hts
      simp only [Reader.afterSign, hop]
    | some op =>
      refine (hmore l p rest op rfl hop).cons fun finish ts => ?_
      simp only [Reader.afterSign, hop]

end Laws

/-! ### Outcomes as readers -/

section Outcomes

variable {bound : Nat} {reading : Reading α bound} {r : Reader α} {finish : Position}
  {tokens : List Token}

theorem outcome_andMaybe {next : (a : α) → (rest : List Token) → rest.length < bound →
      Reading β (rest.length + 1)} {next' : α → Reader β} (h : reading.outcome = r finish tokens)
    (hnext : ∀ a rest hlt, (next a rest hlt).outcome = next' a finish rest) :
    (reading.andMaybe next).outcome = r.bind next' finish tokens := by
  rw [Reader.bind, ← h]
  rcases reading with fault | ⟨⟨a, rest⟩, hlt⟩
  · rfl
  · exact (Reading.outcome_widen _ hlt).trans (hnext a rest hlt)

theorem outcome_andThen {next : (a : α) → (rest : List Token) → rest.length < bound →
      Reading β rest.length} {next' : α → Reader β} (h : reading.outcome = r finish tokens)
    (hnext : ∀ a rest hlt, (next a rest hlt).outcome = next' a finish rest) :
    (reading.andThen next).outcome = r.bind next' finish tokens := by
  rw [Reader.bind, ← h]
  rcases reading with fault | ⟨⟨a, rest⟩, hlt⟩
  · rfl
  · exact (Reading.outcome_widen _ (Nat.le_of_lt hlt)).trans (hnext a rest hlt)

theorem outcome_map {f : α → β} (h : reading.outcome = r finish tokens) :
    (reading.map f).outcome = r.map f finish tokens := by
  rw [Reader.map, Reader.bind, ← h]
  rcases reading with fault | ⟨⟨a, rest⟩, hlt⟩
  · rfl
  · rfl

end Outcomes

end Reader

end Ingot.Source
