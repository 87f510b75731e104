import Mathlib.Control.Basic
import Mathlib.Data.List.Forall2

/-!
# Outcomes of effects

An effect changes a state and then gives a value or fails; the state is changed in both
cases. Its *outcome* from a state is the value or the failure together with the state
afterwards. The laws here say how the outcome of an effect made of parts comes from the
outcomes of the parts, so that nothing else has to look inside of the monad.
-/

namespace Ingot

/-- An effect on a state that may fail. -/
abbrev Effect (ε σ α : Type) : Type := ExceptT ε (StateM σ) α

namespace Effect

variable {ε σ α β : Type}

/-- The value or the failure of an effect, and the state afterwards. -/
def outcome (x : Effect ε σ α) (s : σ) : Except ε α × σ := Id.run ((ExceptT.run x).run s)

@[simp] theorem outcome_pure (a : α) (s : σ) : outcome (pure a : Effect ε σ α) s = (.ok a, s) :=
  rfl

@[simp] theorem outcome_throw (e : ε) (s : σ) :
    outcome (throw e : Effect ε σ α) s = (.error e, s) := rfl

theorem outcome_bind (x : Effect ε σ α) (f : α → Effect ε σ β) (s : σ) :
    outcome (x >>= f) s =
      match outcome x s with
      | (.ok a, s') => outcome (f a) s'
      | (.error e, s') => (.error e, s') := by
  simp only [outcome, ExceptT.run_bind, StateT.run_bind, Id.run_bind]
  rcases ((ExceptT.run x).run s).run with ⟨e | a, s'⟩
  · rfl
  · rfl

/-- An effect that starts with one that gives a value goes on behind it. -/
theorem outcome_bind_of_ok {x : Effect ε σ α} {f : α → Effect ε σ β} {s s' : σ} {a : α}
    (h : outcome x s = (.ok a, s')) : outcome (x >>= f) s = outcome (f a) s' := by
  rw [outcome_bind, h]

/-- An effect that starts with one that fails has failed. -/
theorem outcome_bind_of_error {x : Effect ε σ α} {f : α → Effect ε σ β} {s s' : σ} {e : ε}
    (h : outcome x s = (.error e, s')) : outcome (x >>= f) s = (.error e, s') := by
  rw [outcome_bind, h]

/-- What gives a value has given one in all its parts. -/
theorem of_outcome_bind_ok {x : Effect ε σ α} {f : α → Effect ε σ β} {s s' : σ} {b : β}
    (h : outcome (x >>= f) s = (.ok b, s')) :
    ∃ a s₁, outcome x s = (.ok a, s₁) ∧ outcome (f a) s₁ = (.ok b, s') := by
  rw [outcome_bind] at h
  split at h
  · exact ⟨_, _, by assumption, h⟩
  · cases h

/-- What fails has failed in one of its parts, and what comes before that has a value. -/
theorem of_outcome_bind_error {x : Effect ε σ α} {f : α → Effect ε σ β} {s s' : σ} {e : ε}
    (h : outcome (x >>= f) s = (.error e, s')) :
    outcome x s = (.error e, s') ∨
      ∃ a s₁, outcome x s = (.ok a, s₁) ∧ outcome (f a) s₁ = (.error e, s') := by
  rw [outcome_bind] at h
  split at h
  · exact .inr ⟨_, _, by assumption, h⟩
  · rename_i e' s₁ hx
    cases h
    exact .inl hx

end Effect

/-- What gives a value without any state has given one in both of its parts. -/
theorem of_except_bind_ok {ε α β : Type} {x : Except ε α} {f : α → Except ε β} {b : β}
    (h : x >>= f = .ok b) : ∃ a, x = .ok a ∧ f a = .ok b := by
  cases x with
  | error e => cases h
  | ok a => exact ⟨a, rfl, h⟩

/-- What goes on behind a value goes on with it. -/
theorem except_bind_of_ok {ε α β : Type} {x : Except ε α} {a : α} (h : x = .ok a)
    (f : α → Except ε β) : x >>= f = f a := by
  rw [h]
  rfl

/-- What gives a value has given one in both of its parts, the second from where the first has
left the state. -/
theorem of_stateT_bind_ok {ε σ α β : Type} {x : StateT σ (Except ε) α}
    {f : α → StateT σ (Except ε) β} {s s' : σ} {b : β} (h : (x >>= f) s = .ok (b, s')) :
    ∃ a s₁, x s = .ok (a, s₁) ∧ f a s₁ = .ok (b, s') := by
  obtain ⟨⟨a, s₁⟩, ha, hb⟩ := of_except_bind_ok h
  exact ⟨a, s₁, ha, hb⟩

theorem of_except_map_ok {ε α β : Type} {x : Except ε α} {f : α → β} {b : β}
    (h : x.map f = .ok b) : ∃ a, x = .ok a ∧ f a = b := by
  cases x with
  | error e => cases h
  | ok a => exact ⟨a, rfl, Except.ok.inj h⟩

theorem toOption_eq_some_iff {ε α : Type} {x : Except ε α} {a : α} :
    x.toOption = some a ↔ x = .ok a := by
  cases x with
  | error e => simp [Except.toOption]
  | ok b => simp [Except.toOption]

/-- Both give values, or both fail, and what they give or why they fail is related. -/
inductive Alike {ε ε' α α' : Type} (E : ε → ε' → Prop) (R : α → α' → Prop) :
    Except ε α → Except ε' α' → Prop where
  /-- Both fail. -/
  | error {e : ε} {e' : ε'} : E e e' → Alike E R (.error e) (.error e')
  /-- Both give a value. -/
  | ok {a : α} {a' : α'} : R a a' → Alike E R (.ok a) (.ok a')

theorem Alike.refl {ε α : Type} (x : Except ε α) : Alike Eq Eq x x := by
  cases x with
  | error e => exact .error rfl
  | ok a => exact .ok rfl

section Alike

variable {ε ε' α α' : Type} {E : ε → ε' → Prop} {R : α → α' → Prop} {x : Except ε α}
  {x' : Except ε' α'}

theorem Alike.eq_or_eq (h : Alike E R x x') :
    (∃ e e', x = .error e ∧ x' = .error e' ∧ E e e') ∨
      ∃ a a', x = .ok a ∧ x' = .ok a' ∧ R a a' := by
  cases h with
  | error he => exact .inl ⟨_, _, rfl, rfl, he⟩
  | ok ha => exact .inr ⟨_, _, rfl, rfl, ha⟩

theorem Alike.swap (h : Alike E R x x') : Alike (flip E) (flip R) x' x := by
  cases h with
  | error he => exact .error he
  | ok ha => exact .ok ha

theorem Alike.of_ok (h : Alike E R x x') {a : α} (hx : x = .ok a) : ∃ a', x' = .ok a' ∧ R a a' := by
  cases h with
  | error _ => cases hx
  | ok ha => exact ⟨_, rfl, Except.ok.inj hx ▸ ha⟩

end Alike

/-! ### Entries under keys -/

section Lookup

variable {α β : Type} [BEq α] [LawfulBEq α] {a : α} {b : β} {entries : List (α × β)}

theorem mem_of_lookup (h : entries.lookup a = some b) : (a, b) ∈ entries := by
  obtain ⟨before, behind, rfl, _⟩ := List.lookup_eq_some_iff.1 h
  exact List.mem_append_right _ List.mem_cons_self

/-- Among entries with different keys each is found under its key. -/
theorem lookup_eq_some_iff_mem (h : (entries.map Prod.fst).Nodup) :
    entries.lookup a = some b ↔ (a, b) ∈ entries := by
  refine ⟨mem_of_lookup, fun hmem => ?_⟩
  obtain ⟨before, behind, rfl⟩ := List.append_of_mem hmem
  rw [List.map_append, List.nodup_append] at h
  refine List.lookup_eq_some_iff.2 ⟨before, behind, rfl, fun e he => ?_⟩
  have hne := h.2.2 e.1 (List.mem_map_of_mem he) a List.mem_cons_self
  simpa using Ne.symm hne

end Lookup

/-! ### Related rows -/

/-- What holds of all that something is related to holds of the second of two related rows. -/
theorem forall_mem_of_forall₂ {α β : Type} {R : α → β → Prop} {P : β → Prop}
    (h : ∀ a b, R a b → P b) {as : List α} {bs : List β} (hrow : List.Forall₂ R as bs) :
    ∀ b ∈ bs, P b := by
  induction hrow with
  | nil =>
    intro b hb
    cases hb
  | cons hfirst _ ih => exact List.forall_mem_cons.2 ⟨h _ _ hfirst, ih⟩

/-- Each entry of the first of two related rows is related to one of the second. -/
theorem exists_of_forall₂ {α β : Type} {R : α → β → Prop} {as : List α} {bs : List β}
    (hrow : List.Forall₂ R as bs) {a : α} (ha : a ∈ as) : ∃ b ∈ bs, R a b := by
  induction hrow with
  | nil => cases ha
  | @cons a' b as bs hfirst _ ih =>
    rcases List.mem_cons.1 ha with rfl | ha
    · exact ⟨b, List.mem_cons_self, hfirst⟩
    · obtain ⟨b', hb, hrelated⟩ := ih ha
      exact ⟨b', List.mem_cons_of_mem _ hb, hrelated⟩

/-- What stands at a place of the first row has a partner at this place of the second. -/
theorem exists_getElem?_of_forall₂ {α β : Type} {R : α → β → Prop} {as : List α} {bs : List β}
    (hrow : List.Forall₂ R as bs) {i : ℕ} {a : α} (ha : as[i]? = some a) :
    ∃ b, bs[i]? = some b ∧ R a b := by
  obtain ⟨hi, rfl⟩ := List.getElem?_eq_some_iff.1 ha
  have hi' : i < bs.length := hrow.length_eq ▸ hi
  exact ⟨bs[i], List.getElem?_eq_getElem hi', hrow.get hi hi'⟩

/-- In two related rows the same is found, if what is asked of the entries is the same. -/
theorem find?_of_forall₂ {α β : Type} {R : α → β → Prop} {p : α → Bool} {q : β → Bool}
    (h : ∀ a b, R a b → q b = p a) {as : List α} {bs : List β} (hrow : List.Forall₂ R as bs) :
    (as.find? p = none ∧ bs.find? q = none) ∨
      ∃ a b, as.find? p = some a ∧ bs.find? q = some b ∧ R a b := by
  induction hrow with
  | nil => exact .inl ⟨rfl, rfl⟩
  | @cons a b as bs hfirst _ ih =>
    rw [List.find?_cons, List.find?_cons, h a b hfirst]
    cases p a with
    | true => exact .inr ⟨a, b, rfl, rfl, hfirst⟩
    | false => exact ih

end Ingot
