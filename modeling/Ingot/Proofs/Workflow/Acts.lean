import Ingot.Proofs.Outcome
import Ingot.Workflow.World

/-!
# Outcomes of acts

What the single acts do to the world. Only `setFiles` changes the files; telling the user
something does not, and an act all of whose parts keep the files keeps them (`KeepsFiles`).
In the same way the failures of an act are those of its parts (`FailsWith`). How an act ends is
put together from how its parts end (`Ends`).
-/

namespace Ingot.Workflow

open Effect Console

namespace Act

variable {ε α : Type} (w : World)

@[simp] theorem outcome_files : outcome files w = (.ok w.files, w) := rfl

@[simp] theorem outcome_setFiles (fs : FileSystem) :
    outcome (setFiles fs) w = (.ok (), ⟨fs, w.told⟩) := rfl

@[simp] theorem outcome_tell (event : Event) :
    outcome (tell event) w = (.ok (), ⟨w.files, w.told ++ [event]⟩) := rfl

@[simp] theorem outcome_line (status : Status) (message : String) :
    outcome (line status message) w = (.ok (), ⟨w.files, w.told ++ [.line status message]⟩) := rfl

@[simp] theorem outcome_detail (status : Status) (message : String) :
    outcome (detail status message) w = (.ok (), ⟨w.files, w.told ++ [.detail status message]⟩) :=
  rfl

@[simp] theorem outcome_note (topic message : String) :
    outcome (note topic message) w =
      (.ok (), ⟨w.files, w.told ++ [.note .debug topic message]⟩) := rfl

@[simp] theorem orFail_ok (wrap : ε → Failure) (a : α) :
    orFail wrap (.ok a) = (pure a : Act α) := rfl

@[simp] theorem orFail_error (wrap : ε → Failure) (e : ε) :
    orFail wrap (.error e) = (throw (wrap e) : Act α) := rfl

end Act

/-! ### Acts that keep the files -/

/-- However it ends, the act has not changed the files. -/
def KeepsFiles {α : Type} (act : Act α) : Prop := ∀ w, (outcome act w).2.files = w.files

namespace KeepsFiles

variable {ε α β : Type}

theorem pure (a : α) : KeepsFiles (Pure.pure a : Act α) := fun _ => rfl

theorem fail (e : Failure) : KeepsFiles (throw e : Act α) := fun _ => rfl

theorem files : KeepsFiles Act.files := fun _ => rfl

theorem tell (event : Event) : KeepsFiles (Act.tell event) := fun _ => rfl

theorem line (status : Status) (message : String) : KeepsFiles (Act.line status message) :=
  fun _ => rfl

theorem note (topic message : String) : KeepsFiles (Act.note topic message) := fun _ => rfl

theorem orFail (wrap : ε → Failure) (result : Except ε α) :
    KeepsFiles (Act.orFail wrap result) := by
  cases result with
  | ok a => exact pure a
  | error e => exact fail _

theorem bind {x : Act α} {f : α → Act β} (hx : KeepsFiles x) (hf : ∀ a, KeepsFiles (f a)) :
    KeepsFiles (x >>= f) := by
  intro w
  have hxw := hx w
  rw [outcome_bind]
  rcases h : outcome x w with ⟨e | a, w₁⟩
  · rw [h] at hxw
    exact hxw
  · rw [h] at hxw
    exact (hf a w₁).trans hxw

theorem ite {c : Prop} [Decidable c] {x y : Act α} (hx : KeepsFiles x) (hy : KeepsFiles y) :
    KeepsFiles (if c then x else y) := by
  split
  · exact hx
  · exact hy

theorem guard {c : Prop} [Decidable c] {e : Failure} {f : Unit → Act α}
    (hf : KeepsFiles (f ())) :
    KeepsFiles (if c then (throw e : Act Unit) >>= f else f ()) := by
  split
  · exact fun _ => rfl
  · exact hf

theorem forM {xs : List α} {f : α → Act Unit} (hf : ∀ a, KeepsFiles (f a)) :
    KeepsFiles (xs.forM f) := by
  induction xs with
  | nil => exact pure ()
  | cons a xs ih => exact (hf a).bind fun _ => ih

theorem mapM {xs : List α} {f : α → Act β} (hf : ∀ a, KeepsFiles (f a)) :
    KeepsFiles (xs.mapM f) := by
  induction xs with
  | nil => exact pure []
  | cons a xs ih =>
    rw [List.mapM_cons]
    exact (hf a).bind fun _ => ih.bind fun _ => pure _

end KeepsFiles

/-! ### Failures of acts -/

/-- All failures of the act have a property. -/
def FailsWith {α : Type} (P : Failure → Prop) (act : Act α) : Prop :=
  ∀ w e w', outcome act w = (.error e, w') → P e

namespace FailsWith

variable {ε α β : Type} {P : Failure → Prop}

theorem of_ok {act : Act α} {a : World → α} {f : World → World}
    (h : ∀ w, outcome act w = (.ok (a w), f w)) : FailsWith P act := by
  intro w e w' hw
  rw [h] at hw
  cases hw

theorem fail {e : Failure} (he : P e) : FailsWith P (throw e : Act α) := by
  intro w e' w' h
  cases h
  exact he

theorem orFail {wrap : ε → Failure} {result : Except ε α} (h : ∀ e, result = .error e → P (wrap e)) :
    FailsWith P (Act.orFail wrap result) := by
  cases result with
  | ok a => exact of_ok (a := fun _ => a) (f := id) fun _ => rfl
  | error e => exact fail (h e rfl)

theorem guard {c : Prop} [Decidable c] {e : Failure} {f : Unit → Act α} (he : P e)
    (hf : FailsWith P (f ())) :
    FailsWith P (if c then (throw e : Act Unit) >>= f else f ()) := by
  split
  · exact fail he
  · exact hf

theorem ite {c : Prop} [Decidable c] {x y : Act α} (hx : FailsWith P x) (hy : FailsWith P y) :
    FailsWith P (if c then x else y) := by
  split
  · exact hx
  · exact hy

theorem files : FailsWith P Act.files := of_ok (a := fun w => w.files) (f := id) fun _ => rfl

theorem pure (a : α) : FailsWith P (Pure.pure a : Act α) :=
  of_ok (a := fun _ => a) (f := id) fun _ => rfl

theorem setFiles (fs : FileSystem) : FailsWith P (Act.setFiles fs) :=
  of_ok (a := fun _ => ()) (f := fun w => ⟨fs, w.told⟩) fun _ => rfl

theorem tell (event : Event) : FailsWith P (Act.tell event) :=
  of_ok (a := fun _ => ()) (f := fun w => ⟨w.files, w.told ++ [event]⟩) fun _ => rfl

theorem bind {x : Act α} {f : α → Act β} (hx : FailsWith P x) (hf : ∀ a, FailsWith P (f a)) :
    FailsWith P (x >>= f) := by
  intro w e w' h
  rcases of_outcome_bind_error h with h | ⟨a, w₁, _, h⟩
  · exact hx w e w' h
  · exact hf a w₁ e w' h

theorem forM {xs : List α} {f : α → Act Unit} (hf : ∀ a, FailsWith P (f a)) :
    FailsWith P (xs.forM f) := by
  induction xs with
  | nil => exact pure ()
  | cons a xs ih => exact (hf a).bind fun _ => ih

theorem mapM {xs : List α} {f : α → Act β} (hf : ∀ a, FailsWith P (f a)) :
    FailsWith P (xs.mapM f) := by
  induction xs with
  | nil => exact pure []
  | cons a xs ih =>
    rw [List.mapM_cons]
    exact (hf a).bind fun _ => ih.bind fun _ => pure _

theorem afterLine {c : Prop} [Decidable c] {status : Status} {message : String} {f : Unit → Act α}
    (hf : FailsWith P (f ())) :
    FailsWith P (if c then Act.line status message >>= f else f ()) := by
  split
  · exact (tell _).bind fun _ => hf
  · exact hf

theorem change {wrap : IoFault → Failure} {f : FileSystem → Except IoFault FileSystem}
    (h : ∀ fault, P (wrap fault)) : FailsWith P (Act.change wrap f) :=
  files.bind fun _ => (orFail fun fault _ => h fault).bind fun fs => setFiles fs

theorem mono {Q : Failure → Prop} {act : Act α} (h : FailsWith P act) (hpq : ∀ e, P e → Q e) :
    FailsWith Q act := fun w e w' hw => hpq e (h w e w' hw)

/-- An act that keeps the files and then does something ends in the first, with the files as they
were, or goes on with the second from there. -/
theorem of_bind {x : Act α} {f : α → Act β} (hx : FailsWith P x) (hfiles : KeepsFiles x)
    {w w' : World} {result : Except Failure β} (h : outcome (x >>= f) w = (result, w')) :
    (w'.files = w.files ∧ ∃ e, result = .error e ∧ P e) ∨
      ∃ a w₁, outcome x w = (.ok a, w₁) ∧ w₁.files = w.files ∧
        outcome (f a) w₁ = (result, w') := by
  have hxw := hfiles w
  rw [outcome_bind] at h
  rcases ho : outcome x w with ⟨e | a, w₁⟩
  · rw [ho] at h hxw
    cases h
    exact .inl ⟨hxw, e, rfl, hx w e _ ho⟩
  · rw [ho] at h hxw
    exact .inr ⟨a, w₁, rfl, hxw, h⟩

end FailsWith

/-! ### Acts that end in one way -/

/-- With these files the act ends with that result and leaves those files, whatever the user was
told before. -/
def Ends {α : Type} (act : Act α) (fs : FileSystem) (result : Except Failure α)
    (fs' : FileSystem) : Prop :=
  ∀ told, ∃ told', outcome act ⟨fs, told⟩ = (result, ⟨fs', told'⟩)

namespace Ends

variable {ε α β : Type} {fs fs' fs'' : FileSystem}

/-- It does not end in another way. -/
theorem eq {act : Act α} {w w' : World} {result result' : Except Failure α}
    (h : Ends act w.files result fs') (hw : outcome act w = (result', w')) :
    result' = result ∧ w'.files = fs' := by
  obtain ⟨told, hend⟩ := h w.told
  obtain ⟨hresult, hworld⟩ := Prod.mk.inj (hw.symm.trans hend)
  exact ⟨hresult, congrArg World.files hworld⟩

theorem pure (a : α) : Ends (Pure.pure a : Act α) fs (.ok a) fs := fun told => ⟨told, rfl⟩

theorem fail (e : Failure) : Ends (throw e : Act α) fs (.error e) fs := fun told => ⟨told, rfl⟩

theorem files : Ends Act.files fs (.ok fs) fs := fun told => ⟨told, rfl⟩

theorem setFiles : Ends (Act.setFiles fs') fs (.ok ()) fs' := fun told => ⟨told, rfl⟩

theorem tell (event : Event) : Ends (Act.tell event) fs (.ok ()) fs := fun _ => ⟨_, rfl⟩

theorem note (topic message : String) : Ends (Act.note topic message) fs (.ok ()) fs :=
  tell _

theorem orFail (wrap : ε → Failure) (result : Except ε α) :
    Ends (Act.orFail wrap result) fs (result.mapError wrap) fs := by
  cases result with
  | ok a => exact fun told => ⟨told, rfl⟩
  | error e => exact fun told => ⟨told, rfl⟩

theorem bind {x : Act α} {f : α → Act β} {a : α} {result : Except Failure β}
    (hx : Ends x fs (.ok a) fs') (hf : Ends (f a) fs' result fs'') :
    Ends (x >>= f) fs result fs'' := by
  intro told
  obtain ⟨told₁, hx⟩ := hx told
  rw [outcome_bind_of_ok hx]
  exact hf told₁

theorem bind_error {x : Act α} {f : α → Act β} {e : Failure} (hx : Ends x fs (.error e) fs') :
    Ends (x >>= f) fs (.error e) fs' := by
  intro told
  obtain ⟨told₁, hx⟩ := hx told
  exact ⟨told₁, outcome_bind_of_error hx⟩

theorem map {x : Act α} {f : α → β} {result : Except Failure α} (hx : Ends x fs result fs') :
    Ends (x >>= fun a => Pure.pure (f a)) fs (result.map f) fs' := by
  cases result with
  | error e => exact hx.bind_error
  | ok a => exact hx.bind (pure _)

theorem guard {c : Prop} [Decidable c] (hc : ¬c) {e : Failure} {f : Unit → Act α}
    {result : Except Failure α} (hf : Ends (f ()) fs result fs') :
    Ends (if c then (throw e : Act Unit) >>= f else f ()) fs result fs' := by
  rw [if_neg hc]
  exact hf

theorem afterLine {c : Prop} [Decidable c] {status : Status} {message : String}
    {f : Unit → Act α} {result : Except Failure α} (hf : Ends (f ()) fs result fs') :
    Ends (if c then Act.line status message >>= f else f ()) fs result fs' := by
  split
  · exact (tell _).bind hf
  · exact hf

theorem forM {xs : List α} {f : α → Act Unit} (hf : ∀ a, Ends (f a) fs (.ok ()) fs) :
    Ends (xs.forM f) fs (.ok ()) fs := by
  induction xs with
  | nil => exact pure ()
  | cons a xs ih => exact (hf a).bind ih

end Ends

/-- An act that does not fail has passed the guard that it begins with. -/
theorem of_guard_ok {α : Type} {c : Prop} [Decidable c] {e : Failure} {f : Unit → Act α}
    {w w' : World} {a : α}
    (h : outcome (if c then (throw e : Act Unit) >>= f else f ()) w = (.ok a, w')) :
    ¬c ∧ outcome (f ()) w = (.ok a, w') := by
  split at h
  · cases h
  · rename_i hc
    exact ⟨hc, h⟩

theorem of_afterLine {α : Type} {c : Prop} [Decidable c] {status : Status} {message : String}
    {f : Unit → Act α} {w w' : World} {result : Except Failure α}
    (h : outcome (if c then Act.line status message >>= f else f ()) w = (result, w')) :
    ∃ told, outcome (f ()) ⟨w.files, told⟩ = (result, w') := by
  split at h
  · rw [outcome_bind_of_ok (Act.outcome_line w _ _)] at h
    exact ⟨_, h⟩
  · exact ⟨w.told, h⟩

end Ingot.Workflow
