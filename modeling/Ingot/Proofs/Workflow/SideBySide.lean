import Ingot.Proofs.FileSystem.Relocation
import Ingot.Proofs.Workflow.Stages

/-!
# Two invocations side by side

Two acts, each on its own file system that holds the same tree below its own location, end alike
(`EndAlike`) if they come to related values, or to failures of one kind about the same file below
the location (`Failure.Corresponds`), and leave the same tree. How they end is put together from
how their parts do, in the way in which it is for one act alone (`Ends`).
-/

namespace Ingot.Workflow

open Effect
open FileSystem (Counterpart SameTree)

/-! ### Failures of one kind -/

/-- Failures of one kind, about files to which the same way leads from two locations. -/
inductive Failure.Corresponds (l l' : Location) : Failure → Failure → Prop where
  /-- The tools are not as they should be. -/
  | tools {e : Failure} : e.IsAboutTools → Corresponds l l' e e
  /-- There is no manifest. -/
  | noManifest {root root' : String} : Counterpart l l' root root' →
      Corresponds l l' (.noManifest root) (.noManifest root')
  /-- The manifest cannot be read. -/
  | unreadableManifest {path path' : String} {fault : IoFault} : Counterpart l l' path path' →
      Corresponds l l' (.badManifest (.unreadable path fault)) (.badManifest (.unreadable path' fault))
  /-- The text of the manifest is no good. -/
  | faultyManifest {path path' : String} {fault : Package.ManifestFault} :
      Counterpart l l' path path' →
      Corresponds l l' (.badManifest (.faulty path fault)) (.badManifest (.faulty path' fault))
  /-- The directory of the sources is not there. -/
  | noSourceRoot {path path' : String} : Counterpart l l' path path' →
      Corresponds l l' (.noSourceRoot path) (.noSourceRoot path')
  /-- The sources cannot be found. -/
  | scan {path path' message : String} : Counterpart l l' path path' →
      Corresponds l l' (.scan path message) (.scan path' message)
  /-- The directory for what is built cannot be made. -/
  | noOutputDirectory {path path' : String} {fault : IoFault} : Counterpart l l' path path' →
      Corresponds l l' (.noOutputDirectory path fault) (.noOutputDirectory path' fault)
  /-- A source does not compile. -/
  | compile {file file' : String} {fault : Compilation.FrontEndFault} : Counterpart l l' file file' →
      Corresponds l l' (.compile file fault) (.compile file' fault)
  /-- Two sources have units of the same name. -/
  | repeatedUnit {unit first first' second second' : String} : Counterpart l l' first first' →
      Counterpart l l' second second' →
      Corresponds l l' (.repeatedUnit unit first second) (.repeatedUnit unit first' second')
  /-- An artifact cannot be written. -/
  | emit {form : ArtifactForm} {path path' message : String} : Counterpart l l' path path' →
      Corresponds l l' (.emit form path message) (.emit form path' message)
  /-- An artifact cannot be read again. -/
  | artifactUnreadable {path path' : String} {fault : IoFault} : Counterpart l l' path path' →
      Corresponds l l' (.artifactUnreadable path fault) (.artifactUnreadable path' fault)

/-! ### Acts that end alike -/

/-- From two file systems, two acts come to related values or to failures of one kind, and they
leave the same tree. -/
def EndAlike {α α' : Type} (l l' : Location) (R : α → α' → Prop) (act : Act α) (act' : Act α')
    (fs fs' : FileSystem) : Prop :=
  ∃ result result' fs₁ fs₁', Ends act fs result fs₁ ∧ Ends act' fs' result' fs₁' ∧
    Alike (Failure.Corresponds l l') R result result' ∧ SameTree l l' fs₁ fs₁'

namespace EndAlike

variable {ε ε' α α' β β' : Type} {l l' : Location} {fs fs' fs₁ fs₁' : FileSystem}
  {R : α → α' → Prop} {S : β → β' → Prop}

theorem pure (h : SameTree l l' fs fs') {a : α} {a' : α'} (ha : R a a') :
    EndAlike l l' R (Pure.pure a : Act α) (Pure.pure a' : Act α') fs fs' :=
  ⟨_, _, _, _, .pure a, .pure a', .ok ha, h⟩

theorem fail (h : SameTree l l' fs fs') {e e' : Failure} (he : e.Corresponds l l' e') :
    EndAlike l l' R (throw e : Act α) (throw e' : Act α') fs fs' :=
  ⟨.error e, .error e', fs, fs', fun told => ⟨told, rfl⟩, fun told => ⟨told, rfl⟩, .error he, h⟩

theorem bind {x : Act α} {x' : Act α'} {f : α → Act β} {f' : α' → Act β'}
    (hx : EndAlike l l' R x x' fs fs')
    (hf : ∀ a a' fs₁ fs₁', Ends x fs (.ok a) fs₁ → Ends x' fs' (.ok a') fs₁' → R a a' →
      SameTree l l' fs₁ fs₁' → EndAlike l l' S (f a) (f' a') fs₁ fs₁') :
    EndAlike l l' S (x >>= f) (x' >>= f') fs fs' := by
  obtain ⟨result, result', fs₁, fs₁', hend, hend', halike, htree⟩ := hx
  cases halike with
  | error he => exact ⟨_, _, _, _, hend.bind_error, hend'.bind_error, .error he, htree⟩
  | ok ha =>
    obtain ⟨_, _, _, _, hrest, hrest', halike, htree'⟩ := hf _ _ _ _ hend hend' ha htree
    exact ⟨_, _, _, _, hend.bind hrest, hend'.bind hrest', halike, htree'⟩

/-- Acts that keep the files leave the rest where it was. -/
theorem bindKept {x : Act α} {x' : Act α'} {f : α → Act β} {f' : α' → Act β'}
    (hx : EndAlike l l' R x x' fs fs') (hkeeps : KeepsFiles x) (hkeeps' : KeepsFiles x')
    (hf : ∀ a a', Ends x fs (.ok a) fs → Ends x' fs' (.ok a') fs' → R a a' →
      EndAlike l l' S (f a) (f' a') fs fs') :
    EndAlike l l' S (x >>= f) (x' >>= f') fs fs' := by
  refine hx.bind fun a a' fs₁ fs₁' hend hend' ha _ => ?_
  have hsame : ∀ {α : Type} {y : Act α} {g g₁ : FileSystem} {result : Except Failure α},
      KeepsFiles y → Ends y g result g₁ → g₁ = g := by
    intro α y g g₁ result hy hends
    obtain ⟨_, hout⟩ := hends []
    have hfiles := hy ⟨g, []⟩
    rwa [hout] at hfiles
  obtain rfl := hsame hkeeps hend
  obtain rfl := hsame hkeeps' hend'
  exact hf a a' hend hend' ha

theorem bindFiles {f : FileSystem → Act β} {f' : FileSystem → Act β'}
    (hf : EndAlike l l' S (f fs) (f' fs') fs fs') :
    EndAlike l l' S (Act.files >>= f) (Act.files >>= f') fs fs' := by
  obtain ⟨_, _, _, _, hend, hend', halike, htree⟩ := hf
  exact ⟨_, _, _, _, Ends.files.bind hend, Ends.files.bind hend', halike, htree⟩

theorem bindSetFiles {f : Unit → Act β} {f' : Unit → Act β'}
    (hf : EndAlike l l' S (f ()) (f' ()) fs₁ fs₁') :
    EndAlike l l' S (Act.setFiles fs₁ >>= f) (Act.setFiles fs₁' >>= f') fs fs' := by
  obtain ⟨_, _, _, _, hend, hend', halike, htree⟩ := hf
  exact ⟨_, _, _, _, Ends.setFiles.bind hend, Ends.setFiles.bind hend', halike, htree⟩

theorem bindTell {event event' : Console.Event} {f : Unit → Act β} {f' : Unit → Act β'}
    (hf : EndAlike l l' S (f ()) (f' ()) fs fs') :
    EndAlike l l' S (Act.tell event >>= f) (Act.tell event' >>= f') fs fs' := by
  obtain ⟨_, _, _, _, hend, hend', halike, htree⟩ := hf
  exact ⟨_, _, _, _, (Ends.tell event).bind hend, (Ends.tell event').bind hend', halike, htree⟩

theorem bindOrFail (h : SameTree l l' fs fs') {E : ε → ε' → Prop} {x : Except ε α}
    {x' : Except ε' α'} {wrap : ε → Failure} {wrap' : ε' → Failure} {f : α → Act β} {f' : α' → Act β'}
    (hx : Alike E R x x') (hwrap : ∀ e e', E e e' → (wrap e).Corresponds l l' (wrap' e'))
    (hf : ∀ a a', x = .ok a → x' = .ok a' → R a a' → EndAlike l l' S (f a) (f' a') fs fs') :
    EndAlike l l' S (Act.orFail wrap x >>= f) (Act.orFail wrap' x' >>= f') fs fs' := by
  cases hx with
  | error he => exact fail h (hwrap _ _ he)
  | ok ha => exact hf _ _ rfl rfl ha

theorem guard (h : SameTree l l' fs fs') {c c' : Prop} [Decidable c] [Decidable c'] (hc : c' ↔ c)
    {e e' : Failure} (he : c → e.Corresponds l l' e') {f : Unit → Act α} {f' : Unit → Act α'}
    (hf : ¬c → EndAlike l l' R (f ()) (f' ()) fs fs') :
    EndAlike l l' R (if c then (throw e : Act Unit) >>= f else f ())
      (if c' then (throw e' : Act Unit) >>= f' else f' ()) fs fs' := by
  by_cases hcase : c
  · rw [if_pos hcase, if_pos (hc.2 hcase)]
    exact fail h (he hcase)
  · rw [if_neg hcase, if_neg (mt hc.1 hcase)]
    exact hf hcase

theorem ite {c c' : Prop} [Decidable c] [Decidable c'] (hc : c' ↔ c) {x y : Act α} {x' y' : Act α'}
    (hx : c → EndAlike l l' R x x' fs fs') (hy : ¬c → EndAlike l l' R y y' fs fs') :
    EndAlike l l' R (if c then x else y) (if c' then x' else y') fs fs' := by
  by_cases hcase : c
  · rw [if_pos hcase, if_pos (hc.2 hcase)]
    exact hx hcase
  · rw [if_neg hcase, if_neg (mt hc.1 hcase)]
    exact hy hcase

theorem mapM {U : β → β' → Prop} {xs : List β} {xs' : List β'} {f : β → Act α} {f' : β' → Act α'}
    (hxs : List.Forall₂ U xs xs') (h : SameTree l l' fs fs')
    (hf : ∀ x x' fs fs', U x x' → SameTree l l' fs fs' → EndAlike l l' R (f x) (f' x') fs fs') :
    EndAlike l l' (List.Forall₂ R) (xs.mapM f) (xs'.mapM f') fs fs' := by
  induction hxs generalizing fs fs' with
  | nil => exact pure h .nil
  | cons hx _ ih =>
    rw [List.mapM_cons, List.mapM_cons]
    refine (hf _ _ _ _ hx h).bind fun a a' fs₁ fs₁' _ _ ha htree => ?_
    exact (ih htree).bind fun as as' fs₂ fs₂' _ _ has htree' => pure htree' (.cons ha has)

/-- Where the one act comes to a value, the other one comes to a related one. -/
theorem of_ok {x : Act α} {x' : Act α'} (hx : EndAlike l l' R x x' fs fs') {a : α}
    (hend : Ends x fs (.ok a) fs₁) : ∃ a' fs₁', Ends x' fs' (.ok a') fs₁' ∧ R a a' := by
  obtain ⟨result, result', fs₂, fs₂', hends, hends', halike, _⟩ := hx
  obtain ⟨_, hout⟩ := hend []
  obtain ⟨hresult, _⟩ := hends.eq (w := ⟨fs, []⟩) hout
  obtain ⟨a', rfl, ha⟩ := halike.of_ok hresult.symm
  exact ⟨a', fs₂', hends', ha⟩

theorem symm_of_ok {x : Act α} {x' : Act α'} (hx : EndAlike l l' R x x' fs fs') {a' : α'}
    (hend : Ends x' fs' (.ok a') fs₁') : ∃ a fs₁, Ends x fs (.ok a) fs₁ ∧ R a a' := by
  obtain ⟨result, result', fs₂, fs₂', hends, hends', halike, _⟩ := hx
  obtain ⟨_, hout⟩ := hend []
  obtain ⟨hresult, _⟩ := hends'.eq (w := ⟨fs', []⟩) hout
  obtain ⟨a, rfl, ha⟩ := halike.swap.of_ok hresult.symm
  exact ⟨a, fs₂, hends, ha⟩

end EndAlike

end Ingot.Workflow
