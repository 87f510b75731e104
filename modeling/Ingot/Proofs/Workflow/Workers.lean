import Mathlib.Logic.Relation
import Mathlib.Data.List.Forall2
import Mathlib.Order.WellFounded
import Ingot.Proofs.Workflow.Acts
import Ingot.Workflow.Compile

/-!
# Workers that compile at the same time

The sources may be compiled by workers that share one number: the least index of a source
that is known to fail. For each source a worker reads that number and skips the source if
the number is smaller than its index; otherwise it calls the front end and, if that fails,
lowers the shared number to the index. The steps of different workers come in any order:
`Step` is one of them, and a *schedule* is a row of steps.

What every schedule keeps is `Sound`: what a source was settled as is what the front end says
of it, a skipped source stands behind one that was recorded as failed, and so does the shared
number. From this follows that **what is collected in the end does not depend on the
schedule** (`schedules_agree`): it is what a loop over the sources in their order gives, which
stops at the first source that fails or repeats the name of a unit.
-/

namespace Ingot.Workflow

open Compilation (CompiledUnit FrontEnd FrontEndFault Project)

/-! ### The loop -/

/-- Compiles sources in their order behind units that were made before; the first source that
fails or repeats a name ends it. -/
def compileLoop (frontEnd : FrontEnd) (fs : FileSystem) (root : String) :
    List CompiledUnit → List String → Except Failure Project
  | units, [] => .ok ⟨units⟩
  | units, file :: files =>
    match frontEnd fs root file with
    | .error fault => .error (.compile file fault)
    | .ok unit =>
      match units.find? fun other => other.name == unit.name with
      | some first => .error (.repeatedUnit unit.name first.source unit.source)
      | none => compileLoop frontEnd fs root (units ++ [unit]) files

/-! ### Steps of workers -/

/-- How far the work on a source is. -/
inductive Stage where
  /-- No worker has looked at it. -/
  | waiting
  /-- A worker has it and is about to call the front end. -/
  | started
  /-- The front end has failed, which is not recorded yet. -/
  | failing (fault : FrontEndFault)
  /-- Nothing more is done. -/
  | settled (slot : Slot)

/-- The stages of all sources, and the least index of a source recorded as failed. -/
structure Workers where
  /-- The stage of each source. -/
  stages : List Stage
  /-- The number that the workers share; there is none before the first failure. -/
  firstFailure : Option ℕ

namespace Workers

/-- Workers that have done nothing yet. -/
def start (sources : ℕ) : Workers := ⟨List.replicate sources .waiting, none⟩

/-- The work on one source at another stage. -/
def set (w : Workers) (i : ℕ) (stage : Stage) : Workers := { w with stages := w.stages.set i stage }

/-- The shared number lowered to an index, if it is not smaller already. -/
def lower (w : Workers) (i : ℕ) : Workers :=
  { w with firstFailure := some ((w.firstFailure.map (min i)).getD i) }

/-- A source is recorded as failed. -/
def FailedAt (w : Workers) (i : ℕ) : Prop :=
  ∃ file fault, w.stages[i]? = some (.settled (.failed file fault))

/-- The work on all sources is done, and these are the slots. -/
def Done (w : Workers) (slots : List Slot) : Prop := w.stages = slots.map .settled

end Workers

section Schedules

variable (frontEnd : FrontEnd) (fs : FileSystem) (root : String) (files : List String)

/-- A step of one of the workers. -/
inductive Step : Workers → Workers → Prop where
  /-- The shared number is read; it is smaller than the index, so the source is skipped. -/
  | skip {w : Workers} {i f : ℕ} : w.stages[i]? = some .waiting → w.firstFailure = some f →
      f < i → Step w (w.set i (.settled .skipped))
  /-- The shared number is read; it is not smaller, so the source is to be compiled. -/
  | start {w : Workers} {i : ℕ} : w.stages[i]? = some .waiting →
      (∀ f, w.firstFailure = some f → i ≤ f) → Step w (w.set i .started)
  /-- The front end gives a unit. -/
  | finish {w : Workers} {i : ℕ} {file : String} {unit : CompiledUnit} :
      w.stages[i]? = some .started → files[i]? = some file →
      frontEnd fs root file = .ok unit → Step w (w.set i (.settled (.done unit)))
  /-- The front end fails. -/
  | fail {w : Workers} {i : ℕ} {file : String} {fault : FrontEndFault} :
      w.stages[i]? = some .started → files[i]? = some file →
      frontEnd fs root file = .error fault → Step w (w.set i (.failing fault))
  /-- The failure is recorded. -/
  | record {w : Workers} {i : ℕ} {file : String} {fault : FrontEndFault} :
      w.stages[i]? = some (.failing fault) → files[i]? = some file →
      Step w ((w.set i (.settled (.failed file fault))).lower i)

/-- What workers come to by some schedule. -/
def Reached : Workers → Prop := Relation.ReflTransGen (Step frontEnd fs root files)
  (.start files.length)

/-! ### What every step keeps -/

/-- A stage that a source can be at, with what is known of the other sources. -/
def Fits (w : Workers) (i : ℕ) (file : String) : Stage → Prop
  | .waiting => True
  | .started => True
  | .failing fault => frontEnd fs root file = .error fault
  | .settled .skipped => ∃ j < i, w.FailedAt j
  | .settled (.failed file' fault) => file' = file ∧ frontEnd fs root file = .error fault
  | .settled (.done unit) => frontEnd fs root file = .ok unit

/-- All stages fit, and the shared number is the index of a source recorded as failed. -/
structure Sound (w : Workers) : Prop where
  length : w.stages.length = files.length
  fits : ∀ i file stage, files[i]? = some file → w.stages[i]? = some stage →
    Fits frontEnd fs root w i file stage
  recorded : ∀ f, w.firstFailure = some f → w.FailedAt f

variable {frontEnd fs root files}

theorem sound_start : Sound frontEnd fs root files (.start files.length) := by
  refine ⟨List.length_replicate, ?_, ?_⟩
  · intro i file stage _ hstage
    have hmem := List.mem_of_getElem? hstage
    obtain rfl := List.eq_of_mem_replicate hmem
    trivial
  · intro f hf
    cases hf

/-- A source that was recorded stays so when another stage is set. -/
theorem Workers.FailedAt.set {w : Workers} {i j : ℕ} {stage : Stage} (hj : w.FailedAt j)
    (hi : ∀ slot, w.stages[i]? ≠ some (.settled slot)) : (w.set i stage).FailedAt j := by
  obtain ⟨file, fault, hj⟩ := hj
  refine ⟨file, fault, ?_⟩
  by_cases hij : i = j
  · subst hij
    exact absurd hj (hi _)
  · rw [Workers.set, List.getElem?_set_ne hij]
    exact hj

theorem Fits.mono {w w' : Workers} {i : ℕ} {file : String} {stage : Stage}
    (h : Fits frontEnd fs root w i file stage) (hw : ∀ j, w.FailedAt j → w'.FailedAt j) :
    Fits frontEnd fs root w' i file stage := by
  cases stage with
  | waiting => trivial
  | started => trivial
  | failing fault => exact h
  | settled slot =>
    cases slot with
    | skipped =>
      obtain ⟨j, hji, hj⟩ := h
      exact ⟨j, hji, hw j hj⟩
    | failed file' fault => exact h
    | done unit => exact h

/-- Setting a stage that fits, in the place of one at which the source was not settled. -/
theorem Sound.set {w : Workers} (h : Sound frontEnd fs root files w) {i : ℕ} {stage : Stage}
    (hi : ∀ slot, w.stages[i]? ≠ some (.settled slot))
    (hfits : ∀ file, files[i]? = some file → Fits frontEnd fs root w i file stage) :
    Sound frontEnd fs root files (w.set i stage) := by
  have hkeep : ∀ j, w.FailedAt j → (w.set i stage).FailedAt j := fun j hj => hj.set hi
  refine ⟨?_, ?_, fun f hf => hkeep f (h.recorded f hf)⟩
  · rw [Workers.set, List.length_set]
    exact h.length
  · intro j file stage' hfile hstage
    by_cases hij : i = j
    · subst hij
      have hlt : i < w.stages.length := by
        rw [h.length]
        exact (List.getElem?_eq_some_iff.1 hfile).1
      rw [Workers.set, List.getElem?_set_self hlt, Option.some.injEq] at hstage
      exact hstage ▸ (hfits file hfile).mono hkeep
    · rw [Workers.set, List.getElem?_set_ne hij] at hstage
      exact (h.fits j file stage' hfile hstage).mono hkeep

/-- Lowering the shared number to the index of a source that is recorded as failed. -/
theorem Sound.lower {w : Workers} (h : Sound frontEnd fs root files w) {i : ℕ}
    (hi : w.FailedAt i) : Sound frontEnd fs root files (w.lower i) := by
  refine ⟨h.length, ?_, ?_⟩
  · intro j file stage hfile hstage
    exact (h.fits j file stage hfile hstage).mono fun _ hj => hj
  · intro f hf
    obtain rfl : (w.firstFailure.map (min i)).getD i = f := Option.some.inj hf
    cases hfirst : w.firstFailure with
    | none => exact hi
    | some f =>
      have hfailed := h.recorded f hfirst
      show w.FailedAt (min i f)
      rcases Nat.le_total i f with hle | hle
      · rw [Nat.min_eq_left hle]
        exact hi
      · rw [Nat.min_eq_right hle]
        exact hfailed

/-- **Every step keeps what is known.** -/
theorem Sound.step {w w' : Workers} (h : Sound frontEnd fs root files w)
    (hs : Step frontEnd fs root files w w') : Sound frontEnd fs root files w' := by
  cases hs with
  | @skip i f hi hf hlt =>
    exact h.set (by simp [hi]) fun file _ => ⟨f, hlt, h.recorded f hf⟩
  | @start i hi hle => exact h.set (by simp [hi]) fun file _ => trivial
  | @finish i file unit hi hfile hunit =>
    refine h.set (by simp [hi]) fun file' hfile' => ?_
    obtain rfl : file = file' := Option.some.inj (hfile.symm.trans hfile')
    exact hunit
  | @fail i file fault hi hfile hfault =>
    refine h.set (by simp [hi]) fun file' hfile' => ?_
    obtain rfl : file = file' := Option.some.inj (hfile.symm.trans hfile')
    exact hfault
  | @record i file fault hi hfile =>
    have hlt : i < w.stages.length := (List.getElem?_eq_some_iff.1 hi).1
    refine Sound.lower ?_ ⟨file, fault, List.getElem?_set_self hlt⟩
    refine h.set (by simp [hi]) fun file' hfile' => ?_
    obtain rfl : file = file' := Option.some.inj (hfile.symm.trans hfile')
    exact ⟨rfl, h.fits i file _ hfile hi⟩

theorem Reached.sound {w : Workers} (h : Reached frontEnd fs root files w) :
    Sound frontEnd fs root files w := by
  induction h with
  | refl => exact sound_start
  | tail _ hs ih => exact ih.step hs

/-! ### Schedules end -/

/-- The number of steps that a source still takes, at most. -/
def Stage.work : Stage → ℕ
  | waiting => 3
  | started => 2
  | failing _ => 1
  | settled _ => 0

/-- The number of steps that all sources still take, at most. -/
def Workers.work (w : Workers) : ℕ := w.stages.foldr (fun stage left => stage.work + left) 0

theorem work_set_lt {w : Workers} {i : ℕ} {old new : Stage} (hi : w.stages[i]? = some old)
    (hlt : new.work < old.work) : (w.set i new).work < w.work := by
  obtain ⟨stages, first⟩ := w
  show (stages.set i new).foldr (fun stage left => stage.work + left) 0 <
    stages.foldr (fun stage left => stage.work + left) 0
  replace hi : stages[i]? = some old := hi
  induction stages generalizing i with
  | nil => cases hi
  | cons stage more ih =>
    cases i with
    | zero =>
      obtain rfl : stage = old := Option.some.inj hi
      simp only [List.set_cons_zero, List.foldr_cons]
      omega
    | succ i =>
      have := ih hi
      simp only [List.set_cons_succ, List.foldr_cons]
      omega

theorem Step.work_lt {w w' : Workers} (hs : Step frontEnd fs root files w w') :
    w'.work < w.work := by
  cases hs with
  | skip hi hf hlt => exact work_set_lt hi (by simp [Stage.work])
  | start hi hle => exact work_set_lt hi (by simp [Stage.work])
  | finish hi hfile hunit => exact work_set_lt hi (by simp [Stage.work])
  | fail hi hfile hfault => exact work_set_lt hi (by simp [Stage.work])
  | record hi hfile => exact work_set_lt hi (by simp [Stage.work])

theorem exists_slots {stages : List Stage} (h : ∀ s ∈ stages, ∃ slot, s = .settled slot) :
    ∃ slots : List Slot, stages = slots.map .settled := by
  induction stages with
  | nil => exact ⟨[], rfl⟩
  | cons stage more ih =>
    obtain ⟨⟨slot, rfl⟩, hmore⟩ := List.forall_mem_cons.1 h
    obtain ⟨slots, rfl⟩ := ih hmore
    exact ⟨slot :: slots, rfl⟩

/-- Workers that are not done can do a step. -/
theorem Sound.done_or_step {w : Workers} (h : Sound frontEnd fs root files w) :
    (∃ slots, w.Done slots) ∨ ∃ w', Step frontEnd fs root files w w' := by
  by_cases hall : ∀ s ∈ w.stages, ∃ slot, s = .settled slot
  · exact .inl (exists_slots hall)
  · right
    push Not at hall
    obtain ⟨stage, hmem, hopen⟩ := hall
    obtain ⟨i, hi⟩ := List.getElem?_of_mem hmem
    have hlt : i < files.length := by
      rw [← h.length]
      exact (List.getElem?_eq_some_iff.1 hi).1
    have hfile : files[i]? = some files[i] := List.getElem?_eq_getElem hlt
    cases stage with
    | waiting =>
      cases hfirst : w.firstFailure with
      | none => exact ⟨_, .start hi fun f hf => by rw [hfirst] at hf; cases hf⟩
      | some f =>
        rcases Nat.lt_or_ge f i with hfi | hif
        · exact ⟨_, .skip hi hfirst hfi⟩
        · refine ⟨_, .start hi fun f' hf' => ?_⟩
          rw [hfirst] at hf'
          cases hf'
          exact hif
    | started =>
      cases hunit : frontEnd fs root files[i] with
      | error fault => exact ⟨_, .fail hi hfile hunit⟩
      | ok unit => exact ⟨_, .finish hi hfile hunit⟩
    | failing fault => exact ⟨_, .record hi hfile⟩
    | settled slot => exact absurd rfl (hopen slot)

/-! ### What is collected -/

variable (frontEnd fs root) in
/-- Slots of sources as a schedule may leave them: up to the first failure all sources have
their units, and behind it nothing is said. -/
inductive Settles : List String → List Slot → Prop where
  /-- No sources. -/
  | nil : Settles [] []
  /-- The first source has its unit. -/
  | done {file : String} {files : List String} {unit : CompiledUnit} {slots : List Slot} :
      frontEnd fs root file = .ok unit → Settles files slots →
      Settles (file :: files) (.done unit :: slots)
  /-- The first source fails. -/
  | failed {file : String} {files : List String} {fault : FrontEndFault} {slots : List Slot} :
      frontEnd fs root file = .error fault → Settles (file :: files) (.failed file fault :: slots)

/-- **What is collected from such slots is what the loop gives.** -/
theorem Settles.collect_eq {files : List String} {slots : List Slot}
    (h : Settles frontEnd fs root files slots) (units : List CompiledUnit) :
    collect ⟨units⟩ slots = compileLoop frontEnd fs root units files := by
  induction h generalizing units with
  | nil => rfl
  | @done _ _ unit _ hunit _ ih =>
    rw [collect, compileLoop, hunit]
    cases hfind : units.find? fun other => other.name == unit.name with
    | some first => simp only [hfind]
    | none =>
      simp only [hfind]
      exact ih _
  | failed hfault => rw [collect, compileLoop, hfault]

/-- From an index on before which no source was recorded as failed: a source there was not
skipped, because a skipped source stands behind a failed one. -/
theorem Sound.settles_from {w : Workers} (h : Sound frontEnd fs root files w) {k : ℕ}
    {later : List String} {slots : List Slot}
    (hlater : ∀ i, files[k + i]? = later[i]?)
    (hslots : ∀ i, w.stages[k + i]? = slots[i]?.map .settled)
    (hbefore : ∀ j, w.FailedAt j → k ≤ j) (hlen : later.length = slots.length) :
    Settles frontEnd fs root later slots := by
  induction later generalizing k slots with
  | nil =>
    obtain rfl : slots = [] := List.eq_nil_of_length_eq_zero hlen.symm
    exact .nil
  | cons file later ih =>
    cases slots with
    | nil => cases hlen
    | cons slot slots =>
      have hstage : w.stages[k]? = some (.settled slot) := hslots 0
      have hfits := h.fits k file _ (hlater 0) hstage
      cases slot with
      | skipped =>
        obtain ⟨j, hjk, hj⟩ := hfits
        have := hbefore j hj
        omega
      | failed file' fault =>
        obtain ⟨rfl, hfault⟩ := hfits
        exact .failed hfault
      | done unit =>
        refine .done hfits (ih (k := k + 1) ?_ ?_ ?_ (Nat.succ.inj hlen))
        · intro i
          rw [Nat.add_assoc, Nat.add_comm 1 i]
          exact hlater (i + 1)
        · intro i
          rw [Nat.add_assoc, Nat.add_comm 1 i]
          exact hslots (i + 1)
        · rintro j ⟨file', fault, hj⟩
          have hle := hbefore j ⟨file', fault, hj⟩
          have hne : j ≠ k := by
            rintro rfl
            rw [hstage] at hj
            cases hj
          omega

theorem Sound.settles {w : Workers} (h : Sound frontEnd fs root files w) {slots : List Slot}
    (hdone : w.Done slots) : Settles frontEnd fs root files slots := by
  have hlen : files.length = slots.length := by
    rw [← h.length, hdone, List.length_map]
  refine h.settles_from (k := 0) (fun i => by rw [Nat.zero_add]) ?_ (fun j _ => Nat.zero_le j) hlen
  intro i
  rw [Nat.zero_add, hdone, List.getElem?_map]

/-- What is collected at the end of a schedule is what the loop gives. -/
theorem Reached.collect_eq {w : Workers} (h : Reached frontEnd fs root files w) {slots : List Slot}
    (hdone : w.Done slots) : collect .empty slots = compileLoop frontEnd fs root [] files :=
  ((Reached.sound h).settles hdone).collect_eq []

/-- A source is only skipped behind one that fails. -/
theorem Sound.skipped {w : Workers} (h : Sound frontEnd fs root files w) {i : ℕ}
    (hi : w.stages[i]? = some (.settled .skipped)) :
    ∃ j < i, w.FailedAt j ∧ ∃ file fault, files[j]? = some file ∧
      frontEnd fs root file = .error fault := by
  have hfile : ∀ j : ℕ, (∃ stage, w.stages[j]? = some stage) → ∃ file, files[j]? = some file := by
    rintro j ⟨stage, hj⟩
    have hlt : j < files.length := by
      rw [← h.length]
      exact (List.getElem?_eq_some_iff.1 hj).1
    exact ⟨files[j], List.getElem?_eq_getElem hlt⟩
  obtain ⟨file, hfi⟩ := hfile i ⟨_, hi⟩
  obtain ⟨j, hji, hj⟩ := h.fits i file _ hfi hi
  obtain ⟨file', fault, hstage⟩ := id hj
  obtain ⟨file'', hfj⟩ := hfile j ⟨_, hstage⟩
  obtain ⟨_, hfault⟩ := h.fits j file'' _ hfj hstage
  exact ⟨j, hji, hj, file'', fault, hfj, hfault⟩

/-! ### The loop and the schedule of one worker -/

/-- A project that the loop gives has the units of the sources, in their order, behind those
that were there. -/
theorem units_of_compileLoop {units : List CompiledUnit} {project : Project}
    (h : compileLoop frontEnd fs root units files = .ok project) :
    ∃ more, project.units = units ++ more ∧
      List.Forall₂ (fun file unit => frontEnd fs root file = .ok unit) files more := by
  induction files generalizing units with
  | nil =>
    cases h
    exact ⟨[], by simp, .nil⟩
  | cons file files ih =>
    rw [compileLoop] at h
    split at h
    · cases h
    · rename_i unit hunit
      split at h
      · cases h
      · obtain ⟨more, hmore, hall⟩ := ih h
        exact ⟨unit :: more, by rw [hmore, List.append_assoc]; rfl, .cons hunit hall⟩

/-- No two units that the loop gives have the same name. -/
theorem nodup_of_compileLoop {units : List CompiledUnit} {project : Project}
    (hunits : (units.map CompiledUnit.name).Nodup)
    (h : compileLoop frontEnd fs root units files = .ok project) :
    (project.units.map CompiledUnit.name).Nodup := by
  induction files generalizing units with
  | nil =>
    cases h
    exact hunits
  | cons file files ih =>
    rw [compileLoop] at h
    split at h
    · cases h
    · rename_i unit hunit
      split at h
      · cases h
      · rename_i hnew
        refine ih ?_ h
        rw [List.map_append, List.map_singleton, List.nodup_append]
        refine ⟨hunits, by simp, ?_⟩
        intro name hname other hother
        obtain rfl := List.mem_singleton.1 hother
        rintro rfl
        obtain ⟨first, hfirst, hsame⟩ := List.mem_map.1 hname
        have hother := List.find?_eq_none.1 hnew first hfirst
        rw [hsame] at hother
        simp at hother

end Schedules

/-- What is said of a source that is about to be compiled. -/
def announcement (root file : String) : Console.Event :=
  .detail .compiling s!"{Raw.shown (Path.relativeTo root file)} ..."

section InOrder

open Effect

variable {frontEnd : FrontEnd} {root : String} {files : List String}

/-- A source that fails ends the work. -/
theorem outcome_compileInOrder_error {file : String} {fault : FrontEndFault} {w : World}
    (h : frontEnd w.files root file = .error fault) :
    outcome (compileInOrder frontEnd root (file :: files)) w =
      (.ok (.failed file fault :: files.map fun _ => .skipped),
        ⟨w.files, w.told ++ [announcement root file]⟩) := by
  rw [compileInOrder, outcome_bind_of_ok (Act.outcome_detail _ _ _),
    outcome_bind_of_ok (Act.outcome_files _)]
  simp only [compileSource, h]
  rfl

/-- Behind a source that is compiled the work goes on with the next. -/
theorem outcome_compileInOrder_ok {file : String} {unit : CompiledUnit} {slots : List Slot}
    {w w' : World} (h : frontEnd w.files root file = .ok unit)
    (hrest : outcome (compileInOrder frontEnd root files)
      ⟨w.files, w.told ++ [announcement root file]⟩ = (.ok slots, w')) :
    outcome (compileInOrder frontEnd root (file :: files)) w = (.ok (.done unit :: slots), w') := by
  rw [compileInOrder, outcome_bind_of_ok (Act.outcome_detail _ _ _),
    outcome_bind_of_ok (Act.outcome_files _)]
  simp only [compileSource, h]
  exact outcome_bind_of_ok hrest

end InOrder

open Effect in
/-- Compiling one source after the other leaves slots as a schedule may leave them, and does
not touch the files. -/
theorem compileInOrder_settles (frontEnd : FrontEnd) (root : String) (files : List String)
    (w : World) : ∃ slots told, outcome (compileInOrder frontEnd root files) w =
      (.ok slots, ⟨w.files, told⟩) ∧ Settles frontEnd w.files root files slots := by
  induction files generalizing w with
  | nil => exact ⟨[], w.told, rfl, .nil⟩
  | cons file files ih =>
    cases hunit : frontEnd w.files root file with
    | error fault => exact ⟨_, _, outcome_compileInOrder_error hunit, .failed hunit⟩
    | ok unit =>
      obtain ⟨slots, told, hslots, hsettles⟩ := ih ⟨w.files, w.told ++ [announcement root file]⟩
      exact ⟨_, told, outcome_compileInOrder_ok hunit hslots, .done hunit hsettles⟩

open Effect in
/-- The program compiles sources as the loop does. -/
theorem outcome_compileSources (frontEnd : FrontEnd) (root : String) (files : List String)
    (w : World) : ∃ told, outcome (compileSources frontEnd root files) w =
      (compileLoop frontEnd w.files root [] files, ⟨w.files, told⟩) := by
  obtain ⟨slots, told, hslots, hsettles⟩ := compileInOrder_settles frontEnd root files w
  have hcollect : collect .empty slots = compileLoop frontEnd w.files root [] files :=
    hsettles.collect_eq []
  unfold compileSources
  rw [outcome_bind_of_ok hslots, hcollect]
  cases compileLoop frontEnd w.files root [] files with
  | error failure => exact ⟨_, rfl⟩
  | ok project => exact ⟨_, rfl⟩

/-! ### All schedules -/

/-- **Compiling at the same time is compiling in order, whatever the schedule.** No schedule
goes on for ever, and one that is not at its end can go on. A source is skipped only behind
one that fails, and what is collected in the end is what the loop gives, which is what the
program gives; a project has the units of the sources in the order of these. -/
theorem schedules_agree (frontEnd : FrontEnd) (fs : FileSystem) (root : String)
    (files : List String) :
    (¬ ∃ run : ℕ → Workers, run 0 = .start files.length ∧
      ∀ k, Step frontEnd fs root files (run k) (run (k + 1))) ∧
    (∀ w, Reached frontEnd fs root files w →
      ((∃ slots, w.Done slots) ∨ ∃ w', Step frontEnd fs root files w w') ∧
      (∀ i : ℕ, w.stages[i]? = some (.settled .skipped) → ∃ j < i, w.FailedAt j ∧
        ∃ file fault, files[j]? = some file ∧ frontEnd fs root file = .error fault) ∧
      ∀ slots, w.Done slots → collect .empty slots = compileLoop frontEnd fs root [] files) ∧
    (∀ project, compileLoop frontEnd fs root [] files = .ok project →
      List.Forall₂ (fun file unit => frontEnd fs root file = .ok unit) files project.units) ∧
    ∀ w : World, w.files = fs → ∃ told, Effect.outcome (compileSources frontEnd root files) w =
      (compileLoop frontEnd fs root [] files, ⟨fs, told⟩) := by
  refine ⟨?_, ?_, ?_, ?_⟩
  · rintro ⟨run, _, hrun⟩
    have hdown : ∀ k, (run k).work + k ≤ (run 0).work := by
      intro k
      induction k with
      | zero => exact le_rfl
      | succ k ih =>
        have := (hrun k).work_lt
        omega
    have := hdown ((run 0).work + 1)
    omega
  · intro w hw
    have hsound := Reached.sound hw
    refine ⟨hsound.done_or_step, fun i hi => hsound.skipped hi, fun slots hdone => ?_⟩
    exact (hsound.settles hdone).collect_eq []
  · intro project hproject
    obtain ⟨more, hmore, hall⟩ := units_of_compileLoop hproject
    rw [hmore]
    exact hall
  · rintro w rfl
    exact outcome_compileSources frontEnd root files w

/-- Two workers, where both sources fail and the failure of the second is recorded first: the
failure of the first is reported. -/
theorem schedules_agree_late_failure :
    ∃ w slots, Reached (fun _ _ _ => .error (.unreadable .notFound)) ⟨[], []⟩ "" ["a", "b"] w ∧
      w.Done slots ∧
      collect .empty slots = .error (.compile "a" (.unreadable .notFound)) := by
  let frontEnd : FrontEnd := fun _ _ _ => .error (.unreadable .notFound)
  have hrun : Reached frontEnd ⟨[], []⟩ "" ["a", "b"]
      ⟨[.settled (.failed "a" (.unreadable .notFound)),
        .settled (.failed "b" (.unreadable .notFound))], some 0⟩ := by
    refine .tail (.tail (.tail (.tail (.tail (.tail .refl
      (.start (i := 0) rfl (by simp [Workers.start])))
      (.start (i := 1) rfl (by simp [Workers.start, Workers.set])))
      (.fail (i := 1) rfl rfl rfl)) (.record (i := 1) rfl rfl))
      (.fail (i := 0) rfl rfl rfl)) (.record (i := 0) rfl rfl)
  have hdone : Workers.Done ⟨[.settled (.failed "a" (.unreadable .notFound)),
      .settled (.failed "b" (.unreadable .notFound))], some 0⟩
      [.failed "a" (.unreadable .notFound), .failed "b" (.unreadable .notFound)] := rfl
  obtain ⟨_, hall, _, _⟩ := schedules_agree frontEnd ⟨[], []⟩ "" ["a", "b"]
  exact ⟨_, _, hrun, hdone, (hall _ hrun).2.2 _ hdone⟩

end Ingot.Workflow
