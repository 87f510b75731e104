import Ingot.Proofs.Workflow.Workers

/-!
# Workers that announce the sources

A worker that has a source says so before it calls the front end (`announcement`). A `Floor` is
how far the workers are, with the sources that they have announced in the order in which they
did; it changes by announcements and by steps of the workers (`Floor.Move`). The steps make up a
schedule (`Floor.Reached.workers`), so that what holds of all schedules holds whatever is
announced when; and every move keeps a floor `Floor.Faithful`, so that in the end **the sources
that were not skipped were announced, each of them once** (`Floor.Reached.announced`).

A compiler that tells what is announced on its way to some floor, and then concludes from the
slots that are left there, `Announces`. **So does the program** (`compileSources_announces`), with
a single worker, and every way to a floor on which all is done is that of some compiler
(`exists_announces`).
-/

namespace Ingot.Workflow

open Effect
open Compilation (CompiledUnit FrontEnd FrontEndFault Project)
open Console (Event)

/-! ### Floors -/

/-- What the user was told about the sources with these indices. -/
def announcements (root : String) (files : List String) (announced : List ℕ) : List Event :=
  announced.filterMap fun i => files[i]?.map (announcement root)

theorem mem_announcements {root : String} {files : List String} {announced : List ℕ} {e : Event}
    (h : e ∈ announcements root files announced) : ∃ file ∈ files, e = announcement root file := by
  obtain ⟨i, _, hi⟩ := List.mem_filterMap.1 h
  obtain ⟨file, hfile, rfl⟩ := Option.map_eq_some_iff.1 hi
  exact ⟨file, List.mem_of_getElem? hfile, rfl⟩

theorem announcements_append {root file : String} {files : List String} {announced : List ℕ}
    {i : ℕ} (hfile : files[i]? = some file) :
    announcements root files (announced ++ [i]) =
      announcements root files announced ++ [announcement root file] := by
  simp [announcements, hfile]

/-- How far workers are, and what they have announced. -/
structure Floor where
  /-- The workers. -/
  workers : Workers
  /-- The indices of the sources that were announced, in this order. -/
  announced : List ℕ

namespace Floor

section Moves

variable (frontEnd : FrontEnd) (fs : FileSystem) (root : String) (files : List String)

/-- What one of the workers does next. -/
inductive Move : Floor → Floor → Prop where
  /-- It announces the source that it has. -/
  | announce {floor : Floor} {i : ℕ} : floor.workers.stages[i]? = some .started →
      i ∉ floor.announced → Move floor { floor with announced := floor.announced ++ [i] }
  /-- It does a step; before the front end is through with a source, that was announced. -/
  | work {floor : Floor} {workers : Workers} : Step frontEnd fs root files floor.workers workers →
      (∀ i : ℕ, floor.workers.stages[i]? = some .started → workers.stages[i]? ≠ some .started →
        i ∈ floor.announced) →
      Move floor { floor with workers := workers }

/-- What workers come to by some schedule, with what they announce on the way. -/
def Reached : Floor → Prop :=
  Relation.ReflTransGen (Move frontEnd fs root files) ⟨.start files.length, []⟩

variable {frontEnd fs root files}

/-- The steps are those of a schedule. -/
theorem Reached.workers {floor : Floor} (h : Floor.Reached frontEnd fs root files floor) :
    Workflow.Reached frontEnd fs root files floor.workers := by
  induction h with
  | refl => exact .refl
  | tail _ hmove ih =>
    cases hmove with
    | announce _ _ => exact ih
    | work hstep _ => exact ih.tail hstep

/-- What is collected in the end is what the loop gives. -/
theorem Reached.collect_eq {floor : Floor} {slots : List Slot}
    (h : Floor.Reached frontEnd fs root files floor) (hdone : floor.workers.Done slots) :
    collect .empty slots = compileLoop frontEnd fs root [] files :=
  Workflow.Reached.collect_eq h.workers hdone

end Moves

end Floor

/-! ### What is announced -/

namespace Stage

/-- Whether a worker has the source or has had it. -/
def isBegun : Stage → Bool
  | .waiting => false
  | .settled .skipped => false
  | _ => true

/-- Whether the front end is through with the source. -/
def isThrough : Stage → Bool
  | .failing _ => true
  | .settled (.failed _ _) => true
  | .settled (.done _) => true
  | _ => false

end Stage

section Announced

variable {frontEnd : FrontEnd} {fs : FileSystem} {root : String} {files : List String}

/-- What a step does with the source that it is about. -/
theorem Step.exists_stage {w w' : Workers} (h : Step frontEnd fs root files w w') :
    ∃ (i : ℕ) (old new : Stage), w.stages[i]? = some old ∧ w'.stages = w.stages.set i new ∧
      (old.isBegun = true → new.isBegun = true) ∧
      (new.isThrough = true → old.isThrough = true ∨ old = .started) := by
  cases h with
  | skip hi hf hlt => exact ⟨_, _, _, hi, rfl, nofun, nofun⟩
  | start hi hle => exact ⟨_, _, _, hi, rfl, fun _ => rfl, nofun⟩
  | finish hi hfile hunit => exact ⟨_, _, _, hi, rfl, fun _ => rfl, fun _ => .inr rfl⟩
  | fail hi hfile hfault => exact ⟨_, _, _, hi, rfl, fun _ => rfl, fun _ => .inr rfl⟩
  | record hi hfile => exact ⟨_, _, _, hi, rfl, fun _ => rfl, fun _ => .inl rfl⟩

namespace Floor

/-- Sources are announced at most once, after a worker has begun with them and before the front
end is through with them. -/
structure Faithful (floor : Floor) : Prop where
  nodup : floor.announced.Nodup
  begun : ∀ i ∈ floor.announced, ∃ stage, floor.workers.stages[i]? = some stage ∧
    stage.isBegun = true
  through : ∀ (i : ℕ) (stage : Stage), floor.workers.stages[i]? = some stage →
    stage.isThrough = true → i ∈ floor.announced

theorem faithful_start (sources : ℕ) : Faithful ⟨.start sources, []⟩ := by
  refine ⟨List.nodup_nil, nofun, fun i stage hi hthrough => ?_⟩
  obtain rfl := List.eq_of_mem_replicate (List.mem_of_getElem? hi)
  cases hthrough

/-- **Every move keeps it so.** -/
theorem Faithful.move {floor floor' : Floor} (h : floor.Faithful)
    (hmove : Move frontEnd fs root files floor floor') : floor'.Faithful := by
  cases hmove with
  | @announce i hi hnew =>
    refine ⟨?_, ?_, fun j stage hj hthrough => ?_⟩
    · rw [List.nodup_append]
      refine ⟨h.nodup, by simp, fun j hj k hk => ?_⟩
      obtain rfl := List.mem_singleton.1 hk
      rintro rfl
      exact hnew hj
    · intro j hj
      rcases List.mem_append.1 hj with hj | hj
      · exact h.begun j hj
      · obtain rfl := List.mem_singleton.1 hj
        exact ⟨_, hi, rfl⟩
    · exact List.mem_append_left _ (h.through j stage hj hthrough)
  | @work workers hstep hleft =>
    -- one worker has moved, and what is asked of the others is as it was
    obtain ⟨i, old, new, hi, hset, hbegun, hthrough⟩ := hstep.exists_stage
    have hlt : i < floor.workers.stages.length := (List.getElem?_eq_some_iff.1 hi).1
    have hself : workers.stages[i]? = some new := by
      rw [hset, List.getElem?_set_self hlt]
    have hother : ∀ j, i ≠ j → workers.stages[j]? = floor.workers.stages[j]? := by
      intro j hij
      rw [hset, List.getElem?_set_ne hij]
    refine ⟨h.nodup, fun j hj => ?_, fun j stage hj hdone => ?_⟩
    · obtain ⟨stage, hstage, hstarted⟩ := h.begun j hj
      by_cases hij : i = j
      · subst hij
        obtain rfl := Option.some.inj (hi.symm.trans hstage)
        exact ⟨new, hself, hbegun hstarted⟩
      · exact ⟨stage, (hother j hij).trans hstage, hstarted⟩
    · by_cases hij : i = j
      · subst hij
        obtain rfl := Option.some.inj (hself.symm.trans hj)
        rcases hthrough hdone with hold | rfl
        · exact h.through i old hi hold
        · refine hleft i hi fun hstill => ?_
          obtain rfl := Option.some.inj (hself.symm.trans hstill)
          cases hdone
      · exact h.through j stage ((hother j hij).symm.trans hj) hdone

theorem Reached.faithful {floor : Floor} (h : Floor.Reached frontEnd fs root files floor) :
    floor.Faithful := by
  induction h with
  | refl => exact faithful_start _
  | tail _ hmove ih => exact ih.move hmove

/-- **In the end the sources that were not skipped were announced, each of them once.** -/
theorem Reached.announced {floor : Floor} {slots : List Slot}
    (h : Floor.Reached frontEnd fs root files floor) (hdone : floor.workers.Done slots) :
    floor.announced.Nodup ∧
      ∀ i, i ∈ floor.announced ↔ ∃ slot, slots[i]? = some slot ∧ slot ≠ .skipped := by
  have hfaithful := h.faithful
  have hstage : ∀ (i : ℕ), floor.workers.stages[i]? = slots[i]?.map .settled := by
    intro i
    rw [hdone, List.getElem?_map]
  refine ⟨hfaithful.nodup, fun i => ⟨fun hi => ?_, ?_⟩⟩
  · obtain ⟨stage, hi, hbegun⟩ := hfaithful.begun i hi
    obtain ⟨slot, hslot, rfl⟩ := Option.map_eq_some_iff.1 ((hstage i).symm.trans hi)
    refine ⟨slot, hslot, ?_⟩
    rintro rfl
    cases hbegun
  · rintro ⟨slot, hslot, hne⟩
    refine hfaithful.through i (.settled slot) (by rw [hstage, hslot]; rfl) ?_
    cases slot with
    | skipped => exact absurd rfl hne
    | failed file fault => rfl
    | done unit => rfl

end Floor

end Announced

/-! ### A single worker -/

section OneWorker

variable {frontEnd : FrontEnd} {fs : FileSystem} {root : String} {files : List String}
  {before after : List Stage} {announced : List ℕ}

theorem Workers.stage_behind (before after : List Stage) (stage : Stage) (first : Option ℕ) :
    (⟨before ++ stage :: after, first⟩ : Workers).stages[before.length]? = some stage := by
  simp

theorem Workers.set_behind (before after : List Stage) (old new : Stage)
    (first : Option ℕ) :
    (⟨before ++ old :: after, first⟩ : Workers).set before.length new =
      ⟨before ++ new :: after, first⟩ := by
  simp [Workers.set]

namespace Floor

/-- A step with a source that was announced, or that the front end has not come to, leaves those
that the front end is at as they are. -/
theorem Reached.work {w w' : Workers} {i : ℕ} {old new : Stage}
    (h : Floor.Reached frontEnd fs root files ⟨w, announced⟩)
    (hstep : Step frontEnd fs root files w w') (hstages : w'.stages = (w.set i new).stages)
    (hi : w.stages[i]? = some old) (hannounced : old = .started → i ∈ announced) :
    Floor.Reached frontEnd fs root files ⟨w', announced⟩ := by
  refine Relation.ReflTransGen.tail h (.work hstep fun j hj hleft => ?_)
  by_cases hij : i = j
  · subst hij
    exact hannounced (Option.some.inj (hi.symm.trans hj))
  · rw [hstages, Workers.set, List.getElem?_set_ne hij] at hleft
    exact absurd hj hleft

/-- Once a source has failed the sources behind it can be skipped. -/
theorem Reached.skip {f : ℕ} (hf : f < before.length) (n : ℕ)
    (h : Floor.Reached frontEnd fs root files
      ⟨⟨before ++ List.replicate n .waiting, some f⟩, announced⟩) :
    Floor.Reached frontEnd fs root files
      ⟨⟨before ++ List.replicate n (.settled .skipped), some f⟩, announced⟩ := by
  induction n generalizing before with
  | zero => exact h
  | succ n ih =>
    rw [List.replicate_succ] at h
    have hskip := h.work (.skip (Workers.stage_behind _ _ _ _) rfl hf) rfl
      (Workers.stage_behind _ _ _ _) Stage.noConfusion
    rw [Workers.set_behind, List.append_cons] at hskip
    rw [List.replicate_succ, List.append_cons]
    refine ih ?_ hskip
    rw [List.length_append]
    exact Nat.lt_add_right _ hf

/-- A source in front of which all are settled can be announced. -/
theorem Reached.announce (hnew : before.length ∉ announced)
    (h : Floor.Reached frontEnd fs root files ⟨⟨before ++ .waiting :: after, none⟩, announced⟩) :
    Floor.Reached frontEnd fs root files
      ⟨⟨before ++ .started :: after, none⟩, announced ++ [before.length]⟩ := by
  have hstart := h.work (.start (Workers.stage_behind _ _ _ _) fun f hf => by cases hf) rfl
    (Workers.stage_behind _ _ _ _) Stage.noConfusion
  rw [Workers.set_behind] at hstart
  exact hstart.tail (.announce (Workers.stage_behind _ _ _ _) hnew)

/-- A source that was announced can fail and be recorded. -/
theorem Reached.fail {file : String} {fault : FrontEndFault}
    (hfile : files[before.length]? = some file) (hfault : frontEnd fs root file = .error fault)
    (hannounced : before.length ∈ announced)
    (h : Floor.Reached frontEnd fs root files ⟨⟨before ++ .started :: after, none⟩, announced⟩) :
    Floor.Reached frontEnd fs root files
      ⟨⟨before ++ .settled (.failed file fault) :: after, some before.length⟩, announced⟩ := by
  have hfail := h.work (.fail (Workers.stage_behind _ _ _ _) hfile hfault) rfl
    (Workers.stage_behind _ _ _ _) fun _ => hannounced
  rw [Workers.set_behind] at hfail
  have hrecord := hfail.work (.record (Workers.stage_behind _ _ _ _) hfile) rfl
    (Workers.stage_behind _ _ _ _) Stage.noConfusion
  rw [Workers.set_behind] at hrecord
  exact hrecord

/-- A source that was announced can be compiled. -/
theorem Reached.finish {file : String} {unit : CompiledUnit}
    (hfile : files[before.length]? = some file) (hunit : frontEnd fs root file = .ok unit)
    (hannounced : before.length ∈ announced)
    (h : Floor.Reached frontEnd fs root files ⟨⟨before ++ .started :: after, none⟩, announced⟩) :
    Floor.Reached frontEnd fs root files
      ⟨⟨before ++ .settled (.done unit) :: after, none⟩, announced⟩ := by
  have hfinish := h.work (.finish (Workers.stage_behind _ _ _ _) hfile hunit) rfl
    (Workers.stage_behind _ _ _ _) fun _ => hannounced
  rw [Workers.set_behind] at hfinish
  exact hfinish

end Floor

/-- Compiling one source after the other is what a single worker does. -/
theorem compileInOrder_reached (later : List String) (before : List Slot)
    (hlater : ∀ i, files[before.length + i]? = later[i]?)
    (h : Floor.Reached frontEnd fs root files
      ⟨⟨before.map .settled ++ List.replicate later.length .waiting, none⟩,
        List.range before.length⟩) :
    ∃ slots floor, Floor.Reached frontEnd fs root files floor ∧
      floor.workers.Done (before ++ slots) ∧
      ∀ told, outcome (compileInOrder frontEnd root later)
          ⟨fs, told ++ announcements root files (List.range before.length)⟩ =
        (.ok slots, ⟨fs, told ++ announcements root files floor.announced⟩) := by
  -- on the sources that are left: those in front are settled, and nothing has failed
  induction later generalizing before with
  | nil => exact ⟨[], _, h, by simp [Workers.Done], fun told => rfl⟩
  | cons file later ih =>
    have hfile : files[before.length]? = some file := hlater 0
    have hlength : (before.map Stage.settled).length = before.length := List.length_map _
    have hrange : List.range (before.length + 1) =
        List.range before.length ++ [(before.map Stage.settled).length] := by
      rw [hlength, List.range_succ]
    have hmem : (before.map Stage.settled).length ∈ List.range (before.length + 1) := by
      rw [hlength]
      exact List.self_mem_range_succ
    rw [List.length_cons, List.replicate_succ] at h
    have hstarted := h.announce (by rw [hlength]; exact List.not_mem_range_self)
    rw [← hrange] at hstarted
    have htold : ∀ told, told ++ announcements root files (List.range before.length) ++
        [announcement root file] =
          told ++ announcements root files (List.range (before.length + 1)) := by
      intro told
      rw [List.range_succ, announcements_append hfile, List.append_assoc]
    cases hunit : frontEnd fs root file with
    | error fault =>
      have hfailed := hstarted.fail (hlength ▸ hfile) hunit hmem
      rw [List.append_cons] at hfailed
      refine ⟨.failed file fault :: later.map fun _ => .skipped, _, hfailed.skip ?_ _, ?_, ?_⟩
      · rw [List.length_append]
        exact Nat.lt_add_one _
      · simp [Workers.Done]
      · intro told
        rw [← htold]
        exact outcome_compileInOrder_error hunit
    | ok unit =>
      have hdone := hstarted.finish (hlength ▸ hfile) hunit hmem
      rw [List.append_cons, ← List.map_singleton, ← List.map_append] at hdone
      have hnext : ∀ i, files[(before ++ [Slot.done unit]).length + i]? = later[i]? := by
        intro i
        rw [List.length_append, Nat.add_assoc, List.length_singleton, Nat.add_comm 1 i]
        exact hlater (i + 1)
      have hlength' : (before ++ [Slot.done unit]).length = before.length + 1 :=
        List.length_append
      rw [← hlength'] at hdone
      obtain ⟨slots, floor, hreached, hend, hslots⟩ := ih _ hnext hdone
      refine ⟨.done unit :: slots, floor, hreached, List.append_cons before _ slots ▸ hend, ?_⟩
      intro told
      refine outcome_compileInOrder_ok hunit ?_
      rw [htold, ← hlength']
      exact hslots told

end OneWorker

/-! ### Compilers that follow a schedule -/

/-- A compiler whose sources are worked on by workers on some schedule: it gives what is collected
in the end, and does not touch the files. -/
def FollowsSchedule (frontEnd : FrontEnd) (compiler : Compiler) : Prop :=
  ∀ root files w, ∃ workers slots told, Reached frontEnd w.files root files workers ∧
    workers.Done slots ∧ outcome (compiler root files) w = (collect .empty slots, ⟨w.files, told⟩)

/-- A compiler on a schedule gives what the loop gives. -/
theorem FollowsSchedule.outcome_eq {frontEnd : FrontEnd} {compiler : Compiler}
    (h : FollowsSchedule frontEnd compiler) (root : String) (files : List String) (w : World) :
    ∃ told, outcome (compiler root files) w =
      (compileLoop frontEnd w.files root [] files, ⟨w.files, told⟩) := by
  obtain ⟨workers, slots, told, hreached, hdone, hout⟩ := h root files w
  refine ⟨told, ?_⟩
  rw [hout]
  exact congrArg (·, _) (Reached.collect_eq hreached hdone)

/-! ### Compilers that tell what is announced -/

/-- What a compiler does with what was collected. -/
def conclude (collected : Except Failure Project) : Act Project := do
  let project ← Act.orFail id collected
  Act.note compileTopic s!"Processed {project.size} file(s)."
  return project

theorem outcome_conclude (collected : Except Failure Project) (w : World) :
    ∃ told, outcome (conclude collected) w = (collected, ⟨w.files, told⟩) := by
  cases collected with
  | error e => exact ⟨_, rfl⟩
  | ok project => exact ⟨_, rfl⟩

/-- A compiler whose sources are worked on by workers on some schedule: it tells what they
announce, and then concludes from the slots that are left. -/
def Announces (frontEnd : FrontEnd) (compiler : Compiler) : Prop :=
  ∀ root files fs, ∃ floor slots, Floor.Reached frontEnd fs root files floor ∧
    floor.workers.Done slots ∧ ∀ told, outcome (compiler root files) ⟨fs, told⟩ =
      outcome (conclude (collect .empty slots))
        ⟨fs, told ++ announcements root files floor.announced⟩

theorem Announces.followsSchedule {frontEnd : FrontEnd} {compiler : Compiler}
    (h : Announces frontEnd compiler) : FollowsSchedule frontEnd compiler := by
  intro root files w
  obtain ⟨floor, slots, hreached, hdone, hout⟩ := h root files w.files
  obtain ⟨told, htold⟩ := outcome_conclude (collect .empty slots)
    ⟨w.files, w.told ++ announcements root files floor.announced⟩
  exact ⟨floor.workers, slots, told, hreached.workers, hdone, (hout w.told).trans htold⟩

/-- **The program compiles on a schedule**, and tells what is announced on it. -/
theorem compileSources_announces (frontEnd : FrontEnd) :
    Announces frontEnd (compileSources frontEnd) := by
  intro root files fs
  have hstart : Floor.Reached frontEnd fs root files
      ⟨⟨[] ++ List.replicate files.length .waiting, none⟩, List.range 0⟩ := .refl
  obtain ⟨slots, floor, hreached, hdone, hslots⟩ := compileInOrder_reached files []
    (fun i => by rw [List.length_nil, Nat.zero_add]) hstart
  refine ⟨floor, slots, hreached, hdone, fun told => ?_⟩
  have htold := hslots told
  rw [List.length_nil, List.range_zero, announcements, List.filterMap_nil, List.append_nil] at htold
  exact outcome_bind_of_ok htold

theorem compileSources_followsSchedule (frontEnd : FrontEnd) :
    FollowsSchedule frontEnd (compileSources frontEnd) :=
  (compileSources_announces frontEnd).followsSchedule

theorem outcome_forM_tell (events : List Event) (w : World) :
    outcome (events.forM Act.tell) w = (.ok (), ⟨w.files, w.told ++ events⟩) := by
  induction events generalizing w with
  | nil => rw [List.append_nil]; rfl
  | cons e events ih =>
    show outcome (Act.tell e >>= fun _ => events.forM Act.tell) w = _
    rw [outcome_bind_of_ok (Act.outcome_tell w e), ih, List.append_assoc]
    rfl

/-- **Every way on which all gets done is that of some compiler.** -/
theorem exists_announces {frontEnd : FrontEnd} {fs : FileSystem} {root : String}
    {files : List String} {floor : Floor} {slots : List Slot}
    (h : Floor.Reached frontEnd fs root files floor) (hdone : floor.workers.Done slots) :
    ∃ compiler, Announces frontEnd compiler ∧ ∀ told, outcome (compiler root files) ⟨fs, told⟩ =
      outcome (conclude (collect .empty slots))
        ⟨fs, told ++ announcements root files floor.announced⟩ := by
  classical
  -- it goes that way from these files with these sources, and otherwise does as the program does
  refine ⟨fun root' files' => do
    if (← Act.files) = fs ∧ root' = root ∧ files' = files then
      (announcements root files floor.announced).forM Act.tell
      conclude (collect .empty slots)
    else compileSources frontEnd root' files', ?_, ?_⟩
  · intro root' files' fs'
    by_cases hhere : fs' = fs ∧ root' = root ∧ files' = files
    · obtain ⟨rfl, rfl, rfl⟩ := hhere
      refine ⟨floor, slots, h, hdone, fun told => ?_⟩
      rw [outcome_bind_of_ok (Act.outcome_files _), if_pos ⟨rfl, rfl, rfl⟩,
        outcome_bind_of_ok (outcome_forM_tell _ _)]
    · obtain ⟨floor', slots', hreached, hdone', hout⟩ :=
        compileSources_announces frontEnd root' files' fs'
      refine ⟨floor', slots', hreached, hdone', fun told => ?_⟩
      rw [outcome_bind_of_ok (Act.outcome_files _), if_neg hhere]
      exact hout told
  · intro told
    rw [outcome_bind_of_ok (Act.outcome_files _), if_pos ⟨rfl, rfl, rfl⟩,
      outcome_bind_of_ok (outcome_forM_tell _ _)]

end Ingot.Workflow
