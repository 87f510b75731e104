import Ingot.Proofs.Workflow.Announcing
import Ingot.Proofs.Workflow.Failures

/-!
# No fault of the program itself

A few failures are there only because a stage cannot see what an earlier one has made sure of:
a tool without a file name, a source that was skipped for no reason, an operation without an
engine, a unit to run that was not written. Whatever the files, the front end and the schedule of
the workers that compile, **no invocation ends with one of them** (`performWith_not_internal`).
-/

namespace Ingot.Workflow

open Effect
open Compilation (FrontEnd Project)
open Package (Manifest)

/-! ### Skipped sources -/

/-- When all is done, in front of each slot of a skipped source is one of a source that failed. -/
theorem Reached.exists_failed {frontEnd : FrontEnd} {fs : FileSystem} {root : String}
    {files : List String} {workers : Workers} {slots : List Slot} {i : ℕ}
    (h : Reached frontEnd fs root files workers) (hdone : workers.Done slots)
    (hi : slots[i]? = some .skipped) :
    ∃ j < i, ∃ file fault, slots[j]? = some (.failed file fault) := by
  have hstage : workers.stages[i]? = some (.settled .skipped) := by
    rw [hdone, List.getElem?_map, hi]
    rfl
  obtain ⟨j, hji, ⟨file, fault, hfailed⟩, _⟩ := (Reached.sound h).skipped hstage
  rw [hdone, List.getElem?_map] at hfailed
  obtain ⟨slot, hslot, hsettled⟩ := Option.map_eq_some_iff.1 hfailed
  cases hsettled
  exact ⟨j, hji, file, fault, hslot⟩

/-! ### Failures of the parts -/

/-- The failure is none of the program itself. -/
def Failure.IsOutside (e : Failure) : Prop := e.isInternal = false

theorem Failure.IsOutside.of_phase {e : Failure} (h : e.phase ≠ .writing) : e.IsOutside := by
  cases e with
  | internal message => exact absurd rfl h
  | _ => rfl

theorem Failure.IsEarly.isOutside {e : Failure} (h : e.IsEarly) : e.IsOutside :=
  .of_phase (by rw [show e.phase = .reading from h]; exact Phase.noConfusion)

theorem IsInitFailure.isOutside {e : Failure} (h : IsInitFailure e) : e.IsOutside := by
  obtain ⟨path, ⟨fault, rfl⟩ | ⟨fault, rfl⟩⟩ := h
  · rfl
  · rfl

theorem IsEmitFailure.isOutside {form : ArtifactForm} {path : String} {e : Failure}
    (h : IsEmitFailure form path e) : e.IsOutside := by
  rcases h with ⟨message, rfl⟩ | ⟨fault, rfl⟩
  · rfl
  · rfl

theorem ensureOutput_isOutside (path : String) :
    FailsWith Failure.IsOutside (ensureOutput path) := by
  intro w e w' h
  obtain ⟨herror, -⟩ := (ensureOutput_ends w.files path).eq h
  cases hmade : (w.files.ensureDirectory path).2 with
  | error fault =>
    rw [hmade] at herror
    cases herror
    rfl
  | ok isNew =>
    rw [hmade] at herror
    cases herror

theorem FollowsSchedule.isOutside {frontEnd : FrontEnd} {compiler : Compiler}
    (h : FollowsSchedule frontEnd compiler) (root : String) (files : List String) :
    FailsWith Failure.IsOutside (compiler root files) := by
  intro w e w' hw
  obtain ⟨told, hout⟩ := h.outcome_eq root files w
  rw [hout] at hw
  refine .of_phase ?_
  rw [compileLoop_error (congrArg Prod.fst hw)]
  exact Phase.noConfusion

/-! ### The unit to run -/

/-- The unit to run is there to be run, if it is one of the project and all were written. -/
theorem exists_entryPath {project : Project} {entry output : String} {w w' : World}
    {artifacts : List Artifact} (hentry : project.unit? entry ≠ none)
    (h : outcome (project.units.mapM (prepareUnit output)) w = (.ok artifacts, w')) :
    ∃ path, entryPath? entry artifacts = some path := by
  obtain ⟨unit, hunit⟩ := Option.ne_none_iff_exists'.1 hentry
  have hname : unit.name = entry := by simpa using List.find?_some hunit
  rcases mapM_emits (fun _ _ _ _ => prepareUnit_emits) h with
    ⟨_, hok, hall⟩ | ⟨_, _, _, _, _, _, herror, _⟩
  · obtain rfl := Except.ok.inj hok
    obtain ⟨hunits, hpaths⟩ := hall.artifacts_eq
    refine ⟨_, entryPath?_eq hpaths ?_⟩
    rw [hunits, ← hname]
    exact List.mem_map_of_mem (List.mem_of_find?_eq_some hunit)
  · cases herror

theorem FailsWith.bind_of_ok {α β : Type} {P : Failure → Prop} {x : Act α} {f : α → Act β}
    (hx : FailsWith P x) (hf : ∀ a w w', outcome x w = (.ok a, w') → FailsWith P (f a)) :
    FailsWith P (x >>= f) := by
  intro w e w' h
  rcases of_outcome_bind_error h with h | ⟨a, w₁, ha, h⟩
  · exact hx w e w' h
  · exact hf a w w₁ ha w₁ e w' h

theorem runProject_isOutside (host : Host) (options : Options) (manifest : Manifest)
    (places : Places) (project : Project) :
    FailsWith Failure.IsOutside (runProject host options manifest places project) := by
  unfold runProject
  refine .afterLine ?_
  dsimp only
  split
  · exact .fail rfl
  · rename_i hentry
    have hprepare : ∀ unit, FailsWith Failure.IsOutside (prepareUnit places.output unit) :=
      fun unit => (prepareUnit_fails _ unit).mono fun _ ⟨_, he⟩ => he.isOutside
    refine (FailsWith.mapM hprepare).bind_of_ok fun artifacts w w' hw => ?_
    obtain ⟨path, hpath⟩ := exists_entryPath (by simpa using hentry) hw
    rw [hpath]
    refine FailsWith.files.bind fun fs => ?_
    split
    · exact .fail rfl
    · refine (FailsWith.tell _).bind fun _ => ?_
      refine ((execute_fails _ _).mono ?_).bind fun ending => ?_
      · rintro _ ⟨_, _, rfl⟩
        rfl
      split
      · exact (FailsWith.tell _).bind fun _ => .pure _
      · exact (FailsWith.tell _).bind fun _ => .pure _

/-! ### The whole -/

theorem dispatch_isOutside (host : Host) (options : Options) {operation : Operation}
    (hother : operation ≠ .init) (manifest : Manifest) (places : Places) (project : Project) :
    FailsWith Failure.IsOutside (dispatch host options operation manifest places project) := by
  unfold dispatch
  cases operation with
  | init => exact absurd rfl hother
  | build =>
    refine FailsWith.bind ?_ fun report => .pure _
    exact (buildProject_fails _ _ _ _).mono fun _ ⟨_, he⟩ => he.isOutside
  | run => exact (runProject_isOutside _ _ _ _ _).bind fun report => .pure _

theorem performWith_isOutside (host : Host) {frontEnd : FrontEnd} {compiler : Compiler}
    (hcompiler : FollowsSchedule frontEnd compiler) (options : Options) :
    FailsWith Failure.IsOutside (performWith host compiler options) := by
  intro w e w' h
  rcases perform_stages h with ⟨_, hstop | ⟨_, he, hearly⟩⟩ | ⟨_, _, hinit⟩ |
    ⟨operation, manifest, places, files, told, hother, _, hcarry⟩
  · cases hstop
  · cases he
    exact hearly.isOutside
  · exact (hinit e rfl).isOutside
  · refine (?_ : FailsWith Failure.IsOutside _) _ _ _ hcarry
    unfold carryOut
    refine (ensureOutput_isOutside _).bind fun _ => ?_
    exact (hcompiler.isOutside _ _).bind fun project => dispatch_isOutside _ _ hother _ _ _

/-- A package that is initialized has no sources compiled. -/
theorem performWith_init (host : Host) (compiler compiler' : Compiler) {options : Options}
    (h : resolveOperation options.operation = .ok .init) :
    performWith host compiler options = performWith host compiler' options := by
  unfold performWith
  simp only [h, Act.orFail_ok, pure_bind, if_true]

/-- **An invocation never ends with a fault of the program itself**, whatever the front end and
the schedule of the workers that compile; so a failure always gives the status one. For all tools
have file names; a source is skipped only behind one that fails, so that what is collected is no
such fault; the only operation without an engine is the one that gives a package a manifest, and
it never gets to compile; and a unit to run that is one of the project was written. -/
theorem performWith_not_internal (host : Host) (frontEnd : FrontEnd) (compiler : Compiler)
    (hcompiler : FollowsSchedule frontEnd compiler) (options : Options) (w : World) :
    (∀ e w', outcome (performWith host compiler options) w = (.error e, w') →
      (∀ message, e ≠ .internal message) ∧ e.exitStatus = 1) ∧
    (∀ entry ∈ standardTools, entry.2.isEmpty = false) ∧
    (∀ fs root files workers slots, Reached frontEnd fs root files workers → workers.Done slots →
      (∀ i : ℕ, slots[i]? = some .skipped →
        ∃ j < i, ∃ file fault, slots[j]? = some (.failed file fault)) ∧
      ∀ message, collect .empty slots ≠ .error (.internal message)) ∧
    (∀ operation : Operation, operation.engine? = none → operation = .init) ∧
    (resolveOperation options.operation = .ok .init →
      ∀ compiler', performWith host compiler options = performWith host compiler' options) ∧
    (∀ (project : Project) (entry output : String) (u u' : World) (artifacts : List Artifact),
      project.unit? entry ≠ none →
      outcome (project.units.mapM (prepareUnit output)) u = (.ok artifacts, u') →
      ∃ path, entryPath? entry artifacts = some path) ∧
    FollowsSchedule frontEnd (compileSources frontEnd) := by
  refine ⟨?_, isEmpty_standardTools, ?_, ?_, ?_, ?_, compileSources_followsSchedule frontEnd⟩
  · intro e w' h
    have houtside : e.isInternal = false := performWith_isOutside host hcompiler options w e w' h
    refine ⟨?_, ?_⟩
    · rintro message rfl
      cases houtside
    · rw [Failure.exitStatus, houtside]
      rfl
  · intro fs root files workers slots hreached hdone
    refine ⟨fun i hi => hreached.exists_failed hdone hi, fun message hcollect => ?_⟩
    have hloop : compileLoop frontEnd fs root [] files = .error (.internal message) :=
      (((Reached.sound hreached).settles hdone).collect_eq []).symm.trans hcollect
    cases compileLoop_error hloop
  · intro operation hnone
    cases operation with
    | init => rfl
    | build => cases hnone
    | run => cases hnone
  · intro hinit compiler'
    exact performWith_init host compiler compiler' hinit
  · intro project entry output u u' artifacts hentry hprepared
    exact exists_entryPath hentry hprepared

/-- A run of a package whose only module refuses to be written ends with the status one. -/
theorem performWith_not_internal_refusal :
    ∃ e w', FollowsSchedule Refusal.frontEnd (compileSources Refusal.frontEnd) ∧
      outcome (performWith Refusal.host (compileSources Refusal.frontEnd)
        { Refusal.options with operation := "run" }) ⟨Refusal.files, []⟩ = (.error e, w') ∧
      e.exitStatus = 1 := by
  have hfailure : (failure? (outcome (perform Refusal.host Refusal.frontEnd
      { Refusal.options with operation := "run" }) ⟨Refusal.files, []⟩).1).isSome = true := by
    decide +kernel
  rcases hrun : outcome (perform Refusal.host Refusal.frontEnd
      { Refusal.options with operation := "run" }) ⟨Refusal.files, []⟩ with ⟨result, w'⟩
  rw [hrun] at hfailure
  obtain ⟨e, he⟩ := Option.isSome_iff_exists.1 hfailure
  obtain rfl := eq_error_of_failure? he
  have hschedule := compileSources_followsSchedule Refusal.frontEnd
  obtain ⟨hstatus, _⟩ := performWith_not_internal Refusal.host Refusal.frontEnd
    (compileSources Refusal.frontEnd) hschedule { Refusal.options with operation := "run" }
    ⟨Refusal.files, []⟩
  exact ⟨e, w', hschedule, hrun, (hstatus e w' hrun).2⟩

end Ingot.Workflow
