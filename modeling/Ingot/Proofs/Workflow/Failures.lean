import Ingot.Proofs.Workflow.Emission
import Ingot.Proofs.Workflow.Stages

/-!
# What a failed invocation leaves behind

How far an invocation has come when it fails bounds what it may have changed
(`perform_bounded`): **nothing, as long as it only reads; directories for what is built, as
long as it compiles; and artifacts up to the one that fails, when a build writes**.
-/

namespace Ingot.Workflow

open Effect
open Package (Manifest)
open Compilation (FrontEnd Project)
open FileSystem (Grows Keeps)

/-! ### Running -/

theorem IsEmitFailure.phase {form : ArtifactForm} {path : String} {e : Failure}
    (h : IsEmitFailure form path e) : e.phase = .writing := by
  rcases h with ⟨message, rfl⟩ | ⟨fault, rfl⟩
  · rfl
  · rfl

theorem prepareUnit_fails (output : String) (unit : Compilation.CompiledUnit) :
    FailsWith (fun e => ∃ path, IsEmitFailure .text path e) (prepareUnit output unit) := by
  unfold prepareUnit
  refine FailsWith.bind ?_ fun artifact => (FailsWith.tell _).bind fun _ => .pure _
  intro w e w' h
  exact ⟨_, (emitUnit_emits h).error e rfl⟩

theorem execute_fails (host : Host) (command : Command) :
    FailsWith (fun e => ∃ text message, e = .execution text message) (execute host command) := by
  unfold execute
  refine (FailsWith.tell _).bind fun _ => FailsWith.files.bind fun fs => ?_
  refine FailsWith.bind (.orFail fun _ _ => ⟨_, _, rfl⟩) fun execution => ?_
  refine (FailsWith.setFiles _).bind fun _ => ?_
  refine FailsWith.bind (.forM fun output => ?_) fun _ => .pure _
  cases output with
  | out text => exact .tell _
  | err text => exact .tell _

theorem buildProject_fails (manifest : Manifest) (places : Places) (form : ArtifactForm)
    (project : Project) :
    FailsWith (fun e => ∃ path, IsEmitFailure form path e)
      (buildProject manifest places form project) := by
  intro w e w' h
  rcases buildProject_stages h with ⟨_, _, _, ⟨_, _, hok⟩ | ⟨_, _, _, hok⟩⟩ |
    ⟨_, _, unit, _, _, _, herror, _, _, hfailed⟩
  · cases hok
  · cases hok
  · cases herror
    exact ⟨_, hfailed.error e rfl⟩

/-- All failures of the act come before it has changed a file, or once it writes. -/
def FailsInOrder {α : Type} (act : Act α) : Prop :=
  ∀ w e w', outcome act w = (.error e, w') →
    (w'.files = w.files ∧ e.phase = .compiling) ∨ e.phase = .writing

namespace FailsInOrder

variable {α : Type}

theorem of_fails {act : Act α} (h : FailsWith (fun e => e.phase = .writing) act) :
    FailsInOrder act := fun w e w' hw => .inr (h w e w' hw)

theorem guard {c : Prop} [Decidable c] {e : Failure} {f : Unit → Act α}
    (he : e.phase = .compiling) (hf : FailsInOrder (f ())) :
    FailsInOrder (if c then (throw e : Act Unit) >>= f else f ()) := by
  split
  · intro w e' w' h
    cases h
    exact .inl ⟨rfl, he⟩
  · exact hf

theorem afterLine {c : Prop} [Decidable c] {status : Console.Status} {message : String}
    {f : Unit → Act α} (hf : FailsInOrder (f ())) :
    FailsInOrder (if c then Act.line status message >>= f else f ()) := by
  split
  · intro w e w' h
    rw [outcome_bind_of_ok (Act.outcome_line w _ _)] at h
    have hrest := hf _ e w' h
    exact hrest
  · exact hf

end FailsInOrder

/-- A run looks for the unit to run before it changes anything. -/
theorem runProject_fails (host : Host) (options : Options) (manifest : Manifest)
    (places : Places) (project : Project) :
    FailsInOrder (runProject host options manifest places project) := by
  unfold runProject
  refine .afterLine (.guard rfl (.of_fails ?_))
  have hprepare : ∀ unit, FailsWith (fun e => e.phase = .writing) (prepareUnit places.output unit) :=
    fun unit => (prepareUnit_fails _ unit).mono fun _ ⟨_, he⟩ => he.phase
  refine (FailsWith.mapM hprepare).bind fun artifacts => ?_
  split
  · exact .fail rfl
  · refine FailsWith.files.bind fun fs => ?_
    split
    · exact .fail rfl
    · refine (FailsWith.tell _).bind fun _ => ?_
      refine ((execute_fails _ _).mono ?_).bind fun ending => ?_
      · rintro _ ⟨_, _, rfl⟩
        rfl
      split
      · exact (FailsWith.tell _).bind fun _ => .pure _
      · exact (FailsWith.tell _).bind fun _ => .pure _

/-- Before anything is written a project fails only for want of a unit to run. -/
theorem dispatch_fails (host : Host) (options : Options) (operation : Operation)
    (manifest : Manifest) (places : Places) (project : Project) :
    FailsInOrder (dispatch host options operation manifest places project) := by
  unfold dispatch
  cases operation with
  | init => exact .of_fails (.fail rfl)
  | build =>
    refine .of_fails (FailsWith.bind ?_ fun report => .pure _)
    exact (buildProject_fails _ _ _ _).mono fun _ ⟨_, he⟩ => he.phase
  | run =>
    intro w e w' h
    rcases of_outcome_bind_error h with h | ⟨report, w₁, _, h⟩
    · exact runProject_fails host options manifest places project w e w' h
    · cases h

theorem dispatch_not_stopped {host : Host} {options : Options} {operation : Operation}
    {manifest : Manifest} {places : Places} {project : Project} {w w' : World} {why : Advisory} :
    outcome (dispatch host options operation manifest places project) w ≠
      (.ok (.stopped why), w') := by
  unfold dispatch
  intro h
  cases operation with
  | init => cases h
  | build =>
    obtain ⟨_, _, _, hpure⟩ := of_outcome_bind_ok h
    cases hpure
  | run =>
    obtain ⟨_, _, _, hpure⟩ := of_outcome_bind_ok h
    cases hpure

/-! ### The bound -/

/-- The path of the artifact that a failure is about. -/
def Failure.artifact? : Failure → Option String
  | emit _ path _ => some path
  | artifactUnreadable path _ => some path
  | _ => none

theorem IsEmitFailure.artifact? {form : ArtifactForm} {path : String} {e : Failure}
    (h : IsEmitFailure form path e) : e.artifact? = some path := by
  rcases h with ⟨message, rfl⟩ | ⟨fault, rfl⟩
  · rfl
  · rfl

theorem Failure.artifact?_of_phase {e : Failure} (h : e.phase ≠ .writing) :
    e.artifact? = none := by
  cases e with
  | emit form path message => exact absurd rfl h
  | artifactUnreadable path fault => exact absurd rfl h
  | _ => rfl

theorem Failure.IsEarly.artifact? {e : Failure} (h : e.IsEarly) : e.artifact? = none := by
  refine artifact?_of_phase ?_
  rw [show e.phase = .reading from h]
  exact Phase.noConfusion

/-- Nothing is left behind by an invocation that is stopped or fails while it only reads. -/
theorem perform_reading {host : Host} {frontEnd : FrontEnd} {options : Options} {w w' : World}
    {result : Except Failure Outcome} (hfs : w.files.NoLinks)
    (hresult : (∃ why, result = .ok (.stopped why)) ∨
      ∃ e, result = .error e ∧ e.phase = .reading)
    (h : outcome (perform host frontEnd options) w = (result, w')) : w'.files = w.files := by
  rcases perform_stages h with ⟨hsame, _⟩ | ⟨_, hok, hinit⟩ |
    ⟨operation, manifest, places, files, told, _, hprepared, hcarry⟩
  · exact hsame
  · rcases hresult with ⟨why, rfl⟩ | ⟨e, rfl, hreading⟩
    · obtain ⟨_, hinitialized⟩ := hok _ rfl
      cases hinitialized
    · rw [(hinit e rfl).phase] at hreading
      cases hreading
  · obtain ⟨fs, news, _, ⟨_, e, rfl, hend⟩ | ⟨project, told₁, _, hdispatch⟩⟩ :=
      carryOut_stages (w := ⟨w.files, told⟩) hfs hprepared.isAbsolute_output hcarry
    · rcases hresult with ⟨why, hstop⟩ | ⟨e', he, hreading⟩
      · cases hstop
      · cases he
        rcases hend with hcompiling | ⟨fault, rfl⟩
        · rw [hcompiling] at hreading
          cases hreading
        · cases hreading
    · rcases hresult with ⟨why, rfl⟩ | ⟨e, rfl, hreading⟩
      · exact absurd hdispatch dispatch_not_stopped
      · rcases dispatch_fails host options operation manifest places project _ e w' hdispatch with
          ⟨_, hcompiling⟩ | hwriting
        · rw [hcompiling] at hreading
          cases hreading
        · rw [hwriting] at hreading
          cases hreading

/-- What is left behind by an invocation that fails while it compiles. -/
theorem perform_compiling {host : Host} {frontEnd : FrontEnd} {options : Options} {w w' : World}
    {e : Failure} (hfs : w.files.NoLinks) (hphase : e.phase = .compiling)
    (h : outcome (perform host frontEnd options) w = (.error e, w')) :
    ∃ root news, IsRoot w.files options root ∧
      Grows (options.outputDirectory root) w.files w'.files news := by
  rcases perform_stages h with ⟨_, hstop | ⟨_, he, hearly⟩⟩ | ⟨_, _, hinit⟩ |
    ⟨operation, manifest, places, files, told, _, hprepared, hcarry⟩
  · cases hstop
  · cases he
    rw [show e.phase = .reading from hearly] at hphase
    cases hphase
  · rw [(hinit e rfl).phase] at hphase
    cases hphase
  · obtain ⟨fs, news, hgrows, hend | ⟨project, told₁, _, hdispatch⟩⟩ :=
      carryOut_stages (w := ⟨w.files, told⟩) hfs hprepared.isAbsolute_output hcarry
    · refine ⟨places.root, news, hprepared.isRoot, ?_⟩
      rw [← hprepared.isOutput, hend.1]
      exact hgrows
    · rcases dispatch_fails host options operation manifest places project _ e w' hdispatch with
        ⟨hfiles, _⟩ | hwriting
      · refine ⟨places.root, news, hprepared.isRoot, ?_⟩
        rw [← hprepared.isOutput, hfiles]
        exact hgrows
      · rw [hphase] at hwriting
        cases hwriting

/-- What is left behind by a build that fails with an artifact. -/
theorem perform_building {host : Host} {frontEnd : FrontEnd} {options : Options} {w w' : World}
    {e : Failure} {path : String} (hfs : w.files.NoLinks) (hown : KeepsToFiles frontEnd)
    (hbuild : resolveOperation options.operation = .ok .build) (hpath : e.artifact? = some path)
    (h : outcome (perform host frontEnd options) w = (.error e, w')) :
    ∃ manifest places files fs news before unit behind,
      Prepared w.files options .build manifest places files ∧
      Grows places.output w.files fs news ∧
      List.Forall₂ (fun file unit => frontEnd fs places.sourceRoot file = .ok unit) files
        (before ++ unit :: behind) ∧
      path = artifactPath places.output options.form unit.name ∧
      Keeps (IsTarget fs places.output options.form (before ++ [unit])) fs w'.files := by
  -- a failure with an artifact is none of those that come before anything is written
  have hnone : ∀ {e' : Failure}, e'.artifact? = none → e = e' → False := by
    rintro e' he' rfl
    rw [hpath] at he'
    cases he'
  rcases perform_stages h with ⟨_, hstop | ⟨_, he, hearly⟩⟩ | ⟨hinit, _, _⟩ |
    ⟨operation, manifest, places, files, told, _, hprepared, hcarry⟩
  · cases hstop
  · cases he
    exact (hnone hearly.artifact? rfl).elim
  · rw [hbuild] at hinit
    cases hinit
  · obtain rfl : Operation.build = operation :=
      Except.ok.inj (hbuild.symm.trans hprepared.isOperation)
    obtain ⟨fs, news, hgrows, ⟨_, _, he, hend⟩ | ⟨project, told₁, hloop, hdispatch⟩⟩ :=
      carryOut_stages (w := ⟨w.files, told⟩) hfs hprepared.isAbsolute_output hcarry
    · cases he
      rcases hend with hcompiling | ⟨fault, rfl⟩
      · exact (hnone (Failure.artifact?_of_phase (by rw [hcompiling]; exact Phase.noConfusion))
          rfl).elim
      · cases hpath
    · have hbuilt : outcome (buildProject manifest places options.form project) ⟨fs, told₁⟩ =
          (.error e, w') := by
        rcases of_outcome_bind_error hdispatch with hfailed | ⟨_, _, _, hpure⟩
        · exact hfailed
        · cases hpure
      rcases buildProject_stages hbuilt with ⟨_, _, _, ⟨_, _, hok⟩ | ⟨_, _, _, hok⟩⟩ |
        ⟨_, before, unit, behind, artifacts, fs₁, he, hunits, hall, hfailed⟩
      · cases hok
      · cases hok
      · cases he
        obtain ⟨units, hmore, hforall⟩ := units_of_compileLoop hloop
        rw [List.nil_append] at hmore
        rw [← hmore, hunits] at hforall
        have howned := forall_mem_of_forall₂ (hown fs places.sourceRoot) hforall
        have hbefore : Keeps (IsTarget fs places.output options.form (before ++ [unit])) fs fs₁ :=
          hall.keeps (fun u hu => List.mem_append_left _ hu)
            (fun u hu => howned u (List.mem_append_left _ hu)) (hgrows.noLinks hfs)
        refine ⟨manifest, places, files, fs, news, before, unit, behind, hprepared, hgrows,
          hforall, ?_, hbefore.trans ?_⟩
        · have hartifact := (hfailed.error e rfl).artifact?
          rw [hpath] at hartifact
          exact Option.some.inj hartifact
        · have hunit : unit ∈ before ++ [unit] := List.mem_append_right _ List.mem_cons_self
          have hlast := hfailed.keeps (howned unit (List.mem_append_right _ List.mem_cons_self))
            hbefore.noLinks hunit
          exact hlast.mono fun l hl => hl.of_keeps hbefore

/-- **What a failed or stopped invocation leaves behind.** As long as it only reads, nothing is
changed. As long as it compiles, all that is new are directories on the way of the one for what
is built, and nothing else is below them. When a build cannot write a unit or read it again,
the manifest is as before, and what is changed besides those directories are files of units up
to that one, in the order of the sources; this takes modules that write to the file they are
told to write to, as those of the standard front end do. -/
theorem perform_bounded (host : Host) (frontEnd : FrontEnd) (options : Options) (w w' : World)
    (result : Except Failure Outcome) (hlinks : w.files.hasNoLinks)
    (h : outcome (perform host frontEnd options) w = (result, w')) :
    (∀ e, result = .error e → e.phase = .reading → w'.files = w.files) ∧
    (∀ why, result = .ok (.stopped why) → w'.files = w.files) ∧
    (∀ e, result = .error e → e.phase = .compiling →
      ∃ root news, IsRoot w.files options root ∧
        Grows (options.outputDirectory root) w.files w'.files news ∧
        (w.files.IsTree → ∀ l ∈ news, ∀ l', l <+: l' → w'.files.node? l' ≠ none → l' ∈ news)) ∧
    (∀ e path, result = .error e → e.artifact? = some path →
      resolveOperation options.operation = .ok .build → KeepsToFiles frontEnd →
      ∃ manifest places files fs news before unit behind,
        Prepared w.files options .build manifest places files ∧
        Grows places.output w.files fs news ∧
        List.Forall₂ (fun file unit => frontEnd fs places.sourceRoot file = .ok unit) files
          (before ++ unit :: behind) ∧
        path = artifactPath places.output options.form unit.name ∧
        w'.files.readBytes (Package.manifestPath places.root) =
          w.files.readBytes (Package.manifestPath places.root) ∧
        ∀ l, w'.files.node? l ≠ w.files.node? l → l ∈ news ∨
          ∃ u ∈ before ++ [unit], l = w.files.place
            (artifactPath places.output options.form u.name)) ∧
    KeepsToFiles Compilation.standardFrontEnd := by
  have hfs := FileSystem.noLinks_of_hasNoLinks hlinks
  refine ⟨?_, ?_, ?_, ?_, standardFrontEnd_keepsToFiles⟩
  · intro e he hreading
    exact perform_reading hfs (.inr ⟨e, he, hreading⟩) h
  · intro why hstop
    exact perform_reading hfs (.inl ⟨why, hstop⟩) h
  · rintro e rfl hcompiling
    obtain ⟨root, news, hroot, hgrows⟩ := perform_compiling hfs hcompiling h
    exact ⟨root, news, hroot, hgrows, fun htree l hl l' hll hnode =>
      hgrows.mem_of_below htree hl hll hnode⟩
  · rintro e path rfl hpath hbuild hown
    obtain ⟨manifest, places, files, fs, news, before, unit, behind, hprepared, hgrows, hunits,
      hpath, hkeeps⟩ := perform_building hfs hown hbuild hpath h
    refine ⟨manifest, places, files, fs, news, before, unit, behind, hprepared, hgrows, hunits,
      hpath, ?_, ?_⟩
    · obtain ⟨text, htext, _⟩ := hprepared.readText_manifest
      obtain ⟨content, hread, _⟩ := FileSystem.readBytes_of_readText htext
      rw [hread]
      have hbefore := (hgrows.keeps hfs).readBytes hfs hread (hgrows.not_mem_of_readBytes hfs hread)
      exact hkeeps.readBytes (hgrows.noLinks hfs) hbefore
        (not_isTarget_manifest hprepared.isRoot.isAbsolute _ _ _)
    · intro l hl
      by_contra hnot
      obtain ⟨hnew, htarget⟩ := not_or.1 hnot
      refine hl ?_
      rw [hkeeps.elsewhere l, hgrows.node?, if_neg hnew]
      rintro ⟨u, hu, hplace⟩
      exact htarget ⟨u, hu, hplace.trans ((hgrows.keeps hfs).place _)⟩

/-! ### A module that refuses -/

/-- The failure of an invocation. -/
def failure? : Except Failure Outcome → Option Failure
  | .error e => some e
  | .ok _ => none

theorem eq_error_of_failure? {result : Except Failure Outcome} {e : Failure}
    (h : failure? result = some e) : result = .error e := by
  cases result with
  | error e' => exact congrArg Except.error (Option.some.inj h)
  | ok outcome => cases h

namespace Refusal

/-- A package with one source. -/
def files : FileSystem where
  nodes := [
    (["Ion.toml"], .file
      "[package]\nname = \"a\"\nversion = \"1.0.0\"\n[options]\nsource-root = \"src\"\n".toUTF8
      .ordinary),
    (["src"], .directory),
    (["src", "main.ion"], .file .empty .ordinary)]
  workingDirectory := []

/-- A front end whose modules refuse to be written. -/
def frontEnd : FrontEnd := fun _ _ file =>
  .ok ⟨"main", file, "", fun fs _ => (fs, .error "refused"), fun fs _ => ⟨fs, 1, none⟩⟩

/-- The options of a build. -/
def options : Options := { Options.ofOperation "build" "/ion" with noIntegrity := true }

/-- A computer on which no program runs. -/
def host : Host := ⟨.linux, [], fun _ _ => .error .notFound, .none⟩

theorem hasNoLinks_files : files.hasNoLinks := by
  intro l target hmem
  simp [files] at hmem

theorem keepsToFiles_frontEnd : KeepsToFiles frontEnd := by
  intro fs root file unit hunit
  cases hunit
  exact ⟨fun _ _ => .nothing, fun _ _ => .nothing⟩

end Refusal

open Refusal in
/-- A build whose only module refuses to be written fails with it: the manifest is as before, and
what is changed are new directories and at most the file of that module. -/
theorem perform_bounded_refusal :
    ∃ w' root fs news,
      outcome (perform Refusal.host frontEnd options) ⟨files, []⟩ =
        (.error (.emit .text "/out/main.ir" "refused"), w') ∧
      Grows (options.outputDirectory root) files fs news ∧
      w'.files.readBytes (Package.manifestPath root) =
        files.readBytes (Package.manifestPath root) ∧
      ∀ l, w'.files.node? l ≠ files.node? l → l ∈ news ∨ l = files.place "/out/main.ir" := by
  have hfailure : failure? (outcome (perform Refusal.host frontEnd options) ⟨files, []⟩).1 =
      some (.emit .text "/out/main.ir" "refused") := by
    decide +kernel
  rcases hrun : outcome (perform Refusal.host frontEnd options) ⟨files, []⟩ with ⟨result, w'⟩
  rw [hrun] at hfailure
  obtain rfl := eq_error_of_failure? hfailure
  obtain ⟨_, _, _, hbuild, _⟩ := perform_bounded Refusal.host frontEnd options ⟨files, []⟩ w'
    _ hasNoLinks_files hrun
  obtain ⟨_, places, _, fs, news, before, unit, behind, hprepared, hgrows, hunits, hpath, hread,
    hchanged⟩ := hbuild _ "/out/main.ir" rfl rfl (by decide +kernel) keepsToFiles_frontEnd
  have hname : ∀ u ∈ before ++ unit :: behind, u.name = "main" := by
    refine forall_mem_of_forall₂ (fun file u hu => ?_) hunits
    cases hu
    rfl
  refine ⟨w', places.root, fs, news, rfl, hprepared.isOutput ▸ hgrows, hread, fun l hl => ?_⟩
  rcases hchanged l hl with hnew | ⟨u, hu, rfl⟩
  · exact .inl hnew
  · have hsame : u.name = unit.name := by
      rw [hname unit (List.mem_append_right _ List.mem_cons_self)]
      rcases List.mem_append.1 hu with hu | hu
      · exact hname u (List.mem_append_left _ hu)
      · rw [List.mem_singleton.1 hu]
        exact hname unit (List.mem_append_right _ List.mem_cons_self)
    rw [hsame, ← hpath]
    exact .inr rfl

end Ingot.Workflow
