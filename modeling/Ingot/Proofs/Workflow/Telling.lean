import Ingot.Proofs.Console.Lines
import Ingot.Proofs.Workflow.Announcing
import Ingot.Workflow.Perform

/-!
# What the user is told

Two acts are *abreast* (`Abreast`) if from any files they end in the same way, leave the same files
and tell the user the same, but for which sources are compiled and when, and nothing unusual. No
act looks at what the user was told before. The acts of the parts of an invocation are abreast of
themselves, and compilers that announce what they do are abreast of each other, whatever their
schedules (`Announces.abreast`). So **two invocations that differ in the schedule of the compiler
only are abreast** (`performWith_abreast`).

In particular an act comes to the same whatever was said before (`OnlyAdds`), and so does an
invocation as a whole (`perform_onlyAdds`).
-/

namespace Ingot.Workflow

open Effect Console
open Compilation (FrontEnd)

/-! ### News -/

/-- Rows of events with nothing unusual that are the same but for what is said of the sources
that are compiled. -/
structure SameNews (running : Bool) (news news' : List Event) : Prop where
  usual : ∀ e ∈ news, e.IsUsual running
  usual' : ∀ e ∈ news', e.IsUsual running
  same : news.filter (fun e => !e.isCompiling) = news'.filter fun e => !e.isCompiling

namespace SameNews

variable {running : Bool} {news news' more more' : List Event} {e : Event}

theorem nil : SameNews running [] [] := ⟨by simp, by simp, rfl⟩

theorem single (h : e.IsUsual running) : SameNews running [e] [e] :=
  ⟨List.forall_mem_singleton.2 h, List.forall_mem_singleton.2 h, rfl⟩

theorem append (h : SameNews running news news') (hmore : SameNews running more more') :
    SameNews running (news ++ more) (news' ++ more') :=
  ⟨List.forall_mem_append.2 ⟨h.usual, hmore.usual⟩,
    List.forall_mem_append.2 ⟨h.usual', hmore.usual'⟩,
    by rw [List.filter_append, List.filter_append, h.same, hmore.same]⟩

/-- Announcements may come in any number and order. -/
theorem announcements (root : String) (files : List String) (announced announced' : List ℕ) :
    SameNews running (announcements root files announced)
      (Workflow.announcements root files announced') := by
  have husual : ∀ announced, ∀ e ∈ Workflow.announcements root files announced,
      e.IsUsual running := by
    intro announced e he
    obtain ⟨file, _, rfl⟩ := mem_announcements he
    exact rfl
  have hnone : ∀ announced, (Workflow.announcements root files announced).filter
      (fun e => !e.isCompiling) = [] := by
    intro announced
    rw [List.filter_eq_nil_iff]
    intro e he
    obtain ⟨file, _, rfl⟩ := mem_announcements he
    exact Bool.noConfusion
  exact ⟨husual announced, husual announced', (hnone announced).trans (hnone announced').symm⟩

end SameNews

/-! ### Acts abreast -/

/-- With any files both acts end in the same way, and add the same to what the user was told but
for the sources that are compiled, whatever that was. -/
def Abreast {α : Type} (running : Bool) (act act' : Act α) : Prop :=
  ∀ fs, ∃ result fs' news news', SameNews running news news' ∧ ∀ told,
    outcome act ⟨fs, told⟩ = (result, ⟨fs', told ++ news⟩) ∧
    outcome act' ⟨fs, told⟩ = (result, ⟨fs', told ++ news'⟩)

namespace Abreast

variable {ε α β : Type} {running : Bool}

/-- An act that adds the same to what the user was told, whatever that was. -/
theorem of_outcome {act : Act α} {result : FileSystem → Except Failure α}
    {fs' : FileSystem → FileSystem} {news : FileSystem → List Event}
    (hnews : ∀ fs, SameNews running (news fs) (news fs))
    (h : ∀ fs told, outcome act ⟨fs, told⟩ = (result fs, ⟨fs' fs, told ++ news fs⟩)) :
    Abreast running act act :=
  fun fs => ⟨_, _, _, _, hnews fs, fun told => ⟨h fs told, h fs told⟩⟩

theorem pure (a : α) : Abreast running (Pure.pure a : Act α) (Pure.pure a) :=
  .of_outcome (fun _ => .nil) fun _ _ => by rw [List.append_nil]; rfl

theorem fail (e : Failure) : Abreast running (throw e : Act α) (throw e) :=
  .of_outcome (fun _ => .nil) fun _ _ => by rw [List.append_nil]; rfl

theorem files : Abreast running Act.files Act.files :=
  .of_outcome (fun _ => .nil) fun _ _ => by rw [List.append_nil]; rfl

theorem setFiles (fs' : FileSystem) : Abreast running (Act.setFiles fs') (Act.setFiles fs') :=
  .of_outcome (fun _ => .nil) fun _ _ => by rw [List.append_nil]; rfl

theorem tell {event : Event} (h : event.IsUsual running) :
    Abreast running (Act.tell event) (Act.tell event) :=
  .of_outcome (fun _ => .single h) fun _ _ => rfl

theorem orFail (wrap : ε → Failure) (x : Except ε α) :
    Abreast running (Act.orFail wrap x) (Act.orFail wrap x) := by
  cases x with
  | ok a => exact pure a
  | error e => exact fail _

theorem bind {x x' : Act α} {f f' : α → Act β} (hx : Abreast running x x')
    (hf : ∀ a, Abreast running (f a) (f' a)) : Abreast running (x >>= f) (x' >>= f') := by
  intro fs
  obtain ⟨result, fs₁, first, first', hfirst, hx⟩ := hx fs
  cases result with
  | error e =>
    exact ⟨.error e, fs₁, first, first', hfirst, fun told =>
      ⟨outcome_bind_of_error (hx told).1, outcome_bind_of_error (hx told).2⟩⟩
  | ok a =>
    obtain ⟨result, fs₂, second, second', hsecond, hf⟩ := hf a fs₁
    refine ⟨result, fs₂, _, _, hfirst.append hsecond, fun told => ?_⟩
    rw [outcome_bind_of_ok (hx told).1, outcome_bind_of_ok (hx told).2, ← List.append_assoc,
      ← List.append_assoc]
    exact ⟨(hf _).1, (hf _).2⟩

theorem note (topic message : String) :
    Abreast running (Act.note topic message) (Act.note topic message) :=
  tell (show (Event.note .debug topic message).IsUsual running from trivial)

theorem bindTell {event : Event} (h : event.IsUsual running) {f f' : Unit → Act α}
    (hf : Abreast running (f ()) (f' ())) :
    Abreast running (Act.tell event >>= f) (Act.tell event >>= f') :=
  (tell h).bind fun _ => hf

theorem bindNote {topic message : String} {f f' : Unit → Act α}
    (hf : Abreast running (f ()) (f' ())) :
    Abreast running (Act.note topic message >>= f) (Act.note topic message >>= f') :=
  (note topic message).bind fun _ => hf

theorem bindLine (status : Status) {message : String}
    (h : status ≠ .error ∧ isFileLabel running status = false) {f f' : Unit → Act α}
    (hf : Abreast running (f ()) (f' ())) :
    Abreast running (Act.line status message >>= f) (Act.line status message >>= f') :=
  bindTell (show (Event.line status message).IsUsual running from h) hf

/-- What goes on behind a result has to be abreast for that value only. -/
theorem bindOrFail {wrap : ε → Failure} {x : Except ε α} {f f' : α → Act β}
    (hf : ∀ a, x = .ok a → Abreast running (f a) (f' a)) :
    Abreast running (Act.orFail wrap x >>= f) (Act.orFail wrap x >>= f') := by
  cases x with
  | ok a => exact hf a rfl
  | error e => exact fail _

theorem guard {c : Prop} [Decidable c] {e : Failure} {f f' : Unit → Act α}
    (hf : Abreast running (f ()) (f' ())) :
    Abreast running (if c then (throw e : Act Unit) >>= f else f ())
      (if c then (throw e : Act Unit) >>= f' else f' ()) := by
  split
  · exact fail e
  · exact hf

theorem ite {c : Prop} [Decidable c] {x x' y y' : Act α} (hx : c → Abreast running x x')
    (hy : ¬c → Abreast running y y') :
    Abreast running (if c then x else y) (if c then x' else y') := by
  split
  · exact hx ‹_›
  · exact hy ‹_›

theorem afterLine {c : Prop} [Decidable c] (status : Status) {message : String}
    (h : status ≠ .error ∧ isFileLabel running status = false) {f f' : Unit → Act α}
    (hf : Abreast running (f ()) (f' ())) :
    Abreast running (if c then Act.line status message >>= f else f ())
      (if c then Act.line status message >>= f' else f' ()) := by
  split
  · exact bindLine status h hf
  · exact hf

theorem forM {xs : List α} {f f' : α → Act Unit} (hf : ∀ a, Abreast running (f a) (f' a)) :
    Abreast running (xs.forM f) (xs.forM f') := by
  induction xs with
  | nil => exact pure ()
  | cons a xs ih => exact (hf a).bind fun _ => ih

theorem mapM {xs : List α} {f f' : α → Act β} (hf : ∀ a, Abreast running (f a) (f' a)) :
    Abreast running (xs.mapM f) (xs.mapM f') := by
  induction xs with
  | nil => exact pure []
  | cons a xs ih =>
    rw [List.mapM_cons, List.mapM_cons]
    exact (hf a).bind fun _ => ih.bind fun _ => pure _

theorem change {wrap : IoFault → Failure} {f : FileSystem → Except IoFault FileSystem} :
    Abreast running (Act.change wrap f) (Act.change wrap f) :=
  files.bind fun _ => (orFail _ _).bind fun _ => setFiles _

end Abreast

/-! ### Compilers -/

theorem conclude_abreast (running : Bool) (collected : Except Failure Compilation.Project) :
    Abreast running (conclude collected) (conclude collected) :=
  (Abreast.orFail _ _).bind fun _ => .bindNote (.pure _)

/-- **Compilers on two schedules are abreast.** -/
theorem Announces.abreast {running : Bool} {frontEnd : FrontEnd} {compiler compiler' : Compiler}
    (h : Announces frontEnd compiler) (h' : Announces frontEnd compiler') (root : String)
    (files : List String) : Abreast running (compiler root files) (compiler' root files) := by
  intro fs
  obtain ⟨floor, slots, hreached, hdone, hout⟩ := h root files fs
  obtain ⟨floor', slots', hreached', hdone', hout'⟩ := h' root files fs
  rw [hreached.collect_eq hdone] at hout
  rw [hreached'.collect_eq hdone'] at hout'
  obtain ⟨result, fs₁, news, news', hnews, hconclude⟩ := conclude_abreast running
    (compileLoop frontEnd fs root [] files) fs
  refine ⟨result, fs₁, _, _, .append (.announcements root files floor.announced
    floor'.announced) hnews, fun told => ?_⟩
  rw [hout, hout', ← List.append_assoc, ← List.append_assoc]
  exact ⟨(hconclude _).1, (hconclude _).2⟩

/-! ### Running -/

open Package (Manifest)

theorem writeUnit_abreast (running : Bool) (form : ArtifactForm) (path : String)
    (unit : Compilation.CompiledUnit) :
    Abreast running (writeUnit form path unit) (writeUnit form path unit) := by
  unfold writeUnit
  cases form with
  | text => exact Abreast.files.bind fun fs => (Abreast.setFiles _).bind fun _ => .orFail _ _
  | bitcode =>
    refine Abreast.files.bind fun fs => (Abreast.setFiles _).bind fun _ => ?_
    dsimp only
    cases (unit.module.writeBinary fs path).fault with
    | some fault => exact .bindNote (.ite (fun _ => .fail _) fun _ => .pure ())
    | none => exact .ite (fun _ => .fail _) fun _ => .pure ()

theorem emitUnit_abreast (running : Bool) (output : String) (form : ArtifactForm)
    (unit : Compilation.CompiledUnit) :
    Abreast running (emitUnit output form unit) (emitUnit output form unit) := by
  unfold emitUnit
  refine (writeUnit_abreast _ _ _ _).bind fun _ => Abreast.files.bind fun fs => ?_
  exact (Abreast.orFail _ _).bind fun _ => .pure _

theorem prepareUnit_abreast (output : String) (unit : Compilation.CompiledUnit) :
    Abreast true (prepareUnit output unit) (prepareUnit output unit) := by
  unfold prepareUnit
  exact (emitUnit_abreast _ _ _ _).bind fun artifact =>
    .bindTell (show (Event.detail .emitting (Raw.shown artifact.path)).IsUsual true from rfl)
      (.pure _)

theorem execute_abreast (running : Bool) (host : Host) (command : Command) :
    Abreast running (execute host command) (execute host command) := by
  unfold execute
  refine .bindNote (Abreast.files.bind fun fs => ?_)
  refine (Abreast.orFail _ _).bind fun execution => (Abreast.setFiles _).bind fun _ => ?_
  refine (Abreast.forM fun output => ?_).bind fun _ => .pure _
  cases output with
  | out text => exact .tell trivial
  | err text => exact .tell trivial

theorem runProject_abreast (host : Host) (options : Options) (manifest : Manifest)
    (places : Places) (project : Compilation.Project) :
    Abreast true (runProject host options manifest places project)
      (runProject host options manifest places project) := by
  unfold runProject
  refine .afterLine .warning ⟨nofun, rfl⟩ (.guard ?_)
  refine (Abreast.mapM fun unit => prepareUnit_abreast _ _).bind fun artifacts => ?_
  split
  · exact .fail _
  · refine Abreast.files.bind fun fs => ?_
    split
    · exact .fail _
    · refine .bindLine .running ⟨nofun, rfl⟩ ((execute_abreast _ _ _).bind fun ending => ?_)
      split
      · exact .bindLine .finished ⟨nofun, rfl⟩ (.pure _)
      · exact .bindLine .warning ⟨nofun, rfl⟩ (.pure _)

/-! ### Building -/

theorem buildUnit_abreast (places : Places) (form : ArtifactForm)
    (unit : Compilation.CompiledUnit) :
    Abreast false (buildUnit places form unit) (buildUnit places form unit) := by
  unfold buildUnit
  exact (emitUnit_abreast _ _ _ _).bind fun _ => .bindLine .emitting ⟨nofun, rfl⟩ (.pure _)

theorem countBuildOrWarn_abreast (running : Bool) (root : String) :
    Abreast running (countBuildOrWarn root) (countBuildOrWarn root) := by
  unfold countBuildOrWarn
  refine Abreast.files.bind fun fs => ?_
  cases Package.countBuildIn fs root with
  | ok counted => exact (Abreast.setFiles _).bind fun _ => .bindNote (.pure _)
  | error e => exact .bindLine .warning ⟨nofun, rfl⟩ (.pure _)

theorem dispatch_abreast (host : Host) (options : Options) (operation : Operation)
    (manifest : Manifest) (places : Places) (project : Compilation.Project) :
    Abreast (operation == .run) (dispatch host options operation manifest places project)
      (dispatch host options operation manifest places project) := by
  unfold dispatch
  cases operation with
  | init => exact .fail _
  | build =>
    refine Abreast.bind ?_ fun _ => .pure _
    refine (Abreast.mapM fun unit => buildUnit_abreast _ _ _).bind fun _ => ?_
    refine (countBuildOrWarn_abreast _ _).bind fun _ => ?_
    exact .bindTell (show (Event.timed (buildTitle manifest project.size)).IsUsual false from
      trivial) (.pure _)
  | run => exact (runProject_abreast _ _ _ _ _).bind fun _ => .pure _

/-! ### An invocation -/

theorem checkInstallation_abreast (running : Bool) (platform : Platform) (directory : String)
    (disabled : Bool) : Abreast running (checkInstallation platform directory disabled)
      (checkInstallation platform directory disabled) := by
  have htool : ∀ entry, Abreast running (checkTool platform directory entry)
      (checkTool platform directory entry) := fun entry =>
    Abreast.files.bind fun _ => .guard (.bindNote (.pure _))
  have htools : Abreast running (checkTools platform directory standardTools)
      (checkTools platform directory standardTools) := by
    unfold checkTools
    refine .guard (.ite (fun _ => .bindNote (.pure _)) fun _ => ?_)
    refine Abreast.files.bind fun fs => .guard ?_
    dsimp only
    split
    · exact .fail _
    · exact (Abreast.mapM htool).bind fun _ => .pure _
  unfold checkInstallation
  exact .ite (fun _ => .bindLine .info ⟨nofun, rfl⟩ (.pure _)) fun _ => htools.bind fun _ => .pure _

theorem initializePackage_abreast (running : Bool) (obstacles : Obstacles) (root : String)
    (source : TemplateSource) : Abreast running (initializePackage obstacles root source)
      (initializePackage obstacles root source) := by
  have hremove : ∀ path, Abreast running (removeManifest obstacles path)
      (removeManifest obstacles path) := fun path =>
    Abreast.change.bind fun _ => Abreast.files.bind fun _ => .ite (fun _ => .fail _) fun _ => .pure _
  have hcopy : Abreast running (copyTemplate obstacles source.path root)
      (copyTemplate obstacles source.path root) := by
    refine Abreast.files.bind fun _ => (Abreast.setFiles _).bind fun _ => ?_
    exact (Abreast.orFail _ _).bind fun _ => Abreast.files.bind fun _ =>
      .ite (fun _ => .fail _) fun _ => .pure _
  unfold initializePackage
  refine Abreast.files.bind fun fs => .guard (.bindNote (Abreast.files.bind fun fs' => ?_))
  split
  · refine .bindNote ((hremove _).bind fun _ => .bindNote ((Abreast.pure _).bind fun _ => ?_))
    exact hcopy.bind fun _ => .pure _
  · exact (Abreast.pure _).bind fun _ => hcopy.bind fun _ => .pure _

theorem ensureOutput_abreast (running : Bool) (path : String) :
    Abreast running (ensureOutput path) (ensureOutput path) := by
  unfold ensureOutput
  refine Abreast.files.bind fun fs => (Abreast.setFiles _).bind fun _ => ?_
  refine (Abreast.orFail _ _).bind fun isNew => ?_
  split
  · exact .note _ _
  · exact .pure ()

theorem resolveSourceRoot_abreast (running : Bool) (root : String) (manifest : Manifest) :
    Abreast running (resolveSourceRoot root manifest) (resolveSourceRoot root manifest) := by
  unfold resolveSourceRoot
  split
  · exact .pure _
  · exact Abreast.files.bind fun _ => Abreast.files.bind fun _ => .guard (.bindNote (.pure _))

theorem findSources_abreast (running : Bool) (scope : Sources.Scope) :
    Abreast running (findSources scope) (findSources scope) :=
  Abreast.files.bind fun _ => (Abreast.forM fun _ => .note _ _).bind fun _ => .orFail _ _

/-- Whether an invocation is to run the package. -/
def Options.runs (options : Options) : Bool :=
  Operation.ofName? options.operation == some .run

/-- **Invocations whose compilers are on two schedules are abreast.** -/
theorem performWith_abreast (host : Host) {frontEnd : FrontEnd} {compiler compiler' : Compiler}
    (h : Announces frontEnd compiler) (h' : Announces frontEnd compiler') (options : Options) :
    Abreast options.runs (performWith host compiler options)
      (performWith host compiler' options) := by
  unfold performWith performProject
  refine .bindNote (.bindOrFail fun operation hoperation => .bindNote ?_)
  have hruns : options.runs = (operation == .run) := by
    unfold resolveOperation at hoperation
    split at hoperation
    · cases hoperation
    · rename_i operation' hname
      cases hoperation
      rw [Options.runs, hname]
      cases operation <;> rfl
  rw [hruns]
  refine (checkInstallation_abreast _ _ _ _).bind fun _ => ?_
  refine Abreast.files.bind fun _ => (Abreast.orFail _ _).bind fun base => ?_
  refine Abreast.files.bind fun _ => (Abreast.orFail _ _).bind fun root => .bindNote ?_
  refine .ite (fun _ => ?_) fun _ => ?_
  · exact (initializePackage_abreast _ _ _ _).bind fun _ => .bindLine .created ⟨nofun, rfl⟩ (.pure _)
  · refine Abreast.files.bind fun _ => .guard (Abreast.files.bind fun _ => ?_)
    refine (Abreast.orFail _ _).bind fun manifest => .bindNote ?_
    refine (resolveSourceRoot_abreast _ _ _).bind fun sourceRoot => ?_
    refine (Abreast.orFail _ _).bind fun patterns => ?_
    refine (findSources_abreast _ _).bind fun files => ?_
    refine .ite (fun _ => .bindLine .warning ⟨nofun, rfl⟩ (.pure _)) fun _ => ?_
    refine (ensureOutput_abreast _ _).bind fun _ => ?_
    exact (h.abreast h' _ _).bind fun _ => dispatch_abreast _ _ _ _ _ _

/-! ### What the user was told before -/

/-- With any files the act ends in one way, and adds the same to what the user was told, whatever
that was. -/
def OnlyAdds {α : Type} (act : Act α) : Prop :=
  ∀ fs, ∃ result fs' more, ∀ told,
    outcome act ⟨fs, told⟩ = (result, ⟨fs', told ++ more⟩)

/-- What it comes to does not hang on what the user was told before. -/
theorem OnlyAdds.ends {α : Type} {act : Act α} (h : OnlyAdds act) {w w' : World}
    {result : Except Failure α} (hw : outcome act w = (result, w')) :
    Ends act w.files result w'.files := by
  obtain ⟨result', fs', more, hadds⟩ := h w.files
  rw [show w = ⟨w.files, w.told⟩ from rfl, hadds] at hw
  cases hw
  exact fun told => ⟨_, hadds told⟩

theorem Abreast.onlyAdds {α : Type} {running : Bool} {act act' : Act α}
    (h : Abreast running act act') : OnlyAdds act := by
  intro fs
  obtain ⟨result, fs', news, _, _, hout⟩ := h fs
  exact ⟨result, fs', news, fun told => (hout told).1⟩

/-- **An invocation does not hang on what the user was told before.** -/
theorem perform_onlyAdds (host : Host) (frontEnd : FrontEnd) (options : Options) :
    OnlyAdds (perform host frontEnd options) :=
  have hannounces := compileSources_announces frontEnd
  (performWith_abreast host hannounces hannounces options).onlyAdds

end Ingot.Workflow
