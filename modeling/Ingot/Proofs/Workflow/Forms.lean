import Ingot.Proofs.Workflow.Builds
import Ingot.Proofs.Workflow.Ending
import Ingot.Proofs.Workflow.Failures
import Ingot.Proofs.Workflow.Telling

/-!
# The two forms of what is built

What is built has one of two forms, text or containers. The form is looked at only when there is a
project to build or to run (`perform_partsLate`), so an invocation that ends before that ends in
both forms alike. What comes behind is put side by side: a build writes the same units, and counts
itself by looking at nothing but the manifest, which no artifact touches
(`CountsItself.of_resolve`); a run only gives a warning (`dispatch_run_withBitcode`).
**So the two forms say the same** (`forms_agree`): each container is read as the text of its unit.
-/

namespace Ingot.Workflow

open Effect
open Package (Manifest countBuildIn countBuildIn_of_resolve manifestPath recount)
open Compilation (CompiledUnit FrontEnd Project standardFrontEnd)

/-! ### Up to where the forms part -/

/-- Options that ask for the binary form, or do not. -/
def Options.withBitcode (o : Options) (bitcode : Bool) : Options := { o with bitcode := bitcode }

namespace Options

variable (o : Options) (b : Bool)

@[simp] theorem withBitcode_operation : (o.withBitcode b).operation = o.operation := rfl

@[simp] theorem withBitcode_root : (o.withBitcode b).root = o.root := rfl

@[simp] theorem withBitcode_debug : (o.withBitcode b).debug = o.debug := rfl

@[simp] theorem withBitcode_noIntegrity : (o.withBitcode b).noIntegrity = o.noIntegrity := rfl

@[simp] theorem withBitcode_baseDirectory : (o.withBitcode b).baseDirectory = o.baseDirectory := rfl

@[simp] theorem withBitcode_toolsDirectory : (o.withBitcode b).toolsDirectory = o.toolsDirectory :=
  rfl

@[simp] theorem withBitcode_outputDirectory (root : String) :
    (o.withBitcode b).outputDirectory root = o.outputDirectory root := rfl

end Options

/-- What was found does not hang on the form. -/
theorem Prepared.withBitcode {fs : FileSystem} {options : Options} {operation : Operation}
    {manifest : Manifest} {places : Places} {files : List String}
    (h : Prepared fs options operation manifest places files) (b : Bool) :
    Prepared fs (options.withBitcode b) operation manifest places files :=
  ⟨h.isOperation, h.isRoot, h.isManifest, h.isSourceRoot, h.isOutput, h.isScan, h.nonempty⟩

/-- An invocation that has neither built nor run anything. -/
def Outcome.IsEarly : Outcome → Prop
  | built _ => False
  | ran _ => False
  | _ => True

/-- What an invocation comes to in both forms, if these part as late as they can: it ends in the
same way before anything is built or run, or it hands on the same project in the same world. -/
def PartsLate (host : Host) (frontEnd : FrontEnd) (options : Options) (fs : FileSystem)
    (ending : Bool → Except Failure Outcome × World) : Prop :=
  (∃ result w', (∀ b, ending b = (result, w')) ∧ ∀ what, result = .ok what → what.IsEarly) ∨
    ∃ operation manifest places files project told,
      Prepared fs options operation manifest places files ∧
        compileLoop frontEnd (fs.ensureDirectory places.output).1 places.sourceRoot [] files =
          .ok project ∧
        ∀ b, ending b = outcome
          (dispatch host (options.withBitcode b) operation manifest places project)
          ⟨(fs.ensureDirectory places.output).1, told⟩

namespace PartsLate

variable {host : Host} {frontEnd : FrontEnd} {options : Options} {fs : FileSystem} {α : Type}
  {w : World}

theorem fail (e : Failure) :
    PartsLate host frontEnd options fs fun _ => outcome (throw e) w :=
  .inl ⟨.error e, w, fun _ => rfl, fun _ h => by cases h⟩

theorem done {what : Outcome} (h : what.IsEarly) :
    PartsLate host frontEnd options fs fun _ => outcome (pure what) w := by
  refine .inl ⟨.ok what, w, fun _ => rfl, fun _ hwhat => ?_⟩
  cases hwhat
  exact h

/-- What both begin with does not part them. -/
theorem bind {x : Act α} {f : Bool → α → Act Outcome}
    (h : ∀ a w₁, outcome x w = (.ok a, w₁) →
      PartsLate host frontEnd options fs fun b => outcome (f b a) w₁) :
    PartsLate host frontEnd options fs fun b => outcome (x >>= f b) w := by
  rcases hx : outcome x w with ⟨e | a, w₁⟩
  · refine .inl ⟨.error e, w₁, fun b => outcome_bind_of_error hx, fun _ h => ?_⟩
    cases h
  · rw [funext fun b => outcome_bind_of_ok (f := f b) hx]
    exact h a w₁ hx

theorem bindKeeping {x : Act α} {f : Bool → α → Act Outcome} (hx : KeepsFiles x)
    (hw : w.files = fs)
    (h : ∀ a w₁, outcome x w = (.ok a, w₁) → w₁.files = fs →
      PartsLate host frontEnd options fs fun b => outcome (f b a) w₁) :
    PartsLate host frontEnd options fs fun b => outcome (x >>= f b) w := by
  refine bind fun a w₁ hxw => h a w₁ hxw ?_
  have hkept := hx w
  rw [hxw] at hkept
  exact hkept.trans hw

theorem bindFiles {f : Bool → FileSystem → Act Outcome} (hw : w.files = fs)
    (h : PartsLate host frontEnd options fs fun b => outcome (f b fs) w) :
    PartsLate host frontEnd options fs fun b => outcome (Act.files >>= f b) w := by
  refine bind fun fs₁ w₁ hfiles => ?_
  cases hfiles
  rw [hw]
  exact h

theorem bindOrFail {ε : Type} {wrap : ε → Failure} {result : Except ε α}
    {f : Bool → α → Act Outcome}
    (h : ∀ a, result = .ok a → PartsLate host frontEnd options fs fun b => outcome (f b a) w) :
    PartsLate host frontEnd options fs fun b =>
      outcome (Act.orFail wrap result >>= f b) w := by
  cases result with
  | error e => exact bind fun _ _ hfail => by cases hfail
  | ok a => exact h a rfl

theorem guard {c : Prop} [Decidable c] {e : Failure} {f : Bool → Unit → Act Outcome}
    (h : ¬c → PartsLate host frontEnd options fs fun b => outcome (f b ()) w) :
    PartsLate host frontEnd options fs fun b =>
      outcome (if c then (throw e : Act Unit) >>= f b else f b ()) w := by
  by_cases hc : c
  · simp only [if_pos hc]
    exact fail e
  · simp only [if_neg hc]
    exact h hc

theorem carryOut {operation : Operation} {manifest : Manifest} {places : Places}
    {files : List String} (hw : w.files = fs)
    (h : Prepared fs options operation manifest places files) :
    PartsLate host frontEnd options fs fun b =>
      outcome (Workflow.carryOut host (compileSources frontEnd) (options.withBitcode b) operation
        manifest places files) w := by
  obtain ⟨told, hensure⟩ := ensureOutput_ends w.files places.output w.told
  refine bind fun _ w₁ hmade => ?_
  obtain rfl : w₁ = ⟨(fs.ensureDirectory places.output).1, told⟩ := by
    rw [hmade] at hensure
    rw [← hw]
    exact (Prod.mk.inj hensure).2
  obtain ⟨told₁, hcompile⟩ := outcome_compileSources frontEnd places.sourceRoot files
    ⟨(fs.ensureDirectory places.output).1, told⟩
  refine bind fun project w₂ hcompiled => ?_
  rw [hcompiled] at hcompile
  obtain ⟨hloop, rfl⟩ := Prod.mk.inj hcompile
  exact .inr ⟨operation, manifest, places, files, project, told₁, h, hloop.symm, fun _ => rfl⟩

end PartsLate

theorem performProject_partsLate (host : Host) (frontEnd : FrontEnd) {options : Options}
    {operation : Operation} {root : String} {fs : FileSystem} {w : World} (hw : w.files = fs)
    (hoperation : resolveOperation options.operation = .ok operation)
    (hroot : IsRoot fs options root) :
    PartsLate host frontEnd options fs fun b => outcome
      (performProject host (compileSources frontEnd) (options.withBitcode b) operation root) w := by
  unfold performProject
  simp only [Options.withBitcode_outputDirectory]
  refine .bindFiles hw (.guard fun _ => .bindFiles hw (.bindOrFail fun manifest hmanifest => ?_))
  refine .bindKeeping (.note _ _) hw fun _ w₁ _ hw₁ => ?_
  refine .bindKeeping (resolveSourceRoot_keepsFiles _ _) hw₁ fun sourceRoot w₂ hsource hw₂ => ?_
  have hsourceRoot := hw₁ ▸ resolveSourceRoot_ok hsource
  refine .bindOrFail fun patterns hpatterns => ?_
  refine .bindKeeping (findSources_keepsFiles _) hw₂ fun files w₃ hscan hw₃ => ?_
  have hfound := hw₂ ▸ findSources_ok hscan
  by_cases hempty : files.isEmpty = true
  · simp only [if_pos hempty]
    exact .bind fun _ _ _ => .done trivial
  · simp only [if_neg hempty]
    have hprepared : Prepared fs options operation manifest
        ⟨root, sourceRoot, options.outputDirectory root⟩ files :=
      ⟨hoperation, hroot, hmanifest, hsourceRoot, rfl, ⟨patterns, hpatterns, hfound⟩,
        by simpa using hempty⟩
    have hcarry : PartsLate host frontEnd options fs _ := .carryOut hw₃ hprepared
    unfold carryOut at hcarry
    exact hcarry

/-- **The form is looked at only when there is a project to build or to run.** -/
theorem perform_partsLate (host : Host) (frontEnd : FrontEnd) (options : Options) (w : World) :
    PartsLate host frontEnd options w.files fun b =>
      outcome (perform host frontEnd (options.withBitcode b)) w := by
  unfold perform performWith
  simp only [Options.withBitcode_operation, Options.withBitcode_root, Options.withBitcode_debug,
    Options.withBitcode_noIntegrity, Options.withBitcode_baseDirectory,
    Options.withBitcode_toolsDirectory]
  refine .bindKeeping (.note _ _) rfl fun _ w₁ _ hw₁ => .bindOrFail fun operation hoperation => ?_
  refine .bindKeeping (.note _ _) hw₁ fun _ w₂ _ hw₂ => ?_
  refine .bindKeeping (checkInstallation_keepsFiles _ _ _) hw₂ fun _ w₃ _ hw₃ => ?_
  refine .bindFiles hw₃ (.bindOrFail fun base hbase => ?_)
  refine .bindFiles hw₃ (.bindOrFail fun root hroot => ?_)
  refine .bindKeeping (.note _ _) hw₃ fun _ w₄ _ hw₄ => ?_
  by_cases hinit : operation = .init
  · simp only [if_pos hinit]
    exact .bind fun _ _ _ => .bind fun _ _ _ => .done trivial
  · simp only [if_neg hinit]
    exact performProject_partsLate host frontEnd hw₄ hoperation ⟨base, hbase, hroot⟩

/-! ### Running -/

/-- What the user is told when a run is asked for the binary form. -/
def formWarning : Console.Event :=
  .line .warning "`--bitcode` is ignored by `run`; emitting textual IR"

/-- Running a package in the binary form is running it after a warning. -/
theorem runProject_withBitcode (host : Host) (options : Options) (manifest : Manifest)
    (places : Places) (project : Project) (fs : FileSystem) (told : List Console.Event) :
    outcome (runProject host (options.withBitcode true) manifest places project) ⟨fs, told⟩ =
      outcome (runProject host (options.withBitcode false) manifest places project)
        ⟨fs, told ++ [formWarning]⟩ := by
  have hasked : (options.withBitcode true).bitcode = true := rfl
  have hunasked : ¬(options.withBitcode false).bitcode = true := Bool.noConfusion
  unfold runProject
  simp only [Options.withBitcode_toolsDirectory]
  rw [if_pos hasked, if_neg hunasked, outcome_bind_of_ok (Act.outcome_line _ _ _)]
  rfl

theorem dispatch_run_withBitcode (host : Host) (options : Options) (manifest : Manifest)
    (places : Places) (project : Project) (fs : FileSystem) (told : List Console.Event) :
    outcome (dispatch host (options.withBitcode true) .run manifest places project) ⟨fs, told⟩ =
      outcome (dispatch host (options.withBitcode false) .run manifest places project)
        ⟨fs, told ++ [formWarning]⟩ := by
  unfold dispatch
  dsimp only [Operation.engine?]
  rw [outcome_bind, outcome_bind, runProject_withBitcode]

/-- A run comes to the same in both forms: to the same result and the same files, and the user is
told the same, but for one warning if there is a project to run. -/
def RunsAlike (host : Host) (frontEnd : FrontEnd) (options : Options) (w : World) : Prop :=
  ∃ result fs before behind,
    outcome (perform host frontEnd (options.withBitcode false)) w =
        (result, ⟨fs, before ++ behind⟩) ∧
      ((outcome (perform host frontEnd (options.withBitcode true)) w =
            (result, ⟨fs, before ++ behind⟩) ∧ ∀ what, result = .ok what → what.IsEarly) ∨
        outcome (perform host frontEnd (options.withBitcode true)) w =
          (result, ⟨fs, before ++ formWarning :: behind⟩))

theorem perform_runsAlike (host : Host) (frontEnd : FrontEnd) {options : Options} (w : World)
    (hrun : resolveOperation options.operation = .ok .run) : RunsAlike host frontEnd options w := by
  rcases perform_partsLate host frontEnd options w with ⟨result, w', hend, hearly⟩ |
    ⟨operation, manifest, places, files, project, told, hprepared, _, hend⟩
  · refine ⟨result, w'.files, w'.told, [], ?_, .inl ⟨?_, hearly⟩⟩
    · rw [List.append_nil]
      exact hend false
    · rw [List.append_nil]
      exact hend true
  · obtain rfl : Operation.run = operation := Except.ok.inj (hrun.symm.trans hprepared.isOperation)
    obtain ⟨result, fs, more, hadds⟩ :=
      (dispatch_abreast host (options.withBitcode false) .run manifest places project).onlyAdds
        (w.files.ensureDirectory places.output).1
    refine ⟨result, fs, told, more, (hend false).trans (hadds told), .inr ?_⟩
    refine (hend true).trans ((dispatch_run_withBitcode _ _ _ _ _ _ _).trans ?_)
    rw [hadds, List.append_assoc, List.singleton_append]

/-! ### Building -/

/-- The number of a build and what stands in the place of the manifest then hang on what stood
there. -/
theorem CountsItself.of_resolve {root : String} {written fs : FileSystem} {number : Option ℕ}
    (h : CountsItself root written fs number) (hlinks : written.NoLinks) {l : Location}
    {content : ByteArray} {permissions : Permissions}
    (hresolve : written.resolve true (manifestPath root) =
      .ok (.found l (.file content permissions))) :
    number = (recount (manifestPath root) content permissions).toOption.map Prod.fst ∧
      fs.node? l = some (.file
        (((recount (manifestPath root) content permissions).toOption.map
          fun counted => counted.2.toUTF8).getD content) permissions) := by
  have hnode : written.node? l = some (.file content permissions) :=
    FileSystem.holds_of_resolve hlinks hresolve
  have hl : l ≠ [] := by
    rintro rfl
    cases hnode
  rcases (countsItself_iff hresolve).1 h with ⟨n, text, hcount, rfl, rfl⟩ | ⟨e, hcount, rfl, rfl⟩
  · rw [hcount]
    exact ⟨rfl, by rw [FileSystem.node?_put hl, if_pos rfl]; rfl⟩
  · rw [hcount]
    exact ⟨rfl, hnode⟩

/-- A location whose last name has the ending of a form. -/
def HasEnding (form : ArtifactForm) (l : Location) : Prop :=
  ∃ l' stem, l = l' ++ [String.ofList (stem ++ '.' :: form.ending.toList)]

/-- Nothing is written to a file with the ending of a form: where the last name has that ending,
all is as before, or a directory was made. -/
def WritesNone (form : ArtifactForm) (fs fs' : FileSystem) : Prop :=
  ∀ l, HasEnding form l →
    fs'.node? l = fs.node? l ∨ fs.node? l = none ∧ fs'.node? l = some .directory

/-- Two artifacts of one unit, of which the one is a container of the text of the other. No text
is so long that there is no room for it. -/
structure SaysTheSame (text bitcode : Artifact) : Prop where
  unit : bitcode.unit = text.unit
  forms : text.form = .text ∧ bitcode.form = .bitcode
  decodes : ∃ content : String, text.content = content.toUTF8 ∧
    (content.utf8ByteSize ≤ Bitcode.roomLimit →
      Bitcode.decode bitcode.unit bitcode.content.toList = .ok ⟨bitcode.unit, content⟩)

/-- Two builds of the same package, one as text and one in the binary form. -/
structure BuiltAlike (options : Options) (fs textFs bitcodeFs : FileSystem)
    (text bitcode : BuildReport) (manifest : Manifest) (places : Places) (files : List String) :
    Prop where
  prepared : Prepared fs options .build manifest places files
  textBuilt : IsBuilt (options.withBitcode false) manifest places files fs textFs text
  bitcodeBuilt : IsBuilt (options.withBitcode true) manifest places files fs bitcodeFs bitcode
  same : List.Forall₂ SaysTheSame text.artifacts bitcode.artifacts
  number : bitcode.number = text.number
  manifestNode : bitcodeFs.node? (fs.place (manifestPath places.root)) =
    textFs.node? (fs.place (manifestPath places.root))
  noBitcode : WritesNone .bitcode fs textFs
  noText : WritesNone .text fs bitcodeFs

theorem not_hasEnding {form form' : ArtifactForm} {l : Location} (hne : form' ≠ form)
    (h : HasEnding form l) : ¬HasEnding form' l := by
  rintro ⟨l₂, stem₂, heq⟩
  obtain ⟨l₁, stem₁, rfl⟩ := h
  have hname := congrArg (fun l : Location => l.getLast?.map fun name => name.toList.getLast?) heq
  cases form <;> cases form' <;> simp [ArtifactForm.ending] at hname hne

theorem hasEnding_place (fs : FileSystem) (output : String) (form : ArtifactForm) (unit : String) :
    HasEnding form (fs.place (artifactPath output form unit)) := place_artifactPath _ _ _ _

theorem not_hasEnding_manifest {fs : FileSystem} {root : String}
    (hroot : Path.isAbsolute root = true) (form : ArtifactForm) :
    ¬HasEnding form (fs.place (manifestPath root)) := by
  rintro ⟨l, stem, heq⟩
  rw [place_manifestPath hroot] at heq
  have hname := congrArg (fun l : Location => l.getLast?.map fun name => name.toList.getLast?) heq
  cases form <;> simp [ArtifactForm.ending, Package.manifestName] at hname

namespace Course

variable {options : Options} {places : Places} {files : List String} {manifest : Manifest}
  {fs compiled written fs' : FileSystem} {news : List Location}
  {units : List CompiledUnit} {report : BuildReport}

/-- A build in one form writes no file of the other. -/
theorem writesNone (h : Course options places files fs compiled written fs' news units report)
    (hfs : fs.NoLinks) {operation : Operation}
    (hprepared : Prepared fs options operation manifest places files) {form : ArtifactForm}
    (hne : form ≠ options.form) : WritesNone form fs fs' := by
  have hroot := hprepared.isRoot.isAbsolute
  obtain ⟨text, htext, hparse⟩ := hprepared.readText_manifest
  obtain ⟨hcount, _⟩ := h.counts_manifest hfs hroot htext hparse
  have hkeeps := h.keeps hfs hcount
  intro l hl
  by_cases hnew : l ∈ news
  · right
    refine ⟨h.grows.free l hnew, ?_⟩
    have hemits := h.emits.keeps (fun _ hu => hu) h.writesOwnFile (h.grows.noLinks hfs)
    refine hcount.directories l (hemits.directories l ?_)
    rw [h.grows.node?, if_pos hnew]
  · left
    refine hkeeps.elsewhere l ?_
    rintro (hmem | ⟨unit, _, rfl⟩ | rfl)
    · exact hnew hmem
    · exact not_hasEnding hne (hasEnding_place _ _ _ _) hl
    · exact not_hasEnding_manifest hroot form hl

end Course

theorem identifier_of_generate {fs : FileSystem} {root file : String} {m : Bitcode.Module}
    (h : Compilation.generate fs root file = .ok m) :
    m.identifier = Compilation.unitName root file := by
  unfold Compilation.generate Compilation.compileText at h
  split at h
  · cases h
  · dsimp only at h
    split at h
    · cases h
    · cases h
      rfl

/-- The artifacts of a unit of the standard front end in both forms. -/
theorem saysTheSame_of_isArtifactOf {places : Places} {compiled textFs bitcodeFs : FileSystem}
    {file : String} {unit : CompiledUnit} {text bitcode : Artifact}
    (hunit : standardFrontEnd compiled places.sourceRoot file = .ok unit)
    (htext : IsArtifactOf places.output .text textFs unit text)
    (hbitcode : IsArtifactOf places.output .bitcode bitcodeFs unit bitcode) :
    SaysTheSame text bitcode := by
  obtain ⟨m, hm, rfl⟩ := standardFrontEnd_eq_ok hunit
  have hidentifier : m.identifier = bitcode.unit := by
    rw [hbitcode.isUnit]
    exact identifier_of_generate hm
  refine ⟨hbitcode.isUnit.trans htext.isUnit.symm, ⟨htext.isForm, hbitcode.isForm⟩, m.text,
    htext.holds m rfl, fun hroom => ?_⟩
  rw [← hidentifier]
  exact hbitcode.holds m rfl hroom

theorem forall₂_saysTheSame {places : Places} {compiled textFs bitcodeFs : FileSystem}
    {files : List String} {units : List CompiledUnit} {text bitcode : List Artifact}
    (hunits : List.Forall₂
      (fun file unit => standardFrontEnd compiled places.sourceRoot file = .ok unit) files units)
    (htext : List.Forall₂ (IsArtifactOf places.output .text textFs) units text)
    (hbitcode : List.Forall₂ (IsArtifactOf places.output .bitcode bitcodeFs) units bitcode) :
    List.Forall₂ SaysTheSame text bitcode := by
  induction hunits generalizing text bitcode with
  | nil =>
    cases htext
    cases hbitcode
    exact .nil
  | cons hunit _ ih =>
    cases htext with
    | cons htext htexts =>
      cases hbitcode with
      | cons hbitcode hbitcodes =>
        exact .cons (saysTheSame_of_isArtifactOf hunit htext hbitcode) (ih htexts hbitcodes)

/-- What two builds have in common that write the same units, each in its form. -/
theorem builtAlike_of_courses {options : Options} {manifest : Manifest} {places : Places}
    {files : List String} {fs compiled textWritten bitcodeWritten textFs bitcodeFs : FileSystem}
    {news : List Location} {units : List CompiledUnit} {text bitcode : BuildReport}
    (hfs : fs.NoLinks) (hprepared : Prepared fs options .build manifest places files)
    (htext : Course (options.withBitcode false) places files fs compiled textWritten textFs news
      units text)
    (hbitcode : Course (options.withBitcode true) places files fs compiled bitcodeWritten bitcodeFs
      news units bitcode)
    (htextCount : CountsItself places.root textWritten textFs text.number)
    (hbitcodeCount : CountsItself places.root bitcodeWritten bitcodeFs bitcode.number) :
    BuiltAlike options fs textFs bitcodeFs text bitcode manifest places files := by
  have hroot := hprepared.isRoot.isAbsolute
  have houtput := hprepared.isAbsolute_output
  obtain ⟨source, hsource, hparse⟩ := hprepared.readText_manifest
  obtain ⟨htextKeeps, _⟩ := htext.counts_manifest hfs hroot hsource hparse
  obtain ⟨hbitcodeKeeps, _⟩ := hbitcode.counts_manifest hfs hroot hsource hparse
  have htextHolds := htext.holds hfs houtput hroot htextKeeps
  have hbitcodeHolds := hbitcode.holds hfs houtput hroot hbitcodeKeeps
  obtain ⟨content, hbytes, _⟩ := FileSystem.readBytes_of_readText hsource
  obtain ⟨l, permissions, hresolve, _⟩ := FileSystem.readBytes_eq_ok.1 hbytes
  have hplace : l = fs.place (manifestPath places.root) :=
    FileSystem.location_of_resolve hfs hresolve
  obtain ⟨htextNumber, htextNode⟩ := htextCount.of_resolve (htext.keeps_written hfs).noLinks
    (htext.resolve_manifest hfs hroot hresolve)
  obtain ⟨hbitcodeNumber, hbitcodeNode⟩ := hbitcodeCount.of_resolve
    (hbitcode.keeps_written hfs).noLinks (hbitcode.resolve_manifest hfs hroot hresolve)
  exact {
    prepared := hprepared
    textBuilt := htext.isBuilt hfs (hprepared.withBitcode false)
    bitcodeBuilt := hbitcode.isBuilt hfs (hprepared.withBitcode true)
    same := forall₂_saysTheSame htext.compiles htextHolds hbitcodeHolds
    number := hbitcodeNumber.trans htextNumber.symm
    manifestNode := by rw [← hplace, htextNode, hbitcodeNode]
    noBitcode := htext.writesNone hfs (hprepared.withBitcode false) (show ArtifactForm.bitcode ≠ .text by decide)
    noText := hbitcode.writesNone hfs (hprepared.withBitcode true) (show ArtifactForm.text ≠ .bitcode by decide) }

/-! ### The whole -/

/-- No artifact fails to be written, or to be read again, in either form. -/
def WritesSucceed (host : Host) (options : Options) (w : World) : Prop :=
  ∀ b e, (outcome (perform host standardFrontEnd (options.withBitcode b)) w).1 = .error e →
    e.artifact? = none

/-- A build ends in both forms in the same way, before it has built anything, or it builds the same
in both. -/
def BuildsAlike (host : Host) (options : Options) (w : World) : Prop :=
  (∃ result w', (∀ b, outcome (perform host standardFrontEnd (options.withBitcode b)) w =
      (result, w')) ∧ ∀ what, result = .ok what → what.IsEarly) ∨
    ∃ text bitcode textWorld bitcodeWorld manifest places files,
      outcome (perform host standardFrontEnd (options.withBitcode false)) w =
          (.ok (.built text), textWorld) ∧
        outcome (perform host standardFrontEnd (options.withBitcode true)) w =
          (.ok (.built bitcode), bitcodeWorld) ∧
        BuiltAlike options w.files textWorld.files bitcodeWorld.files text bitcode manifest places
          files

theorem perform_buildsAlike (host : Host) {options : Options} {w : World}
    (hfs : w.files.NoLinks) (hbuild : resolveOperation options.operation = .ok .build)
    (hwritten : WritesSucceed host options w) : BuildsAlike host options w := by
  rcases perform_partsLate host standardFrontEnd options w with hearly |
    ⟨operation, manifest, places, files, project, told, hprepared, hloop, hend⟩
  · exact .inl hearly
  · right
    obtain rfl : Operation.build = operation :=
      Except.ok.inj (hbuild.symm.trans hprepared.isOperation)
    obtain ⟨news, hgrows⟩ := FileSystem.ensureDirectory_grows hprepared.isAbsolute_output hfs
    -- What the build comes to in each of the forms.
    have hbuilt : ∀ b, ∃ report w' written,
        outcome (perform host standardFrontEnd (options.withBitcode b)) w =
            (.ok (.built report), w') ∧
          Course (options.withBitcode b) places files w.files
            (w.files.ensureDirectory places.output).1 written w'.files news project.units report ∧
          CountsItself places.root written w'.files report.number := by
      intro b
      rcases hperform : outcome (perform host standardFrontEnd (options.withBitcode b)) w with
        ⟨result, w'⟩
      have hnone : ∀ e, result = .error e →
          ∀ path, ¬IsEmitFailure (options.withBitcode b).form path e := by
        intro e he path hfailure
        have hpath := hfailure.artifact?
        rw [hwritten b e (by rw [hperform]; exact he)] at hpath
        cases hpath
      obtain ⟨report, written, rfl, hemits, hcounts⟩ :=
        dispatch_build_ok ((hend b).symm.trans hperform) hnone
      exact ⟨report, w', written, rfl, course_of_emitsAll hgrows hloop hemits hcounts, hcounts⟩
    obtain ⟨text, textWorld, _, htext, htextCourse, htextCount⟩ := hbuilt false
    obtain ⟨bitcode, bitcodeWorld, _, hbitcode, hbitcodeCourse, hbitcodeCount⟩ := hbuilt true
    exact ⟨text, bitcode, textWorld, bitcodeWorld, manifest, places, files, htext, hbitcode,
      builtAlike_of_courses hfs hprepared htextCourse hbitcodeCourse htextCount hbitcodeCount⟩

/-- **The two forms say the same.** From the same files, a build ends in both forms in the same
way: it stops or fails alike, or it compiles the same sources to the same units in the same order
and counts itself alike, and each container is read as the text of the same unit. Neither build
writes a file of the other form. For a run the form changes nothing but one warning. -/
theorem forms_agree (host : Host) (options : Options) (w : World) (hlinks : w.files.hasNoLinks) :
    (resolveOperation options.operation = .ok .build → WritesSucceed host options w →
        BuildsAlike host options w) ∧
      (resolveOperation options.operation = .ok .run →
        ∀ frontEnd, RunsAlike host frontEnd options w) :=
  ⟨perform_buildsAlike host (FileSystem.noLinks_of_hasNoLinks hlinks),
    fun hrun frontEnd => perform_runsAlike host frontEnd w hrun⟩

namespace SmallPackage

/-- The package can be built in both forms. -/
theorem builtNumber?_eq (b : Bool) :
    builtNumber? (outcome (perform host standardFrontEnd (options.withBitcode b)) ⟨files, []⟩).1 =
      some 5 := by
  cases b with
  | false => decide +kernel
  | true => decide +kernel

theorem writesSucceed : WritesSucceed host options ⟨files, []⟩ := by
  intro b e he
  have hnumber := builtNumber?_eq b
  rw [he] at hnumber
  cases hnumber

end SmallPackage

open SmallPackage in
/-- A package that is built in both forms, over an older artifact. -/
theorem forms_agree_small :
    files.hasNoLinks ∧ resolveOperation options.operation = .ok .build ∧
      WritesSucceed host options ⟨files, []⟩ ∧
        (∃ text bitcode textWorld bitcodeWorld manifest places sources,
          outcome (perform host standardFrontEnd (options.withBitcode false)) ⟨files, []⟩ =
              (.ok (.built text), textWorld) ∧
            outcome (perform host standardFrontEnd (options.withBitcode true)) ⟨files, []⟩ =
              (.ok (.built bitcode), bitcodeWorld) ∧
            BuiltAlike options files textWorld.files bitcodeWorld.files text bitcode manifest places
              sources) ∧
          RunsAlike host standardFrontEnd { options with operation := "run" } ⟨files, []⟩ := by
  have hbuild : resolveOperation options.operation = .ok .build := by decide
  have hrun : resolveOperation "run" = .ok .run := by decide
  refine ⟨hasNoLinks_files, hbuild, writesSucceed, ?_,
    (forms_agree host { options with operation := "run" } ⟨files, []⟩ hasNoLinks_files).2 hrun
      standardFrontEnd⟩
  rcases (forms_agree host options ⟨files, []⟩ hasNoLinks_files).1 hbuild writesSucceed with
    ⟨result, w', hend, hearly⟩ | hbuilt
  · have hnumber := builtNumber?_eq false
    rw [hend false] at hnumber
    rcases result with e | _ | _ | report | _
    case ok.built => exact (hearly _ rfl).elim
    all_goals cases hnumber
  · exact hbuilt

end Ingot.Workflow
