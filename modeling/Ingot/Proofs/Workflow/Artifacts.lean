import Ingot.Proofs.Bitcode.RoundTrip
import Ingot.Proofs.Compilation.UnitNames
import Ingot.Proofs.Workflow.Emission

/-!
# What artifacts hold

The file of a unit stands right in the directory for what is built, and files of units with
different names are different (`artifactPath_injective`). So writing one unit does not touch
the file of another, and **after a row of units is written each of its files holds what was
written of its unit** (`EmitsAll.holds`): its text, or a container that is read as it.
-/

namespace Ingot.Workflow

open Bitcode (Module)
open Compilation (CompiledModule CompiledUnit)
open FileSystem (Keeps)

/-! ### Paths and places -/

/-- The name of the file of a unit. -/
def artifactName (form : ArtifactForm) (unit : String) : String :=
  Raw.ofText unit ++ "." ++ form.ending

theorem artifactPath_eq (output : String) (form : ArtifactForm) (unit : String) :
    artifactPath output form unit = Path.join output (artifactName form unit) := rfl

theorem toList_artifactName (form : ArtifactForm) (unit : String) :
    (artifactName form unit).toList = (Raw.ofText unit).toList ++ '.' :: form.ending.toList := by
  rw [artifactName, String.toList_append, String.toList_append, List.append_assoc]
  rfl

/-- Files of units with different names have different names, also in different forms. -/
theorem artifactName_injective {form form' : ArtifactForm} {a b : String}
    (h : artifactName form a = artifactName form' b) : a = b := by
  have hlist := congrArg String.toList h
  rw [toList_artifactName, toList_artifactName] at hlist
  have hending : ∀ form : ArtifactForm, form.ending.toList.length = 2 := by
    intro form
    cases form with
    | text => decide
    | bitcode => decide
  have hlength : ('.' :: form.ending.toList).length = ('.' :: form'.ending.toList).length := by
    rw [List.length_cons, List.length_cons, hending, hending]
  exact Raw.ofText_injective (String.toList_inj.1 (List.append_inj' hlist hlength).1)

theorem noSlash_artifactName {form : ArtifactForm} {unit : String} (h : '/' ∉ unit.toList) :
    '/' ∉ (artifactName form unit).toList := by
  rw [toList_artifactName]
  intro hmem
  rcases List.mem_append.1 hmem with hmem | hmem
  · exact h ((Raw.mem_ofText_iff (by decide)).1 hmem)
  · cases form with
    | text => exact absurd hmem (by decide)
    | bitcode => exact absurd hmem (by decide)

/-- **Units with different names have different files.** -/
theorem artifactPath_injective {output : String} {form : ArtifactForm} {a b : String}
    (ha : '/' ∉ a.toList) (hb : '/' ∉ b.toList)
    (h : artifactPath output form a = artifactPath output form b) : a = b := by
  rw [artifactPath_eq, artifactPath_eq] at h
  exact artifactName_injective
    (Path.join_injective (noSlash_artifactName ha) (noSlash_artifactName hb) h)

/-- The name of the file of a unit is longer than a row of dots that means something. -/
theorem artifactName_ne {name : String} (form : ArtifactForm) (unit : String)
    (hname : name.toList.length < 3) : artifactName form unit ≠ name := by
  rintro rfl
  rw [toList_artifactName] at hname
  cases form with
  | text => simp [ArtifactForm.ending] at hname
  | bitcode => simp [ArtifactForm.ending] at hname

theorem isLeaf_artifactName {form : ArtifactForm} {unit : String} (h : '/' ∉ unit.toList) :
    Path.IsLeaf (artifactName form unit) :=
  ⟨artifactName_ne form unit (by decide), noSlash_artifactName h⟩

/-- The file of a unit stands right in the directory for what is built. -/
theorem place_artifactPath_of_noSlash {fs : FileSystem} {output : String} {form : ArtifactForm}
    {unit : String} (houtput : Path.isAbsolute output = true) (hunit : '/' ∉ unit.toList) :
    fs.place (artifactPath output form unit) =
      fs.place output ++ [artifactName form unit] := by
  have hdot : artifactName form unit ≠ "." := artifactName_ne form unit (by decide)
  have hup : artifactName form unit ≠ ".." := artifactName_ne form unit (by decide)
  rw [FileSystem.place, FileSystem.place, artifactPath_eq,
    Path.way_join (Path.ne_empty_of_isAbsolute houtput) (isLeaf_artifactName hunit) hdot,
    FileSystem.follow_append, FileSystem.startOf, FileSystem.startOf, houtput,
    Path.isAbsolute_join houtput, FileSystem.follow, List.foldl_cons, List.foldl_nil,
    FileSystem.enter, if_neg hdot, if_neg hup]

/-- The file of a unit has the ending of its form. -/
theorem extension?_artifactPath {output : String} {form : ArtifactForm} {unit : String}
    (houtput : Path.isAbsolute output = true) (hunit : Path.IsLeaf unit) :
    Path.extension? (artifactPath output form unit) = some form.ending := by
  have hending : '.' ∉ form.ending.toList := by
    cases form with
    | text => decide
    | bitcode => decide
  rw [Path.extension?, artifactPath_eq,
    Path.fileName?_join houtput (isLeaf_artifactName hunit.noSlash)
      (artifactName_ne form unit (by decide)) (artifactName_ne form unit (by decide)),
    Option.bind_some,
    Path.cutAtDot_append hunit.ofText.ne_empty hending (toList_artifactName form unit)]

theorem place_artifactPath_injective {fs : FileSystem} {output : String} {form : ArtifactForm}
    {a b : String} (houtput : Path.isAbsolute output = true) (ha : '/' ∉ a.toList)
    (hb : '/' ∉ b.toList)
    (h : fs.place (artifactPath output form a) = fs.place (artifactPath output form b)) :
    a = b := by
  rw [place_artifactPath_of_noSlash houtput ha, place_artifactPath_of_noSlash houtput hb] at h
  have hname : [artifactName form a] = [artifactName form b] := (List.append_inj' h rfl).2
  exact artifactName_injective (List.head_eq_of_cons_eq hname)

/-! ### What is in a file -/

/-- The content of a file is that of a module: its text, or a container that is read as the
module. No text is so long that there is no room for it. -/
def Holds (form : ArtifactForm) (content : ByteArray) (m : Module) : Prop :=
  match form with
  | .text => content = m.text.toUTF8
  | .bitcode => m.text.utf8ByteSize ≤ Bitcode.roomLimit →
      Bitcode.decode m.identifier content.toList = .ok m

/-- The bytes of a module in a form. -/
def bytesOf (form : ArtifactForm) (m : Module) : ByteArray :=
  match form with
  | .text => m.text.toUTF8
  | .bitcode => ⟨(Bitcode.encode m).toArray⟩

theorem holds_bytesOf (form : ArtifactForm) (m : Module) : Holds form (bytesOf form m) m := by
  cases form with
  | text => rfl
  | bitcode =>
    intro hroom
    rw [Bitcode.toList_eq]
    exact Bitcode.decode_encode m hroom

/-- A module of the standard front end is written by writing its bytes. -/
theorem written_iff {form : ArtifactForm} {path : String} {m : Module} {fs fs' : FileSystem} :
    Written form path (Compilation.moduleOf m) fs fs' ↔
      fs.writeBytes path (bytesOf form m) = .ok fs' := by
  cases form with
  | text =>
    unfold Written Compilation.moduleOf bytesOf FileSystem.writeText
    dsimp only
    cases fs.writeBytes path m.text.toUTF8 with
    | error fault => simp
    | ok fs₁ => simp
  | bitcode =>
    unfold Written Compilation.moduleOf bytesOf
    dsimp only
    cases fs.writeBytes path ⟨(Bitcode.encode m).toArray⟩ with
    | error fault => simp
    | ok fs₁ => simp

/-- What is read after a module of the standard front end is written is that module. -/
theorem holds_of_written {form : ArtifactForm} {path : String} {m : Module} {fs fs' : FileSystem}
    {content : ByteArray} (hfs : fs.NoLinks)
    (hwritten : Written form path (Compilation.moduleOf m) fs fs')
    (hread : fs'.readBytes path = .ok content) : Holds form content m := by
  rw [FileSystem.eq_of_writeWith_of_readBytes hfs (written_iff.1 hwritten) hread]
  exact holds_bytesOf form m

/-- An artifact is that of a unit, and a file that holds it. -/
structure IsArtifactOf (output : String) (form : ArtifactForm) (fs : FileSystem)
    (unit : CompiledUnit) (artifact : Artifact) : Prop where
  isUnit : artifact.unit = unit.name
  isPath : artifact.path = artifactPath output form unit.name
  isForm : artifact.form = form
  readable : fs.readBytes artifact.path = .ok artifact.content
  holds : ∀ m, unit.module = Compilation.moduleOf m → Holds form artifact.content m

theorem Emits.isArtifactOf {output : String} {form : ArtifactForm} {unit : CompiledUnit}
    {fs fs' : FileSystem} {artifact : Artifact}
    (h : Emits output form unit fs (.ok artifact) fs') (hfs : fs.NoLinks) :
    IsArtifactOf output form fs' unit artifact := by
  obtain ⟨content, rfl, hread, hwritten⟩ := h.ok artifact rfl
  refine ⟨rfl, rfl, rfl, hread, fun m hm => ?_⟩
  rw [hm] at hwritten
  exact holds_of_written hfs hwritten hread

/-- A file still holds an artifact after files elsewhere were changed. -/
theorem IsArtifactOf.of_keeps {output : String} {form : ArtifactForm} {unit : CompiledUnit}
    {fs fs' : FileSystem} {artifact : Artifact} {touched : Location → Prop}
    (h : IsArtifactOf output form fs unit artifact) (hfs : fs.NoLinks)
    (hkeeps : Keeps touched fs fs')
    (hplace : ¬touched (fs.place (artifactPath output form unit.name))) :
    IsArtifactOf output form fs' unit artifact :=
  ⟨h.isUnit, h.isPath, h.isForm, hkeeps.readBytes hfs h.readable (h.isPath ▸ hplace), h.holds⟩

/-- What holds of each unit once it is written, and is not changed by what is done elsewhere,
holds of all units of a row in the end. -/
theorem EmitsAll.forall₂ {output : String} {form : ArtifactForm} {units : List CompiledUnit}
    {artifacts : List Artifact} {fs fs' : FileSystem}
    {R : FileSystem → CompiledUnit → Artifact → Prop}
    (h : EmitsAll output form fs units artifacts fs')
    (houtput : Path.isAbsolute output = true)
    (hown : ∀ unit ∈ units, WritesOwnFile unit.module)
    (hslash : ∀ unit ∈ units, '/' ∉ unit.name.toList)
    (hnames : (units.map CompiledUnit.name).Nodup) (hfs : fs.NoLinks)
    (hemits : ∀ unit ∈ units, ∀ fs fs' artifact, fs.NoLinks →
      Emits output form unit fs (.ok artifact) fs' → R fs' unit artifact)
    (hkept : ∀ touched fs fs' unit artifact, R fs unit artifact → fs.NoLinks →
      Keeps touched fs fs' → ¬touched (fs.place (artifactPath output form unit.name)) →
      R fs' unit artifact) :
    List.Forall₂ (R fs') units artifacts := by
  induction h with
  | nil => exact .nil
  | @cons fs fs₁ fs₂ unit units artifact artifacts hfirst hrest ih =>
    obtain ⟨hnew, hothers⟩ := List.nodup_cons.1 hnames
    have hkeeps : Keeps (IsTarget fs output form [unit]) fs fs₁ :=
      hfirst.keeps (hown unit List.mem_cons_self) hfs List.mem_cons_self
    have howned : ∀ u ∈ units, WritesOwnFile u.module := fun u hu =>
      hown u (List.mem_cons_of_mem _ hu)
    refine .cons ?_ (ih howned (fun u hu => hslash u (List.mem_cons_of_mem _ hu)) hothers
      hkeeps.noLinks fun u hu => hemits u (List.mem_cons_of_mem _ hu))
    refine hkept _ fs₁ fs₂ unit artifact (hemits unit List.mem_cons_self _ _ _ hfs hfirst)
      hkeeps.noLinks (hrest.keeps (fun _ hu => hu) howned hkeeps.noLinks) ?_
    rintro ⟨other, hother, hplace⟩
    refine hnew (List.mem_map.2 ⟨other, hother, ?_⟩)
    exact (place_artifactPath_injective houtput (hslash unit List.mem_cons_self)
      (hslash other (List.mem_cons_of_mem _ hother)) hplace).symm

/-- **Each file of a row of units holds in the end what was written of its unit.** -/
theorem EmitsAll.holds {output : String} {form : ArtifactForm} {units : List CompiledUnit}
    {artifacts : List Artifact} {fs fs' : FileSystem}
    (h : EmitsAll output form fs units artifacts fs')
    (houtput : Path.isAbsolute output = true)
    (hown : ∀ unit ∈ units, WritesOwnFile unit.module)
    (hslash : ∀ unit ∈ units, '/' ∉ unit.name.toList)
    (hnames : (units.map CompiledUnit.name).Nodup) (hfs : fs.NoLinks) :
    List.Forall₂ (IsArtifactOf output form fs') units artifacts :=
  h.forall₂ houtput hown hslash hnames hfs
    (fun _ _ _ _ _ hfs hemits => hemits.isArtifactOf hfs)
    (fun _ _ _ _ _ ha hfs hkeeps hplace => ha.of_keeps hfs hkeeps hplace)

end Ingot.Workflow
