import Ingot.Proofs.FileSystem.Replacement
import Ingot.Proofs.Workflow.Acts
import Ingot.Workflow.Init

/-!
# Giving a package a manifest

The manifest of a package is replaced in two steps: the old one is removed, then a copy of the
template is put in its place (`Initializes`). What can go wrong in the second step only shows when
the old manifest is gone, and it is not put back.

* When the act fails, **the files are as they were, unless the old manifest was given up**
  (`initialize_failed`). It is given up when without it the template can no longer be read or the
  path of the manifest is cut off (`GivesUp`).
* When the act succeeds, **the manifest is a copy of the template and nothing else has changed,
  and the act can be repeated** (`initialize_replaces`), unless the manifest was a link to where
  nothing is (`Dangles`): whether something is there is asked of what the link leads to, and so
  the copy is made there.
-/

namespace Ingot.Workflow

open Effect
open FileSystem (Extends)
open Package (hasManifest manifestPath)

/-! ### How it ends -/

/-- The ways in which a package is given a manifest, or is not. -/
inductive Initializes (obstacles : Obstacles) (fs : FileSystem) (root : String)
    (source : TemplateSource) : Except Failure Initialization → FileSystem → Prop where
  /-- There is no template. -/
  | noTemplate : fs.isFile source.path = false →
      Initializes obstacles fs root source (.error (.noTemplate source.path)) fs
  /-- The old manifest cannot be removed. -/
  | stale {fault : IoFault} : fs.isFile source.path = true → fs.isThere (manifestPath root) = true →
      fs.removeFile obstacles (manifestPath root) = .error fault →
      Initializes obstacles fs root source (.error (.staleManifest (manifestPath root) fault)) fs
  /-- The old manifest is removed, but there is no copy. -/
  | lost {cleared fs' : FileSystem} {fault : IoFault} :
      fs.isFile source.path = true → fs.isThere (manifestPath root) = true →
      fs.removeFile obstacles (manifestPath root) = .ok cleared →
      cleared.copyFile obstacles source.path (manifestPath root) = (fs', .error fault) →
      Initializes obstacles fs root source
        (.error (.manifestNotCreated (manifestPath root) (some fault))) fs'
  /-- The old manifest is removed, and the copy made. -/
  | replaced {cleared fs' : FileSystem} :
      fs.isFile source.path = true → fs.isThere (manifestPath root) = true →
      fs.removeFile obstacles (manifestPath root) = .ok cleared →
      cleared.copyFile obstacles source.path (manifestPath root) = (fs', .ok ()) →
      Initializes obstacles fs root source (.ok .replaced) fs'
  /-- There is no manifest, and there is no copy. -/
  | notCreated {fs' : FileSystem} {fault : IoFault} :
      fs.isFile source.path = true → fs.isThere (manifestPath root) = false →
      fs.copyFile obstacles source.path (manifestPath root) = (fs', .error fault) →
      Initializes obstacles fs root source
        (.error (.manifestNotCreated (manifestPath root) (some fault))) fs'
  /-- There is no manifest, and the copy is made. -/
  | created {fs' : FileSystem} :
      fs.isFile source.path = true → fs.isThere (manifestPath root) = false →
      fs.copyFile obstacles source.path (manifestPath root) = (fs', .ok ()) →
      Initializes obstacles fs root source (.ok .created) fs'

variable {obstacles : Obstacles} {fs fs' : FileSystem} {root : String} {source : TemplateSource}

/-- What was removed is not there any more. -/
theorem isThere_of_removeFile {path : String} (h : fs.removeFile obstacles path = .ok fs') :
    fs'.isThere path = false := by
  obtain ⟨l, n, hfind, hn, -, rfl⟩ := FileSystem.removeFile_eq_ok.1 h
  rcases FileSystem.resolve_drop hn hfind with hresolve | hresolve
  · exact FileSystem.isThere_of_vacant (hresolve true)
  · unfold FileSystem.isThere FileSystem.find
    rw [hresolve]

/-- What was copied to a free place is a file there. -/
theorem isFile_of_copyFile {path target : String} (hthere : fs.isThere target = false)
    (h : fs.copyFile obstacles path target = (fs', .ok ())) : fs'.isFile target = true := by
  obtain ⟨content, permissions, l, ⟨_, _, hresolve⟩, -, rfl⟩ :=
    (FileSystem.copyFile_eq_ok hthere).1 h
  exact FileSystem.isFile_eq_true_iff.2
    ⟨l, content, permissions, FileSystem.find_put_of_vacant hresolve content permissions⟩

theorem ends_change {f : FileSystem → Except IoFault FileSystem} {wrap : IoFault → Failure}
    (h : f fs = .ok fs') : Ends (Act.change wrap f) fs (.ok ()) fs' := by
  intro told
  refine ⟨told, ?_⟩
  rw [Act.change, outcome_bind_of_ok (Act.outcome_files _), h]
  rfl

theorem ends_change_error {f : FileSystem → Except IoFault FileSystem} {wrap : IoFault → Failure}
    {fault : IoFault} (h : f fs = .error fault) :
    Ends (Act.change wrap f) fs (.error (wrap fault)) fs := by
  intro told
  refine ⟨told, ?_⟩
  rw [Act.change, outcome_bind_of_ok (Act.outcome_files _), h]
  rfl

theorem ends_removeManifest {path : String} (h : fs.removeFile obstacles path = .ok fs') :
    Ends (removeManifest obstacles path) fs (.ok ()) fs' := by
  refine (ends_change h).bind (Ends.files.bind ?_)
  rw [if_neg (by simp [isThere_of_removeFile h])]
  exact .pure ()

theorem ends_removeManifest_error {path : String} {fault : IoFault}
    (h : fs.removeFile obstacles path = .error fault) :
    Ends (removeManifest obstacles path) fs (.error (.staleManifest path fault)) fs :=
  (ends_change_error h).bind_error

theorem ends_copyTemplate {template : String} (hthere : fs.isThere (manifestPath root) = false)
    (h : fs.copyFile obstacles template (manifestPath root) = (fs', .ok ())) :
    Ends (copyTemplate obstacles template root) fs (.ok ()) fs' := by
  refine Ends.files.bind ?_
  rw [h]
  refine Ends.setFiles.bind ((Ends.orFail _ (.ok ())).bind (Ends.files.bind ?_))
  rw [if_neg (by simp [hasManifest, isFile_of_copyFile hthere h])]
  exact .pure ()

theorem ends_copyTemplate_error {template : String} {fault : IoFault}
    (h : fs.copyFile obstacles template (manifestPath root) = (fs', .error fault)) :
    Ends (copyTemplate obstacles template root) fs
      (.error (.manifestNotCreated (manifestPath root) (some fault))) fs' := by
  refine Ends.files.bind ?_
  rw [h]
  exact Ends.setFiles.bind (Ends.orFail _ (.error fault)).bind_error

section Parts

variable (htemplate : fs.isFile source.path = true)

include htemplate

/-- The act where nothing is at the path of the manifest. -/
theorem ends_of_not_isThere {result : Except Failure Unit}
    (hthere : fs.isThere (manifestPath root) = false)
    (hcopy : Ends (copyTemplate obstacles source.path root) fs result fs') :
    Ends (initializePackage obstacles root source) fs (result.map fun _ => .created) fs' := by
  unfold initializePackage
  refine Ends.files.bind (Ends.guard (by simp [htemplate]) ((Ends.note _ _).bind
    (Ends.files.bind ?_)))
  rw [if_neg (by simp [hthere])]
  exact (Ends.pure Initialization.created).bind hcopy.map

/-- The act where something is at the path of the manifest that can be removed. -/
theorem ends_of_isThere {cleared : FileSystem} {result : Except Failure Unit}
    (hthere : fs.isThere (manifestPath root) = true)
    (hremove : Ends (removeManifest obstacles (manifestPath root)) fs (.ok ()) cleared)
    (hcopy : Ends (copyTemplate obstacles source.path root) cleared result fs') :
    Ends (initializePackage obstacles root source) fs (result.map fun _ => .replaced) fs' := by
  unfold initializePackage
  refine Ends.files.bind (Ends.guard (by simp [htemplate]) ((Ends.note _ _).bind
    (Ends.files.bind ?_)))
  rw [if_pos hthere]
  exact (Ends.note _ _).bind (hremove.bind ((Ends.note _ _).bind
    ((Ends.pure Initialization.replaced).bind hcopy.map)))

/-- The act where something is at the path of the manifest that cannot be removed. -/
theorem ends_of_isThere_error {e : Failure} (hthere : fs.isThere (manifestPath root) = true)
    (hremove : Ends (removeManifest obstacles (manifestPath root)) fs (.error e) fs) :
    Ends (initializePackage obstacles root source) fs (.error e) fs := by
  unfold initializePackage
  refine Ends.files.bind (Ends.guard (by simp [htemplate]) ((Ends.note _ _).bind
    (Ends.files.bind ?_)))
  rw [if_pos hthere]
  exact (Ends.note _ _).bind hremove.bind_error

end Parts

/-- **The act ends in one of these ways.** -/
theorem exists_initializes (obstacles : Obstacles) (fs : FileSystem) (root : String)
    (source : TemplateSource) : ∃ result fs', Initializes obstacles fs root source result fs' ∧
      Ends (initializePackage obstacles root source) fs result fs' := by
  cases htemplate : fs.isFile source.path with
  | false =>
    refine ⟨_, _, .noTemplate htemplate, Ends.files.bind ?_⟩
    rw [if_pos (by simp [htemplate])]
    exact fun told => ⟨told, rfl⟩
  | true =>
    cases hthere : fs.isThere (manifestPath root) with
    | false =>
      rcases hcopy : fs.copyFile obstacles source.path (manifestPath root) with ⟨fs', fault | _⟩
      · exact ⟨_, _, .notCreated htemplate hthere hcopy,
          ends_of_not_isThere htemplate hthere (ends_copyTemplate_error hcopy)⟩
      · exact ⟨_, _, .created htemplate hthere hcopy,
          ends_of_not_isThere htemplate hthere (ends_copyTemplate hthere hcopy)⟩
    | true =>
      cases hremove : fs.removeFile obstacles (manifestPath root) with
      | error fault =>
        exact ⟨_, _, .stale htemplate hthere hremove,
          ends_of_isThere_error htemplate hthere (ends_removeManifest_error hremove)⟩
      | ok cleared =>
        have hgone := isThere_of_removeFile hremove
        rcases hcopy : cleared.copyFile obstacles source.path (manifestPath root) with
          ⟨fs', fault | _⟩
        · exact ⟨_, _, .lost htemplate hthere hremove hcopy, ends_of_isThere htemplate hthere
            (ends_removeManifest hremove) (ends_copyTemplate_error hcopy)⟩
        · exact ⟨_, _, .replaced htemplate hthere hremove hcopy, ends_of_isThere htemplate hthere
            (ends_removeManifest hremove) (ends_copyTemplate hgone hcopy)⟩

/-- However the act ends, it has ended in one of these ways. -/
theorem initializes_of_outcome {w w' : World} {result : Except Failure Initialization}
    (h : outcome (initializePackage obstacles root source) w = (result, w')) :
    Initializes obstacles w.files root source result w'.files := by
  obtain ⟨result', fs', hinit, hends⟩ := exists_initializes obstacles w.files root source
  obtain ⟨rfl, rfl⟩ := hends.eq h
  exact hinit

/-! ### When it fails -/

/-- What stands at the path of the manifest, a link not followed, and where. -/
def standingManifest? (fs : FileSystem) (root : String) : Option (Location × Node) :=
  (fs.find false (manifestPath root)).toOption

/-- Without what stands at a location the template can be read, the path of the manifest leads to
that location, and a copy can be made there to its end. -/
structure Replaceable (obstacles : Obstacles) (fs : FileSystem) (root : String)
    (source : TemplateSource) (l : Location) : Prop where
  template : ∃ content, (fs.drop l).readBytes source.path = .ok content
  place : (fs.drop l).resolve true (manifestPath root) = .ok (.vacant l)
  room : obstacles.copy (fs.drop l) l = none

/-- There is a template, and a manifest that can be removed, but not replaced then. -/
structure GivesUp (obstacles : Obstacles) (fs : FileSystem) (root : String)
    (source : TemplateSource) : Prop where
  template : fs.isFile source.path = true
  manifest : fs.isThere (manifestPath root) = true
  entry : ∃ l n, standingManifest? fs root = some (l, n) ∧ n ≠ .directory ∧
    obstacles.removal fs l = none ∧ ¬Replaceable obstacles fs root source l

/-- The template can be copied to where the path of the manifest leads, but not to its end; and a
beginning of it is what is there then. -/
def CutShort (obstacles : Obstacles) (fs : FileSystem) (root : String) (source : TemplateSource)
    (fault : IoFault) (l : Location) (fs' : FileSystem) : Prop :=
  ∃ content permissions size,
    fs.CanBeCopied source.path (manifestPath root) content permissions l ∧
      obstacles.copy fs l = some (.after size fault) ∧
        fs' = fs.put l (.file (content.extract 0 size) permissions)

theorem standingManifest?_eq_some {l : Location} {n : Node} :
    standingManifest? fs root = some (l, n) ↔ fs.find false (manifestPath root) = .ok (l, n) :=
  toOption_eq_some_iff

theorem standingManifest?_drop {l : Location} {n : Node} (hn : n ≠ .directory)
    (h : standingManifest? fs root = some (l, n)) : standingManifest? (fs.drop l) root = none := by
  unfold standingManifest? FileSystem.find
  rcases FileSystem.resolve_drop hn (standingManifest?_eq_some.1 h) with hresolve | hresolve
  · rw [hresolve]
    rfl
  · rw [hresolve]
    rfl

/-- Where a copy can be made, one is made. -/
theorem Replaceable.copyFile {l : Location} (h : Replaceable obstacles fs root source l) :
    ∃ content permissions,
      (fs.drop l).copyFile obstacles source.path (manifestPath root) =
        ((fs.drop l).put l (.file content permissions), .ok ()) := by
  obtain ⟨content, hread⟩ := h.template
  obtain ⟨origin, permissions, hresolve, hreadable⟩ := FileSystem.readBytes_eq_ok.1 hread
  exact ⟨content, permissions, (FileSystem.copyFile_eq_ok (FileSystem.isThere_of_vacant h.place)).2
    ⟨content, permissions, l, ⟨⟨origin, hresolve⟩, hreadable, h.place⟩, h.room, rfl⟩⟩

/-- **A failure leaves the files as they were, except when the old manifest was given up, or a copy
has been cut short where there was none.** Then the failure is that of the copy: the old manifest
is gone, and where the copy was cut short there is a beginning of the template; which is all that
has changed. -/
theorem initialize_failed {w w' : World} {e : Failure}
    (h : outcome (initializePackage obstacles root source) w = (.error e, w')) :
    (¬GivesUp obstacles w.files root source → w'.files = w.files ∨
      w.files.isThere (manifestPath root) = false ∧
        ∃ fault l, e = .manifestNotCreated (manifestPath root) (some fault) ∧
          CutShort obstacles w.files root source fault l w'.files) ∧
      (GivesUp obstacles w.files root source →
        ∃ fault l n, e = .manifestNotCreated (manifestPath root) (some fault) ∧
          standingManifest? w.files root = some (l, n) ∧
            (w'.files = w.files.drop l ∧ standingManifest? w'.files root = none ∨
              CutShort obstacles (w.files.drop l) root source fault l w'.files)) := by
  have hinit := initializes_of_outcome h
  generalize w.files = fs at hinit ⊢
  generalize w'.files = fs' at hinit ⊢
  cases hinit with
  | noTemplate htemplate =>
    refine ⟨fun _ => .inl rfl, fun hgives => ?_⟩
    rw [hgives.template] at htemplate
    cases htemplate
  | stale htemplate hthere hremove =>
    refine ⟨fun _ => .inl rfl, fun hgives => ?_⟩
    obtain ⟨l, n, hentry, hn, hremoval, _⟩ := hgives.entry
    rw [FileSystem.removeFile_eq_ok.2
      ⟨l, n, standingManifest?_eq_some.1 hentry, hn, hremoval, rfl⟩] at hremove
    cases hremove
  | notCreated htemplate hthere hcopy =>
    refine ⟨fun _ => ?_, fun hgives => ?_⟩
    · rcases FileSystem.copyFile_eq_error hthere hcopy with
        rfl | ⟨content, permissions, l, size, hcut⟩
      · exact .inl rfl
      · exact .inr ⟨hthere, _, l, rfl, content, permissions, size, hcut⟩
    · rw [hgives.manifest] at hthere
      cases hthere
  | @lost cleared _ fault htemplate hthere hremove hcopy =>
    have hgone := isThere_of_removeFile hremove
    obtain ⟨l, n, hfind, hn, hremoval, rfl⟩ := FileSystem.removeFile_eq_ok.1 hremove
    have hentry := standingManifest?_eq_some.2 hfind
    have hfails : ¬Replaceable obstacles fs root source l := by
      intro hreplaceable
      obtain ⟨_, _, hcopied⟩ := hreplaceable.copyFile
      rw [hcopied] at hcopy
      cases hcopy
    refine ⟨fun hkeeps => ?_, fun _ => ⟨fault, l, n, rfl, hentry, ?_⟩⟩
    · exact absurd ⟨htemplate, hthere, l, n, hentry, hn, hremoval, hfails⟩ hkeeps
    · rcases FileSystem.copyFile_eq_error hgone hcopy with
        rfl | ⟨content, permissions, l', size, hcan, hcut⟩
      · exact .inl ⟨rfl, standingManifest?_drop hn hentry⟩
      · obtain ⟨rfl, _⟩ := FileSystem.eq_of_resolve_drop hn hfind hcan.2.2
        exact .inr ⟨content, permissions, size, hcan, hcut⟩

/-- The template of an installation. -/
def installed : TemplateSource := ⟨false, "/install", "/"⟩

namespace LinkedTemplate

/-- A package whose manifest is what the template is a link to. -/
def tree : FileSystem where
  nodes := [
    (["p"], .directory),
    (["p", "Ion.toml"],
      .file "[package]\nname = \"mine\"\nversion = \"1.0.0\"\n".toUTF8 .ordinary),
    (["install"], .directory),
    (["install", "Ion.default.toml"], .link "/p/Ion.toml")]
  workingDirectory := []

theorem exists_failure :
    ∃ e w', outcome (initializePackage .none "/p" installed) ⟨tree, []⟩ = (.error e, w') ∧
      standingManifest? w'.files "/p" = none := by
  have hfails : (outcome (initializePackage .none "/p" installed) ⟨tree, []⟩).1.toBool = false := by
    decide +kernel
  have hgone : (standingManifest? (outcome (initializePackage .none "/p" installed) ⟨tree, []⟩).2.files
      "/p").isNone = true := by
    decide +kernel
  rcases hrun : outcome (initializePackage .none "/p" installed) ⟨tree, []⟩ with ⟨e | what, w'⟩
  · rw [hrun] at hgone
    exact ⟨e, w', rfl, Option.isNone_iff_eq_none.1 hgone⟩
  · rw [hrun] at hfails
    cases hfails

/-- What stands there is a file. -/
theorem exists_entry : ∃ n, standingManifest? tree "/p" = some (["p", "Ion.toml"], n) ∧
    n ≠ .directory := by
  have hfile : (standingManifest? tree "/p").map (fun e => (e.1, e.2.isDirectory)) =
      some (["p", "Ion.toml"], false) := by
    decide +kernel
  rcases hentry : standingManifest? tree "/p" with _ | ⟨l, n⟩
  · rw [hentry] at hfile
    cases hfile
  · simp only [hentry, Option.map_some, Option.some.injEq, Prod.mk.injEq] at hfile
    obtain ⟨rfl, hnode⟩ := hfile
    refine ⟨n, rfl, ?_⟩
    rintro rfl
    cases hnode

theorem givesUp : GivesUp .none tree "/p" installed where
  template := by decide +kernel
  manifest := by decide +kernel
  entry := by
    obtain ⟨n, hentry, hn⟩ := exists_entry
    refine ⟨_, n, hentry, hn, rfl, fun hreplaceable => ?_⟩
    have hread : ((tree.drop ["p", "Ion.toml"]).readBytes installed.path).toBool = false := by
      decide +kernel
    obtain ⟨content, hcontent⟩ := hreplaceable.template
    rw [hcontent] at hread
    cases hread

end LinkedTemplate

/-- Where the template is a link to the manifest, the manifest is lost. -/
theorem initialize_failed_linked :
    ∃ e w', outcome (initializePackage .none "/p" installed) ⟨LinkedTemplate.tree, []⟩ =
        (.error e, w') ∧
      ∃ fault l n, e = .manifestNotCreated (manifestPath "/p") (some fault) ∧
        standingManifest? LinkedTemplate.tree "/p" = some (l, n) ∧
        w'.files = LinkedTemplate.tree.drop l ∧ standingManifest? w'.files "/p" = none := by
  obtain ⟨e, w', hrun, -⟩ := LinkedTemplate.exists_failure
  obtain ⟨fault, l, n, he, hentry, hlost | ⟨_, _, _, _, hcut, _⟩⟩ :=
    (initialize_failed hrun).2 LinkedTemplate.givesUp
  · exact ⟨e, w', hrun, fault, l, n, he, hentry, hlost⟩
  · cases hcut

/-- **A failure does not always leave the manifest as it was**, even if nothing is in the way. -/
theorem manifest_not_always_kept :
    ¬∀ (root : String) (source : TemplateSource) (w w' : World) (e : Failure),
      outcome (initializePackage .none root source) w = (.error e, w') →
        standingManifest? w'.files root = standingManifest? w.files root := by
  intro hkeeps
  obtain ⟨e, w', hrun, hgone⟩ := LinkedTemplate.exists_failure
  obtain ⟨n, hentry, -⟩ := LinkedTemplate.exists_entry
  cases hgone.symm.trans ((hkeeps _ _ _ _ _ hrun).trans hentry)

/-! ### When it succeeds -/

/-- Nothing is in the way when the file at a location is replaced. -/
def LetsReplace (obstacles : Obstacles) (fs : FileSystem) (l : Location) : Prop :=
  obstacles.removal fs l = none ∧ obstacles.copy (fs.drop l) l = none

/-- The manifest is a link to where nothing is. -/
def Dangles (fs : FileSystem) (root : String) : Prop :=
  fs.isThere (manifestPath root) = false ∧
    ∃ l target, standingManifest? fs root = some (l, .link target)

/-- A template that can be read, and a free place that the path of the manifest leads to. -/
structure CanCopy (fs : FileSystem) (root : String) (source : TemplateSource) (content : ByteArray)
    (permissions : Permissions) (l : Location) : Prop where
  template : ∃ origin, fs.resolve true source.path = .ok (.found origin (.file content permissions))
  readable : permissions.readable = true
  place : ∀ followLast, fs.resolve followLast (manifestPath root) = .ok (.vacant l)

namespace CanCopy

variable {content : ByteArray} {permissions : Permissions} {l : Location}

theorem vacant (h : CanCopy fs root source content permissions l) : fs.node? l = none :=
  FileSystem.stands_of_resolve (h.place true)

theorem node?_put (h : CanCopy fs root source content permissions l) {l' : Location}
    (hne : l' ≠ l) : (fs.put l (.file content permissions)).node? l' = fs.node? l' := by
  rw [FileSystem.node?_put (FileSystem.ne_nil_of_vacant h.vacant), if_neg hne]

/-- The template is read as before where more stands. -/
theorem resolve_template (h : CanCopy fs root source content permissions l)
    (hmore : Extends fs fs') (hwd : fs'.workingDirectory = fs.workingDirectory) :
    ∃ origin, fs'.resolve true source.path = .ok (.found origin (.file content permissions)) := by
  obtain ⟨origin, horigin⟩ := h.template
  exact ⟨origin, FileSystem.find_eq_ok.1
    (FileSystem.find_extends hmore hwd (FileSystem.find_eq_ok.2 horigin))⟩

theorem readBytes (h : CanCopy fs root source content permissions l)
    (hmore : Extends fs fs') (hwd : fs'.workingDirectory = fs.workingDirectory) :
    fs'.readBytes source.path = .ok content := by
  obtain ⟨origin, horigin⟩ := h.resolve_template hmore hwd
  exact FileSystem.readBytes_eq_ok.2 ⟨origin, permissions, horigin, h.readable⟩

theorem standingManifest? (h : CanCopy fs root source content permissions l) :
    standingManifest? (fs.put l (.file content permissions)) root =
      some (l, .file content permissions) :=
  standingManifest?_eq_some.2 (FileSystem.find_put_of_vacant (h.place false) _ _)

/-- **Once the copy is made, to do all again leaves it as it is.** -/
theorem ends_again (h : CanCopy fs root source content permissions l)
    (hlets : LetsReplace obstacles (fs.put l (.file content permissions)) l) :
    Ends (initializePackage obstacles root source) (fs.put l (.file content permissions))
      (.ok .replaced) (fs.put l (.file content permissions)) := by
  have hfind : ∀ followLast, (fs.put l (.file content permissions)).find followLast
      (manifestPath root) = .ok (l, .file content permissions) := fun followLast =>
    FileSystem.find_put_of_vacant (h.place followLast) _ _
  obtain ⟨origin, horigin⟩ := h.template
  obtain ⟨origin', horigin'⟩ := h.resolve_template (FileSystem.extends_put h.vacant
    (.file content permissions)) (FileSystem.workingDirectory_put _ _)
  have hthere := FileSystem.isThere_of_vacant (h.place true)
  have hback := FileSystem.drop_put_of_vacant h.vacant (.file content permissions)
  obtain ⟨hremoval, hroom⟩ := hlets
  rw [hback] at hroom
  have hremove : Ends (removeManifest obstacles (manifestPath root))
      (fs.put l (.file content permissions)) (.ok ()) fs :=
    ends_removeManifest (FileSystem.removeFile_eq_ok.2
      ⟨l, _, hfind false, Node.noConfusion, hremoval, hback.symm⟩)
  have hcopy : fs.copyFile obstacles source.path (manifestPath root) =
      (fs.put l (.file content permissions), .ok ()) :=
    (FileSystem.copyFile_eq_ok hthere).2
      ⟨content, permissions, l, ⟨⟨origin, horigin⟩, h.readable, h.place true⟩, hroom, rfl⟩
  exact ends_of_isThere
    (FileSystem.isFile_eq_true_iff.2 ⟨_, _, _, FileSystem.find_eq_ok.2 horigin'⟩)
    (FileSystem.isThere_eq_true_iff.2 ⟨_, _, hfind true⟩) hremove (ends_copyTemplate hthere hcopy)

end CanCopy

/-- The ways in which the act succeeds: a copy of the template is where the manifest was or where
none was, or it is where the link leads that the manifest is. -/
theorem Initializes.of_ok {what : Initialization}
    (h : Initializes obstacles fs root source (.ok what) fs') :
    ∃ content permissions,
      (∃ l n, standingManifest? fs root = some (l, n) ∧ n ≠ .directory ∧
          fs.isThere (manifestPath root) = true ∧ what = .replaced ∧
          CanCopy (fs.drop l) root source content permissions l ∧
          fs' = (fs.drop l).put l (.file content permissions)) ∨
        (∃ l, standingManifest? fs root = none ∧ what = .created ∧
          CanCopy fs root source content permissions l ∧
          fs' = fs.put l (.file content permissions)) ∨
        ∃ l l' target, fs.isThere (manifestPath root) = false ∧
          standingManifest? fs root = some (l', .link target) ∧ what = .created ∧
          fs.readBytes source.path = .ok content ∧
          fs.resolve true (manifestPath root) = .ok (.vacant l) ∧
          fs' = fs.put l (.file content permissions) := by
  cases h with
  | replaced htemplate hthere hremove hcopy =>
    have hgone := isThere_of_removeFile hremove
    obtain ⟨l, n, hfind, hn, -, rfl⟩ := FileSystem.removeFile_eq_ok.1 hremove
    obtain ⟨content, permissions, l', ⟨⟨origin, horigin⟩, hreadable, hplace⟩, -, rfl⟩ :=
      (FileSystem.copyFile_eq_ok hgone).1 hcopy
    obtain ⟨rfl, hfree⟩ := FileSystem.eq_of_resolve_drop hn hfind hplace
    exact ⟨content, permissions, .inl ⟨l', n, standingManifest?_eq_some.2 hfind, hn, hthere, rfl,
      ⟨⟨origin, horigin⟩, hreadable, hfree⟩, rfl⟩⟩
  | created htemplate hthere hcopy =>
    obtain ⟨content, permissions, l, ⟨⟨origin, horigin⟩, hreadable, hplace⟩, -, rfl⟩ :=
      (FileSystem.copyFile_eq_ok hthere).1 hcopy
    refine ⟨content, permissions, .inr ?_⟩
    rcases FileSystem.resolve_of_vacant hplace with hfree | ⟨l', target, hlink⟩
    · refine .inl ⟨l, ?_, rfl, ⟨⟨origin, horigin⟩, hreadable, ?_⟩, rfl⟩
      · unfold standingManifest? FileSystem.find
        rw [hfree]
        rfl
      · exact fun followLast => match followLast with
          | true => hplace
          | false => hfree
    · exact .inr ⟨l, l', target, hthere,
        standingManifest?_eq_some.2 (FileSystem.find_eq_ok.2 hlink), rfl,
        FileSystem.readBytes_eq_ok.2 ⟨origin, permissions, horigin, hreadable⟩, hplace, rfl⟩

/-- **A success leaves a copy of the template as the manifest and all else as it was, tells whether
there was a manifest before, and can be repeated where nothing is in the way; except when the
manifest was a link to where nothing is**: then the link stays, and the copy is made where it
leads. -/
theorem initialize_replaces {w w' : World} {what : Initialization}
    (h : outcome (initializePackage obstacles root source) w = (.ok what, w')) :
    ∃ content permissions, w.files.readBytes source.path = .ok content ∧
      w'.files.workingDirectory = w.files.workingDirectory ∧
      (¬Dangles w.files root →
        (∃ l, standingManifest? w'.files root = some (l, .file content permissions) ∧
          (∀ l', l' ≠ l → w'.files.node? l' = w.files.node? l') ∧
          (∀ e ∈ standingManifest? w.files root, e.1 = l) ∧
          ∀ obstacles', LetsReplace obstacles' w'.files l →
            Ends (initializePackage obstacles' root source) w'.files (.ok .replaced) w'.files) ∧
        (what = .replaced ↔ (standingManifest? w.files root).isSome)) ∧
      (Dangles w.files root → what = .created ∧
        standingManifest? w'.files root = standingManifest? w.files root ∧
        ∃ l, w.files.resolve true (manifestPath root) = .ok (.vacant l) ∧
          w'.files = w.files.put l (.file content permissions)) := by
  have hinit := initializes_of_outcome h
  generalize w.files = fs at hinit ⊢
  generalize w'.files = fs' at hinit ⊢
  obtain ⟨content, permissions, hways⟩ := hinit.of_ok
  refine ⟨content, permissions, ?_⟩
  rcases hways with ⟨l, n, hentry, hn, hthere, rfl, hcopy, rfl⟩ | ⟨l, hentry, rfl, hcopy, rfl⟩ |
    ⟨l, l', target, hthere, hentry, rfl, hread, hplace, rfl⟩
  · have hl : l ≠ [] := FileSystem.ne_nil_of_vacant hcopy.vacant
    refine ⟨hcopy.readBytes (FileSystem.extends_drop hl) rfl, FileSystem.workingDirectory_put _ _,
      fun _ => ⟨⟨l, hcopy.standingManifest?, fun l' hne => ?_, by simp [hentry],
        fun _ hlets => hcopy.ends_again hlets⟩, by simp [hentry]⟩, fun hdangles => ?_⟩
    · rw [hcopy.node?_put hne, FileSystem.node?_drop hl, if_neg hne]
    · rw [hdangles.1] at hthere
      cases hthere
  · refine ⟨hcopy.readBytes (fun _ _ hnode => hnode) rfl, FileSystem.workingDirectory_put _ _,
      fun _ => ⟨⟨l, hcopy.standingManifest?, fun l' hne => hcopy.node?_put hne, by simp [hentry],
        fun _ hlets => hcopy.ends_again hlets⟩, by simp [hentry]⟩, fun hdangles => ?_⟩
    obtain ⟨_, _, _, hlink⟩ := hdangles
    rw [hentry] at hlink
    cases hlink
  · have hnone : fs.node? l = none := FileSystem.stands_of_resolve hplace
    refine ⟨hread, FileSystem.workingDirectory_put _ _,
      fun hnot => absurd ⟨hthere, l', target, hentry⟩ hnot, fun _ => ⟨rfl, ?_, l, hplace, rfl⟩⟩
    rw [hentry]
    exact standingManifest?_eq_some.2 (FileSystem.find_extends (FileSystem.extends_put hnone _)
      (FileSystem.workingDirectory_put _ _) (standingManifest?_eq_some.1 hentry))

namespace LinkedManifest

/-- A package whose manifest is a link to a file, which is there or not, and a template. -/
def tree (isThere : Bool) : FileSystem where
  nodes := [
    (["p"], .directory),
    (["p", "Ion.toml"], .link "elsewhere.toml"),
    (["install"], .directory),
    (["install", "Ion.default.toml"],
      .file "[package]\nname = \"app\"\nversion = \"0.1.0\"\n".toUTF8 .ordinary)] ++
    if isThere then [(["p", "elsewhere.toml"], .file .empty .ordinary)] else []
  workingDirectory := []

theorem exists_success (isThere : Bool) :
    ∃ what w', outcome (initializePackage .none "/p" installed) ⟨tree isThere, []⟩ = (.ok what, w') := by
  have hends : (outcome (initializePackage .none "/p" installed) ⟨tree isThere, []⟩).1.toBool = true := by
    cases isThere <;> decide +kernel
  rcases hrun : outcome (initializePackage .none "/p" installed) ⟨tree isThere, []⟩ with ⟨e | what, w'⟩
  · rw [hrun] at hends
    cases hends
  · exact ⟨what, w', rfl⟩

end LinkedManifest

/-- A link to a file is replaced. -/
theorem initialize_replaces_link : ∃ what w',
    outcome (initializePackage .none "/p" installed) ⟨LinkedManifest.tree true, []⟩ =
        (.ok what, w') ∧
      ¬Dangles (LinkedManifest.tree true) "/p" ∧
      ∃ content permissions l,
        (LinkedManifest.tree true).readBytes installed.path = .ok content ∧
        standingManifest? w'.files "/p" = some (l, .file content permissions) ∧
        Ends (initializePackage .none "/p" installed) w'.files (.ok .replaced)
          w'.files := by
  obtain ⟨what, w', hrun⟩ := LinkedManifest.exists_success true
  have hdangles : ¬Dangles (LinkedManifest.tree true) "/p" := by
    intro h
    have hthere : (LinkedManifest.tree true).isThere (manifestPath "/p") = true := by
      decide +kernel
    cases hthere.symm.trans h.1
  obtain ⟨content, permissions, hread, -, hreplaced, -⟩ := initialize_replaces hrun
  obtain ⟨⟨l, hentry, -, -, hagain⟩, -⟩ := hreplaced hdangles
  exact ⟨what, w', hrun, hdangles, content, permissions, l, hread, hentry,
    hagain .none ⟨rfl, rfl⟩⟩

/-- **A success does not always make the manifest a copy of the template**: a link to where nothing
is stays what it was, even if nothing is in the way. -/
theorem manifest_not_always_replaced :
    ¬∀ (root : String) (source : TemplateSource) (w w' : World) (what : Initialization),
      outcome (initializePackage .none root source) w = (.ok what, w') →
        ∃ l content permissions, w.files.readBytes source.path = .ok content ∧
          standingManifest? w'.files root = some (l, .file content permissions) ∧
          (∀ l', l' ≠ l → w'.files.node? l' = w.files.node? l') ∧
          (what = .replaced ↔ (standingManifest? w.files root).isSome) ∧
          Ends (initializePackage .none root source) w'.files (.ok .replaced) w'.files := by
  intro hreplaces
  obtain ⟨what, w', hrun⟩ := LinkedManifest.exists_success false
  obtain ⟨l, content, permissions, -, hentry, -⟩ := hreplaces _ _ _ _ _ hrun
  have hlink : (standingManifest? (outcome (initializePackage .none "/p" installed)
      ⟨LinkedManifest.tree false, []⟩).2.files "/p").map (fun e => e.2.isFile) = some false := by
    decide +kernel
  rw [hrun, hentry] at hlink
  cases hlink

end Ingot.Workflow
