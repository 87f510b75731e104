import Ingot.Proofs.Workflow.Acts
import Ingot.Workflow.Tools

/-!
# The check of a table of tools

Where the installation brings its tools along, a table of tools is checked in this order: the
directory of the tools has to be there; then every entry of the table has to have a name; then the
files of the entries have to be there. `Verdict` says what comes of each case. **The check comes to
the verdict on the table and to nothing else, and after it has succeeded for the tools that every
installation has, each of them is found where the check has found it, wherever else programs are
looked for** (`checkTools_exact`).
-/

namespace Ingot.Workflow

open Effect

/-! ### Verdicts -/

/-- What is to come of the check of a table on a platform that has to have its tools. -/
inductive Verdict (fs : FileSystem) (platform : Platform) (directory : String) (table : ToolTable) :
    Except Failure ToolReport → Prop where
  /-- There is no such directory. -/
  | noDirectory : fs.isDirectory directory = false →
      Verdict fs platform directory table (.error (.noToolsDirectory directory))
  /-- An entry has no name, and it is the first one that has none. -/
  | nameless {before behind : ToolTable} {entry : Tool × String} :
      fs.isDirectory directory = true → table = before ++ entry :: behind →
      (∀ e ∈ before, e.2 ≠ "") → entry.2 = "" →
      Verdict fs platform directory table
        (.error (.internal s!"tool definition for `{entry.1.name}` has an empty file name"))
  /-- All entries have names, a file is missing, and it is the first one that is. -/
  | missing {before behind : ToolTable} {entry : Tool × String} :
      fs.isDirectory directory = true → (∀ e ∈ table, e.2 ≠ "") →
      table = before ++ entry :: behind →
      (∀ e ∈ before, fs.isFile (platform.toolPath directory e.2) = true) →
      fs.isFile (platform.toolPath directory entry.2) = false →
      Verdict fs platform directory table
        (.error (.toolMissing entry.1 (platform.toolPath directory entry.2)))
  /-- Everything is there. -/
  | complete : fs.isDirectory directory = true → (∀ e ∈ table, e.2 ≠ "") →
      (∀ e ∈ table, fs.isFile (platform.toolPath directory e.2) = true) →
      Verdict fs platform directory table
        (.ok ⟨platform, table.map fun e => (e.1, platform.toolPath directory e.2)⟩)

section Verdicts

variable {fs : FileSystem} {platform : Platform} {directory : String} {table : ToolTable}

/-- Either all of a row have a property, or there is a first one that does not. -/
theorem forall_or_first {α : Type} (p : α → Bool) (xs : List α) :
    (∀ x ∈ xs, p x = true) ∨ ∃ before x behind, xs = before ++ x :: behind ∧
      (∀ y ∈ before, p y = true) ∧ p x = false := by
  cases hfind : xs.find? fun x => !p x with
  | none =>
    refine .inl fun x hx => ?_
    simpa using List.find?_eq_none.1 hfind x hx
  | some x =>
    obtain ⟨hx, before, behind, rfl, hbefore⟩ := List.find?_eq_some_iff_append.1 hfind
    refine .inr ⟨before, x, behind, rfl, fun y hy => ?_, ?_⟩
    · simpa using hbefore y hy
    · simpa using hx

/-- There is a verdict on every table. -/
theorem exists_verdict (fs : FileSystem) (platform : Platform) (directory : String)
    (table : ToolTable) : ∃ result, Verdict fs platform directory table result := by
  cases hdirectory : fs.isDirectory directory with
  | false => exact ⟨_, .noDirectory hdirectory⟩
  | true =>
    rcases forall_or_first (fun e : Tool × String => decide (e.2 ≠ "")) table with
      hnamed | ⟨before, entry, behind, hsplit, hbefore, hentry⟩
    · replace hnamed : ∀ e ∈ table, e.2 ≠ "" := fun e he => by simpa using hnamed e he
      rcases forall_or_first
          (fun e : Tool × String => fs.isFile (platform.toolPath directory e.2)) table with
        hfiles | ⟨before, entry, behind, hsplit, hbefore, hentry⟩
      · exact ⟨_, .complete hdirectory hnamed hfiles⟩
      · exact ⟨_, .missing hdirectory hnamed hsplit hbefore hentry⟩
    · exact ⟨_, .nameless hdirectory hsplit (fun e he => by simpa using hbefore e he)
        (by simpa using hentry)⟩

/-! ### What the check comes to -/

theorem checkTool_finds {entry : Tool × String}
    (h : fs.isFile (platform.toolPath directory entry.2) = true) :
    Ends (checkTool platform directory entry) fs
      (.ok (entry.1, platform.toolPath directory entry.2)) fs := by
  unfold checkTool
  exact Ends.files.bind (.guard (by simpa using h) ((Ends.note _ _).bind (.pure _)))

theorem checkTool_misses {entry : Tool × String}
    (h : fs.isFile (platform.toolPath directory entry.2) = false) :
    Ends (checkTool platform directory entry) fs
      (.error (.toolMissing entry.1 (platform.toolPath directory entry.2))) fs := by
  unfold checkTool
  refine Ends.files.bind ?_
  rw [h, Bool.not_false, if_pos rfl]
  exact fun told => ⟨told, rfl⟩

/-- Files that are all there are found in their order. -/
theorem mapM_checkTool_finds {entries : ToolTable}
    (h : ∀ e ∈ entries, fs.isFile (platform.toolPath directory e.2) = true) :
    Ends (entries.mapM (checkTool platform directory)) fs
      (.ok (entries.map fun e => (e.1, platform.toolPath directory e.2))) fs := by
  induction entries with
  | nil => exact .pure _
  | cons entry entries ih =>
    obtain ⟨hfirst, hrest⟩ := List.forall_mem_cons.1 h
    rw [List.mapM_cons]
    exact (checkTool_finds hfirst).bind ((ih hrest).bind (.pure _))

/-- The first file that is missing ends the check. -/
theorem mapM_checkTool_misses {before behind : ToolTable} {entry : Tool × String}
    (hbefore : ∀ e ∈ before, fs.isFile (platform.toolPath directory e.2) = true)
    (hentry : fs.isFile (platform.toolPath directory entry.2) = false) :
    Ends ((before ++ entry :: behind).mapM (checkTool platform directory)) fs
      (.error (.toolMissing entry.1 (platform.toolPath directory entry.2))) fs := by
  induction before with
  | nil =>
    rw [List.nil_append, List.mapM_cons]
    exact (checkTool_misses hentry).bind_error
  | cons first before ih =>
    obtain ⟨hfirst, hrest⟩ := List.forall_mem_cons.1 hbefore
    rw [List.cons_append, List.mapM_cons]
    exact (checkTool_finds hfirst).bind (ih hrest).bind_error

/-- The check where the platform has to have its tools. -/
theorem checkTools_of_bundles (hbundles : platform.bundlesTools = true) :
    checkTools platform directory table = (do
      if !(← Act.files).isDirectory directory then throw (.noToolsDirectory directory)
      match table.find? fun entry => entry.2.isEmpty with
      | some entry =>
        throw (.internal s!"tool definition for `{entry.1.name}` has an empty file name")
      | none => return ⟨platform, ← table.mapM (checkTool platform directory)⟩) := by
  have hplatform : platform ≠ .macOs := by
    rintro rfl
    cases hbundles
  unfold checkTools
  rw [if_neg hplatform, hbundles]
  rfl

/-- **The check comes to the verdict.** -/
theorem Verdict.ends (hbundles : platform.bundlesTools = true) {result : Except Failure ToolReport}
    (h : Verdict fs platform directory table result) :
    Ends (checkTools platform directory table) fs result fs := by
  have hnone : (∀ e ∈ table, e.2 ≠ "") →
      table.find? (fun entry => entry.2.isEmpty) = none := by
    intro hnamed
    rw [List.find?_eq_none]
    intro e he
    simpa [String.isEmpty_iff] using hnamed e he
  rw [checkTools_of_bundles hbundles]
  refine Ends.files.bind ?_
  cases h with
  | noDirectory hdirectory =>
    rw [hdirectory, Bool.not_false, if_pos rfl]
    exact fun told => ⟨told, rfl⟩
  | @nameless before behind entry hdirectory hsplit hbefore hentry =>
    have hfind : table.find? (fun entry => entry.2.isEmpty) = some entry := by
      refine List.find?_eq_some_iff_append.2 ⟨by simpa [String.isEmpty_iff] using hentry,
        before, behind, hsplit, fun e he => ?_⟩
      simpa [String.isEmpty_iff] using hbefore e he
    refine .guard (by simpa using hdirectory) ?_
    dsimp only
    rw [hfind]
    exact fun told => ⟨told, rfl⟩
  | @missing before behind entry hdirectory hnamed hsplit hbefore hentry =>
    refine .guard (by simpa using hdirectory) ?_
    dsimp only
    rw [hnone hnamed, hsplit]
    exact (mapM_checkTool_misses hbefore hentry).bind_error
  | complete hdirectory hnamed hfiles =>
    refine .guard (by simpa using hdirectory) ?_
    dsimp only
    rw [hnone hnamed]
    exact (mapM_checkTool_finds hfiles).bind (.pure _)

theorem Ends.unique {α : Type} {act : Act α} {fs fs₁ fs₂ : FileSystem}
    {result₁ result₂ : Except Failure α} (h₁ : Ends act fs result₁ fs₁)
    (h₂ : Ends act fs result₂ fs₂) : result₁ = result₂ ∧ fs₁ = fs₂ := by
  obtain ⟨_, hout⟩ := h₁ []
  exact h₂.eq (w := ⟨fs, []⟩) hout

/-- The check comes to nothing but the verdict, and it does not touch the files. -/
theorem ends_checkTools_iff (hbundles : platform.bundlesTools = true)
    {result : Except Failure ToolReport} {fs' : FileSystem} :
    Ends (checkTools platform directory table) fs result fs' ↔
      Verdict fs platform directory table result ∧ fs' = fs := by
  constructor
  · intro h
    obtain ⟨found, hverdict⟩ := exists_verdict fs platform directory table
    obtain ⟨rfl, rfl⟩ := h.unique (hverdict.ends hbundles)
    exact ⟨hverdict, rfl⟩
  · rintro ⟨hverdict, rfl⟩
    exact hverdict.ends hbundles

theorem Verdict.ok_iff {report : ToolReport} :
    Verdict fs platform directory table (.ok report) ↔
      (fs.isDirectory directory = true ∧ (∀ e ∈ table, e.2 ≠ "") ∧
        ∀ e ∈ table, fs.isFile (platform.toolPath directory e.2) = true) ∧
      report = ⟨platform, table.map fun e => (e.1, platform.toolPath directory e.2)⟩ := by
  constructor
  · intro h
    cases h with
    | complete hdirectory hnamed hfiles => exact ⟨⟨hdirectory, hnamed, hfiles⟩, rfl⟩
  · rintro ⟨⟨hdirectory, hnamed, hfiles⟩, rfl⟩
    exact .complete hdirectory hnamed hfiles

end Verdicts

/-! ### Where tools are found -/

/-- A tool whose file is in the directory of the tools is found there, whatever the search path
is. -/
theorem locateTool_of_isFile {host : Host} {fs : FileSystem} {directory name : String} {tool : Tool}
    (hname : standardTools.lookup tool = some name)
    (hfile : fs.isFile (host.platform.toolPath directory name) = true) :
    locateTool host fs (some directory) tool = some (host.platform.toolPath directory name) := by
  rw [locateTool, hname]
  dsimp only [Option.map_some]
  rw [Option.filter_some, if_pos hfile]

/-- Every tool has a name, and every entry for it has that name. -/
theorem exists_standardTool (tool : Tool) : ∃ name, standardTools.lookup tool = some name ∧
    ∀ e ∈ standardTools, e.1 = tool ↔ e = (tool, name) := by
  cases tool with
  | lli => exact ⟨_, rfl, by decide⟩
  | llc => exact ⟨_, rfl, by decide⟩

/-- **The check of a table is exact**, where the platform has to have its tools. It succeeds exactly
if the directory is there, every entry has a name, and the file of every entry is there; it always
comes to the verdict on the table and to nothing else, and does not touch the files. Once it has
succeeded for the tools that every installation has, each of these is found on that platform at the
one path that was reported for it, whatever the host's search path is. -/
theorem checkTools_exact {platform : Platform} (hbundles : platform.bundlesTools = true)
    (directory : String) (fs : FileSystem) :
    (∀ table, ((∃ report fs', Ends (checkTools platform directory table) fs (.ok report) fs') ↔
        fs.isDirectory directory = true ∧ (∀ e ∈ table, e.2 ≠ "") ∧
          ∀ e ∈ table, fs.isFile (Path.join directory (e.2 ++ platform.programEnding)) = true) ∧
      (∃ result, Verdict fs platform directory table result) ∧
      ∀ result fs', Ends (checkTools platform directory table) fs result fs' ↔
        Verdict fs platform directory table result ∧ fs' = fs) ∧
    ∀ report fs', Ends (checkTools platform directory standardTools) fs (.ok report) fs' →
      ∀ tool, ∃ path, (∀ path', (tool, path') ∈ report.tools ↔ path' = path) ∧
        ∀ host : Host, host.platform = platform →
          locateTool host fs' (some directory) tool = some path := by
  constructor
  · intro table
    refine ⟨?_, exists_verdict fs platform directory table, fun _ _ => ends_checkTools_iff hbundles⟩
    constructor
    · rintro ⟨report, fs', hends⟩
      exact (Verdict.ok_iff.1 ((ends_checkTools_iff hbundles).1 hends).1).1
    · intro h
      exact ⟨_, fs, (Verdict.ok_iff.2 ⟨h, rfl⟩).ends hbundles⟩
  · intro report fs' hends tool
    obtain ⟨hverdict, rfl⟩ := (ends_checkTools_iff hbundles).1 hends
    obtain ⟨⟨_, _, hfiles⟩, rfl⟩ := Verdict.ok_iff.1 hverdict
    obtain ⟨name, hname, hentry⟩ := exists_standardTool tool
    have hmem := mem_of_lookup hname
    refine ⟨platform.toolPath directory name, fun path => ?_, ?_⟩
    · constructor
      · intro hpath
        obtain ⟨e, he, heq⟩ := List.mem_map.1 hpath
        obtain ⟨htool, rfl⟩ := Prod.mk.inj heq
        rw [(hentry e he).1 htool]
      · rintro rfl
        exact List.mem_map.2 ⟨_, hmem, rfl⟩
    · rintro host rfl
      exact locateTool_of_isFile hname (hfiles (tool, name) hmem)

namespace Tools

/-- A directory with the files of all tools. -/
def files : FileSystem where
  nodes := [
    (["t"], .directory),
    (["t", "lli.exe"], .file .empty .ordinary),
    (["t", "llc.exe"], .file .empty .ordinary)]
  workingDirectory := []

theorem complete : Verdict files .windows "/t" standardTools
    (.ok ⟨.windows, [(.lli, "/t/lli.exe"), (.llc, "/t/llc.exe")]⟩) :=
  .complete (by decide +kernel) (by decide) (by decide +kernel)

end Tools

/-- An entry without a name is reported even if the file of an entry before it is missing, and both
tools are found where they were reported. -/
theorem checkTools_exact_windows :
    Ends (checkTools .windows "/" [(.llc, "llc"), (.lli, "")]) ⟨[], []⟩
      (.error (.internal "tool definition for `lli` has an empty file name")) ⟨[], []⟩ ∧
    ∀ host : Host, host.platform = .windows →
      locateTool host Tools.files (some "/t") .llc = some "/t/llc.exe" := by
  have hbundles : Platform.windows.bundlesTools = true := rfl
  constructor
  · obtain ⟨hcheck, _⟩ := checkTools_exact hbundles "/" ⟨[], []⟩
    refine ((hcheck [(.llc, "llc"), (.lli, "")]).2.2 _ _).2 ⟨?_, rfl⟩
    have htable : ([(.llc, "llc"), (.lli, "")] : ToolTable) = [(.llc, "llc")] ++ [(.lli, "")] := rfl
    exact .nameless (by decide +kernel) htable (by decide) rfl
  · obtain ⟨hcheck, hlocate⟩ := checkTools_exact hbundles "/t" Tools.files
    have hends := ((hcheck standardTools).2.2 _ _).2 ⟨Tools.complete, rfl⟩
    obtain ⟨path, hpath, hfound⟩ := hlocate _ _ hends .llc
    have hreported : "/t/llc.exe" = path :=
      (hpath _).1 (List.mem_cons_of_mem _ List.mem_cons_self)
    exact hreported ▸ hfound

end Ingot.Workflow
