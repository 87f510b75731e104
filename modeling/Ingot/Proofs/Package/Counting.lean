import Ingot.Package.Store
import Ingot.Proofs.FileSystem.Rewriting
import Ingot.Proofs.Package.Rereading

/-!
# Counting builds in files

What comes of counting a build in a manifest hangs on two things: how the package is spelled, and
how large the counter is (`countBuildIn_accepted`). **Every manifest with a table for the package
can be counted until the counter is full; a package that is an array of its fields is read, but
never counted.** A build that is counted has the next number, and the manifest that is read then
is the same but for it (`readManifest_of_countBuildIn`).
-/

namespace Ingot.Package

open Toml

/-! ### The package in a manifest -/

/-- What the entry of the package in a manifest says. -/
def packageData? (text : String) : Option Data :=
  (Toml.parse text).bind fun d => (findEntry "package" d.root.entries).map Item.data

/-- The package is spelled as a table: with a header, with dotted keys, or between braces. -/
def HasPackageTable (text : String) : Prop := ∃ es, packageData? text = some (.table es)

/-- The package is spelled as an array of its fields. -/
def HasPackageArray (text : String) : Prop := ∃ fields, packageData? text = some (.array fields)

/-- A package that can be read is a table or an array. -/
theorem table_or_array_of_read {data : Data} {p : Manifest} (h : packageRecord.read data = .ok p) :
    (∃ es, data = .table es) ∨ ∃ fields, data = .array fields := by
  unfold Record.read at h
  split at h
  · exact .inl ⟨_, rfl⟩
  · exact .inr ⟨_, rfl⟩
  · cases h
  · cases h

/-- What comes of counting a build in the text of a manifest. -/
inductive CountsAs (text : String) (m : Manifest) : Except ManifestFault (ℕ × String) → Prop
  /-- The build is counted. -/
  | raised (table : HasPackageTable text) (room : m.build < counterLimit) (text' : String) :
    CountsAs text m (.ok (m.build + 1, text'))
  /-- The counter is full. -/
  | full (table : HasPackageTable text) (noRoom : ¬m.build < counterLimit) :
    CountsAs text m (.error .fullCounter)
  /-- The package is an array, in which nothing can be counted. -/
  | array (array : HasPackageArray text) : CountsAs text m (.error .noPackageTable)

theorem nextCount_of_room {c : ℤ} (h : c < counterLimit) : nextCount c = .ok (c + 1) := by
  unfold nextCount
  exact if_pos h

theorem nextCount_of_full {c : ℤ} (h : ¬c < counterLimit) : nextCount c = .error .fullCounter := by
  unfold nextCount
  exact if_neg h

/-- A counter is raised while there is room. -/
theorem raise_counter {α : Type} {count : Except ManifestFault ℤ} {c : ℤ} (h : count = .ok c)
    (raise : ℤ → α) :
    ((count >>= fun c => nextCount c >>= fun next => pure (raise next)) = .ok (raise (c + 1)) ∧
        c < counterLimit) ∨
      (count >>= fun c => nextCount c >>= fun next => pure (raise next)) = .error .fullCounter ∧
        ¬c < counterLimit := by
  have hbind : (count >>= fun c => nextCount c >>= fun next => pure (raise next)) =
      (nextCount c).map raise := by
    rw [h]
    show (nextCount c >>= fun next => pure (raise next)) = _
    cases nextCount c <;> rfl
  rw [hbind]
  by_cases hroom : c < counterLimit
  · rw [nextCount_of_room hroom]
    exact .inl ⟨rfl, hroom⟩
  · rw [nextCount_of_full hroom]
    exact .inr ⟨rfl, hroom⟩

/-- A table for the package is raised as far as its counter goes. -/
theorem countInItem_of_table {item : Item} {p : Manifest} {es : List (String × Data)}
    (h : item.Neat) (htable : item.data = .table es) (hread : packageRecord.read item.data = .ok p) :
    (∃ item', countInItem item = .ok (p.build + 1, item') ∧ p.build < counterLimit) ∨
      countInItem item = .error .fullCounter ∧ ¬p.build < counterLimit := by
  cases h with
  | table layout names inner =>
    rw [Item.data, dataOfItems_eq] at hread
    rcases raise_counter (counterOf_of_ofTable names hread) _ with hcount | hcount
    · exact .inl ⟨_, hcount⟩
    · exact .inr hcount
  | tables names inner => cases htable
  | value h =>
    cases h with
    | scalar scalar written decor => cases htable
    | array comma ending decor inner => cases htable
    | table dotted opening decor names inner =>
      rw [Item.data, Value.data, dataOfEntries_eq] at hread
      rcases raise_counter (counterOf_of_ofTable names hread) _ with hcount | hcount
      · exact .inl ⟨_, hcount⟩
      · exact .inr hcount

/-- There is no table to count in where the package is an array. -/
theorem countInItem_of_array {item : Item} {fields : List Data} (h : item.data = .array fields) :
    countInItem item = .error .noPackageTable := by
  unfold countInItem
  split
  · cases h
  · cases h
  · rfl

theorem countBuild_of_findEntry {text : String} {d : Document} {item : Item}
    (hd : Toml.parse text = some d) (hfind : findEntry "package" d.root.entries = some item) :
    countBuild text = (countInItem item).map fun counted =>
      (counted.1.toNat, Document.text { d with root :=
        { d.root with entries := replaceEntry "package" counted.2 d.root.entries } }) := by
  have hdocument : countInDocument d = (countInItem item).map fun counted =>
      (counted.1, { d with root :=
        { d.root with entries := replaceEntry "package" counted.2 d.root.entries } }) := by
    unfold countInDocument
    rw [hfind]
    dsimp only
    cases countInItem item <;> rfl
  unfold countBuild
  rw [hd]
  dsimp only
  rw [hdocument]
  cases countInItem item <;> rfl

/-- How the package is spelled, and how large its counter is, decide whether a build of a
manifest can be counted. -/
theorem countBuild_accepted {text : String} {m : Manifest} (h : Manifest.parse text = .ok m) :
    CountsAs text m (countBuild text) := by
  obtain ⟨d, hd, hread, -⟩ := Manifest.parse_eq_ok.1 h
  obtain ⟨item, p, hfind, hneat, hp, hbuild⟩ := exists_package (neat_of_parse hd) hread
  have hpackage : packageData? text = some item.data := by
    rw [packageData?, hd, Option.bind_some, hfind, Option.map_some]
  rw [countBuild_of_findEntry hd hfind]
  rcases table_or_array_of_read hp with ⟨es, htable⟩ | ⟨fields, harray⟩
  · have hes : HasPackageTable text := ⟨es, hpackage.trans (congrArg some htable)⟩
    rcases countInItem_of_table hneat htable hp with ⟨item', hcount, hroom⟩ | ⟨hcount, hroom⟩
    · rw [hcount, hbuild.symm]
      exact .raised hes (hbuild ▸ hroom) _
    · rw [hcount]
      exact .full hes (hbuild ▸ hroom)
  · rw [countInItem_of_array harray]
    exact .array ⟨fields, hpackage.trans (congrArg some harray)⟩

/-! ### Counting in files -/

/-- The path of a manifest is not that of a directory. -/
theorem getLast?_manifestPath (root : String) :
    (manifestPath root).toList.getLast? ≠ some '/' := by
  have hpath : ∃ front, (manifestPath root).toList = front ++ manifestName.toList := by
    unfold manifestPath Path.join
    split
    · exact ⟨[], rfl⟩
    · split
      · exact ⟨root.toList, String.toList_append⟩
      · exact ⟨(root ++ "/").toList, String.toList_append⟩
  obtain ⟨front, hfront⟩ := hpath
  have hname : manifestName.toList.getLast? = some 'l' := by decide
  rw [hfront, List.getLast?_append, hname]
  simp

/-- Counting a build in a file is counting it in the text, and writing that. -/
theorem countBuildIn_eq_ok {fs fs' : FileSystem} {root text : String} {n : ℕ}
    (hread : fs.readText (manifestPath root) = .ok text) : countBuildIn fs root = .ok (n, fs') ↔
      ∃ text', countBuild text = .ok (n, text') ∧
        fs.writeText (manifestPath root) text' = .ok fs' := by
  unfold countBuildIn
  dsimp only
  rw [hread]
  dsimp only
  cases countBuild text with
  | error fault => simp
  | ok counted =>
    obtain ⟨count, text'⟩ := counted
    dsimp only
    cases hwrite : fs.writeText (manifestPath root) text' with
    | error fault =>
      simp only [reduceCtorEq, false_iff, not_exists, not_and, Except.ok.injEq, Prod.mk.injEq]
      rintro _ ⟨_, rfl⟩
      simp [hwrite]
    | ok fs₁ => simp [hwrite]

theorem countBuildIn_of_fault {fs : FileSystem} {root text : String} {fault : ManifestFault}
    (hread : fs.readText (manifestPath root) = .ok text) (hcount : countBuild text = .error fault) :
    countBuildIn fs root = .error (.faulty (manifestPath root) fault) := by
  unfold countBuildIn
  dsimp only
  rw [hread]
  dsimp only
  rw [hcount]

/-- **Every manifest with a table for the package can be counted while there is room.** A package
that is not spelled as a table is an array of its fields, and then the table is missed. -/
theorem countBuildIn_accepted {fs : FileSystem} {root text : String} {m : Manifest}
    (hread : fs.readText (manifestPath root) = .ok text)
    (hwritable : fs.IsWritable (manifestPath root)) (hparse : Manifest.parse text = .ok m)
    (hroom : m.build < counterLimit) :
    (HasPackageTable text ∧ ∃ fs', countBuildIn fs root = .ok (m.build + 1, fs')) ∨
      (HasPackageArray text ∧
        countBuildIn fs root = .error (.faulty (manifestPath root) .noPackageTable)) := by
  have haccepted := countBuild_accepted hparse
  generalize hcount : countBuild text = result at haccepted
  cases haccepted with
  | raised htable hroom text' =>
    obtain ⟨fs', hwrite⟩ := hwritable.writeText (getLast?_manifestPath root) text'
    exact .inl ⟨htable, fs', (countBuildIn_eq_ok hread).2 ⟨text', hcount, hwrite⟩⟩
  | full htable hfull => exact absurd hroom hfull
  | array harray => exact .inr ⟨harray, countBuildIn_of_fault hread hcount⟩

/-- A manifest with a table for the package cannot be counted when its counter is full. -/
theorem countBuildIn_of_full {fs : FileSystem} {root text : String} {m : Manifest}
    (hread : fs.readText (manifestPath root) = .ok text) (hparse : Manifest.parse text = .ok m)
    (htable : HasPackageTable text) (hfull : m.build = counterLimit) :
    countBuildIn fs root = .error (.faulty (manifestPath root) .fullCounter) := by
  have haccepted := countBuild_accepted hparse
  generalize hcount : countBuild text = result at haccepted
  cases haccepted with
  | raised htable hroom text' => exact absurd hfull hroom.ne
  | full htable hfull => exact countBuildIn_of_fault hread hcount
  | array harray =>
    obtain ⟨es, hes⟩ := htable
    obtain ⟨fields, hfields⟩ := harray
    rw [hes] at hfields
    cases hfields

/-! ### What a count hangs on -/

/-- The number of the next build and the text of the manifest then, from the file that the manifest
is now. -/
def recount (path : String) (content : ByteArray) (permissions : Permissions) :
    Except ManifestError (ℕ × String) :=
  if !permissions.readable then .error (.unreadable path .notPermitted)
  else
    match String.fromUTF8? content with
    | none => .error (.unreadable path .notText)
    | some text =>
      match countBuild text with
      | .error fault => .error (.faulty path fault)
      | .ok counted =>
        if permissions.writable then .ok counted else .error (.unwritable path .notPermitted)

/-- **A count hangs on the file of the manifest alone**, and puts another file in its place. -/
theorem countBuildIn_of_resolve {fs : FileSystem} {root : String} {l : Location}
    {content : ByteArray} {permissions : Permissions}
    (h : fs.resolve true (manifestPath root) = .ok (.found l (.file content permissions))) :
    countBuildIn fs root = (recount (manifestPath root) content permissions).map fun counted =>
      (counted.1, fs.put l (.file counted.2.toUTF8 permissions)) := by
  have hread : fs.readBytes (manifestPath root) =
      if permissions.readable then .ok content else .error .notPermitted := by
    unfold FileSystem.readBytes
    rw [FileSystem.find_eq_ok.2 h]
  have hwrite : ∀ text, fs.writeText (manifestPath root) text =
      if permissions.writable then .ok (fs.put l (.file text.toUTF8 permissions))
      else .error .notPermitted := by
    intro text
    unfold FileSystem.writeText FileSystem.writeBytes FileSystem.writeWith
    rw [if_neg (getLast?_manifestPath root), h]
  unfold countBuildIn recount FileSystem.readText
  dsimp only
  rw [hread]
  cases permissions.readable with
  | false => rfl
  | true =>
    simp only [Bool.not_true, Bool.false_eq_true, if_true, if_false]
    cases String.fromUTF8? content with
    | none => rfl
    | some text =>
      dsimp only
      cases countBuild text with
      | error fault => rfl
      | ok counted =>
        obtain ⟨number, text'⟩ := counted
        dsimp only
        rw [hwrite]
        cases permissions.writable with
        | false => rfl
        | true => rfl

/-! ### Builds one after another -/

/-- The document that is written when a build is counted in a file. -/
def IsRewrittenAs (fs : FileSystem) (root : String) (d : Document) : Prop :=
  ∃ text d₀ next, fs.readText (manifestPath root) = .ok text ∧ Toml.parse text = some d₀ ∧
    countInDocument d₀ = .ok (next, d)

theorem readManifest_eq_ok {fs : FileSystem} {root : String} {m : Manifest} :
    readManifest fs root = .ok m ↔
      ∃ text, fs.readText (manifestPath root) = .ok text ∧ Manifest.parse text = .ok m := by
  unfold readManifest Manifest.parseAt
  dsimp only
  cases fs.readText (manifestPath root) with
  | error fault => simp
  | ok text => cases hparse : Manifest.parse text <;> simp [Except.mapError, hparse]

/-- One build that is counted: it has the next number, there was room for it, and the manifest is
the same but for it. -/
theorem readManifest_of_countBuildIn {fs fs' : FileSystem} {root : String} {m : Manifest} {n : ℕ}
    (hread : readManifest fs root = .ok m) (hcount : countBuildIn fs root = .ok (n, fs'))
    (hback : ∀ d, IsRewrittenAs fs root d → d.ReadsBack) :
    n = m.build + 1 ∧ m.build < counterLimit ∧
      readManifest fs' root = .ok (m.withBuild (m.build + 1)) := by
  obtain ⟨text, htext, hparse⟩ := readManifest_eq_ok.1 hread
  obtain ⟨text', hcounted, hwrite⟩ := (countBuildIn_eq_ok htext).1 hcount
  obtain ⟨hn, d, next, d', hd, hdocument, hmore, rfl⟩ := countBuild_reads hparse hcounted
  have hnew := hmore.parse_of_readsBack hparse (hback d' ⟨text, d, next, htext, hd, hdocument⟩)
  have hroom : m.build < counterLimit := by
    have haccepted := countBuild_accepted hparse
    rw [hcounted] at haccepted
    cases haccepted with
    | raised htable hroom => exact hroom
  exact ⟨hn, hroom, readManifest_eq_ok.2 ⟨_, FileSystem.readText_of_writeText htext hwrite, hnew⟩⟩

theorem CountedItem.exists_table {c : ℕ} {item item' : Item} (h : CountedItem c item item') :
    ∃ es, item'.data = .table es := by
  cases h with
  | table => exact ⟨_, rfl⟩
  | braces => exact ⟨_, rfl⟩

/-- The package is still a table when a build that was counted is read back. -/
theorem hasPackageTable_of_readsBack {text : String} {d d' : Document} {next : ℤ}
    (hd : Toml.parse text = some d) (hdocument : countInDocument d = .ok (next, d'))
    (hback : d'.ReadsBack) : HasPackageTable d'.text := by
  obtain ⟨c, before, key, item, item', behind, -, hcounted, -, hkey, -, -, rfl⟩ :=
    exists_of_countInDocument (neat_of_parse hd) hdocument
  obtain ⟨es, hes⟩ := hcounted.exists_table
  obtain ⟨d'', hd'', hsame⟩ := hback
  have hmem : ("package", item'.data) ∈
      Document.data ⟨⟨d.root.layout, before ++ (key, item') :: behind⟩, d.ending⟩ := by
    rw [Document.data, dataOfItems_eq, named_middle hkey]
    exact List.mem_append_right _ List.mem_cons_self
  obtain ⟨data, hdata, hsame⟩ := hsame.exists_mem hmem
  rw [hes] at hsame
  obtain ⟨_⟩ | ⟨_⟩ | @⟨_, _, es', _, _, _⟩ := hsame
  refine ⟨es', ?_⟩
  rw [Document.data, dataOfItems_eq] at hdata
  rw [packageData?, hd'', Option.bind_some]
  cases hfind : findEntry "package" d''.root.entries with
  | none => exact absurd rfl (ne_of_mem_named (ne_of_findEntry_eq_none hfind) _ hdata)
  | some found =>
    obtain ⟨front, key', rest, hentries, hkey', -, -⟩ := (neat_of_parse hd'').names.exists_split hfind
    have hfound : ("package", found.data) ∈ named Item.data d''.root.entries := by
      rw [hentries, named_middle hkey']
      exact List.mem_append_right _ List.mem_cons_self
    have hnodup : ((named Item.data d''.root.entries).map Prod.fst).Nodup := by
      rw [named, List.map_map]
      exact (neat_of_parse hd'').names
    rw [← lookup_eq_some_iff_mem hnodup] at hfound hdata
    rw [hdata] at hfound
    exact hfound.symm

/-- How a manifest with a table for the package is counted, if its file may be read and written. -/
theorem recount_of_table {path text : String} {m : Manifest} {permissions : Permissions}
    (hreadable : permissions.readable = true) (hwritable : permissions.writable = true)
    (hparse : Manifest.parse text = .ok m) (htable : HasPackageTable text) :
    (m.build < counterLimit ∧
        ∃ text', recount path text.toUTF8 permissions = .ok (m.build + 1, text')) ∨
      ¬m.build < counterLimit ∧
        recount path text.toUTF8 permissions = .error (.faulty path .fullCounter) := by
  have hopen : recount path text.toUTF8 permissions =
      (countBuild text).mapError (.faulty path) := by
    unfold recount
    rw [hreadable, hwritable, Bitcode.text_of_utf8]
    dsimp only
    cases countBuild text <;> rfl
  rw [hopen]
  have haccepted := countBuild_accepted hparse
  generalize countBuild text = result at haccepted
  cases haccepted with
  | raised _ hroom text' => exact .inl ⟨hroom, text', rfl⟩
  | full _ hfull => exact .inr ⟨hfull, rfl⟩
  | array harray =>
    obtain ⟨es, hes⟩ := htable
    obtain ⟨fields, hfields⟩ := harray
    rw [hes] at hfields
    cases hfields

/-- A count that succeeds reads and writes the file of the manifest. -/
theorem recount_eq_ok {path text' : String} {content : ByteArray} {permissions : Permissions}
    {n : ℕ} (h : recount path content permissions = .ok (n, text')) :
    permissions.readable = true ∧ permissions.writable = true ∧
      ∃ text, String.fromUTF8? content = some text ∧ countBuild text = .ok (n, text') := by
  unfold recount at h
  split at h
  · cases h
  · rename_i hreadable
    split at h
    · cases h
    · rename_i text htext
      split at h
      · cases h
      · rename_i counted hcount
        split at h
        · rename_i hwritable
          cases h
          exact ⟨by simpa using hreadable, hwritable, text, htext, hcount⟩
        · cases h

/-- **A build that was counted is counted again while there is room**, and the manifest that is read
in between says its number. -/
theorem recount_again {path text text' : String} {content : ByteArray} {permissions : Permissions}
    {m : Manifest} {n : ℕ} (hparse : Manifest.parse text = .ok m)
    (hutf8 : String.fromUTF8? content = some text)
    (h : recount path content permissions = .ok (n, text'))
    (hback : ∀ d next d', Toml.parse text = some d → countInDocument d = .ok (next, d') →
      d'.ReadsBack) :
    n = m.build + 1 ∧ Manifest.parse text' = .ok (m.withBuild n) ∧
      (((n : ℤ) < counterLimit ∧
          ∃ text'', recount path text'.toUTF8 permissions = .ok (n + 1, text'')) ∨
        ¬(n : ℤ) < counterLimit ∧
          recount path text'.toUTF8 permissions = .error (.faulty path .fullCounter)) := by
  obtain ⟨hreadable, hwritable, _, htext, hcount⟩ := recount_eq_ok h
  obtain rfl := Option.some.inj (hutf8.symm.trans htext)
  obtain ⟨rfl, d, next, d', hd, hdocument, hmore, rfl⟩ := countBuild_reads hparse hcount
  have hreads := hback d next d' hd hdocument
  have hnew := hmore.parse_of_readsBack hparse hreads
  have hagain := @recount_of_table path _ _ _ hreadable hwritable hnew
    (hasPackageTable_of_readsBack hd hdocument hreads)
  rw [show (m.withBuild (m.build + 1)).build = m.build + 1 from rfl] at hagain
  exact ⟨rfl, hnew, hagain⟩

/-! ### Directories with nothing but a manifest -/

/-- A file system with nothing but a manifest in it. -/
def holding (text : String) : FileSystem :=
  ⟨[([manifestName], .file text.toUTF8 .ordinary)], []⟩

theorem resolve_holding (text : String) : (holding text).resolve true (manifestPath "/") =
    .ok (.found [manifestName] (.file text.toUTF8 .ordinary)) := by
  have hcheck : FileSystem.checkPath (manifestPath "/") = .ok () := by decide
  have hstart : FileSystem.startOf [] (manifestPath "/") = [] := by decide
  have hnames : FileSystem.namesOf (manifestPath "/") = [manifestName] := by decide
  unfold FileSystem.resolve
  rw [hcheck, hnames]
  show (holding text).walk true _ (FileSystem.startOf [] _) [manifestName] = _
  rw [hstart]
  have hwalk : (holding text).walk true FileSystem.linkLimit [] [manifestName] =
      .ok (.found ([] ++ [manifestName]) (.file text.toUTF8 .ordinary)) :=
    FileSystem.walk_file (by decide) (by decide) (by decide) rfl
  exact hwalk

theorem isWritable_holding (text : String) : (holding text).IsWritable (manifestPath "/") :=
  ⟨_, _, _, resolve_holding text, rfl⟩

theorem readText_holding (text : String) :
    (holding text).readText (manifestPath "/") = .ok text := by
  have hbytes : (holding text).readBytes (manifestPath "/") = .ok text.toUTF8 :=
    FileSystem.readBytes_eq_ok.2 ⟨_, _, resolve_holding text, rfl⟩
  exact FileSystem.readText_of_readBytes hbytes (Bitcode.text_of_utf8 text)

/-- Counting a build puts the new text in the place of the old one. -/
theorem countBuildIn_holding {text text' : String} {n : ℕ} (h : countBuild text = .ok (n, text')) :
    countBuildIn (holding text) "/" = .ok (n, holding text') := by
  refine (countBuildIn_eq_ok (readText_holding text)).2 ⟨text', h, ?_⟩
  unfold FileSystem.writeText FileSystem.writeBytes FileSystem.writeWith
  rw [if_neg (getLast?_manifestPath "/"), resolve_holding]
  rfl

/-- A package between braces is counted for the first time. -/
theorem countBuildIn_accepted_braces :
    (Manifest.parse "package = \x7b name = \"a\", version = \"1.0.0\" \x7d\n" =
        .ok ⟨"a", none, "1.0.0", 0, none, [], none⟩ ∧ ((0 : ℕ) : ℤ) < counterLimit) ∧
      ∃ fs', countBuildIn
        (holding "package = \x7b name = \"a\", version = \"1.0.0\" \x7d\n") "/" = .ok (1, fs') := by
  have hparse : Manifest.parse "package = \x7b name = \"a\", version = \"1.0.0\" \x7d\n" =
      .ok ⟨"a", none, "1.0.0", 0, none, [], none⟩ := by decide +kernel
  have hroom : ((0 : ℕ) : ℤ) < counterLimit := by decide
  refine ⟨⟨hparse, hroom⟩, ?_⟩
  rcases countBuildIn_accepted (readText_holding _) (isWritable_holding _) hparse hroom with
    ⟨-, hcounted⟩ | ⟨⟨fields, harray⟩, -⟩
  · exact hcounted
  · have hmap : (packageData? "package = \x7b name = \"a\", version = \"1.0.0\" \x7d\n").map
        Data.describe = some "map" := by decide +kernel
    rw [harray] at hmap
    have hword : "sequence" = "map" := Option.some.inj hmap
    exact absurd hword (by decide)

/-- A package that is an array of its name, its description and its version is read, but it is
not counted though there is room. -/
theorem not_every_manifest_counted :
    ¬∀ (fs : FileSystem) (root text : String) (m : Manifest),
      fs.readText (manifestPath root) = .ok text → fs.IsWritable (manifestPath root) →
        Manifest.parse text = .ok m → m.build < counterLimit →
          ∃ n fs', countBuildIn fs root = .ok (n, fs') := by
  intro h
  have hparse : Manifest.parse "package = [\"a\", \"d\", \"1.0.0\"]\n" =
      .ok ⟨"a", some "d", "1.0.0", 0, none, [], none⟩ := by decide +kernel
  have hcount : countBuild "package = [\"a\", \"d\", \"1.0.0\"]\n" = .error .noPackageTable := by
    decide +kernel
  obtain ⟨n, fs', hcounted⟩ := h _ "/" _ _ (readText_holding _) (isWritable_holding _) hparse
    (show ((0 : ℕ) : ℤ) < counterLimit by decide)
  have hfault : countBuildIn (holding _) "/" = .error (.faulty (manifestPath "/") .noPackageTable) :=
    countBuildIn_of_fault (readText_holding _) hcount
  rw [hcounted] at hfault
  cases hfault

end Ingot.Package
