import Mathlib.Tactic.Set
import Ingot.Compilation.FrontEnd
import Ingot.Proofs.Code.WellFormed
import Ingot.Proofs.Compilation.UnitNames
import Ingot.Proofs.FileSystem.PathOrder
import Ingot.Sources.Scan
import Ingot.Text.Hex

/-!
# The heading of a module

The text of a module starts with two lines of names: a comment with the name of the unit, and the
name of the source file as a quoted string. What stands behind them comes from the text of the
source alone (`compile_renamed`).

An assembler reads a comment up to the end of its line, and a quoted string up to the next quotation
mark, with its escapes (`readHeading?`). The names are written as they are. So **the heading is read
as it was meant exactly when no name on the path of the source has an end of a line in it, and the
name of the file has no quotation mark and nothing that reads as an escape**
(`generate_heading`).
-/

namespace Ingot.Compilation

open Code (ModuleCode compile lower)
open Text (hexValue?)

/-! ### Quoted strings -/

/-- The bytes of characters. -/
def bytesOfChars (text : List Char) : List UInt8 := text.flatMap String.utf8EncodeChar

/-- The byte that an escape stands for, and the number of its characters, if a text starts with one:
two backslashes, or a backslash and two hexadecimal digits. -/
def escape? : List Char → Option (UInt8 × ℕ)
  | c :: d :: rest =>
    if c ≠ '\\' then none
    else if d = '\\' then some (92, 2)
    else
      match hexValue? d, rest.head?.bind hexValue? with
      | some high, some low => some (UInt8.ofNat (16 * high + low), 3)
      | _, _ => none
  | _ => none

/-- Whether there is an escape in a text. -/
def hasEscape : List Char → Bool
  | [] => false
  | c :: rest => (escape? (c :: rest)).isSome || hasEscape rest

/-- The bytes that a quoted text stands for. -/
def unescape (text : List Char) : List UInt8 :=
  match text with
  | [] => []
  | c :: rest =>
    match escape? (c :: rest) with
    | some (byte, n) => byte :: unescape (rest.drop (n - 1))
    | none => String.utf8EncodeChar c ++ unescape rest
termination_by text.length
decreasing_by
  · simp only [List.length_drop, List.length_cons]
    omega
  · simp

theorem bytesOfChars_cons (c : Char) (text : List Char) :
    bytesOfChars (c :: text) = String.utf8EncodeChar c ++ bytesOfChars text := List.flatMap_cons

theorem bytesOfChars_append (a b : List Char) :
    bytesOfChars (a ++ b) = bytesOfChars a ++ bytesOfChars b := List.flatMap_append

theorem length_bytesOfChars_cons (c : Char) (text : List Char) :
    (bytesOfChars text).length < (bytesOfChars (c :: text)).length := by
  rw [bytesOfChars_cons, List.length_append, String.length_utf8EncodeChar]
  have := c.utf8Size_pos
  omega

theorem length_bytesOfChars_drop (n : ℕ) (text : List Char) :
    (bytesOfChars (text.drop n)).length ≤ (bytesOfChars text).length := by
  conv_rhs => rw [← List.take_append_drop n text, bytesOfChars_append]
  rw [List.length_append]
  exact Nat.le_add_left _ _

/-- An escape has at least one character behind its backslash. -/
theorem of_escape? {c : Char} {rest : List Char} {byte : UInt8} {n : ℕ}
    (h : escape? (c :: rest) = some (byte, n)) : ∃ d more m, rest = d :: more ∧ n = m + 2 := by
  unfold escape? at h
  split at h
  · rename_i c' d more heq
    cases heq
    split at h
    · cases h
    · split at h
      · cases h
        exact ⟨d, more, 0, rfl, rfl⟩
      · split at h
        · cases h
          exact ⟨d, more, 1, rfl, rfl⟩
        · cases h
  · cases h

/-- What an escape stands for is shorter than the escape. -/
theorem length_drop_escape {c : Char} {rest : List Char} {byte : UInt8} {n : ℕ}
    (h : escape? (c :: rest) = some (byte, n)) :
    (bytesOfChars (rest.drop (n - 1))).length + 1 < (bytesOfChars (c :: rest)).length := by
  obtain ⟨d, more, m, rfl, rfl⟩ := of_escape? h
  have hdrop := length_bytesOfChars_drop m more
  have hfirst := length_bytesOfChars_cons d more
  have hsecond := length_bytesOfChars_cons c (d :: more)
  rw [show m + 2 - 1 = m + 1 by omega, List.drop_succ_cons]
  omega

theorem length_unescape_le (text : List Char) :
    (unescape text).length ≤ (bytesOfChars text).length := by
  fun_induction unescape text with
  | case1 => exact Nat.le_refl _
  | case2 c rest byte n hescape ih =>
    have := length_drop_escape hescape
    rw [List.length_cons]
    omega
  | case3 c rest hnone ih =>
    rw [bytesOfChars_cons, List.length_append, List.length_append]
    omega

/-- **A quoted text stands for itself exactly when there is no escape in it.** -/
theorem unescape_eq_iff (text : List Char) :
    unescape text = bytesOfChars text ↔ hasEscape text = false := by
  fun_induction unescape text with
  | case1 => simp [bytesOfChars, hasEscape]
  | case2 c rest byte n hescape ih =>
    simp only [hasEscape, hescape, Option.isSome_some, Bool.true_or, Bool.true_eq_false, iff_false]
    intro heq
    have hlength := congrArg List.length heq
    have hle := length_unescape_le (rest.drop (n - 1))
    have hlt := length_drop_escape hescape
    rw [List.length_cons] at hlength
    omega
  | case3 c rest hnone ih =>
    rw [bytesOfChars_cons, List.append_cancel_left_eq, ih, hasEscape, hnone]
    rfl

/-! ### Reading a heading -/

/-- What an assembler reads of the start of a module. -/
structure Heading where
  /-- The comment. -/
  comment : List Char
  /-- The name of the source file. -/
  fileName : List UInt8
  /-- What stands behind the two lines. -/
  contents : List Char

/-- A character that ends a line, and the comment in it. -/
def isLineEnd (c : Char) : Bool := c == '\n' || c == '\r'

/-- What stands before the quoted name of the source file. -/
def fileNameWord : List Char := "source_filename = \"".toList

/-- Reads a comment line, a line with the name of the source file, and what stands behind them. -/
def readHeading? (text : List Char) : Option Heading := do
  let line ← text.dropPrefix? [';']
  let quoted ← (line.dropWhile fun c => !isLineEnd c).tail.dropPrefix? fileNameWord
  let contents ← (quoted.dropWhile (· != '"')).dropPrefix? ['"', '\n']
  return ⟨line.takeWhile fun c => !isLineEnd c, unescape (quoted.takeWhile (· != '"')), contents⟩

section Reading

variable {comment quoted contents : List Char}

theorem ne_quote {a : List Char} (h : '"' ∉ a) : ∀ c ∈ a, (c != '"') = true := by
  intro c hc
  refine bne_iff_ne.2 ?_
  rintro rfl
  exact h hc

theorem takeWhile_quote {a : List Char} (h : '"' ∉ a) (b : List Char) :
    (a ++ '"' :: b).takeWhile (· != '"') = a := by
  rw [List.takeWhile_append_of_pos (ne_quote h)]
  simp

theorem dropWhile_quote {a : List Char} (h : '"' ∉ a) (b : List Char) :
    (a ++ '"' :: b).dropWhile (· != '"') = '"' :: b := by
  rw [List.dropWhile_append_of_pos (ne_quote h)]
  simp

/-- A text before a quotation mark that stands for all of a quoted text is all of it. -/
theorem noQuote_of_unescape {b : List Char}
    (h : unescape ((quoted ++ '"' :: b).takeWhile (· != '"')) = bytesOfChars quoted) :
    '"' ∉ quoted := by
  intro hmem
  obtain ⟨before, behind, rfl, hbefore⟩ := List.eq_append_cons_of_mem hmem
  rw [List.append_assoc, List.cons_append, takeWhile_quote hbefore] at h
  have hlength := congrArg List.length h
  have hle := length_unescape_le before
  have hmore := length_bytesOfChars_cons '"' behind
  rw [bytesOfChars_append, List.length_append] at hlength
  omega

/-- **Where names are read as they were written.** -/
theorem readHeading?_iff :
    readHeading? (';' :: (comment ++ '\n' :: (fileNameWord ++ (quoted ++ '"' :: '\n' :: contents)))) =
        some ⟨comment, bytesOfChars quoted, contents⟩ ↔
      (∀ c ∈ comment, isLineEnd c = false) ∧ '"' ∉ quoted ∧ hasEscape quoted = false := by
  set behind := quoted ++ '"' :: '\n' :: contents with hbehind
  set line := comment ++ '\n' :: (fileNameWord ++ behind) with hline
  have hmark : (';' :: line).dropPrefix? [';'] = some line :=
    List.dropPrefix?_append_of_beq line (beq_self_eq_true [';'])
  have hword : (fileNameWord ++ behind).dropPrefix? fileNameWord = some behind :=
    List.dropPrefix?_append_of_beq behind (beq_self_eq_true fileNameWord)
  have hclose : ('"' :: '\n' :: contents).dropPrefix? ['"', '\n'] = some contents :=
    List.dropPrefix?_append_of_beq contents (beq_self_eq_true ['"', '\n'])
  have hrest : (∀ c ∈ comment, isLineEnd c = false) →
      (line.dropWhile fun c => !isLineEnd c).tail = fileNameWord ++ behind := by
    intro hcomment
    rw [hline, List.dropWhile_append_of_pos fun c hc => by simp [hcomment c hc]]
    rfl
  simp only [readHeading?, hmark, Option.bind_eq_bind, Option.bind_some, Option.pure_def]
  constructor
  · intro h
    obtain ⟨quoted', hquoted, h⟩ := Option.bind_eq_some_iff.1 h
    obtain ⟨contents', -, h⟩ := Option.bind_eq_some_iff.1 h
    obtain ⟨hcomment, hname, -⟩ := Heading.mk.inj (Option.some.inj h)
    have hends : ∀ c ∈ comment, isLineEnd c = false := by
      intro c hc
      rw [← hcomment] at hc
      simpa using List.mem_takeWhile_imp hc
    rw [hrest hends, hword] at hquoted
    obtain rfl := Option.some.inj hquoted
    rw [hbehind] at hname
    have hquote := noQuote_of_unescape hname
    rw [takeWhile_quote hquote] at hname
    exact ⟨hends, hquote, (unescape_eq_iff quoted).1 hname⟩
  · rintro ⟨hends, hquote, hescape⟩
    have hcomment : (line.takeWhile fun c => !isLineEnd c) = comment := by
      rw [hline, List.takeWhile_append_of_pos fun c hc => by simp [hends c hc]]
      simp [isLineEnd]
    rw [hrest hends, hword, Option.bind_some, hbehind, dropWhile_quote hquote, hclose,
      Option.bind_some, takeWhile_quote hquote, (unescape_eq_iff quoted).2 hescape, hcomment]

end Reading

/-! ### The names in the heading -/

theorem mem_intercalate_dot {c : Char} (hc : c ≠ '.') (names : List String) :
    c ∈ (".".intercalate names).toList ↔ ∃ name ∈ names, c ∈ name.toList := by
  induction names with
  | nil => simp
  | cons name names ih =>
    cases names with
    | nil => simp
    | cons second names =>
      rw [String.intercalate_cons_cons, String.toList_append, String.toList_append,
        List.mem_append, List.mem_append, ih]
      simp [hc]

/-- The name of the unit of a source has the characters below `80` of the names on its path, those
of dots and of the ending apart. -/
theorem mem_unitName_descend {root : String} (hroot : root ≠ "") {dirs : List String} {last : String}
    (hnames : ∀ name ∈ dirs ++ [last], Path.IsName name) {ending : String}
    (hcut : (Path.cutAtDot last).2 = some ending) (hending : '.' ∉ ending.toList) {c : Char}
    (hlow : c.toNat < 0x80) (hc : c ∉ '.' :: ending.toList) (hnameless : c ∉ namelessUnit.toList) :
    c ∈ (unitName root (Path.descend root (dirs ++ [last]))).toList ↔
      ∃ name ∈ dirs ++ [last], c ∈ name.toList := by
  have hdot : c ≠ '.' := fun heq => hc (heq ▸ List.mem_cons_self)
  have hstem : c ∈ last.toList ↔ c ∈ (Path.cutAtDot last).1.toList := by
    rw [toList_eq_of_cutAtDot hcut hending, List.mem_append, or_iff_left hc]
  have hleft : (∃ name ∈ dirs ++ [last], c ∈ name.toList) ↔
      ∃ name ∈ dirs ++ (if (Path.cutAtDot last).1 = "." ∨ (Path.cutAtDot last).1 = ".." then []
        else [(Path.cutAtDot last).1]), c ∈ name.toList := by
    simp only [List.mem_append, or_and_right, exists_or, List.mem_singleton, exists_eq_left, hstem]
    refine or_congr_right ?_
    split
    · rename_i hdots
      rcases hdots with hdots | hdots
      · rw [hdots]
        simp [hdot]
      · rw [hdots]
        simp [hdot]
    · simp
  rw [hleft, unitName, Path.componentsBelow_descend hroot hnames, names_withoutExtension]
  split
  · rename_i hnil
    rw [hnil]
    simpa using hnameless
  · rw [mem_intercalate_dot hdot]
    simp only [List.mem_map, exists_exists_and_eq_and, Raw.mem_shown_iff hlow]

/-- The comment with the name of a unit has no end of a line in it exactly when no name on the path
of the source has one. -/
theorem noLineEnd_comment_iff {root : String} (hroot : root ≠ "") {dirs : List String}
    {last : String} (hnames : ∀ name ∈ dirs ++ [last], Path.IsName name)
    (hcut : (Path.cutAtDot last).2 = some Sources.sourceEnding) :
    (∀ c ∈ (" ModuleID = '" ++ unitName root (Path.descend root (dirs ++ [last])) ++ "'").toList,
      isLineEnd c = false) ↔ ∀ name ∈ dirs ++ [last], ∀ c ∈ name.toList, isLineEnd c = false := by
  have hmem : ∀ c, isLineEnd c = true →
      (c ∈ (" ModuleID = '" ++ unitName root (Path.descend root (dirs ++ [last])) ++ "'").toList ↔
        ∃ name ∈ dirs ++ [last], c ∈ name.toList) := by
    intro c hc
    have hline : c = '\n' ∨ c = '\r' := by simpa [isLineEnd] using hc
    have hword : c ∉ " ModuleID = '".toList ∧ c ∉ "'".toList ∧ c.toNat < 0x80 ∧
        c ∉ '.' :: Sources.sourceEnding.toList ∧ c ∉ namelessUnit.toList := by
      rcases hline with rfl | rfl <;> decide
    obtain ⟨hfront, hback, hlow, hdot, hnameless⟩ := hword
    rw [String.toList_append, String.toList_append, List.mem_append, List.mem_append,
      or_iff_left hback, or_iff_right hfront]
    exact mem_unitName_descend hroot hnames hcut (by decide) hlow hdot hnameless
  constructor
  · intro hall name hname c hc
    by_contra hend
    have hend : isLineEnd c = true := by simpa using hend
    cases (hall c ((hmem c hend).2 ⟨name, hname, hc⟩)).symm.trans hend
  · intro hall c hc
    by_contra hend
    have hend : isLineEnd c = true := by simpa using hend
    obtain ⟨name, hname, hin⟩ := (hmem c hend).1 hc
    cases (hall name hname c hin).symm.trans hend

/-! ### Compiling under other names -/

/-- **What a source text is compiled to hangs on the names in two places only**: it is the same
code under other names. -/
theorem compile_renamed {name sourceName source : String} {m : ModuleCode}
    (h : compile name sourceName source = .ok m) (name' sourceName' : String) :
    compile name' sourceName' source = .ok { m with name := name', sourceName := sourceName' } ∧
      m.name = name ∧ m.sourceName = sourceName := by
  unfold compile at h ⊢
  obtain ⟨ts, htokens, h⟩ := of_except_bind_ok h
  obtain ⟨program, hparse, h⟩ := of_except_bind_ok h
  rw [except_bind_of_ok htokens, except_bind_of_ok hparse]
  unfold lower at h ⊢
  obtain ⟨defined, hdefined, h⟩ := of_except_bind_ok h
  obtain ⟨⟨functions, declared⟩, hfunctions, h⟩ := of_except_bind_ok h
  obtain rfl := Except.ok.inj h
  rw [except_bind_of_ok hdefined, except_bind_of_ok hfunctions]
  exact ⟨rfl, rfl, rfl⟩

/-! ### The text of a module -/

theorem toList_moduleText (m : ModuleCode) : m.text.toList =
    ';' :: ((" ModuleID = '" ++ m.name ++ "'").toList ++ '\n' ::
      (fileNameWord ++ (m.sourceName.toList ++ '"' :: '\n' :: m.contents.toList))) := by
  have hcomment : "; ModuleID = '".toList = ';' :: " ModuleID = '".toList := rfl
  have hfile : "'\nsource_filename = \"".toList = "'".toList ++ '\n' :: fileNameWord := rfl
  have hclose : "\"\n".toList = ['"', '\n'] := rfl
  rw [m.text_eq_heading]
  delta ModuleCode.heading
  simp only [String.toList_append, hcomment, hfile, hclose, List.append_assoc, List.cons_append,
    List.nil_append]

theorem fileName?_descend_of_getLast? {root : String} (hroot : root ≠ "") {names : List String}
    (hnames : ∀ name ∈ names, Path.IsName name) {last : String} (hlast : names.getLast? = some last) :
    Path.fileName? (Path.descend root names) = some last := by
  obtain ⟨dirs, rfl⟩ := List.getLast?_eq_some_iff.1 hlast
  rw [Path.fileName?, Path.components_descend hroot hnames, List.map_append, List.map_singleton,
    ← List.append_assoc, List.getLast?_concat]
  rfl

/-- **The heading of the module of a source**, which is called by names below a root as a scan finds
it. Behind the heading the text is that of the code, whatever the names are. The heading itself is
read as the name of the unit, the name of the file as it is shown and what stands behind them
exactly when none of the names ends a line, and that of the file neither ends a quoted string nor
has an escape. If the name of the file is a text, what is shown has its bytes. -/
theorem generate_heading {fs : FileSystem} {root : String} {names : List String} {last : String}
    {module : Bitcode.Module} (hroot : root ≠ "") (hnames : ∀ name ∈ names, Path.IsName name)
    (hlast : names.getLast? = some last)
    (hending : Path.extension? (Path.descend root names) = some Sources.sourceEnding)
    (h : generate fs root (Path.descend root names) = .ok module) :
    ∃ source contents, fs.readText (Path.descend root names) = .ok source ∧
      (∀ name sourceName, ∃ code, compile name sourceName source = .ok code ∧
        code.contents = contents) ∧
      (readHeading? module.text.toList = some
          ⟨(" ModuleID = '" ++ unitName root (Path.descend root names) ++ "'").toList,
            bytesOfChars (Raw.shown last).toList, contents.toList⟩ ↔
        (∀ name ∈ names, ∀ c ∈ name.toList, isLineEnd c = false) ∧
          '"' ∉ last.toList ∧ hasEscape (Raw.shown last).toList = false) ∧
      ((Raw.text? last).isSome → bytesOfChars (Raw.shown last).toList = Raw.bytes last) := by
  have hfile := fileName?_descend_of_getLast? hroot hnames hlast
  have hcut : (Path.cutAtDot last).2 = some Sources.sourceEnding := by
    rwa [Path.extension?, hfile] at hending
  obtain ⟨dirs, rfl⟩ := List.getLast?_eq_some_iff.1 hlast
  have hunit := noLineEnd_comment_iff hroot hnames hcut
  unfold generate compileText at h
  simp only [hfile, Option.map_some, Option.getD_some] at h
  split at h
  · cases h
  · rename_i source hread
    split at h
    · cases h
    · rename_i code hcode
      cases h
      obtain ⟨hrenamed, hname, hsourceName⟩ := compile_renamed hcode "" ""
      refine ⟨source, code.contents, hread, fun name sourceName =>
        ⟨_, (compile_renamed hcode name sourceName).1, rfl⟩, ?_, fun htext => ?_⟩
      · rw [toList_moduleText, hname, hsourceName, readHeading?_iff, hunit,
          Raw.mem_shown_iff (by decide)]
      · obtain ⟨text, htext⟩ := Option.isSome_iff_exists.1 htext
        rw [Raw.shown_of_text? htext, Raw.text?_eq_some.1 htext, bytesOfChars]

namespace QuotedName

/-- A source below a root, under some name. -/
def tree (name : String) : FileSystem where
  nodes := [
    (["p"], .directory),
    (["p", name], .file "fn f() -> i32 \x7b return 0; \x7d".toUTF8 .ordinary)]
  workingDirectory := []

/-- What is read of the heading of the module of that source. -/
def heading? (name : String) : Option Heading :=
  (generate (tree name) "/p" (Path.descend "/p" [name])).toOption.bind fun module =>
    readHeading? module.text.toList

theorem exists_module (name : String)
    (h : (generate (tree name) "/p" (Path.descend "/p" [name])).toBool = true) :
    ∃ module, generate (tree name) "/p" (Path.descend "/p" [name]) = .ok module ∧
      heading? name = readHeading? module.text.toList := by
  unfold heading?
  cases hmodule : generate (tree name) "/p" (Path.descend "/p" [name]) with
  | error fault =>
    rw [hmodule] at h
    cases h
  | ok module => exact ⟨module, rfl, rfl⟩

end QuotedName

/-- A file whose name has a backslash that starts no escape. -/
theorem generate_heading_backslash : ∃ module source contents,
    generate (QuotedName.tree "a\\z.ion") "/p" (Path.descend "/p" ["a\\z.ion"]) = .ok module ∧
      (QuotedName.tree "a\\z.ion").readText (Path.descend "/p" ["a\\z.ion"]) = .ok source ∧
      readHeading? module.text.toList = some
        ⟨(" ModuleID = '" ++ unitName "/p" (Path.descend "/p" ["a\\z.ion"]) ++ "'").toList,
          bytesOfChars "a\\z.ion".toList, contents⟩ := by
  obtain ⟨module, hmodule, -⟩ := QuotedName.exists_module "a\\z.ion" (by decide +kernel)
  have hshown : Raw.shown "a\\z.ion" = "a\\z.ion" := Raw.shown_eq_self (by decide)
  have hlast : ["a\\z.ion"].getLast? = some "a\\z.ion" := rfl
  obtain ⟨source, contents, hread, -, hheading, -⟩ := generate_heading (by decide)
    (by decide) hlast (by decide +kernel) hmodule
  rw [hshown] at hheading
  exact ⟨module, source, contents.toList, hmodule, hread, hheading.2
    ⟨by simp [isLineEnd], by decide, by decide⟩⟩

/-- **The heading is not always read as it was meant**: a quotation mark in the name of the file ends
the quoted string. -/
theorem heading_not_always_read :
    ¬∀ (fs : FileSystem) (root : String) (names : List String) (last : String)
      (module : Bitcode.Module), root ≠ "" → (∀ name ∈ names, Path.IsName name) →
      names.getLast? = some last →
      Path.extension? (Path.descend root names) = some Sources.sourceEnding →
      generate fs root (Path.descend root names) = .ok module →
      ∃ heading, readHeading? module.text.toList = some heading ∧
        heading.fileName = Raw.bytes last := by
  intro hreads
  obtain ⟨hsome, hnone, hending⟩ :
      (generate (QuotedName.tree "a\"b.ion") "/p" (Path.descend "/p" ["a\"b.ion"])).toBool = true ∧
        (QuotedName.heading? "a\"b.ion").isNone = true ∧
          Path.extension? (Path.descend "/p" ["a\"b.ion"]) = some Sources.sourceEnding := by
    decide +kernel
  obtain ⟨module, hmodule, hheading⟩ := QuotedName.exists_module "a\"b.ion" hsome
  obtain ⟨heading, hread, -⟩ := hreads _ "/p" ["a\"b.ion"] _ module (by decide) (by decide)
    rfl hending hmodule
  rw [hheading, hread] at hnone
  cases hnone

end Ingot.Compilation
