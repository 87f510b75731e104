import Ingot.Toml.Scalar

/-!
# The grammar of documents

Reading a TOML document as its lines. A document is a row of entries, each a key, an equals
sign and a value, and of headers, each a key in single or double brackets; every one of
them ends its line. Keys are rows of simple keys with dots between them. Arrays and tables
in braces may lie inside of each other, but not without limit.
-/

namespace Ingot.Toml

/-- The most simple keys in a row, and the most values inside of each other. -/
def nestingLimit : Nat := 80

/-- A text from characters. -/
def textOf (s : List Char) : String := String.ofList s

/-- The text between two things, which must not change. -/
def layoutOf (before behind : List Char) : Decor := ⟨some (textOf before), some (textOf behind)⟩

/-! ### Keys -/

/-- A character of a key that is not between quotes. -/
def isBareChar (c : Char) : Bool := c.isAlphanum || c == '_' || c == '-'

/-- Reads a simple key: its name and how it is written. -/
def readSimpleKey (s : List Char) : Read WrittenText s :=
  match s with
  | '"' :: rest => Read.behind '"' (readBasic rest)
  | '\'' :: rest => Read.behind '\'' (readLiteral rest)
  | s =>
    if h : (s.dropWhile isBareChar).length < s.length then
      some ⟨((s.takeWhile isBareChar, s.takeWhile isBareChar), s.dropWhile isBareChar), h⟩
    else none

/-- Reads simple keys with dots between them, with the blanks around each of them. -/
def readKeyParts (s : List Char) : Read (List Key) s :=
  have h₁ := length_afterSpaces_le s
  match readSimpleKey (afterSpaces s) with
  | none => none
  | some ⟨((name, written), rest), h₂⟩ =>
    have h₃ := length_afterSpaces_le rest
    let key : Key :=
      ⟨textOf name, some (textOf written), .usual, layoutOf (spaces s) (spaces rest)⟩
    match h : afterSpaces rest with
    | '.' :: rest' =>
      have hlt : rest'.length < s.length := by
        rw [h] at h₃; simp only [List.length_cons] at h₃; simp only at h₂; omega
      ((readKeyParts rest').map (key :: ·)).within (Nat.le_of_lt hlt)
    | rest' => some ⟨([key], rest'), by rw [← h]; simp only at h₂ ⊢; omega⟩
termination_by s.length

/-- The first of simple keys, without the blanks before it. -/
def Key.asFirst (k : Key) : Key := { k with inner := { k.inner with before := some "" } }

/-- The last of simple keys, with the text around all of them and no blanks behind it. -/
def Key.asLast (k : Key) (around : Decor) : Key :=
  { k with outer := around, inner := { k.inner with behind := some "" } }

/-- The keys before the last one, and the last one. The blanks at both ends of the row
belong to the last key. -/
def splitKeys : List Key → Option (List Key × Key)
  | [] => none
  | first :: more =>
    let keys := first.asFirst :: more
    match keys.getLast? with
    | none => none
    | some last =>
      some (keys.dropLast, last.asLast ⟨first.inner.before, last.inner.behind⟩)

/-- Reads a key: the simple keys before the last one, and the last one. -/
def readKey (s : List Char) : Read (List Key × Key) s :=
  (readKeyParts s).filterMap fun keys =>
    if keys.length < nestingLimit then splitKeys keys else none

/-! ### Tables between braces -/

/-- The value of an entry, if it is there. -/
def findEntry {α : Type} (name : String) (entries : List (Key × α)) : Option α :=
  (entries.find? fun e => e.1.name == name).map Prod.snd

/-- Entries with the value of one of them replaced. -/
def replaceEntry {α : Type} (name : String) (value : α) (entries : List (Key × α)) :
    List (Key × α) :=
  entries.map fun e => if e.1.name == name then (e.1, value) else e

/-- Adds an entry behind the others, inside of the tables that the keys before the last
name. Those tables may be there already only if dotted keys made them, and an entry of the
last name may not be there. -/
def addInline : List Key → Key → Value → List (Key × Value) → Option (List (Key × Value))
  | [], key, value, entries =>
    match findEntry key.name entries with
    | some _ => none
    | none => some (entries ++ [(key, value)])
  | k :: path, key, value, entries =>
    match findEntry k.name entries with
    | none => do
      let inner ← addInline path key value []
      some (entries ++ [(k, .table inner true "" .usual)])
    | some (.table inner true opening decor) => do
      let inner ← addInline path key value inner
      some (replaceEntry k.name (.table inner true opening decor) entries)
    | some _ => none

/-! ### Values -/

/-- A reader of values. -/
abbrev ValueReader : Type := (s : List Char) → Read Value s

/-- What was read of an array: the elements, whether a comma follows the last one, and the
text before the bracket that closes it. -/
abbrev ArrayParts : Type := List Value × Bool × String

/-- What stands behind a first character is shorter than the text. -/
theorem length_lt_cons (c : Char) (rest : List Char) : rest.length < (c :: rest).length :=
  Nat.lt_succ_self rest.length

/-- What stands behind a sign, if a text starts with it. -/
def afterSign? (sign : Char) (s : List Char) :
    Option { rest : List Char // rest.length < s.length } :=
  match s with
  | [] => none
  | c :: rest => if c = sign then some ⟨rest, length_lt_cons c rest⟩ else none

/-- Reads the elements of an array and the bracket that closes it. -/
def readElements (value : ValueReader) (first : Bool) (s : List Char) : Read ArrayParts s :=
  match skipLayout s with
  | none => none
  | some ⟨(before, rest), h₁⟩ =>
    match afterSign? ']' rest with
    | some ⟨rest₁, h₂⟩ =>
      some ⟨(([], !first, textOf before), rest₁), Nat.lt_of_lt_of_le h₂ h₁⟩
    | none =>
      match value rest with
      | none => none
      | some ⟨(v, rest₁), h₂⟩ =>
        match skipLayout rest₁ with
        | none => none
        | some ⟨(behind, rest₂), h₃⟩ =>
          have h₄ : rest₂.length < s.length :=
            Nat.lt_of_le_of_lt h₃ (Nat.lt_of_lt_of_le h₂ h₁)
          let element := v.withDecor (layoutOf before behind)
          match afterSign? ',' rest₂ with
          | some ⟨rest₃, h₅⟩ =>
            have hlt : rest₃.length < s.length := Nat.lt_trans h₅ h₄
            ((readElements value false rest₃).map fun (more, ending) =>
              (element :: more, ending)).within (Nat.le_of_lt hlt)
          | none =>
            match afterSign? ']' rest₂ with
            | some ⟨rest₃, h₅⟩ =>
              some ⟨(([element], false, ""), rest₃), Nat.lt_trans h₅ h₄⟩
            | none => none
termination_by s.length
decreasing_by exact hlt

/-- Reads an entry of a table between braces, with the blanks around its value. -/
def readInlineEntry (value : ValueReader) (s : List Char) : Read (List Key × Key × Value) s :=
  match readKey s with
  | none => none
  | some ⟨((path, key), rest), h₁⟩ =>
    match rest with
    | '=' :: rest₁ =>
      have h₂ := length_afterSpaces_le rest₁
      match value (afterSpaces rest₁) with
      | none => none
      | some ⟨(v, rest₂), h₃⟩ =>
        have h₄ := length_afterSpaces_le rest₂
        some ⟨((path, key, v.withDecor (layoutOf (spaces rest₁) (spaces rest₂))), afterSpaces rest₂),
          by simp only [List.length_cons] at *; omega⟩
    | _ => none

/-- Reads the entries of a table between braces and the brace that closes it, behind the
entries that were read before. -/
def readInlineEntries (value : ValueReader) (entries : List (Key × Value)) (s : List Char) :
    Read (List (Key × Value)) s :=
  match readInlineEntry value s with
  | none => none
  | some ⟨((path, key, v), rest), h₁⟩ =>
    match addInline path key v entries with
    | none => none
    | some entries' =>
      match afterSign? ',' rest with
      | some ⟨rest₁, h₂⟩ =>
        have hlt : rest₁.length < s.length := Nat.lt_trans h₂ h₁
        (readInlineEntries value entries' rest₁).within (Nat.le_of_lt hlt)
      | none =>
        match afterSign? '}' rest with
        | some ⟨rest₁, h₂⟩ => some ⟨(entries', rest₁), Nat.lt_trans h₂ h₁⟩
        | none => none
termination_by s.length
decreasing_by exact hlt

/-- Reads a table between braces behind the brace that opens it. -/
def readInlineTable (value : ValueReader) (s : List Char) : Read Value s :=
  have h₁ := length_afterSpaces_le s
  match h : afterSpaces s with
  | '}' :: rest =>
    some ⟨(.table [] false (textOf (spaces s)) .usual, rest), by
      rw [h] at h₁; exact h₁⟩
  | _ => (readInlineEntries value [] s).map fun entries => .table entries false "" .usual

/-- Reads a value with at most `depth` arrays or tables between braces around a part. -/
def readValue : Nat → ValueReader
  | 0, s => (readScalar s).map fun (scalar, written) => .scalar scalar (textOf written) .usual
  | depth + 1, s =>
    match s with
    | '[' :: rest =>
      Read.behind '[' ((readElements (readValue depth) true rest).map
        fun (elements, comma, ending) => .array elements comma ending .usual)
    | '{' :: rest => Read.behind '{' (readInlineTable (readValue depth) rest)
    | s => (readScalar s).map fun (scalar, written) => .scalar scalar (textOf written) .usual

/-! ### Lines -/

/-- A line of a document that is not blank. -/
inductive Line where
  /-- The header of a table: whether it stands in double brackets, the keys before the
  last one, the last one, and the text around the header. -/
  | header (double : Bool) (path : List Key) (key : Key) (decor : Decor)
  /-- An entry: the keys before the last one, the last one, and the value. -/
  | entry (path : List Key) (key : Key) (value : Value)

/-- Reads the blanks and the comment that may end a line, and the end of the line. -/
def readLineEnd (s : List Char) :
    Option { read : List Char × List Char // read.2.length ≤ s.length } :=
  let text := spaces s ++ comment (afterSpaces s)
  have h₁ := length_afterSpaces_le s
  have h₂ := length_afterComment_le (afterSpaces s)
  match h : afterComment (afterSpaces s) with
  | [] => some ⟨(text, []), length_nil_le s⟩
  | c :: t =>
    match afterNewline? (c :: t) with
    | none => none
    | some ⟨rest, h₃⟩ => some ⟨(text, rest), by rw [h] at h₂; simp only; omega⟩

/-- Reads the key of a header and the bracket that closes it. -/
def readHeaderKey (s : List Char) : Read (List Key × Key) s :=
  match readKey s with
  | some ⟨(keys, ']' :: rest), h⟩ => some ⟨(keys, rest), Nat.lt_of_succ_lt h⟩
  | _ => none

/-- Reads a header behind the bracket that opens it; the text before it is given. -/
def readHeader (before : String) (s : List Char) : Read Line s :=
  match s with
  | '[' :: rest =>
    match readHeaderKey rest with
    | some ⟨((path, key), ']' :: rest₁), h₁⟩ =>
      match readLineEnd rest₁ with
      | none => none
      | some ⟨(behind, rest₂), h₂⟩ =>
        some ⟨(.header true path key ⟨some before, some (textOf behind)⟩, rest₂), by
          simp only [List.length_cons] at *; omega⟩
    | _ => none
  | s =>
    match readHeaderKey s with
    | none => none
    | some ⟨((path, key), rest₁), h₁⟩ =>
      match readLineEnd rest₁ with
      | none => none
      | some ⟨(behind, rest₂), h₂⟩ =>
        some ⟨(.header false path key ⟨some before, some (textOf behind)⟩, rest₂), by
          simp only at *; omega⟩

/-- Reads an entry; the text before it is given. -/
def readEntry (before : String) (s : List Char) : Read Line s :=
  match readKey s with
  | none => none
  | some ⟨((path, key), rest), h₁⟩ =>
    match rest with
    | '=' :: rest₁ =>
      have h₂ := length_afterSpaces_le rest₁
      match readValue (nestingLimit - 1) (afterSpaces rest₁) with
      | none => none
      | some ⟨(v, rest₂), h₃⟩ =>
        match readLineEnd rest₂ with
        | none => none
        | some ⟨(behind, rest₃), h₄⟩ =>
          let value := v.withDecor (layoutOf (spaces rest₁) behind)
          let outer := { key.outer with before := some (before ++ key.outer.before.getD "") }
          some ⟨(.entry path { key with outer := outer } value, rest₃), by
            simp only [List.length_cons] at *; omega⟩
    | _ => none

/-- Reads the lines of a document behind some blank lines and comments; the answer has the
text behind the last line. -/
def readLines (before : String) (s : List Char) : Option (List Line × String) :=
  let before := before ++ textOf (spaces s)
  have h₁ := length_afterSpaces_le s
  match h : afterSpaces s with
  | [] => some ([], before)
  | c :: t =>
    if c = '#' then
      match afterComment (c :: t), length_afterComment_le (c :: t) with
      | [], _ => some ([], before ++ textOf (comment (c :: t)))
      | d :: u, h₂ =>
        match afterNewline? (d :: u) with
        | none => none
        | some ⟨rest, h₃⟩ =>
          have hlt : rest.length < s.length := by rw [h] at h₁; omega
          readLines (before ++ textOf (comment (c :: t)) ++ "\n") rest
    else if c = '\n' ∨ c = '\r' then
      match afterNewline? (c :: t) with
      | none => none
      | some ⟨rest, h₃⟩ =>
        have hlt : rest.length < s.length := by rw [h] at h₁; omega
        readLines (before ++ "\n") rest
    else
      match (if c = '[' then Read.behind c (readHeader before t) else readEntry before (c :: t)) with
      | none => none
      | some ⟨(line, rest), h₃⟩ =>
        have hlt : rest.length < s.length := by rw [h] at h₁; simp only at h₃; omega
        match readLines "" rest with
        | none => none
        | some (more, ending) => some (line :: more, ending)
termination_by s.length

/-- The mark of byte order, which a document may start with. -/
def byteOrderMark : Char := Char.ofNat 0xFEFF

/-- Reads a document as its lines and the text behind the last one. -/
def linesOf (document : String) : Option (List Line × String) :=
  let s := document.toList
  readLines "" (if s.head? = some byteOrderMark then s.drop 1 else s)

end Ingot.Toml
