import Ingot.Toml.Reading
import Ingot.Toml.Tree
import Ingot.Text.Hex

/-!
# Values without parts

How texts, numbers, truth values, dates and times are written in TOML. A text is first cut
out of the document up to the quotes that close it, and then decoded; any other value is
the longest row of characters that may be part of one, and has to be a value as a whole.
-/

namespace Ingot.Toml

open Decimal (Binary64)

/-! ### Texts between quotes -/

/-- What stands before the double quote that closes a text; a character behind a backslash
closes nothing. -/
def cutBasic : (s : List Char) → Read (List Char) s
  | [] => none
  | '"' :: rest => .one [] '"' rest
  | '\\' :: c :: rest =>
    Read.behind '\\' (Read.behind c ((cutBasic rest).map fun body => '\\' :: c :: body))
  | c :: rest => Read.behind c ((cutBasic rest).map fun body => c :: body)

/-- What stands before the single quote that closes a text. -/
def cutLiteral : (s : List Char) → Read (List Char) s
  | [] => none
  | c :: rest =>
    if c = '\'' then .one [] c rest
    else Read.behind c ((cutLiteral rest).map fun body => c :: body)

/-- How many times a text starts with a character. -/
def countFront (c : Char) : List Char → Nat
  | [] => 0
  | d :: rest => if d = c then countFront c rest + 1 else 0

theorem countFront_le (c : Char) (s : List Char) : countFront c s ≤ s.length := by
  induction s with
  | nil => simp [countFront]
  | cons d rest ih =>
    simp only [countFront, List.length_cons]
    split <;> omega

/-- What stands before the three quotes that close a text of several lines. Of more than
three quotes in a row the last three close it, and at most two belong to the text. -/
def cutMulti (quote : Char) (escapes : Bool) : (s : List Char) → Read (List Char) s
  | [] => none
  | [c] => none
  | c :: d :: rest =>
    if escapes ∧ c = '\\' then
      Read.behind c (Read.behind d ((cutMulti quote escapes rest).map fun body => c :: d :: body))
    else if c = quote then
      let run := countFront quote (c :: d :: rest)
      if h : run < 3 then
        Read.behind c ((cutMulti quote escapes (d :: rest)).map fun body => c :: body)
      else
        let extra := min (run - 3) 2
        some ⟨(List.replicate extra quote, (c :: d :: rest).drop (extra + 3)), by
          have := countFront_le quote (c :: d :: rest)
          simp only [List.length_drop]
          simp only [List.length_cons] at *
          omega⟩
    else Read.behind c ((cutMulti quote escapes (d :: rest)).map fun body => c :: body)

/-! ### Decoding texts -/

/-- A character that stands for itself in a text with escapes on one line. -/
def isBasicChar (c : Char) : Bool :=
  c == '\t' || (' ' ≤ c && c ≤ '~' && c != '"' && c != '\\') || c.toNat ≥ 0x80

/-- A character that stands for itself in a text without escapes. -/
def isLiteralChar (c : Char) : Bool :=
  c == '\t' || (' ' ≤ c && c ≤ '~') || c.toNat ≥ 0x80

/-- The number of a row of hexadecimal digits. -/
def hexNumber? (digits : List Char) : Option Nat :=
  digits.foldl (fun n c => do return 16 * (← n) + (← Text.hexValue? c)) (some 0)

/-- The character with the code point of some hexadecimal digits. -/
def charOfHex? (digits : List Char) : Option Char :=
  match hexNumber? digits with
  | none => none
  | some n => if n.isValidChar then some (Char.ofNat n) else none

/-- The character that an escape stands for, and what is left behind it. -/
def readEscape : (s : List Char) → Read Char s
  | 'b' :: rest => .one '\x08' 'b' rest
  | 'f' :: rest => .one '\x0c' 'f' rest
  | 'n' :: rest => .one '\n' 'n' rest
  | 'r' :: rest => .one '\r' 'r' rest
  | 't' :: rest => .one '\t' 't' rest
  | '\\' :: rest => .one '\\' '\\' rest
  | '"' :: rest => .one '"' '"' rest
  | 'u' :: rest =>
    if rest.length < 4 then none
    else
      match charOfHex? (rest.take 4) with
      | none => none
      | some c => some ⟨(c, rest.drop 4), by
          simp only [List.length_drop, List.length_cons]; omega⟩
  | 'U' :: rest =>
    if rest.length < 8 then none
    else
      match charOfHex? (rest.take 8) with
      | none => none
      | some c => some ⟨(c, rest.drop 8), by
          simp only [List.length_drop, List.length_cons]; omega⟩
  | _ => none

/-- The content of a text with escapes on one line. -/
def decodeBasic (s : List Char) : Option (List Char) :=
  match s with
  | [] => some []
  | c :: rest =>
    if c = '\\' then
      match readEscape rest with
      | none => none
      | some ⟨(d, rest'), h⟩ =>
        have : rest'.length < (c :: rest).length := Nat.lt_succ_of_lt h
        (decodeBasic rest').map (d :: ·)
    else if isBasicChar c then (decodeBasic rest).map (c :: ·)
    else none
termination_by s.length
decreasing_by all_goals (simp only [List.length_cons] at *; omega)

/-- A text behind the blanks and ends of lines that it starts with. -/
def skipBlankLines : List Char → List Char
  | ' ' :: rest => skipBlankLines rest
  | '\t' :: rest => skipBlankLines rest
  | '\n' :: rest => skipBlankLines rest
  | '\r' :: '\n' :: rest => skipBlankLines rest
  | rest => rest

theorem length_skipBlankLines_le (s : List Char) : (skipBlankLines s).length ≤ s.length := by
  fun_induction skipBlankLines s <;> grind

theorem length_skipBlankLines_lt (c : Char) {rest rest' : List Char}
    (h : rest'.length < (afterSpaces rest).length) :
    (skipBlankLines rest').length < (c :: rest).length := by
  have := length_skipBlankLines_le rest'
  have := length_afterSpaces_le rest
  simp only [List.length_cons]
  omega

/-- The content of a text with escapes on several lines. A backslash at the end of a line
joins it with the next line that is not blank. -/
def decodeMultiBasic (s : List Char) : Option (List Char) :=
  match s with
  | [] => some []
  | c :: rest =>
    match afterNewline? (c :: rest) with
    | some ⟨rest', _⟩ => (decodeMultiBasic rest').map ('\n' :: ·)
    | none =>
      if c = '\\' then
        match afterNewline? (afterSpaces rest) with
        | some ⟨rest', h⟩ =>
          have : (skipBlankLines rest').length < (c :: rest).length :=
            length_skipBlankLines_lt c h
          decodeMultiBasic (skipBlankLines rest')
        | none =>
          match readEscape rest with
          | none => none
          | some ⟨(d, rest'), h⟩ =>
            have : rest'.length < (c :: rest).length := Nat.lt_succ_of_lt h
            (decodeMultiBasic rest').map (d :: ·)
      else if isBasicChar c ∨ c = '"' then (decodeMultiBasic rest).map (c :: ·)
      else none
termination_by s.length
decreasing_by all_goals (simp only [List.length_cons] at *; omega)

/-- The content of a text without escapes on one line. -/
def decodeLiteral (s : List Char) : Option (List Char) :=
  if s.all isLiteralChar then some s else none

/-- The content of a text without escapes on several lines. -/
def decodeMultiLiteral (s : List Char) : Option (List Char) :=
  match s with
  | [] => some []
  | c :: rest =>
    match afterNewline? (c :: rest) with
    | some ⟨rest', _⟩ => (decodeMultiLiteral rest').map ('\n' :: ·)
    | none => if isLiteralChar c then (decodeMultiLiteral rest).map (c :: ·) else none
termination_by s.length
decreasing_by all_goals (simp only [List.length_cons] at *; omega)

/-- A text of several lines without the end of line that it starts with. -/
def dropFirstNewline (s : List Char) : List Char :=
  match afterNewline? s with
  | some ⟨rest, _⟩ => rest
  | none => s

/-- A text that was read: its content and how it is written. -/
abbrev WrittenText : Type := List Char × List Char

/-- Reads a text that starts and ends with a double quote, on one line. -/
def readBasic (rest : List Char) : Read WrittenText rest :=
  (cutBasic rest).filterMap fun body =>
    (decodeBasic body).map fun content => (content, '"' :: body ++ ['"'])

/-- Reads a text that starts and ends with a single quote, on one line. -/
def readLiteral (rest : List Char) : Read WrittenText rest :=
  (cutLiteral rest).filterMap fun body =>
    (decodeLiteral body).map fun content => (content, '\'' :: body ++ ['\''])

/-- Reads a text between quotes. -/
def readText : (s : List Char) → Read WrittenText s
  | '"' :: '"' :: '"' :: rest =>
    Read.behind '"' (Read.behind '"' (Read.behind '"'
      ((cutMulti '"' true rest).filterMap fun body =>
        (decodeMultiBasic (dropFirstNewline body)).map fun content =>
          (content, "\"\"\"".toList ++ body ++ "\"\"\"".toList))))
  | '\'' :: '\'' :: '\'' :: rest =>
    Read.behind '\'' (Read.behind '\'' (Read.behind '\''
      ((cutMulti '\'' false rest).filterMap fun body =>
        (decodeMultiLiteral (dropFirstNewline body)).map fun content =>
          (content, "'''".toList ++ body ++ "'''".toList))))
  | '"' :: rest => Read.behind '"' (readBasic rest)
  | '\'' :: rest => Read.behind '\'' (readLiteral rest)
  | _ => none

/-! ### Numbers -/

/-- The digits that a text starts with, single underscores between them left out, and what
is left. -/
def takeDigits (isDigit : Char → Bool) : List Char → List Char × List Char
  | '_' :: d :: rest =>
    if isDigit d then
      let (more, rest') := takeDigits isDigit rest
      (d :: more, rest')
    else ([], '_' :: d :: rest)
  | d :: rest =>
    if isDigit d then
      let (more, rest') := takeDigits isDigit rest
      (d :: more, rest')
    else ([], d :: rest)
  | [] => ([], [])

/-- The digits of a number, which starts with one of them, and what is left. -/
def readDigits (isDigit : Char → Bool) : List Char → Option (List Char × List Char)
  | d :: rest =>
    if isDigit d then
      let (more, rest') := takeDigits isDigit rest
      some (d :: more, rest')
    else none
  | [] => none

/-- The number of a row of digits of a base. -/
def numberOf (base : Nat) (digits : List Char) : Nat :=
  digits.foldl (fun n c => base * n + (Text.hexValue? c).getD 0) 0

/-- One more than the largest whole number. -/
def integerLimit : Nat := 9223372036854775808

/-- A whole number of 64 bits with a sign. -/
def integer? (negative : Bool) (n : Nat) : Option Scalar :=
  if n < integerLimit then some (.integer (if negative then -n else n))
  else if negative ∧ n = integerLimit then some (.integer (-n))
  else none

/-- The sign that a text starts with, if it does, and what is left. -/
def splitSign : List Char → Bool × List Char
  | '-' :: rest => (true, rest)
  | '+' :: rest => (false, rest)
  | rest => (false, rest)

/-- A number in another base than ten. -/
def prefixed? (base : Nat) (isDigit : Char → Bool) (s : List Char) : Option Scalar :=
  match readDigits isDigit s with
  | some (digits, []) => integer? false (numberOf base digits)
  | _ => none

/-- The digits of the whole part of a decimal number: no zero stands before others. -/
def readWhole : List Char → Option (List Char × List Char)
  | '0' :: rest => some (['0'], rest)
  | s => readDigits Char.isDigit s

/-- The exponent that a text is, if it is one. -/
def exponent? : List Char → Option Int
  | [] => some 0
  | c :: rest =>
    if c = 'e' ∨ c = 'E' then
      let (negative, rest') := splitSign rest
      match readDigits Char.isDigit rest' with
      | some (digits, []) =>
        let n : Int := numberOf 10 digits
        some (if negative then -n else n)
      | _ => none
    else none

/-- A number with a point or an exponent; a positive one that is too large is none. -/
def float? (negative : Bool) (digits : List Char) (exponent : Int) : Option Scalar :=
  match Binary64.ofDecimal negative (numberOf 10 digits) exponent with
  | .infinite false => none
  | value => some (.float value)

/-- A number in base ten. -/
def decimal? (s : List Char) : Option Scalar :=
  let (negative, unsigned) := splitSign s
  if unsigned = "inf".toList then some (.float (.infinite negative))
  else if unsigned = "nan".toList then some (.float .notNumber)
  else
    match readWhole unsigned with
    | none => none
    | some (digits, []) => integer? negative (numberOf 10 digits)
    | some (digits, '.' :: rest) =>
      match readDigits Char.isDigit rest with
      | none => none
      | some (fraction, rest') =>
        (exponent? rest').bind fun e => float? negative (digits ++ fraction) (e - fraction.length)
    | some (digits, rest) => (exponent? rest).bind fun e => float? negative digits e

/-! ### Dates and times -/

/-- The number of two digits, if it lies in a range. -/
def pair? (least most : Nat) (a b : Char) : Option Nat :=
  if a.isDigit ∧ b.isDigit then
    let n := numberOf 10 [a, b]
    if least ≤ n ∧ n ≤ most then some n else none
  else none

/-- The number of days of a month. -/
def daysOfMonth (year month : Nat) : Nat :=
  if month = 2 then
    if year % 4 = 0 ∧ (year % 100 ≠ 0 ∨ year % 400 = 0) then 29 else 28
  else if month = 4 ∨ month = 6 ∨ month = 9 ∨ month = 11 then 30
  else 31

/-- What is left behind the date that a text starts with. -/
def afterDate? : List Char → Option (List Char)
  | y₁ :: y₂ :: y₃ :: y₄ :: '-' :: m₁ :: m₂ :: '-' :: d₁ :: d₂ :: rest =>
    if [y₁, y₂, y₃, y₄].all Char.isDigit then
      match pair? 1 12 m₁ m₂ with
      | none => none
      | some month =>
        match pair? 1 (daysOfMonth (numberOf 10 [y₁, y₂, y₃, y₄]) month) d₁ d₂ with
        | none => none
        | some _ => some rest
    else none
  | _ => none

/-- What is left behind the time that a text starts with. -/
def afterTime? : List Char → Option (List Char)
  | h₁ :: h₂ :: ':' :: m₁ :: m₂ :: ':' :: s₁ :: s₂ :: rest =>
    if (pair? 0 23 h₁ h₂).isSome ∧ (pair? 0 59 m₁ m₂).isSome ∧ (pair? 0 60 s₁ s₂).isSome then
      match rest with
      | '.' :: d :: rest' =>
        if d.isDigit then some (rest'.dropWhile Char.isDigit) else some rest
      | _ => some rest
    else none
  | _ => none

/-- The offset from universal time that a text is, if it is one. -/
def isOffset : List Char → Bool
  | ['Z'] => true
  | ['z'] => true
  | [sign, h₁, h₂, ':', m₁, m₂] =>
    (sign == '+' || sign == '-') && (pair? 0 23 h₁ h₂).isSome && (pair? 0 59 m₁ m₂).isSome
  | _ => false

/-- A time of day that may go on with an offset. -/
def isTimeWithOffset (s : List Char) : Bool :=
  match afterTime? s with
  | none => false
  | some rest => rest.isEmpty || isOffset rest

/-- A date, a time, or a date and a time with a letter between them. -/
def isMoment (s : List Char) : Bool :=
  match afterDate? s with
  | some [] => true
  | some (c :: rest) => (c == 'T' || c == 't') && isTimeWithOffset rest
  | none => afterTime? s == some []

/-! ### All of them -/

/-- A character of a value that is not between quotes. -/
def isPlainChar (c : Char) : Bool :=
  c.isAlphanum || c == '+' || c == '-' || c == '_' || c == '.' || c == ':'

/-- The value that a row of characters is. -/
def plain? (s : List Char) : Option Scalar :=
  if s = "true".toList then some (.boolean true)
  else if s = "false".toList then some (.boolean false)
  else if isMoment s then some .moment
  else
    match s with
    | '0' :: 'x' :: rest => prefixed? 16 (fun c => (Text.hexValue? c).isSome) rest
    | '0' :: 'o' :: rest => prefixed? 8 (fun c => '0' ≤ c && c ≤ '7') rest
    | '0' :: 'b' :: rest => prefixed? 2 (fun c => c == '0' || c == '1') rest
    | _ => decimal? s

/-- A value and how it is written. -/
abbrev WrittenScalar : Type := Scalar × List Char

/-- Reads a value that is not between quotes. A date may go on with a time behind a space. -/
def readPlain (s : List Char) : Read WrittenScalar s :=
  let word := s.takeWhile isPlainChar
  have hle : (s.dropWhile isPlainChar).length ≤ s.length := (List.dropWhile_suffix _).length_le
  if hlt : (s.dropWhile isPlainChar).length < s.length then
    match afterDate? word, h : s.dropWhile isPlainChar with
    | some [], ' ' :: rest =>
      let time := rest.takeWhile isPlainChar
      if isTimeWithOffset time then
        some ⟨((.moment, word ++ ' ' :: time), rest.dropWhile isPlainChar), by
          have : (rest.dropWhile isPlainChar).length ≤ rest.length :=
            (List.dropWhile_suffix _).length_le
          rw [h] at hlt
          simp only [List.length_cons] at hlt
          simp only
          omega⟩
      else some ⟨((.moment, word), s.dropWhile isPlainChar), hlt⟩
    | _, _ =>
      match plain? word with
      | none => none
      | some scalar => some ⟨((scalar, word), s.dropWhile isPlainChar), hlt⟩
  else none

/-- Reads a value without parts. -/
def readScalar (s : List Char) : Read WrittenScalar s :=
  match s with
  | [] => none
  | c :: rest =>
    if c = '"' ∨ c = '\'' then
      (readText (c :: rest)).map fun (content, written) =>
        (.text (String.ofList content), written)
    else readPlain (c :: rest)

end Ingot.Toml
