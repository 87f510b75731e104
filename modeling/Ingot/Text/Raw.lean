/-!
# Raw names

To the system a name or a path is a row of bytes. Most are the UTF-8 of a text, but not all
are. Here they are texts, in which a byte that is in no character is one of the last 128
characters: these stand for the bytes from `80` on. All that is asked of a raw name is asked
of its bytes: how long it is, which of two names comes first, and which text it is, if it is
one.

So a text is the raw name of itself, unless it has one of these characters; in their place
are those for their own bytes (`ofText`). A name that is no text is shown with a mark for
each row of bytes that starts a character in vain (`shown`).
-/

namespace Ingot.Raw

/-! ### Bytes -/

/-- The first of the characters that stand for bytes. -/
def firstStray : Nat := 0x10FF80

/-- The byte that a character stands for, if it stands for one. -/
def stray? (c : Char) : Option UInt8 :=
  if c.toNat < firstStray then none else some (UInt8.ofNat c.toNat)

/-- The character that stands for a byte. -/
def strayOf (b : UInt8) : Char := Char.ofNat (0x10FF00 + b.toNat)

/-- The bytes of a character of a name. -/
def bytesOf (c : Char) : List UInt8 :=
  match stray? c with
  | some b => [b]
  | none => String.utf8EncodeChar c

/-- The bytes of a name. -/
def bytes (name : String) : List UInt8 := name.toList.flatMap bytesOf

/-- The number of bytes of a name. -/
def size (name : String) : Nat := (bytes name).length

theorem toUTF8_eq (text : String) :
    text.toUTF8 = ⟨(text.toList.flatMap String.utf8EncodeChar).toArray⟩ :=
  calc text.toUTF8 = text.toList.utf8Encode := String.utf8Encode_toList.symm
    _ = ⟨(text.toList.flatMap String.utf8EncodeChar).toArray⟩ := ByteArray.ext List.data_toByteArray

theorem length_bytesOf_le (c : Char) : (bytesOf c).length ≤ (String.utf8EncodeChar c).length := by
  unfold bytesOf
  split
  · exact List.length_pos_iff.2 String.utf8EncodeChar_ne_nil
  · exact Nat.le_refl _

theorem length_flatMap_bytesOf_le (chars : List Char) :
    (chars.flatMap bytesOf).length ≤ (chars.flatMap String.utf8EncodeChar).length := by
  induction chars with
  | nil => exact Nat.le_refl _
  | cons c chars ih =>
    rw [List.flatMap_cons, List.flatMap_cons, List.length_append, List.length_append]
    exact Nat.add_le_add (length_bytesOf_le c) ih

/-- A name is not longer than the text that stands for it. -/
theorem size_le_utf8ByteSize (name : String) : size name ≤ name.utf8ByteSize :=
  calc size name ≤ (name.toList.flatMap String.utf8EncodeChar).length :=
      length_flatMap_bytesOf_le name.toList
    _ = name.toUTF8.size := by rw [toUTF8_eq, ByteArray.size, List.size_toArray]

-- Nearly all names are far below the limits; then their characters need not be looked at.
instance (limit : Nat) (name : String) : Decidable (limit < size name) :=
  if h : limit < name.utf8ByteSize then Nat.decLt limit (size name)
  else .isFalse fun hlt => h (Nat.lt_of_lt_of_le hlt (size_le_utf8ByteSize name))

/-- The bytes of a name as numbers. -/
def numbers (name : String) : List Nat := (bytes name).map UInt8.toNat

/-- Whether a name comes before another one by its bytes, or is the same. -/
def le (a b : String) : Bool :=
  decide (numbers a < numbers b ∨ numbers a = numbers b ∧ a ≤ b)

/-! ### Texts -/

/-- A character of a text, spelled in a name. -/
def spell (c : Char) : List Char :=
  match stray? c with
  | some _ => (String.utf8EncodeChar c).map strayOf
  | none => [c]

-- Paths of files are compared often where the unit of a file is not known; to see that they are
-- the same there is no need to spell them.
/-- The name that a text is. -/
@[irreducible]
def ofText (text : String) : String := String.ofList (text.toList.flatMap spell)

/-- The text that a name is, if its bytes are one. -/
def text? (name : String) : Option String := String.fromUTF8? ⟨(bytes name).toArray⟩

/-! ### Names that are no texts -/

/-- A character of several bytes, some of which are read. -/
structure Begun where
  /-- The bytes that are read, the last one first. -/
  read : List UInt8
  /-- The number that they make. -/
  number : Nat
  /-- How many bytes are missing behind the next one. -/
  missing : Nat
  /-- The least that the next one can be. -/
  least : Nat
  /-- The greatest that the next one can be. -/
  greatest : Nat

/-- What a byte comes to. -/
inductive Reading where
  /-- A character. -/
  | char (c : Char)
  /-- A part of one. -/
  | part (begun : Begun)

/-- What a byte begins. -/
def begin? (b : UInt8) : Option Reading :=
  let n := b.toNat
  if n < 0x80 then some (.char (Char.ofNat n))
  else if n < 0xC2 then none
  else if n < 0xE0 then some (.part ⟨[b], n % 32, 0, 0x80, 0xBF⟩)
  else if n < 0xF0 then
    some (.part ⟨[b], n % 16, 1, if n = 0xE0 then 0xA0 else 0x80, if n = 0xED then 0x9F else 0xBF⟩)
  else if n < 0xF5 then
    some (.part ⟨[b], n % 8, 2, if n = 0xF0 then 0x90 else 0x80, if n = 0xF4 then 0x8F else 0xBF⟩)
  else none

/-- What a byte makes of a character that is begun, if it goes on with it. -/
def Begun.next? (begun : Begun) (b : UInt8) : Option Reading :=
  let n := b.toNat
  if n < begun.least ∨ begun.greatest < n then none
  else
    let number := begun.number * 64 + n % 64
    match begun.missing with
    | 0 => some (.char (Char.ofNat number))
    | missing + 1 => some (.part ⟨b :: begun.read, number, missing, 0x80, 0xBF⟩)

/-- A character, or bytes that are in none. -/
inductive Piece where
  /-- A character. -/
  | char (c : Char)
  /-- Bytes that begin a character in vain, or a byte that can begin none. -/
  | stray (bytes : List UInt8)

/-- The stray bytes of a character that is begun. -/
def strays (begun : Option Begun) : List Piece :=
  begun.toList.map fun begun => .stray begun.read.reverse

/-- The pieces that end with a byte, and the character that is begun then. -/
def piecesAt (begun : Option Begun) (b : UInt8) : List Piece × Option Begun :=
  match begun.bind (·.next? b) with
  | some (.char c) => ([.char c], none)
  | some (.part longer) => ([], some longer)
  | none =>
    match begin? b with
    | some (.char c) => (strays begun ++ [.char c], none)
    | some (.part other) => (strays begun, some other)
    | none => (strays begun ++ [.stray [b]], none)

/-- The pieces of a row of bytes, when a character may be begun already. -/
def pieces (begun : Option Begun) : List UInt8 → List Piece
  | [] => strays begun
  | b :: rest => (piecesAt begun b).1 ++ pieces (piecesAt begun b).2 rest

/-- The name that has some bytes. -/
def ofBytes (bytes : List UInt8) : String :=
  String.ofList ((pieces none bytes).flatMap fun
    | .char c => spell c
    | .stray bytes => bytes.map strayOf)

/-- What is shown in the place of stray bytes. -/
def mark : Char := Char.ofNat 0xFFFD

/-- A piece as it is shown. -/
def Piece.shown : Piece → Char
  | char c => c
  | stray _ => mark

/-- The text that a name is shown as: itself, if it is a text. -/
def shown (name : String) : String :=
  match text? name with
  | some text => text
  | none => String.ofList ((pieces none (bytes name)).map Piece.shown)

end Ingot.Raw
