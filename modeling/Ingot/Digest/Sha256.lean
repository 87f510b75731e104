import Ingot.Text.Hex

/-!
# The SHA-256 digest

The digest of a message of bytes as FIPS 180-4 defines it: the message is padded to whole
blocks of sixteen words, each block is stretched to sixty-four words, and sixty-four rounds
mix them into a state of eight words.
-/

namespace Ingot.Digest

/-! ### Words -/

/-- A word turned to the right. -/
def rotateRight (w n : UInt32) : UInt32 := (w >>> n) ||| (w <<< (32 - n))

/-- The word of four bytes, the first of them the highest. -/
def wordOfBytes (bytes : List UInt8) : UInt32 :=
  bytes.foldl (fun w b => (w <<< 8) ||| b.toUInt32) 0

/-- The lowest bytes of a number, the highest of them first. -/
def bytesBigEndian : Nat → Nat → List UInt8
  | 0, _ => []
  | count + 1, n => bytesBigEndian count (n / 256) ++ [n.toUInt8]

/-- The words of the rounds: the fractions of the cube roots of sixty-four primes. -/
def roundWords : List UInt32 :=
  [0x428a2f98, 0x71374491, 0xb5c0fbcf, 0xe9b5dba5, 0x3956c25b, 0x59f111f1, 0x923f82a4, 0xab1c5ed5,
   0xd807aa98, 0x12835b01, 0x243185be, 0x550c7dc3, 0x72be5d74, 0x80deb1fe, 0x9bdc06a7, 0xc19bf174,
   0xe49b69c1, 0xefbe4786, 0x0fc19dc6, 0x240ca1cc, 0x2de92c6f, 0x4a7484aa, 0x5cb0a9dc, 0x76f988da,
   0x983e5152, 0xa831c66d, 0xb00327c8, 0xbf597fc7, 0xc6e00bf3, 0xd5a79147, 0x06ca6351, 0x14292967,
   0x27b70a85, 0x2e1b2138, 0x4d2c6dfc, 0x53380d13, 0x650a7354, 0x766a0abb, 0x81c2c92e, 0x92722c85,
   0xa2bfe8a1, 0xa81a664b, 0xc24b8b70, 0xc76c51a3, 0xd192e819, 0xd6990624, 0xf40e3585, 0x106aa070,
   0x19a4c116, 0x1e376c08, 0x2748774c, 0x34b0bcb5, 0x391c0cb3, 0x4ed8aa4a, 0x5b9cca4f, 0x682e6ff3,
   0x748f82ee, 0x78a5636f, 0x84c87814, 0x8cc70208, 0x90befffa, 0xa4506ceb, 0xbef9a3f7, 0xc67178f2]

/-! ### Blocks -/

/-- A message with a one bit, zero bits and its length in bits, in whole blocks. -/
def padded (message : List UInt8) : List UInt8 :=
  let size := message.length
  message ++ 0x80 :: List.replicate ((119 - size % 64) % 64) 0 ++ bytesBigEndian 8 (8 * size)

/-- The words of a block, stretched by as many more as there is fuel. -/
def stretched : Nat → Array UInt32 → Array UInt32
  | 0, words => words
  | more + 1, words =>
    let at_ (back : Nat) : UInt32 := words.getD (words.size - back) 0
    let low := at_ 15
    let high := at_ 2
    let mixLow := rotateRight low 7 ^^^ rotateRight low 18 ^^^ (low >>> 3)
    let mixHigh := rotateRight high 17 ^^^ rotateRight high 19 ^^^ (high >>> 10)
    stretched more (words.push (at_ 16 + mixLow + at_ 7 + mixHigh))

/-- The state of the digest: eight words. -/
structure State where
  /-- The first word. -/
  a : UInt32
  /-- The second word. -/
  b : UInt32
  /-- The third word. -/
  c : UInt32
  /-- The fourth word. -/
  d : UInt32
  /-- The fifth word. -/
  e : UInt32
  /-- The sixth word. -/
  f : UInt32
  /-- The seventh word. -/
  g : UInt32
  /-- The eighth word. -/
  h : UInt32

namespace State

/-- The state before the first block: the fractions of the square roots of eight primes. -/
def start : State :=
  ⟨0x6a09e667, 0xbb67ae85, 0x3c6ef372, 0xa54ff53a, 0x510e527f, 0x9b05688c, 0x1f83d9ab, 0x5be0cd19⟩

/-- One round, with the word of the round added to the word of the block. -/
def round (s : State) (word : UInt32) : State :=
  let high := rotateRight s.e 6 ^^^ rotateRight s.e 11 ^^^ rotateRight s.e 25
  let choice := (s.e &&& s.f) ^^^ (~~~s.e &&& s.g)
  let first := s.h + high + choice + word
  let low := rotateRight s.a 2 ^^^ rotateRight s.a 13 ^^^ rotateRight s.a 22
  let majority := (s.a &&& s.b) ^^^ (s.a &&& s.c) ^^^ (s.b &&& s.c)
  ⟨first + (low + majority), s.a, s.b, s.c, s.d + first, s.e, s.f, s.g⟩

/-- Two states added word by word. -/
def add (s t : State) : State :=
  ⟨s.a + t.a, s.b + t.b, s.c + t.c, s.d + t.d, s.e + t.e, s.f + t.f, s.g + t.g, s.h + t.h⟩

/-- The words of a state, in order. -/
def words (s : State) : List UInt32 := [s.a, s.b, s.c, s.d, s.e, s.f, s.g, s.h]

/-- The state after a block of sixteen words. -/
def afterBlock (s : State) (block : List UInt32) : State :=
  let words := (stretched 48 block.toArray).toList
  s.add ((List.zipWith (· + ·) roundWords words).foldl round s)

end State

/-- A list cut into pieces of a positive size; the last piece may be shorter. -/
def pieces {α : Type} (size : Nat) (items : List α) : List (List α) :=
  match items with
  | [] => []
  | item :: rest => (item :: rest.take (size - 1)) :: pieces size (rest.drop (size - 1))
termination_by items.length
decreasing_by simp only [List.length_cons, List.length_drop]; omega

/-- The digest of a message: thirty-two bytes. -/
def sha256 (message : List UInt8) : List UInt8 :=
  let words := (pieces 4 (padded message)).map wordOfBytes
  let state := (pieces 16 words).foldl State.afterBlock .start
  state.words.flatMap fun w => bytesBigEndian 4 w.toNat

/-- The digest of a message as sixty-four hexadecimal digits. -/
def sha256Hex (message : ByteArray) : String := Text.hexOfBytes (sha256 message.toList)

/-- The longest beginning of a text that takes no more than some number of bytes. -/
def takeBytes : Nat → List Char → List Char
  | _, [] => []
  | room, c :: rest =>
    if c.utf8Size ≤ room then c :: takeBytes (room - c.utf8Size) rest else []

/-- A digest as it is shown to the user: its first twelve bytes. -/
def short (digest : String) : String := String.ofList (takeBytes 12 digest.toList)

end Ingot.Digest
