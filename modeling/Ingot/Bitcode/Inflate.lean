import Ingot.Bitcode.Bits
import Ingot.Bitcode.PrefixCode

/-!
# Inflating

`inflate` reads a stream of the deflate format, RFC 1951: blocks of bytes that are stored
as they are, or of symbols of a code that is fixed or sent along. A symbol is a byte, the
end of the block, or the length of a copy of earlier bytes. Bytes behind the last block are
not looked at. The bytes before the first one count as zeros, so a copy may reach back to
them.
-/

namespace Ingot.Bitcode

/-! ### Copies of earlier bytes -/

/-- Appends copies of the byte that stands `distance` bytes back, one after the other. -/
def copyBack (distance : Nat) : Nat → Array UInt8 → Array UInt8
  | 0, out => out
  | more + 1, out =>
    copyBack distance more
      (out.push (if distance ≤ out.size then out.getD (out.size - distance) 0 else 0))

/-- The shortest copy of each symbol from 257 on, and how many bits tell the excess. -/
def copyLengths : List (Nat × Nat) :=
  [(3, 0), (4, 0), (5, 0), (6, 0), (7, 0), (8, 0), (9, 0), (10, 0), (11, 1), (13, 1), (15, 1),
   (17, 1), (19, 2), (23, 2), (27, 2), (31, 2), (35, 3), (43, 3), (51, 3), (59, 3), (67, 4),
   (83, 4), (99, 4), (115, 4), (131, 5), (163, 5), (195, 5), (227, 5), (258, 0)]

/-- The shortest distance of each symbol, and how many bits tell the excess. -/
def copyDistances : List (Nat × Nat) :=
  [(1, 0), (2, 0), (3, 0), (4, 0), (5, 1), (7, 1), (9, 2), (13, 2), (17, 3), (25, 3), (33, 4),
   (49, 4), (65, 5), (97, 5), (129, 6), (193, 6), (257, 7), (385, 7), (513, 8), (769, 8),
   (1025, 9), (1537, 9), (2049, 10), (3073, 10), (4097, 11), (6145, 11), (8193, 12),
   (12289, 12), (16385, 13), (24577, 13)]

/-- The symbols that start a copy. -/
def copySymbols : List Nat := List.range' 257 29

/-- What was read from bits, and the bits behind it, no more than there were. -/
abbrev Taken (α : Type) (bits : List Bool) : Type :=
  Option { read : α × List Bool // read.2.length ≤ bits.length }

/-- Reads the excess over the shortest number of a symbol, if it has one. -/
def takeExcess (entry : Option (Nat × Nat)) (bits : List Bool) : Taken Nat bits :=
  match entry with
  | none => none
  | some (base, extra) =>
    match h : takeNumber extra bits with
    | none => none
    | some (excess, rest) => some ⟨(base + excess, rest), by
        have := length_of_takeNumber h; simp only; omega⟩

/-- Reads the length and the distance of a copy behind the symbol that starts it. -/
def takeCopy (distances : Code) (symbol : Nat) (bits : List Bool) : Taken (Nat × Nat) bits :=
  match takeExcess ((copySymbols.zip copyLengths).lookup symbol) bits with
  | none => none
  | some ⟨(length, rest), h⟩ =>
    match distances.take? rest with
    | none => none
    | some ⟨(symbol', rest'), h'⟩ =>
      match takeExcess copyDistances[symbol']? rest' with
      | none => none
      | some ⟨(distance, rest''), h''⟩ =>
        some ⟨((length, distance), rest''), by simp only at *; omega⟩

/-! ### Blocks -/

/-- The number of symbols that stand for a byte. -/
def byteSymbols : Nat := 256

/-- The symbol that ends a block. -/
def endOfBlock : Nat := 256

/-- Reads symbols up to the end of their block. -/
def inflateSymbols (literals distances : Code) (out : Array UInt8) (bits : List Bool) :
    Taken (Array UInt8) bits :=
  match literals.take? bits with
  | none => none
  | some ⟨(symbol, rest), h⟩ =>
    if symbol < byteSymbols then
      match inflateSymbols literals distances (out.push symbol.toUInt8) rest with
      | none => none
      | some ⟨read, h'⟩ => some ⟨read, Nat.le_trans h' (Nat.le_of_lt h)⟩
    else if symbol = endOfBlock then some ⟨(out, rest), Nat.le_of_lt h⟩
    else
      match takeCopy distances symbol rest with
      | none => none
      | some ⟨((length, distance), rest'), hcopy⟩ =>
        have hlt : rest'.length < bits.length := Nat.lt_of_le_of_lt hcopy h
        match inflateSymbols literals distances (copyBack distance length out) rest' with
        | none => none
        | some ⟨read, h'⟩ => some ⟨read, Nat.le_trans h' (Nat.le_of_lt hlt)⟩
termination_by bits.length
decreasing_by
  · exact h
  · exact hlt

/-- Reads a block of stored bytes: the length, its complement, and the bytes. -/
def inflateStored (out : Array UInt8) (bits : List Bool) : Taken (Array UInt8) bits :=
  match h₁ : takeNumber 16 (alignToByte bits) with
  | none => none
  | some (length, rest₁) =>
    match h₂ : takeNumber 16 rest₁ with
    | none => none
    | some (complement, rest₂) =>
      if length + complement = 65535 then
        match h₃ : takeBytes length rest₂ with
        | none => none
        | some (bytes, rest₃) => some ⟨(out ++ bytes.toArray, rest₃), by
            have := length_of_takeNumber h₁
            have := length_of_takeNumber h₂
            have := length_of_takeBytes h₃
            have : (alignToByte bits).length ≤ bits.length := by simp [alignToByte]
            simp only
            omega⟩
      else none

/-- The code of bytes and lengths that needs not be sent. -/
def fixedLiterals : Option Code :=
  Code.ofLengths? (List.replicate 144 8 ++ List.replicate 112 9 ++ List.replicate 24 7
    ++ List.replicate 8 8) false

/-- The code of distances that needs not be sent. -/
def fixedDistances : Option Code := Code.ofLengths? (List.replicate 32 5) false

/-- The order in which the lengths of the words for lengths are sent. -/
def lengthOrder : List Nat := [16, 17, 18, 0, 8, 7, 9, 6, 10, 5, 11, 4, 12, 3, 13, 2, 14, 1, 15]

/-- Reads `count` numbers of three bits. -/
def takeTriples : Nat → (bits : List Bool) → Taken (List Nat) bits
  | 0, bits => some ⟨([], bits), Nat.le_refl _⟩
  | count + 1, bits =>
    match h : takeNumber 3 bits with
    | none => none
    | some (n, rest) =>
      match takeTriples count rest with
      | none => none
      | some ⟨(more, rest'), h'⟩ => some ⟨(n :: more, rest'), by
          have := length_of_takeNumber h; simp only at *; omega⟩

/-- Reads lengths of words until there are `wanted`; a symbol from sixteen on repeats the
last length, or zero, as often as the bits behind it tell. -/
def takeLengths (code : Code) (wanted : Nat) (lengths : Array Nat) (bits : List Bool) :
    Taken (List Nat) bits :=
  if lengths.size = wanted then some ⟨(lengths.toList, bits), Nat.le_refl _⟩
  else if lengths.size > wanted then none
  else
    match code.take? bits with
    | none => none
    | some ⟨(symbol, rest), h⟩ =>
      if symbol < 16 then
        match takeLengths code wanted (lengths.push symbol) rest with
        | none => none
        | some ⟨read, h'⟩ => some ⟨read, Nat.le_trans h' (Nat.le_of_lt h)⟩
      else
        let (value, least, extra) : Option Nat × Nat × Nat :=
          if symbol = 16 then (lengths.back?, 3, 2)
          else if symbol = 17 then (some 0, 3, 3)
          else (some 0, 11, 7)
        match value, h₁ : takeNumber extra rest with
        | some value, some (excess, rest₁) =>
          have hlt : rest₁.length < bits.length := by
            have := length_of_takeNumber h₁; simp only at h; omega
          match takeLengths code wanted
              (lengths ++ Array.replicate (least + excess) value) rest₁ with
          | none => none
          | some ⟨read, h'⟩ => some ⟨read, Nat.le_trans h' (Nat.le_of_lt hlt)⟩
        | _, _ => none
termination_by bits.length

/-- Reads the two codes that are sent with a block. -/
def takeCodes (bits : List Bool) : Taken (Code × Code) bits :=
  match h : takeNumber 14 bits with
  | none => none
  | some (counts, rest) =>
    let literalCount := 257 + counts % 32
    let distanceCount := 1 + counts / 32 % 32
    let lengthCount := 4 + counts / 1024
    if literalCount > 286 ∨ distanceCount > 30 then none
    else
      match takeTriples lengthCount rest with
      | none => none
      | some ⟨(triples, rest₁), h₁⟩ =>
        let sent := lengthOrder.zip triples
        let lengths := (List.range 19).map fun symbol => (sent.lookup symbol).getD 0
        match Code.ofLengths? lengths false with
        | none => none
        | some code =>
          match takeLengths code (literalCount + distanceCount) #[] rest₁ with
          | none => none
          | some ⟨(all, rest₂), h₂⟩ =>
            match Code.ofLengths? (all.take literalCount) true,
                Code.ofLengths? (all.drop literalCount) true with
            | some literals, some distances => some ⟨((literals, distances), rest₂), by
                have := length_of_takeNumber h; simp only at *; omega⟩
            | _, _ => none

/-- Reads a block of symbols with the codes sent along. -/
def inflateSent (out : Array UInt8) (bits : List Bool) : Taken (Array UInt8) bits :=
  match takeCodes bits with
  | none => none
  | some ⟨((literals, distances), rest), h⟩ =>
    match inflateSymbols literals distances out rest with
    | none => none
    | some ⟨read, h'⟩ => some ⟨read, Nat.le_trans h' h⟩

/-- Reads a block of symbols with the codes that need not be sent. -/
def inflateFixed (out : Array UInt8) (bits : List Bool) : Taken (Array UInt8) bits :=
  match fixedLiterals, fixedDistances with
  | some literals, some distances => inflateSymbols literals distances out bits
  | _, _ => none

/-- Reads the body of a block of some kind. -/
def inflateBody (kind : Nat) (out : Array UInt8) (bits : List Bool) : Taken (Array UInt8) bits :=
  match kind with
  | 0 => inflateStored out bits
  | 1 => inflateFixed out bits
  | 2 => inflateSent out bits
  | _ => none

/-! ### Streams -/

/-- Reads blocks up to the last one. -/
def inflateBlocks (out : Array UInt8) (bits : List Bool) : Option (Array UInt8) :=
  match h : takeNumber 3 bits with
  | none => none
  | some (header, rest) =>
    match inflateBody (header / 2) out rest with
    | none => none
    | some ⟨(out', rest'), h'⟩ =>
      have : rest'.length < bits.length := by
        have := length_of_takeNumber h; simp only at h'; omega
      if header % 2 = 1 then some out' else inflateBlocks out' rest'
termination_by bits.length

/-- The bytes that a stream stands for, if it is a whole stream. -/
def inflate (stream : List UInt8) : Option (List UInt8) :=
  (inflateBlocks #[] (bitsOf stream)).map Array.toList

end Ingot.Bitcode
