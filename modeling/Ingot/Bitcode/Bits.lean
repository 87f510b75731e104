/-!
# Bits of bytes

A row of bytes as a row of bits, the lowest bit of a byte first, and numbers read from it.
-/

namespace Ingot.Bitcode

/-- The bits of a byte, the lowest first. -/
def bitsOfByte (b : UInt8) : List Bool := (List.range 8).map b.toNat.testBit

/-- The bits of a row of bytes. -/
def bitsOf (bytes : List UInt8) : List Bool := bytes.flatMap bitsOfByte

/-- Reads a number of `count` bits, the lowest first; the answer has the bits behind it. -/
def takeNumber : Nat → List Bool → Option (Nat × List Bool)
  | 0, bits => some (0, bits)
  | _ + 1, [] => none
  | count + 1, b :: bits =>
    match takeNumber count bits with
    | none => none
    | some (high, rest) => some (b.toNat + 2 * high, rest)

/-- A number takes its bits and no more. -/
theorem length_of_takeNumber {count n : Nat} {bits rest : List Bool}
    (h : takeNumber count bits = some (n, rest)) : bits.length = count + rest.length := by
  induction count generalizing bits n with
  | zero => simp_all [takeNumber]
  | succ count ih =>
    cases bits with
    | nil => simp [takeNumber] at h
    | cons b bits =>
      simp only [takeNumber] at h
      split at h
      · simp at h
      · rename_i high rest' heq
        simp only [Option.some.injEq, Prod.mk.injEq] at h
        obtain ⟨_, rfl⟩ := h
        have := ih heq
        simp only [List.length_cons]
        omega

/-- The bits from the next whole byte on. -/
def alignToByte (bits : List Bool) : List Bool := bits.drop (bits.length % 8)

/-- Reads whole bytes; the answer has the bits behind them. -/
def takeBytes : Nat → List Bool → Option (List UInt8 × List Bool)
  | 0, bits => some ([], bits)
  | count + 1, bits =>
    match takeNumber 8 bits with
    | none => none
    | some (byte, rest) =>
      match takeBytes count rest with
      | none => none
      | some (bytes, rest') => some (byte.toUInt8 :: bytes, rest')

theorem length_of_takeBytes {count : Nat} {bytes : List UInt8} {bits rest : List Bool}
    (h : takeBytes count bits = some (bytes, rest)) : rest.length ≤ bits.length := by
  induction count generalizing bits bytes with
  | zero => simp_all [takeBytes]
  | succ count ih =>
    simp only [takeBytes] at h
    split at h
    · simp at h
    · rename_i byte rest₁ h₁
      split at h
      · simp at h
      · rename_i bytes' rest₂ h₂
        simp only [Option.some.injEq, Prod.mk.injEq] at h
        obtain ⟨_, rfl⟩ := h
        have := length_of_takeNumber h₁
        have := ih h₂
        omega

end Ingot.Bitcode
