import Ingot.Bitcode.Inflate

/-!
# Streams of stored blocks

The simplest stream that inflates to given bytes: the bytes as they are, in blocks of at
most 65535.
-/

namespace Ingot.Bitcode

/-- The most bytes a stored block can hold. -/
def storedLimit : Nat := 65535

/-- The two bytes of a number below 65536, the lower one first. -/
def pairOf (n : Nat) : List UInt8 := [(n % 256).toUInt8, (n / 256).toUInt8]

/-- A stored block. -/
def storedBlock (last : Bool) (bytes : List UInt8) : List UInt8 :=
  last.toUInt8 :: pairOf bytes.length ++ pairOf (storedLimit - bytes.length) ++ bytes

/-- The stream of stored blocks that inflates to the bytes. -/
def deflate (bytes : List UInt8) : List UInt8 :=
  if bytes.length ≤ storedLimit then storedBlock true bytes
  else storedBlock false (bytes.take storedLimit) ++ deflate (bytes.drop storedLimit)
termination_by bytes.length
decreasing_by simp only [storedLimit, List.length_drop] at *; omega

end Ingot.Bitcode
