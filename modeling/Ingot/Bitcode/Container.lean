import Ingot.Bitcode.Stored

/-!
# Containers

The binary form of a module: four letters that mark it, a version, the length of the
module's text in bytes, and the text as a deflate stream. `encode` writes containers and
`decode` reads them; `decode` accepts any stream that inflates to a text of the declared
length.
-/

namespace Ingot.Bitcode

/-- A generated module: its name and its text. -/
structure Module where
  /-- The name of the module. -/
  identifier : String
  /-- The text of the module. -/
  text : String
  deriving DecidableEq, Repr

/-- The bytes that mark a container: `IONB`. -/
def mark : List UInt8 := [0x49, 0x4F, 0x4E, 0x42]

/-- The version of the container format. -/
def formatVersion : Nat := 1

/-- The number of bytes before the stream. -/
def headerLength : Nat := 14

/-- The lowest bytes of a number, the lowest of them first. -/
def bytesLittleEndian : Nat → Nat → List UInt8
  | 0, _ => []
  | count + 1, n => (n % 256).toUInt8 :: bytesLittleEndian count (n / 256)

/-- The number of a row of bytes, the lowest of them first. -/
def numberOfBytes : List UInt8 → Nat
  | [] => 0
  | b :: rest => b.toNat + 256 * numberOfBytes rest

/-- The bytes before the stream of a text of some length. -/
def header (length : Nat) : List UInt8 :=
  mark ++ bytesLittleEndian 2 formatVersion ++ bytesLittleEndian 8 length

/-- The container of a module. -/
def encode (m : Module) : List UInt8 :=
  let bytes := m.text.toUTF8.toList
  header bytes.length ++ deflate bytes

/-- Why bytes are not a container. -/
inductive DecodeFault where
  /-- The mark is missing, or the header is not complete. -/
  | notContainer
  /-- The version is not the known one. -/
  | unknownVersion
  /-- No room can be made for a text of the declared length. -/
  | noRoom
  /-- The stream is broken or unfinished. -/
  | brokenStream
  /-- The stream inflates to bytes that are no text. -/
  | notText
  /-- The stream inflates to a text of another length than declared. -/
  | wrongLength
  deriving DecidableEq, Repr

/-- The largest length for which room can be made. -/
def roomLimit : Nat := 9223372036854775807

/-- Reads a container as a module of the given name. -/
def decode (identifier : String) (bytes : List UInt8) : Except DecodeFault Module :=
  if bytes.length < headerLength ∨ bytes.take 4 ≠ mark then .error .notContainer
  else if numberOfBytes ((bytes.drop 4).take 2) ≠ formatVersion then .error .unknownVersion
  else
    let declared := numberOfBytes ((bytes.drop 6).take 8)
    if declared > roomLimit then .error .noRoom
    else
      match inflate (bytes.drop headerLength) with
      | none => .error .brokenStream
      | some inflated =>
        match String.fromUTF8? ⟨inflated.toArray⟩ with
        | none => .error .notText
        | some text =>
          if inflated.length = declared then .ok ⟨identifier, text⟩ else .error .wrongLength

/-- The words for the program's own reasons to refuse a container; a broken stream has
none of them. -/
def DecodeFault.message : DecodeFault → String
  | notContainer => "not an Ion bitcode container"
  | unknownVersion => "unsupported bitcode container version"
  | noRoom => "capacity overflow"
  | brokenStream => "corrupt deflate stream"
  | notText => "stream did not contain valid UTF-8"
  | wrongLength => "bitcode container length mismatch"

end Ingot.Bitcode
