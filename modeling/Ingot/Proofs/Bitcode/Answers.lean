import Ingot.Proofs.Bitcode.Containers

/-!
# When decoding answers

Room for the text of a container is made before anything is known of its stream, as much as the
header declares. The header is not to be trusted: a length of 2⁶³ or more is none that room can be
made for, and then there is neither a module nor a fault that is reported
(`decode_not_always_answers`).

**That is the case exactly if the header is complete and of the known version and its last byte, the
highest of the length, is 128 or more** (`decode_answers`). For all other bytes there is an answer,
and a length that is not that of the text is reported as such. It is taken for granted that there is
memory for every length that room can be made for at all.
-/

namespace Ingot.Bitcode

/-! ### Numbers of bytes -/

theorem numberOfBytes_append (front behind : List UInt8) :
    numberOfBytes (front ++ behind) =
      numberOfBytes front + 256 ^ front.length * numberOfBytes behind := by
  induction front with
  | nil => simp [numberOfBytes]
  | cons b front ih =>
    rw [List.cons_append, numberOfBytes, numberOfBytes, ih, List.length_cons, Nat.pow_succ]
    ring

theorem numberOfBytes_lt (bytes : List UInt8) : numberOfBytes bytes < 256 ^ bytes.length := by
  induction bytes with
  | nil => exact Nat.one_pos
  | cons b bytes ih =>
    have hb : b.toNat < 256 := b.toNat_lt
    rw [numberOfBytes, List.length_cons, Nat.pow_succ]
    omega

/-! ### Headers -/

/-- Bytes with a complete header of the known version. -/
structure HasHeader (bytes : List UInt8) : Prop where
  long : headerLength ≤ bytes.length
  marked : bytes.take 4 = mark
  version : (bytes.drop 4).take 2 = [1, 0]

/-- The last byte of a header, which is the highest of the declared length. -/
def highestByte (bytes : List UInt8) : UInt8 := bytes.getD 13 0

/-- The declared length is above the limit if its highest byte is. -/
theorem roomLimit_lt_iff {bytes : List UInt8} (hlong : headerLength ≤ bytes.length) :
    roomLimit < declaredLength bytes ↔ 128 ≤ highestByte bytes := by
  have hlow := numberOfBytes_lt ((bytes.drop 6).take 7)
  have hlength : ((bytes.drop 6).take 7).length = 7 := by
    simp only [headerLength] at hlong
    rw [List.length_take, List.length_drop]
    omega
  have hlast : (bytes.drop 6)[7]? = some (highestByte bytes) := by
    have hat : 13 < bytes.length := hlong
    rw [List.getElem?_drop, highestByte, List.getD_eq_getElem?_getD,
      List.getElem?_eq_getElem hat]
    rfl
  have hdeclared : declaredLength bytes =
      numberOfBytes ((bytes.drop 6).take 7) + 256 ^ 7 * (highestByte bytes).toNat := by
    rw [declaredLength, List.take_add_one, hlast, numberOfBytes_append, hlength]
    rfl
  rw [hlength] at hlow
  rw [hdeclared, roomLimit, UInt8.le_iff_toNat_le]
  simp only [UInt8.reduceToNat]
  omega

/-! ### Answers -/

section Answers

variable {bytes : List UInt8} (identifier : String)

/-- Without such a header nothing else is looked at. -/
theorem decode_of_not_hasHeader (h : ¬ HasHeader bytes) :
    decode identifier bytes = .error .notContainer ∨
      decode identifier bytes = .error .unknownVersion := by
  by_cases hlong : headerLength ≤ bytes.length
  · by_cases hmark : bytes.take 4 = mark
    · have hversion : (bytes.drop 4).take 2 ≠ [1, 0] := fun hversion => h ⟨hlong, hmark, hversion⟩
      exact .inr (decode_of_version_ne identifier hlong hmark hversion)
    · exact .inl (decode_of_mark_ne identifier hmark)
  · exact .inl (if_pos (.inl (Nat.not_le.1 hlong)))

/-- Behind a header, room is made before the stream is looked at. -/
theorem HasHeader.decode_eq (h : HasHeader bytes) :
    decode identifier bytes =
      if declaredLength bytes > roomLimit then .error .noRoom
      else
        match inflate (bytes.drop headerLength) with
        | none => .error .brokenStream
        | some inflated =>
          match String.fromUTF8? ⟨inflated.toArray⟩ with
          | none => .error .notText
          | some text =>
            if inflated.length = declaredLength bytes then .ok ⟨identifier, text⟩
            else .error .wrongLength := by
  have hheader : ¬(bytes.length < headerLength ∨ bytes.take 4 ≠ mark) :=
    not_or.2 ⟨Nat.not_lt.2 h.long, not_not.2 h.marked⟩
  rw [decode, if_neg hheader, if_neg (not_not.2 ((version_iff h.long).2 h.version))]
  rfl

/-- A stream of a text is compared with the declared length. -/
theorem HasHeader.decode_text (h : HasHeader bytes) (hroom : declaredLength bytes ≤ roomLimit)
    {text : String} (hinflate : inflate (bytes.drop headerLength) = some (bytesOf text)) :
    decode identifier bytes =
      if text.utf8ByteSize = declaredLength bytes then .ok ⟨identifier, text⟩
      else .error .wrongLength := by
  rw [h.decode_eq, if_neg (Nat.not_lt.2 hroom), hinflate]
  dsimp only
  rw [fromUTF8?_eq_some.2 rfl, length_bytesOf]

/-- A stream that is none of a text is refused for what it is. -/
theorem HasHeader.decode_no_text (h : HasHeader bytes) (hroom : declaredLength bytes ≤ roomLimit)
    (hno : ∀ text, inflate (bytes.drop headerLength) ≠ some (bytesOf text)) :
    decode identifier bytes = .error .brokenStream ∨
      decode identifier bytes = .error .notText := by
  rw [h.decode_eq, if_neg (Nat.not_lt.2 hroom)]
  cases hinflate : inflate (bytes.drop headerLength) with
  | none => exact .inl rfl
  | some inflated =>
    cases htext : String.fromUTF8? ⟨inflated.toArray⟩ with
    | none =>
      right
      dsimp only
      rw [htext]
    | some text =>
      obtain rfl := fromUTF8?_eq_some.1 htext
      exact absurd hinflate (hno text)

/-- Where room can be made, there is an answer. -/
theorem HasHeader.decode_ne_noRoom (h : HasHeader bytes)
    (hroom : declaredLength bytes ≤ roomLimit) : decode identifier bytes ≠ .error .noRoom := by
  by_cases htext : ∃ text, inflate (bytes.drop headerLength) = some (bytesOf text)
  · obtain ⟨text, hinflate⟩ := htext
    rw [h.decode_text identifier hroom hinflate]
    split <;> simp
  · rcases h.decode_no_text identifier hroom (not_exists.1 htext) with hother | hother
    · simp [hother]
    · simp [hother]

end Answers

/-- **Decoding ends without an answer exactly if the header is complete and of the known version and
its last byte is 128 or more, whatever stands behind it.** For all other bytes there is an answer:
without such a header that these are no container, or not of the known version; for a stream of a
text the module, or if the text is of another length than declared just that; and for any other
stream that it is broken or no text. -/
theorem decode_answers (identifier : String) (bytes : List UInt8) :
    (decode identifier bytes = .error .noRoom ↔ HasHeader bytes ∧ 128 ≤ highestByte bytes) ∧
    (¬ HasHeader bytes → decode identifier bytes = .error .notContainer ∨
      decode identifier bytes = .error .unknownVersion) ∧
    (HasHeader bytes → highestByte bytes < 128 →
      (∀ text, inflate (bytes.drop headerLength) = some (bytesOf text) →
        decode identifier bytes = if text.utf8ByteSize = declaredLength bytes
          then .ok ⟨identifier, text⟩ else .error .wrongLength) ∧
      ((∀ text, inflate (bytes.drop headerLength) ≠ some (bytesOf text)) →
        decode identifier bytes = .error .brokenStream ∨
          decode identifier bytes = .error .notText)) := by
  have hlow (h : HasHeader bytes) (hbyte : highestByte bytes < 128) :
      declaredLength bytes ≤ roomLimit := by
    rw [← Nat.not_lt, roomLimit_lt_iff h.long, UInt8.not_le]
    exact hbyte
  refine ⟨⟨fun hdecode => ?_, ?_⟩, decode_of_not_hasHeader identifier, fun h hbyte =>
    ⟨fun text => h.decode_text identifier (hlow h hbyte),
      h.decode_no_text identifier (hlow h hbyte)⟩⟩
  · by_cases h : HasHeader bytes
    · refine ⟨h, ?_⟩
      by_contra hbyte
      exact h.decode_ne_noRoom identifier (hlow h (UInt8.not_le.1 hbyte)) hdecode
    · rcases decode_of_not_hasHeader identifier h with hother | hother
      · cases hother.symm.trans hdecode
      · cases hother.symm.trans hdecode
  · rintro ⟨h, hbyte⟩
    rw [h.decode_eq, if_pos ((roomLimit_lt_iff h.long).2 hbyte)]

/-- The stream of `ret` behind a header with the given byte as the highest of its length, and else
the highest length there is. -/
def retDeclaring (highest : UInt8) : List UInt8 :=
  [73, 79, 78, 66, 1, 0, 255, 255, 255, 255, 255, 255, 255, highest,
    1, 3, 0, 252, 255, 114, 101, 116]

theorem inflate_ret (highest : UInt8) :
    inflate ((retDeclaring highest).drop headerLength) = some (bytesOf "ret") := by
  have hstream : (retDeclaring highest).drop headerLength = deflate (bytesOf "ret") ++ [] := by
    show [1, 3, 0, 252, 255, 114, 101, 116] = _
    decide +kernel
  rw [hstream]
  exact inflate_deflate _ _

theorem hasHeader_retDeclaring (highest : UInt8) : HasHeader (retDeclaring highest) :=
  ⟨(by decide : 14 ≤ 22), rfl, rfl⟩

/-- With the highest byte at its limit the wrong length is reported; above it there is no answer. -/
theorem decode_answers_ret :
    decode "m" (retDeclaring 127) = .error .wrongLength ∧
    decode "m" (retDeclaring 128) = .error .noRoom := by
  obtain ⟨-, -, hlow⟩ := decode_answers "m" (retDeclaring 127)
  obtain ⟨hhigh, -, -⟩ := decode_answers "m" (retDeclaring 128)
  obtain ⟨htext, -⟩ := hlow (hasHeader_retDeclaring 127) (by decide)
  refine ⟨?_, hhigh.2 ⟨hasHeader_retDeclaring 128, by decide⟩⟩
  rw [htext "ret" (inflate_ret 127), if_neg (by decide)]

/-- **A container of `ret` that declares the highest length there is has no answer**: neither are
all bytes answered, nor is each length that is not that of the text reported. -/
theorem decode_not_always_answers :
    decode "m" (retDeclaring 255) = .error .noRoom ∧
    (¬ ∀ identifier bytes, decode identifier bytes ≠ .error .noRoom) ∧
    ¬ ∀ identifier bytes text, HasHeader bytes →
      inflate (bytes.drop headerLength) = some (bytesOf text) →
      declaredLength bytes ≠ text.utf8ByteSize →
      decode identifier bytes = .error .wrongLength := by
  have hnone : decode "m" (retDeclaring 255) = .error .noRoom := by
    rw [(hasHeader_retDeclaring 255).decode_eq, if_pos (by decide)]
  refine ⟨hnone, fun hall => hall _ _ hnone, fun hall => ?_⟩
  have hwrong := hall "m" (retDeclaring 255) "ret" (hasHeader_retDeclaring 255) (inflate_ret 255)
    (by decide)
  rw [hnone] at hwrong
  cases hwrong

end Ingot.Bitcode
