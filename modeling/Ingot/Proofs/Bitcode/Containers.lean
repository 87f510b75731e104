import Ingot.Proofs.Bitcode.RoundTrip

/-!
# Containers as a codec

Nothing that is said of containers hangs on how their streams are made: a `Deflater` makes them
in any way that inflates again, whatever stands behind. **The bytes of a container are told
exactly, the module is read back from them, what is accepted is known exactly, and no byte before
the stream can be changed without being noticed** (`container_codec`).
-/

namespace Ingot.Bitcode

/-! ### Deflaters -/

/-- A way to make streams: they inflate to what they were made of, whatever stands behind. -/
structure Deflater where
  /-- The stream of some bytes. -/
  stream : List UInt8 → List UInt8
  inflates : ∀ bytes behind, inflate (stream bytes ++ behind) = some bytes

/-- Streams of stored blocks. -/
def Deflater.stored : Deflater := ⟨deflate, inflate_deflate⟩

/-- The container of a module. -/
def Deflater.encode (D : Deflater) (m : Module) : List UInt8 :=
  header m.text.utf8ByteSize ++ D.stream (bytesOf m.text)

theorem encode_eq_stored (m : Module) : encode m = Deflater.stored.encode m := by
  simp only [encode, toList_eq]
  rfl

theorem Deflater.isContainer_encode (D : Deflater) {m : Module} (hroom : m.text.utf8ByteSize ≤ roomLimit)
    (behind : List UInt8) : IsContainer (D.encode m ++ behind) m.text := by
  rw [Deflater.encode, List.append_assoc]
  exact isContainer_of_inflates hroom (D.inflates _ _)

/-- The bytes of a number, one by one. -/
theorem bytesLittleEndian_eq (count n : ℕ) : bytesLittleEndian count n =
    (List.range count).map fun i => (n / 256 ^ i % 256).toUInt8 := by
  induction count generalizing n with
  | zero => rfl
  | succ count ih =>
    rw [bytesLittleEndian, ih, List.range_succ_eq_map, List.map_cons, List.map_map]
    simp only [Nat.pow_zero, Nat.div_one, Function.comp_def, Nat.pow_succ', Nat.div_div_eq_div_mul]

/-! ### Damage to the header -/

/-- What is wrong with a container in which a byte before the stream is another one. -/
def headerFault (i : ℕ) : DecodeFault :=
  if i < 4 then .notContainer else if i < 6 then .unknownVersion else .wrongLength

/-- A part of a row of bytes with another byte in it is another part. -/
theorem take_drop_set_ne (start count : ℕ) {bytes : List UInt8} {i : ℕ} {b : UInt8}
    (hlong : i < bytes.length) (hb : bytes[i]? ≠ some b) (hstart : start ≤ i)
    (hend : i < start + count) :
    ((bytes.set i b).drop start).take count ≠ (bytes.drop start).take count := by
  intro h
  have hat := congrArg (·[i - start]?) h
  have hi : start + (i - start) = i := by omega
  simp only [List.getElem?_take, List.getElem?_drop, hi, List.getElem?_set_self hlong] at hat
  rw [if_pos (by omega), if_pos (by omega)] at hat
  exact hb hat.symm

/-- A part of a row of bytes that does not reach to a place is the same if the byte there is
another one. -/
theorem take_drop_set_of_le (start count : ℕ) (bytes : List UInt8) {i : ℕ} (b : UInt8)
    (hend : start + count ≤ i) :
    ((bytes.set i b).drop start).take count = (bytes.drop start).take count := by
  apply List.ext_getElem?
  intro j
  simp only [List.getElem?_take, List.getElem?_drop]
  split
  · rw [List.getElem?_set_ne (by omega)]
  · rfl

section Refused

variable {bytes : List UInt8} (identifier : String)

theorem decode_of_mark_ne (h : bytes.take 4 ≠ mark) :
    decode identifier bytes = .error .notContainer := if_pos (.inr h)

theorem decode_of_version_ne (hlong : headerLength ≤ bytes.length) (hmark : bytes.take 4 = mark)
    (h : (bytes.drop 4).take 2 ≠ [1, 0]) :
    decode identifier bytes = .error .unknownVersion := by
  have hheader := not_or.2 ⟨Nat.not_lt.2 hlong, not_not.2 hmark⟩
  rw [decode, if_neg hheader, if_pos (mt (version_iff hlong).1 h)]

theorem decode_of_length_ne {text : String} (hlong : headerLength ≤ bytes.length)
    (hmark : bytes.take 4 = mark) (hversion : (bytes.drop 4).take 2 = [1, 0])
    (hroom : declaredLength bytes ≤ roomLimit)
    (hinflate : inflate (bytes.drop headerLength) = some (bytesOf text))
    (h : declaredLength bytes ≠ text.utf8ByteSize) :
    decode identifier bytes = .error .wrongLength := by
  have hheader := not_or.2 ⟨Nat.not_lt.2 hlong, not_not.2 hmark⟩
  have hroom' : ¬numberOfBytes ((bytes.drop 6).take 8) > roomLimit := Nat.not_lt.2 hroom
  rw [decode, if_neg hheader, if_neg (not_not.2 ((version_iff hlong).2 hversion))]
  dsimp only
  rw [if_neg hroom', hinflate]
  dsimp only
  rw [fromUTF8?_eq_some.2 rfl]
  exact if_neg fun heq => h heq.symm

end Refused

/-- A container with another byte before the stream is refused, for a reason that tells where
the byte is. -/
theorem IsContainer.decode_set {bytes : List UInt8} {text : String} (h : IsContainer bytes text)
    {i : ℕ} {b : UInt8} (hi : i < headerLength) (hb : bytes[i]? ≠ some b)
    (hroom : declaredLength (bytes.set i b) ≤ roomLimit) (identifier : String) :
    decode identifier (bytes.set i b) = .error (headerFault i) := by
  have hi' : i < bytes.length := hi.trans_le h.long
  have hlong : headerLength ≤ (bytes.set i b).length := by
    rw [List.length_set]
    exact h.long
  simp only [headerLength] at hi
  by_cases hmark : i < 4
  · have hne := take_drop_set_ne 0 4 hi' hb (by omega) (by omega)
    rw [List.drop_zero, List.drop_zero, h.marked] at hne
    rw [decode_of_mark_ne identifier hne, headerFault, if_pos hmark]
  have hsame := take_drop_set_of_le 0 4 bytes b (Nat.not_lt.1 hmark)
  rw [List.drop_zero, List.drop_zero, h.marked] at hsame
  by_cases hversion : i < 6
  · have hne := take_drop_set_ne 4 2 hi' hb (by omega) (by omega)
    rw [h.version] at hne
    rw [decode_of_version_ne identifier hlong hsame hne, headerFault, if_neg hmark,
      if_pos hversion]
  have hsame' := take_drop_set_of_le 4 2 bytes b (Nat.not_lt.1 hversion)
  rw [h.version] at hsame'
  have hdeclared : declaredLength (bytes.set i b) ≠ text.utf8ByteSize := by
    rw [← h.declared]
    intro heq
    refine take_drop_set_ne 6 8 hi' hb (by omega) (by omega) ?_
    refine numberOfBytes_injective ?_ heq
    simp only [List.length_take, List.length_drop, List.length_set]
  have hstream : inflate ((bytes.set i b).drop headerLength) = some (bytesOf text) := by
    rw [List.drop_set, if_pos (by simp only [headerLength]; omega)]
    exact h.inflates
  rw [decode_of_length_ne identifier hlong hsame hsame' hroom hstream hdeclared, headerFault,
    if_neg hmark, if_neg hversion]

/-! ### The codec -/

/-- **A container is the letters `IONB`, the version, the length of the text and its stream; it
decodes to the module it was made of; only containers are accepted; and with another byte before
the stream a container is refused.** -/
theorem container_codec :
    (∀ m : Module, encode m = Deflater.stored.encode m) ∧
    (∀ (D : Deflater) (m : Module), m.text.utf8ByteSize ≤ roomLimit →
      D.encode m = bytesOf "IONB" ++ [1, 0]
        ++ (List.range 8).map (fun i => ((bytesOf m.text).length / 256 ^ i % 256).toUInt8)
        ++ D.stream (bytesOf m.text) ∧
      ∀ behind, decode m.identifier (D.encode m ++ behind) = .ok m) ∧
    (∀ identifier bytes, declaredLength bytes ≤ roomLimit → ∀ m : Module,
      decode identifier bytes = .ok m ↔ m.identifier = identifier ∧ IsContainer bytes m.text) ∧
    ∀ identifier bytes m, decode identifier bytes = .ok m → declaredLength bytes ≤ roomLimit →
      ∀ i b, i < headerLength → bytes[i]? ≠ some b →
        declaredLength (bytes.set i b) ≤ roomLimit →
        decode identifier (bytes.set i b) = .error (headerFault i) := by
  refine ⟨encode_eq_stored, fun D m hroom => ⟨?_, fun behind => ?_⟩,
    fun identifier bytes hroom m => ?_, ?_⟩
  · have hmark : bytesOf "IONB" = mark := by decide
    have hversion : bytesLittleEndian 2 formatVersion = [1, 0] := by decide
    rw [Deflater.encode, header, hmark, hversion, bytesLittleEndian_eq, length_bytesOf]
  · have hcontainer := D.isContainer_encode hroom behind
    have hdeclared := hcontainer.declared.trans_le hroom
    exact (decode_eq_ok_iff hdeclared).2 ⟨rfl, hcontainer⟩
  · exact decode_eq_ok_iff hroom
  · intro identifier bytes m hdecode hroom i b hi hb hroom'
    have hcontainer := ((decode_eq_ok_iff hroom).1 hdecode).2
    exact hcontainer.decode_set hi hb hroom' identifier

/-- The container of `ret` is read back also with a byte behind it, is accepted for what it is,
and is refused once it declares another length. -/
theorem container_codec_ret : (⟨"main", "ret"⟩ : Module).text.utf8ByteSize ≤ roomLimit ∧
    decode "main" (Deflater.stored.encode ⟨"main", "ret"⟩ ++ [7]) = .ok ⟨"main", "ret"⟩ ∧
    IsContainer [73, 79, 78, 66, 1, 0, 3, 0, 0, 0, 0, 0, 0, 0, 1, 3, 0, 252, 255, 114, 101, 116]
      "ret" ∧
    decode "main" [73, 79, 78, 66, 1, 0, 4, 0, 0, 0, 0, 0, 0, 0, 1, 3, 0, 252, 255, 114, 101, 116] =
      .error .wrongLength := by
  obtain ⟨-, hencode, haccept, hdamage⟩ := container_codec
  have hroom : (⟨"main", "ret"⟩ : Module).text.utf8ByteSize ≤ roomLimit := by decide
  have hbytes : Deflater.stored.encode ⟨"main", "ret"⟩ =
      [73, 79, 78, 66, 1, 0, 3, 0, 0, 0, 0, 0, 0, 0, 1, 3, 0, 252, 255, 114, 101, 116] := by
    decide +kernel
  obtain ⟨-, hback⟩ := hencode .stored ⟨"main", "ret"⟩ hroom
  have hsame := hback []
  rw [List.append_nil, hbytes] at hsame
  refine ⟨hroom, hback [7], ((haccept _ _ (by decide) _).1 hsame).2, ?_⟩
  exact hdamage "main" _ _ hsame (by decide) 6 4 (by decide) (by decide) (by decide)

end Ingot.Bitcode
