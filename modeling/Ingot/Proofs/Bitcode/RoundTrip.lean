import Mathlib.Data.List.Basic
import Mathlib.Tactic.Ring
import Ingot.Bitcode.Container

/-!
# Containers are read back

A container is written as stored blocks, and reading goes through the same blocks again: a
number of two bytes is read as it was written, whole bytes are, and so is a stored block behind
the bits that fill up the byte of its header. So **a stream inflates to the bytes it was made
of** (`inflate_deflate`), and a container decodes to the module that it was made of
(`decode_encode`).
-/

namespace Ingot.Bitcode

/-! ### Texts and bytes -/

theorem toList_loop_eq (bytes : ByteArray) (i : ℕ) (r : List UInt8) :
    ByteArray.toList.loop bytes i r = r.reverse ++ bytes.data.toList.drop i := by
  fun_induction ByteArray.toList.loop bytes i r with
  | case1 i r h ih =>
    have hi : i < bytes.data.toList.length := h
    have hget : bytes.get! i = bytes.data.toList[i] := by
      change bytes.data[i]! = _
      rw [getElem!_pos bytes.data i h]
      rfl
    rw [ih, List.drop_eq_getElem_cons hi, hget, List.reverse_cons, List.append_assoc]
    rfl
  | case2 i r h =>
    have hi : bytes.data.toList.length ≤ i := Nat.le_of_not_lt h
    rw [List.drop_eq_nil_of_le hi, List.append_nil]

theorem toList_eq (bytes : ByteArray) : bytes.toList = bytes.data.toList := by
  rw [ByteArray.toList, toList_loop_eq]
  rfl

theorem text_of_utf8 (text : String) : String.fromUTF8? text.toUTF8 = some text :=
  dif_pos text.isValidUTF8

/-! ### Numbers and bytes -/

theorem takeNumber_append (a b : ℕ) {bits rest rest' : List Bool} {low high : ℕ}
    (hlow : takeNumber a bits = some (low, rest)) (hhigh : takeNumber b rest = some (high, rest')) :
    takeNumber (a + b) bits = some (low + 2 ^ a * high, rest') := by
  induction a generalizing bits low with
  | zero =>
    cases hlow
    simpa using hhigh
  | succ a ih =>
    cases bits with
    | nil => cases hlow
    | cons bit bits =>
      rw [takeNumber] at hlow
      split at hlow
      · cases hlow
      · rename_i more left hmore
        cases hlow
        rw [Nat.add_right_comm, takeNumber, ih hmore]
        simp only [Option.some.injEq, Prod.mk.injEq, and_true, Nat.pow_succ]
        ring

theorem takeNumber_testBit (count n : ℕ) (rest : List Bool) :
    takeNumber count ((List.range count).map n.testBit ++ rest) = some (n % 2 ^ count, rest) := by
  induction count generalizing n with
  | zero => simp [takeNumber, Nat.mod_one]
  | succ count ih =>
    have hshift : n.testBit ∘ Nat.succ = (n / 2).testBit := by
      funext i
      exact Nat.testBit_succ n i
    have hbit : (n.testBit 0).toNat = n % 2 := by
      rw [Nat.testBit_zero]
      rcases Nat.mod_two_eq_zero_or_one n with h | h <;> simp [h]
    rw [List.range_succ_eq_map, List.map_cons, List.map_map, List.cons_append, takeNumber, hshift,
      ih]
    simp only [Option.some.injEq, Prod.mk.injEq, and_true]
    rw [hbit, Nat.pow_succ, Nat.mul_comm (2 ^ count) 2, Nat.mod_mul]

theorem bitsOf_cons (b : UInt8) (bytes : List UInt8) :
    bitsOf (b :: bytes) = bitsOfByte b ++ bitsOf bytes := rfl

theorem bitsOf_append (a b : List UInt8) : bitsOf (a ++ b) = bitsOf a ++ bitsOf b :=
  List.flatMap_append

theorem length_bitsOf (bytes : List UInt8) : (bitsOf bytes).length = 8 * bytes.length := by
  induction bytes with
  | nil => rfl
  | cons b bytes ih =>
    rw [bitsOf_cons, List.length_append, ih, bitsOfByte, List.length_map, List.length_range,
      List.length_cons]
    ring

theorem takeNumber_byte (b : UInt8) (rest : List Bool) :
    takeNumber 8 (bitsOfByte b ++ rest) = some (b.toNat, rest) := by
  rw [bitsOfByte, takeNumber_testBit, Nat.mod_eq_of_lt b.toNat_lt]

/-- **A number below 65536 is read from the pair of bytes it was written as.** -/
theorem takeNumber_pairOf {n : ℕ} (h : n < 65536) (rest : List Bool) :
    takeNumber 16 (bitsOf (pairOf n) ++ rest) = some (n, rest) := by
  have hlow : ((n % 256).toUInt8).toNat = n % 256 := by simp
  have hhigh : ((n / 256).toUInt8).toNat = n / 256 := by
    simp only [Nat.toUInt8_eq, UInt8.toNat_ofNat']
    omega
  rw [pairOf, bitsOf_cons, bitsOf_cons, List.append_assoc, List.append_assoc,
    takeNumber_append 8 8 (takeNumber_byte _ _) (takeNumber_byte _ _), hlow, hhigh]
  have hsum : n % 256 + 2 ^ 8 * (n / 256) = n := by omega
  rw [hsum]
  rfl

theorem takeBytes_bitsOf (bytes : List UInt8) (rest : List Bool) :
    takeBytes bytes.length (bitsOf bytes ++ rest) = some (bytes, rest) := by
  induction bytes with
  | nil => rfl
  | cons b bytes ih =>
    rw [List.length_cons, takeBytes, bitsOf_cons, List.append_assoc, takeNumber_byte]
    simp only [ih]
    simp

/-! ### Stored blocks -/

theorem alignToByte_bitsOf {filling : List Bool} (h : filling.length < 8) (bytes : List UInt8) :
    alignToByte (filling ++ bitsOf bytes) = bitsOf bytes := by
  have hmod : (filling ++ bitsOf bytes).length % 8 = filling.length := by
    rw [List.length_append, length_bitsOf]
    omega
  rw [alignToByte, hmod, List.drop_left]

theorem inflateStored_eq (out : Array UInt8) {bits rest : List Bool} {bytes : List UInt8}
    (hlength : bytes.length ≤ storedLimit)
    (hbits : alignToByte bits = bitsOf (pairOf bytes.length) ++
      (bitsOf (pairOf (storedLimit - bytes.length)) ++ (bitsOf bytes ++ rest))) :
    ∃ h, inflateStored out bits = some ⟨(out ++ bytes.toArray, rest), h⟩ := by
  have hle : rest.length ≤ bits.length := by
    have hdrop : (alignToByte bits).length ≤ bits.length := by simp [alignToByte]
    rw [hbits] at hdrop
    simp only [List.length_append] at hdrop
    omega
  have hlimit : storedLimit = 65535 := rfl
  have hfirst := takeNumber_pairOf (n := bytes.length) (by omega)
    (bitsOf (pairOf (storedLimit - bytes.length)) ++ (bitsOf bytes ++ rest))
  have hsecond := takeNumber_pairOf (n := storedLimit - bytes.length) (by omega)
    (bitsOf bytes ++ rest)
  rw [← hbits] at hfirst
  unfold inflateStored
  split
  · rename_i heq
    rw [hfirst] at heq
    cases heq
  · rename_i length rest₁ heq
    rw [hfirst] at heq
    cases heq
    split
    · rename_i heq
      rw [hsecond] at heq
      cases heq
    · rename_i complement rest₂ heq
      rw [hsecond] at heq
      cases heq
      rw [if_pos (by omega)]
      split
      · rename_i heq
        rw [takeBytes_bitsOf] at heq
        cases heq
      · rename_i read rest₃ heq
        rw [takeBytes_bitsOf] at heq
        cases heq
        exact ⟨hle, rfl⟩

/-- The bits of the first byte of a stored block: three that tell what comes, and five that
fill up the byte. -/
theorem bitsOfByte_header (last : Bool) :
    bitsOfByte last.toUInt8 = [last, false, false] ++ List.replicate 5 false := by
  cases last with
  | true => decide
  | false => decide

theorem inflateBlocks_storedBlock (out : Array UInt8) (last : Bool) {bytes : List UInt8}
    (hlength : bytes.length ≤ storedLimit) (more : List UInt8) :
    inflateBlocks out (bitsOf (storedBlock last bytes ++ more)) =
      if last then some (out ++ bytes.toArray)
      else inflateBlocks (out ++ bytes.toArray) (bitsOf more) := by
  have hheader : takeNumber 3 (bitsOf (storedBlock last bytes ++ more)) =
      some (last.toNat, List.replicate 5 false ++ bitsOf (pairOf bytes.length ++
        (pairOf (storedLimit - bytes.length) ++ (bytes ++ more)))) := by
    rw [storedBlock, List.cons_append, List.cons_append, List.cons_append, bitsOf_cons,
      bitsOfByte_header]
    simp only [List.append_assoc]
    cases last with
    | true => rfl
    | false => rfl
  have hkind : last.toNat / 2 = 0 := by cases last <;> rfl
  have halign : alignToByte (List.replicate 5 false ++ bitsOf (pairOf bytes.length ++
      (pairOf (storedLimit - bytes.length) ++ (bytes ++ more)))) =
      bitsOf (pairOf bytes.length) ++
        (bitsOf (pairOf (storedLimit - bytes.length)) ++ (bitsOf bytes ++ bitsOf more)) := by
    rw [alignToByte_bitsOf (by decide)]
    simp only [bitsOf_append]
  obtain ⟨hle, hstored⟩ := inflateStored_eq out hlength halign
  -- the reader asks in turn for the header and for the body of the block
  rw [inflateBlocks]
  split
  · rename_i heq
    rw [hheader] at heq
    cases heq
  · rename_i header rest heq
    rw [hheader] at heq
    cases heq
    have hbody : inflateBody (last.toNat / 2) out (List.replicate 5 false ++
        bitsOf (pairOf bytes.length ++ (pairOf (storedLimit - bytes.length) ++ (bytes ++ more)))) =
          some ⟨(out ++ bytes.toArray, bitsOf more), hle⟩ := by
      rw [hkind]
      exact hstored
    split
    · rename_i heq
      rw [hbody] at heq
      cases heq
    · rename_i out' rest' h' heq
      rw [hbody] at heq
      cases heq
      cases last with
      | true => rfl
      | false => rfl

/-! ### Streams -/

theorem inflateBlocks_deflate (out : Array UInt8) (bytes behind : List UInt8) :
    inflateBlocks out (bitsOf (deflate bytes ++ behind)) = some (out ++ bytes.toArray) := by
  fun_induction deflate bytes generalizing out with
  | case1 bytes hshort => exact inflateBlocks_storedBlock out true hshort behind
  | case2 bytes hlong ih =>
    have htake : (bytes.take storedLimit).length ≤ storedLimit := List.length_take_le ..
    rw [List.append_assoc, inflateBlocks_storedBlock out false htake, ih]
    simp

/-- **A stream inflates to the bytes that it was made of**, whatever stands behind it. -/
theorem inflate_deflate (bytes behind : List UInt8) :
    inflate (deflate bytes ++ behind) = some bytes := by
  rw [inflate, inflateBlocks_deflate]
  simp

/-! ### Numbers in the header -/

@[simp] theorem length_bytesLittleEndian (count n : ℕ) :
    (bytesLittleEndian count n).length = count := by
  induction count generalizing n with
  | zero => rfl
  | succ count ih => rw [bytesLittleEndian, List.length_cons, ih]

theorem numberOfBytes_bytesLittleEndian {count n : ℕ} (h : n < 256 ^ count) :
    numberOfBytes (bytesLittleEndian count n) = n := by
  induction count generalizing n with
  | zero =>
    rw [bytesLittleEndian, numberOfBytes]
    omega
  | succ count ih =>
    have hhigh : n / 256 < 256 ^ count := by
      rw [Nat.div_lt_iff_lt_mul (by decide), ← Nat.pow_succ]
      exact h
    have hlow : ((n % 256).toUInt8).toNat = n % 256 := by simp
    rw [bytesLittleEndian, numberOfBytes, ih hhigh, hlow]
    omega

/-- Rows of bytes of one length that say the same number are the same. -/
theorem numberOfBytes_injective {a b : List UInt8} (hlength : a.length = b.length)
    (h : numberOfBytes a = numberOfBytes b) : a = b := by
  induction a generalizing b with
  | nil => exact (List.length_eq_zero_iff.1 hlength.symm).symm
  | cons x a ih =>
    cases b with
    | nil => cases hlength
    | cons y b =>
      simp only [numberOfBytes] at h
      have hx := x.toNat_lt
      have hy := y.toNat_lt
      have hlow : x = y := UInt8.toNat_inj.1 (by omega)
      have hhigh : a = b := ih (by simpa using hlength) (by omega)
      rw [hlow, hhigh]

/-! ### What a container is -/

/-- The bytes of a text. -/
def bytesOf (text : String) : List UInt8 := text.toUTF8.data.toList

theorem length_bytesOf (text : String) : (bytesOf text).length = text.utf8ByteSize := rfl

theorem fromUTF8?_eq_some {bytes : List UInt8} {text : String} :
    String.fromUTF8? ⟨bytes.toArray⟩ = some text ↔ bytes = bytesOf text := by
  constructor
  · intro h
    unfold String.fromUTF8? at h
    split at h
    · cases h
      rfl
    · cases h
  · rintro rfl
    exact text_of_utf8 text

/-- The length of the text that a container declares. -/
def declaredLength (bytes : List UInt8) : ℕ := numberOfBytes ((bytes.drop 6).take 8)

/-- What the bytes of a container of a text have to be like. -/
structure IsContainer (bytes : List UInt8) (text : String) : Prop where
  long : headerLength ≤ bytes.length
  marked : bytes.take 4 = mark
  version : (bytes.drop 4).take 2 = [1, 0]
  inflates : inflate (bytes.drop headerLength) = some (bytesOf text)
  declared : declaredLength bytes = text.utf8ByteSize

theorem version_iff {bytes : List UInt8} (hlong : headerLength ≤ bytes.length) :
    numberOfBytes ((bytes.drop 4).take 2) = formatVersion ↔ (bytes.drop 4).take 2 = [1, 0] := by
  constructor
  · intro h
    refine numberOfBytes_injective ?_ h
    simp only [List.length_take, List.length_drop, List.length_cons, List.length_nil]
    simp only [headerLength] at hlong
    omega
  · intro h
    rw [h]
    rfl

/-- **What is accepted is what a container has to be like, and nothing else.** -/
theorem decode_eq_ok_iff {identifier : String} {bytes : List UInt8} {m : Module}
    (hroom : declaredLength bytes ≤ roomLimit) :
    decode identifier bytes = .ok m ↔ m.identifier = identifier ∧ IsContainer bytes m.text := by
  have hroom' : ¬numberOfBytes ((bytes.drop 6).take 8) > roomLimit := Nat.not_lt.2 hroom
  constructor
  · intro h
    unfold decode at h
    split at h
    · cases h
    · rename_i hheader
      obtain ⟨hlong, hmark⟩ := not_or.1 hheader
      have hlong := Nat.not_lt.1 hlong
      split at h
      · cases h
      · rename_i hversion
        dsimp only at h
        rw [if_neg hroom'] at h
        split at h
        · cases h
        · rename_i inflated hinflate
          split at h
          · cases h
          · rename_i text htext
            obtain rfl := fromUTF8?_eq_some.1 htext
            split at h
            · rename_i hlength
              cases h
              exact ⟨rfl, hlong, not_not.1 hmark, (version_iff hlong).1 (not_not.1 hversion),
                hinflate, hlength.symm⟩
            · cases h
  · rintro ⟨rfl, h⟩
    have hheader : ¬(bytes.length < headerLength ∨ bytes.take 4 ≠ mark) :=
      not_or.2 ⟨Nat.not_lt.2 h.long, not_not.2 h.marked⟩
    rw [decode, if_neg hheader, if_neg (not_not.2 ((version_iff h.long).2 h.version))]
    dsimp only
    rw [if_neg hroom', h.inflates]
    dsimp only
    rw [fromUTF8?_eq_some.2 rfl]
    exact if_pos h.declared.symm

/-- The header of a text and a stream that inflates to its bytes are a container of it. -/
theorem isContainer_of_inflates {text : String} {stream : List UInt8}
    (hroom : text.utf8ByteSize ≤ roomLimit) (h : inflate stream = some (bytesOf text)) :
    IsContainer (header text.utf8ByteSize ++ stream) text := by
  have hlength : (bytesLittleEndian 8 text.utf8ByteSize).length = 8 := length_bytesLittleEndian ..
  have hheader : header text.utf8ByteSize ++ stream =
      0x49 :: 0x4F :: 0x4E :: 0x42 :: 1 :: 0 :: (bytesLittleEndian 8 text.utf8ByteSize ++ stream) := by
    simp [header, mark, bytesLittleEndian, formatVersion]
  have hdrop : (header text.utf8ByteSize ++ stream).drop 6 =
      bytesLittleEndian 8 text.utf8ByteSize ++ stream := by rw [hheader]; rfl
  refine ⟨?_, ?_, ?_, ?_, ?_⟩
  · rw [hheader]
    simp only [List.length_cons, List.length_append, hlength, headerLength]
    omega
  · rw [hheader]
    rfl
  · rw [hheader]
    rfl
  · rw [headerLength, ← List.drop_drop (i := 8) (j := 6), hdrop, List.drop_left' hlength]
    exact h
  · rw [declaredLength, hdrop, List.take_left' hlength]
    apply numberOfBytes_bytesLittleEndian
    unfold roomLimit at hroom
    omega

/-- **A container decodes to the module that it was made of**, as long as room can be made for
the text. -/
theorem decode_encode (m : Module) (hroom : m.text.utf8ByteSize ≤ roomLimit) :
    decode m.identifier (encode m) = .ok m := by
  have hencode : encode m = header m.text.utf8ByteSize ++ deflate (bytesOf m.text) := by
    simp only [encode, toList_eq]
    rfl
  have hinflate : inflate (deflate (bytesOf m.text)) = some (bytesOf m.text) := by
    rw [← List.append_nil (deflate _), inflate_deflate]
  have hcontainer := isContainer_of_inflates hroom hinflate
  have hdeclared := hcontainer.declared.trans_le hroom
  rw [hencode]
  exact (decode_eq_ok_iff hdeclared).2 ⟨rfl, hcontainer⟩

end Ingot.Bitcode
