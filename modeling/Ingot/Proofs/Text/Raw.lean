import Mathlib.Data.List.Lex
import Mathlib.Data.Prod.Lex
import Mathlib.Data.String.Basic
import Mathlib.Tactic.Ring
import Ingot.Text.Raw

/-!
# What raw names say

A text is spelled as the name with its bytes (`bytes_ofText`), so it is the text of that name
(`text?_ofText`) and is shown as itself (`shown_ofText`); and names of two texts are the same only
if the texts are (`ofText_injective`). Of the names that are no texts only this is needed:
**the characters below `80` in what is shown of a name are those in the name** (`mem_shown_iff`),
so it has slashes, dots and ends of lines where the name has them.
-/

namespace Ingot.Raw

/-! ### The order -/

theorem le_iff {a b : String} : le a b = true ↔ toLex (numbers a, a) ≤ toLex (numbers b, b) := by
  rw [le, decide_eq_true_iff, Prod.Lex.toLex_le_toLex]

theorem le_total (a b : String) : (le a b || le b a) = true := by
  rw [Bool.or_eq_true, le_iff, le_iff]
  exact LinearOrder.le_total _ _

theorem le_trans {a b c : String} (hab : le a b = true) (hbc : le b c = true) : le a c = true :=
  le_iff.2 (Preorder.le_trans _ _ _ (le_iff.1 hab) (le_iff.1 hbc))

theorem eq_of_le {a b : String} (hab : le a b = true) (hba : le b a = true) : a = b :=
  congrArg (fun p => (ofLex p).2) (PartialOrder.le_antisymm _ _ (le_iff.1 hab) (le_iff.1 hba))

/-! ### The bytes of characters -/

theorem utf8EncodeChar_of_lt {c : Char} (h : c.toNat < 0x80) :
    String.utf8EncodeChar c = [UInt8.ofNat c.toNat] :=
  if_pos (Nat.le_of_lt_succ h)

theorem le_toNat_ofNat {m k : ℕ} (hm : 0 < m) (hk : 0x80 ≤ k) (hmk : m + k ≤ 0x100) (n : ℕ) :
    0x80 ≤ (UInt8.ofNat (n % m + k)).toNat := by
  have hlt := Nat.mod_lt n hm
  rw [UInt8.toNat_ofNat', Nat.mod_eq_of_lt (by omega)]
  omega

/-- All bytes of a character from `80` on are from `80` on. -/
theorem le_of_mem_utf8EncodeChar {c : Char} {b : UInt8} (h : 0x80 ≤ c.toNat)
    (hb : b ∈ String.utf8EncodeChar c) : 0x80 ≤ b.toNat := by
  have hlong : ¬c.val.toNat ≤ 0x7f := Nat.not_le.2 h
  unfold String.utf8EncodeChar at hb
  dsimp only at hb
  rw [if_neg hlong] at hb
  split_ifs at hb
  · simp only [List.mem_cons, List.not_mem_nil, or_false] at hb
    rcases hb with rfl | rfl <;> exact le_toNat_ofNat (by decide) (by decide) (by decide) _
  · simp only [List.mem_cons, List.not_mem_nil, or_false] at hb
    rcases hb with rfl | rfl | rfl <;> exact le_toNat_ofNat (by decide) (by decide) (by decide) _
  · simp only [List.mem_cons, List.not_mem_nil, or_false] at hb
    rcases hb with rfl | rfl | rfl | rfl <;>
      exact le_toNat_ofNat (by decide) (by decide) (by decide) _

/-- A byte below `80` is that of one character alone. -/
theorem mem_utf8EncodeChar_iff {c d : Char} (hc : c.toNat < 0x80) :
    UInt8.ofNat c.toNat ∈ String.utf8EncodeChar d ↔ d = c := by
  have hbyte : (UInt8.ofNat c.toNat).toNat = c.toNat := by
    rw [UInt8.toNat_ofNat', Nat.mod_eq_of_lt (by omega)]
  by_cases hd : d.toNat < 0x80
  · rw [utf8EncodeChar_of_lt hd, List.mem_singleton]
    refine ⟨fun h => Char.toNat_inj.1 ?_, fun h => h ▸ rfl⟩
    have hnumber := congrArg UInt8.toNat h
    rw [hbyte, UInt8.toNat_ofNat', Nat.mod_eq_of_lt (by omega)] at hnumber
    exact hnumber.symm
  · refine ⟨fun h => ?_, fun h => absurd (h ▸ hc) hd⟩
    have hle := le_of_mem_utf8EncodeChar (Nat.not_lt.1 hd) h
    omega

theorem stray?_of_lt {c : Char} (h : c.toNat < firstStray) : stray? c = none := if_pos h

theorem stray?_of_le {c : Char} (h : ¬c.toNat < firstStray) :
    stray? c = some (UInt8.ofNat c.toNat) := if_neg h

theorem toNat_lt (c : Char) : c.toNat < 0x110000 := by
  rcases c.valid with hlow | ⟨_, hhigh⟩
  · exact hlow.trans (by decide)
  · exact hhigh

theorem toNat_charOfNat {n : ℕ} (h : n.isValidChar) : (Char.ofNat n).toNat = n := by
  rw [Char.ofNat, dif_pos h]
  rfl

theorem toNat_strayOf (b : UInt8) : (strayOf b).toNat = 0x10FF00 + b.toNat := by
  have hlt := b.toNat_lt
  exact toNat_charOfNat (.inr ⟨by omega, by omega⟩)

theorem stray?_strayOf {b : UInt8} (h : 0x80 ≤ b.toNat) : stray? (strayOf b) = some b := by
  rw [stray?_of_le (by rw [toNat_strayOf, firstStray]; omega), toNat_strayOf]
  refine congrArg some (UInt8.toNat_inj.1 ?_)
  have hlt := b.toNat_lt
  rw [UInt8.toNat_ofNat']
  omega

theorem bytesOf_ne_nil (c : Char) : bytesOf c ≠ [] := by
  unfold bytesOf
  split
  · exact List.cons_ne_nil _ _
  · exact String.utf8EncodeChar_ne_nil

theorem flatMap_strayOf {bytes : List UInt8} (h : ∀ b ∈ bytes, 0x80 ≤ b.toNat) :
    (bytes.map strayOf).flatMap bytesOf = bytes := by
  induction bytes with
  | nil => rfl
  | cons b bytes ih =>
    obtain ⟨hb, hbytes⟩ := List.forall_mem_cons.1 h
    rw [List.map_cons, List.flatMap_cons, ih hbytes, bytesOf, stray?_strayOf hb]
    rfl

/-! ### The bytes of names -/

theorem bytes_append (a b : String) : bytes (a ++ b) = bytes a ++ bytes b := by
  rw [bytes, String.toList_append, List.flatMap_append]
  rfl

theorem size_append (a b : String) : size (a ++ b) = size a + size b := by
  rw [size, bytes_append, List.length_append]
  rfl

theorem eq_empty_of_bytes {name : String} (h : bytes name = []) : name = "" := by
  rw [bytes, List.flatMap_eq_nil_iff] at h
  rw [← String.toList_eq_nil_iff]
  exact List.eq_nil_iff_forall_not_mem.2 fun c hc => bytesOf_ne_nil c (h c hc)

theorem mem_bytesOf_iff {c d : Char} (hc : c.toNat < 0x80) :
    UInt8.ofNat c.toNat ∈ bytesOf d ↔ d = c := by
  by_cases hd : d.toNat < firstStray
  · rw [bytesOf, stray?_of_lt hd]
    exact mem_utf8EncodeChar_iff hc
  · have hvalid := toNat_lt d
    rw [firstStray] at hd
    rw [bytesOf, stray?_of_le hd]
    refine ⟨fun h => ?_, fun h => ?_⟩
    · have hnumber := congrArg UInt8.toNat (List.mem_singleton.1 h)
      rw [UInt8.toNat_ofNat', UInt8.toNat_ofNat'] at hnumber
      omega
    · rw [h] at hd
      omega

/-- A byte below `80` is in the bytes of a name if its character is in the name. -/
theorem mem_bytes_iff {c : Char} (hc : c.toNat < 0x80) {name : String} :
    UInt8.ofNat c.toNat ∈ bytes name ↔ c ∈ name.toList := by
  rw [bytes, List.mem_flatMap]
  simp only [mem_bytesOf_iff hc, exists_eq_right]

/-! ### Texts -/

/-- A character is spelled with its bytes. -/
theorem flatMap_spell (c : Char) : (spell c).flatMap bytesOf = String.utf8EncodeChar c := by
  unfold spell
  by_cases hc : c.toNat < firstStray
  · rw [stray?_of_lt hc]
    dsimp only
    rw [List.flatMap_singleton, bytesOf, stray?_of_lt hc]
  · rw [stray?_of_le hc]
    refine flatMap_strayOf fun b => le_of_mem_utf8EncodeChar ?_
    rw [firstStray] at hc
    omega

/-- **A text is spelled as the name with its bytes.** -/
theorem bytes_ofText (text : String) :
    bytes (ofText text) = text.toList.flatMap String.utf8EncodeChar := by
  rw [bytes, ofText, String.toList_ofList, List.flatMap_assoc]
  exact List.flatMap_congr fun c _ => flatMap_spell c

/-- A name is a text if it has its bytes. -/
theorem text?_eq_some {name text : String} :
    text? name = some text ↔ bytes name = text.toList.flatMap String.utf8EncodeChar := by
  constructor
  · intro h
    unfold text? String.fromUTF8? at h
    split at h
    · rename_i hvalid
      have hbytes := congrArg (fun b => b.data.toList) (toUTF8_eq (String.fromUTF8 _ hvalid))
      rw [Option.some.inj h] at hbytes
      rw [← Option.some.inj h] at hbytes ⊢
      exact hbytes
    · cases h
  · intro h
    rw [text?, h, ← toUTF8_eq]
    exact dif_pos text.isValidUTF8

theorem text?_ofText (text : String) : text? (ofText text) = some text :=
  text?_eq_some.2 (bytes_ofText text)

theorem shown_of_text? {name text : String} (h : text? name = some text) : shown name = text := by
  rw [shown, h]

theorem shown_ofText (text : String) : shown (ofText text) = text :=
  shown_of_text? (text?_ofText text)

theorem ofText_append (a b : String) : ofText (a ++ b) = ofText a ++ ofText b := by
  rw [ofText, ofText, ofText, String.toList_append, List.flatMap_append, String.ofList_append]

theorem ofText_eq_self {text : String}
    (h : (text.toList.all fun c => (stray? c).isNone) = true) : ofText text = text := by
  have hspell : text.toList.flatMap spell = text.toList.flatMap fun c => [c] :=
    List.flatMap_congr fun c hc => by
      rw [spell, Option.isNone_iff_eq_none.1 (List.all_eq_true.1 h c hc)]
  rw [ofText, hspell, List.flatMap_singleton', String.ofList_toList]

theorem text?_eq_self {text : String}
    (h : (text.toList.all fun c => (stray? c).isNone) = true) : text? text = some text := by
  have htext := text?_ofText text
  rwa [ofText_eq_self h] at htext

theorem shown_eq_self {text : String}
    (h : (text.toList.all fun c => (stray? c).isNone) = true) :
    shown text = text := by
  have hshown := shown_ofText text
  rwa [ofText_eq_self h] at hshown

theorem ofText_injective {a b : String} (h : ofText a = ofText b) : a = b := by
  rw [← shown_ofText a, h, shown_ofText]

/-- A name is a text if it is spelled as one. -/
def IsText (name : String) : Prop := ∃ text, ofText text = name

theorem IsText.ofText_shown {name : String} (h : IsText name) : ofText (shown name) = name := by
  obtain ⟨text, rfl⟩ := h
  rw [shown_ofText]

theorem IsText.append {a b : String} (ha : IsText a) (hb : IsText b) : IsText (a ++ b) := by
  obtain ⟨x, rfl⟩ := ha
  obtain ⟨y, rfl⟩ := hb
  exact ⟨x ++ y, ofText_append x y⟩

theorem ofText_ne_empty {text : String} (h : text ≠ "") : ofText text ≠ "" := by
  have hnone : ofText "" = "" := ofText_eq_self rfl
  exact fun hempty => h (ofText_injective (hempty.trans hnone.symm))

theorem mem_flatMap_iff {c : Char} (hc : c.toNat < 0x80) {text : String} :
    UInt8.ofNat c.toNat ∈ text.toList.flatMap String.utf8EncodeChar ↔ c ∈ text.toList := by
  rw [List.mem_flatMap]
  simp only [mem_utf8EncodeChar_iff hc, exists_eq_right]

theorem mem_ofText_iff {c : Char} (hc : c.toNat < 0x80) {text : String} :
    c ∈ (ofText text).toList ↔ c ∈ text.toList := by
  rw [← mem_bytes_iff hc, bytes_ofText, mem_flatMap_iff hc]

/-! ### Names that are no texts -/

/-- The least number that a character can have that is begun. -/
def Begun.first (begun : Begun) : ℕ :=
  (begun.number * 64 + begun.least % 64) * 64 ^ begun.missing

/-- The number behind all those that it can have. -/
def Begun.last (begun : Begun) : ℕ :=
  (begun.number * 64 + begun.greatest % 64 + 1) * 64 ^ begun.missing

/-- What is begun will be a character from `80` on, and of bytes from `80` on. -/
structure Begun.Sound (begun : Begun) : Prop where
  least : 0x80 ≤ begun.least
  greatest : begun.greatest < 0xC0
  first : 0x80 ≤ begun.first
  last : begun.last ≤ 0xD800 ∨ 0xE000 ≤ begun.first ∧ begun.last ≤ 0x110000

/-- What comes of a byte from `80` on: a character from `80` on, or one that will be. -/
def Reading.Sound : Reading → Prop
  | char c => 0x80 ≤ c.toNat
  | part begun => begun.Sound

/-- What begins with one byte of several. -/
theorem sound_part {read : List UInt8} {number missing least greatest span : ℕ}
    (hspan : 64 ^ missing = span) (hleast : 0x80 ≤ least) (hgreatest : greatest < 0xC0)
    (hfirst : 0x80 ≤ (number * 64 + least % 64) * span)
    (hlast : (number * 64 + greatest % 64 + 1) * span ≤ 0xD800 ∨
      0xE000 ≤ (number * 64 + least % 64) * span ∧
        (number * 64 + greatest % 64 + 1) * span ≤ 0x110000) :
    Reading.Sound (.part ⟨read, number, missing, least, greatest⟩) := by
  subst hspan
  exact ⟨hleast, hgreatest, hfirst, hlast⟩

/-- A byte that goes on with a character is from `80` on. -/
theorem Begun.Sound.next {begun : Begun} (h : begun.Sound) {b : UInt8} {reading : Reading}
    (hnext : begun.next? b = some reading) : 0x80 ≤ b.toNat ∧ reading.Sound := by
  obtain ⟨hleast, hgreatest, hfirst, hlast⟩ := h
  obtain ⟨read, number, missing, least, greatest⟩ := begun
  unfold Begun.next? at hnext
  dsimp only [Begun.first, Begun.last] at *
  split at hnext
  · cases hnext
  · rename_i hrange
    have hlow : number * 64 + least % 64 ≤ number * 64 + b.toNat % 64 := by omega
    have hhigh : number * 64 + b.toNat % 64 ≤ number * 64 + greatest % 64 := by omega
    refine ⟨by omega, ?_⟩
    generalize number * 64 + b.toNat % 64 = next at *
    match missing with
    | 0 =>
      cases hnext
      rw [pow_zero, Nat.mul_one] at hfirst hlast
      have hvalid : next.isValidChar := by
        rcases hlast with hlast | hlast
        · exact .inl (by omega)
        · exact .inr ⟨by omega, by omega⟩
      rw [Reading.Sound, toNat_charOfNat hvalid]
      omega
    | missing + 1 =>
      cases hnext
      have hlow := Nat.mul_le_mul_right (64 ^ (missing + 1)) hlow
      have hhigh := Nat.mul_le_mul_right (64 ^ (missing + 1)) (Nat.succ_le_succ hhigh)
      have hfirst' : (next * 64 + 0x80 % 64) * 64 ^ missing = next * 64 ^ (missing + 1) := by ring
      have hlast' : (next * 64 + 0xBF % 64 + 1) * 64 ^ missing =
          (next + 1) * 64 ^ (missing + 1) := by ring
      refine sound_part rfl le_rfl (by decide) ?_ ?_
      · rw [hfirst']
        exact hfirst.trans hlow
      · rw [hfirst', hlast']
        exact hlast.imp hhigh.trans fun hlast => ⟨hlast.1.trans hlow, hhigh.trans hlast.2⟩

theorem sound_of_begin? {b : UInt8} (hb : 0x80 ≤ b.toNat) {reading : Reading}
    (h : begin? b = some reading) : reading.Sound := by
  unfold begin? at h
  dsimp only at h
  generalize b.toNat = n at hb h
  rw [if_neg (Nat.not_lt.2 hb)] at h
  split at h
  · cases h
  · split at h
    · -- two bytes
      cases h
      exact sound_part (pow_zero 64) le_rfl (by decide) (by omega) (by omega)
    · split at h
      · -- three bytes
        cases h
        by_cases hlow : n = 0xE0
        · subst hlow
          exact sound_part (pow_one 64) (by decide) (by decide) (by decide) (by decide)
        · rw [if_neg hlow]
          split
          · exact sound_part (pow_one 64) le_rfl (by decide) (by omega) (by omega)
          · exact sound_part (pow_one 64) le_rfl (by decide) (by omega) (by omega)
      · split at h
        · -- four bytes
          cases h
          have hspan : 64 ^ 2 = 4096 := rfl
          by_cases hlow : n = 0xF0
          · subst hlow
            exact sound_part hspan (by decide) (by decide) (by decide) (by decide)
          · rw [if_neg hlow]
            split
            · exact sound_part hspan le_rfl (by decide) (by omega) (by omega)
            · exact sound_part hspan le_rfl (by decide) (by omega) (by omega)
        · cases h

theorem ne_of_le {c d : Char} (hc : c.toNat < 0x80) (hd : 0x80 ≤ d.toNat) : c ≠ d := by
  rintro rfl
  exact absurd hc (Nat.not_lt.2 hd)

theorem not_mem_strays {begun : Option Begun} {c : Char} (hc : c.toNat < 0x80) :
    c ∉ (strays begun).map Piece.shown := by
  cases begun with
  | none => exact List.not_mem_nil
  | some begun => exact fun h => ne_of_le hc (d := mark) (by decide) (List.mem_singleton.1 h)

/-- What is shown with a byte, and what is begun then. -/
theorem mem_piecesAt_iff {begun : Option Begun} (hbegun : ∀ part ∈ begun, part.Sound) {c : Char}
    (hc : c.toNat < 0x80) (b : UInt8) :
    (c ∈ (piecesAt begun b).1.map Piece.shown ↔ UInt8.ofNat c.toNat = b) ∧
      ∀ part ∈ (piecesAt begun b).2, part.Sound := by
  have hbyte : (UInt8.ofNat c.toNat).toNat = c.toNat := by
    rw [UInt8.toNat_ofNat', Nat.mod_eq_of_lt (by omega)]
  have hne : 0x80 ≤ b.toNat → UInt8.ofNat c.toNat ≠ b := by
    rintro hb rfl
    omega
  have hnone : ∀ part ∈ (none : Option Begun), part.Sound := fun _ h => by cases h
  unfold piecesAt
  split
  · -- the last byte of the character that is begun
    rename_i d hnext
    obtain ⟨begun, hsome, hnext⟩ := Option.bind_eq_some_iff.1 hnext
    obtain ⟨hb, hd⟩ := (hbegun begun hsome).next hnext
    exact ⟨iff_of_false (fun h => ne_of_le hc hd (List.mem_singleton.1 h)) (hne hb), hnone⟩
  · -- one more byte of it
    rename_i longer hnext
    obtain ⟨begun, hsome, hnext⟩ := Option.bind_eq_some_iff.1 hnext
    obtain ⟨hb, hlonger⟩ := (hbegun begun hsome).next hnext
    refine ⟨iff_of_false List.not_mem_nil (hne hb), fun part hpart => ?_⟩
    rwa [← Option.some.inj hpart]
  · by_cases hb : b.toNat < 0x80
    · have hself : c = Char.ofNat b.toNat ↔ UInt8.ofNat c.toNat = b := by
        rw [← Char.toNat_inj, ← UInt8.toNat_inj, hbyte, toNat_charOfNat (.inl (by omega))]
      rw [begin?, if_pos hb]
      refine ⟨?_, hnone⟩
      rw [List.map_append, List.mem_append, or_iff_right (not_mem_strays hc), ← hself]
      exact List.mem_singleton
    · have hb := Nat.not_lt.1 hb
      split
      · rename_i d hbegin
        refine ⟨iff_of_false ?_ (hne hb), hnone⟩
        rw [List.map_append, List.mem_append, or_iff_right (not_mem_strays hc)]
        exact fun h => ne_of_le hc (sound_of_begin? hb hbegin) (List.mem_singleton.1 h)
      · rename_i other hbegin
        refine ⟨iff_of_false (not_mem_strays hc) (hne hb), fun part hpart => ?_⟩
        rw [← Option.some.inj hpart]
        exact sound_of_begin? hb hbegin
      · refine ⟨iff_of_false ?_ (hne hb), hnone⟩
        rw [List.map_append, List.mem_append, or_iff_right (not_mem_strays hc)]
        exact fun h => ne_of_le hc (d := mark) (by decide) (List.mem_singleton.1 h)

/-- **The characters below `80` that are read from bytes are the bytes below `80`.** -/
theorem mem_pieces_iff {c : Char} (hc : c.toNat < 0x80) {bytes : List UInt8} :
    ∀ {begun : Option Begun}, (∀ part ∈ begun, part.Sound) →
      (c ∈ (pieces begun bytes).map Piece.shown ↔ UInt8.ofNat c.toNat ∈ bytes) := by
  induction bytes with
  | nil => exact fun _ => iff_of_false (not_mem_strays hc) List.not_mem_nil
  | cons b rest ih =>
    intro begun hbegun
    obtain ⟨hpieces, hsound⟩ := mem_piecesAt_iff hbegun hc b
    rw [pieces, List.map_append, List.mem_append, hpieces, ih hsound, List.mem_cons]

/-- **A character below `80` is shown if it is in the name.** -/
theorem mem_shown_iff {c : Char} (hc : c.toNat < 0x80) {name : String} :
    c ∈ (shown name).toList ↔ c ∈ name.toList := by
  rw [← @mem_bytes_iff c hc name]
  cases htext : text? name with
  | some text => rw [shown_of_text? htext, text?_eq_some.1 htext, mem_flatMap_iff hc]
  | none =>
    rw [shown, htext]
    dsimp only
    rw [String.toList_ofList]
    exact mem_pieces_iff hc fun _ h => by cases h

/-- A byte ends a piece or begins a character. -/
theorem piecesAt_ne_nil {begun : Option Begun} {b : UInt8} (h : (piecesAt begun b).2 = none) :
    (piecesAt begun b).1 ≠ [] := by
  unfold piecesAt at h ⊢
  split at h
  · exact List.cons_ne_nil _ _
  · cases h
  · split at h
    · exact List.append_ne_nil_of_right_ne_nil _ (List.cons_ne_nil _ _)
    · cases h
    · exact List.append_ne_nil_of_right_ne_nil _ (List.cons_ne_nil _ _)

theorem pieces_ne_nil {bytes : List UInt8} :
    ∀ {begun : Option Begun}, (begun = none → bytes ≠ []) → pieces begun bytes ≠ [] := by
  induction bytes with
  | nil =>
    intro begun h
    cases begun with
    | none => exact absurd rfl (h rfl)
    | some begun => exact List.cons_ne_nil _ _
  | cons b rest ih =>
    intro begun _
    rw [pieces]
    cases hthen : (piecesAt begun b).2 with
    | none => exact List.append_ne_nil_of_left_ne_nil (piecesAt_ne_nil hthen) _
    | some begun => exact List.append_ne_nil_of_right_ne_nil _ (ih fun h => by cases h)

theorem shown_ne_empty {name : String} (h : name ≠ "") : shown name ≠ "" := by
  have hbytes : bytes name ≠ [] := mt eq_empty_of_bytes h
  intro hempty
  cases htext : text? name with
  | some text =>
    rw [shown_of_text? htext] at hempty
    rw [text?_eq_some.1 htext, hempty] at hbytes
    exact hbytes rfl
  | none =>
    rw [shown, htext] at hempty
    have hpieces := congrArg String.toList hempty
    dsimp only at hpieces
    rw [String.toList_ofList] at hpieces
    exact pieces_ne_nil (fun _ => hbytes) (List.map_eq_nil_iff.1 hpieces)

end Ingot.Raw
