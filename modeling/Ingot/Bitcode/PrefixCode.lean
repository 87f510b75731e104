/-!
# Codes in which no word begins another

A code gives each of its symbols a word of bits such that no word begins another. Codes
are trees here. `Code.ofLengths?` builds the one code in which words are ordered first by
length and then by symbol, from the lengths of the words alone.
-/

namespace Ingot.Bitcode

/-- The words of a code that go on from a common beginning. -/
inductive CodeTree where
  /-- No word begins like this. -/
  | unused
  /-- The word of a symbol ends here. -/
  | symbol (value : Nat)
  /-- Words go on with a zero bit or with a one bit. -/
  | branch (zero one : CodeTree)
  deriving Repr

/-- A code: the words that start with a zero bit and those that start with a one bit. -/
structure Code where
  /-- The words that start with a zero bit. -/
  zero : CodeTree
  /-- The words that start with a one bit. -/
  one : CodeTree
  deriving Repr

/-! ### Reading a symbol -/

/-- Reads what is left of a word. -/
def CodeTree.take? : CodeTree → (bits : List Bool) →
    Option { read : Nat × List Bool // read.2.length ≤ bits.length }
  | unused, _ => none
  | symbol value, bits => some ⟨(value, bits), Nat.le_refl _⟩
  | branch _ _, [] => none
  | branch zero one, b :: bits =>
    match (if b then one else zero).take? bits with
    | none => none
    | some ⟨read, h⟩ => some ⟨read, Nat.le_succ_of_le h⟩

/-- Reads the word of a symbol; the answer has the bits behind it, which are fewer. -/
def Code.take? (code : Code) : (bits : List Bool) →
    Option { read : Nat × List Bool // read.2.length < bits.length }
  | [] => none
  | b :: bits =>
    match (if b then code.one else code.zero).take? bits with
    | none => none
    | some ⟨read, h⟩ => some ⟨read, Nat.lt_succ_of_le h⟩

/-! ### Building a code -/

/-- The longest word of a code. -/
def longestWord : Nat := 15

/-- Joins trees of one level in pairs to those of the level above. -/
def joinPairs : List CodeTree → List CodeTree
  | [] => []
  | [last] => [.branch last .unused]
  | zero :: one :: more => .branch zero one :: joinPairs more

/-- The symbols whose word has some length, in order. -/
def symbolsOfLength (lengths : List Nat) (length : Nat) : List Nat :=
  (lengths.zipIdx.filter fun (l, _) => l == length).map Prod.snd

/-- The trees of a level with `above` levels between it and that of the longest words:
those of the words that end here, then those of the longer words. -/
def treesOfLevel (lengths : List Nat) : Nat → List CodeTree
  | 0 => (symbolsOfLength lengths longestWord).map .symbol
  | above + 1 =>
    (symbolsOfLength lengths (longestWord - (above + 1))).map .symbol
      ++ joinPairs (treesOfLevel lengths above)

/-- How many bit rows of the longest length begin with a word of some length. -/
def rowsOfWord (length : Nat) : Nat :=
  if length = 0 then 0 else Nat.pow 2 (longestWord - length)

/-- How many bit rows of the longest length begin with a word of a code. -/
def coverage (lengths : List Nat) : Nat :=
  lengths.foldl (fun rows length => rows + rowsOfWord length) 0

/-- The code whose words have these lengths, symbol by symbol; a symbol of length zero has
no word. Every row of bits has to begin with a word, unless there are fewer than two
symbols and the code may be `sparse`. -/
def Code.ofLengths? (lengths : List Nat) (sparse : Bool) : Option Code :=
  let used := (lengths.filter (· != 0)).length
  if lengths.any (· > longestWord) then none
  else if coverage lengths = Nat.pow 2 longestWord ∨ sparse ∧ used < 2 then
    match treesOfLevel lengths (longestWord - 1) with
    | [] => some ⟨.unused, .unused⟩
    | [zero] => some ⟨zero, .unused⟩
    | zero :: one :: _ => some ⟨zero, one⟩
  else none

end Ingot.Bitcode
