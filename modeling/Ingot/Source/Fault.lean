import Ingot.Source.Token

/-!
# Faults of a source text

Everything that can be wrong with a source text, as causes. A fault of grammar is found
while the text is cut into tokens and read as a tree; a fault of meaning is found in a
tree. The wording of both is in one function each.
-/

namespace Ingot.Source

/-- What the grammar would have allowed where something else stands. -/
inductive Expectation where
  /-- One lexeme. -/
  | lexeme (expected : Lexeme)
  /-- Any name. -/
  | identifier
  /-- The start of an expression. -/
  | expression
  deriving DecidableEq, Repr

/-- What was expected, in the words of an error message. -/
def Expectation.describe : Expectation → String
  | lexeme expected => expected.describe
  | identifier => "an identifier"
  | expression => "an expression"

/-- A fault of grammar. -/
inductive GrammarFault where
  /-- A character that starts no token. -/
  | strayCharacter (c : Char)
  /-- A number that does not fit in 64 bits; the digits are without underscores. -/
  | numberTooLarge (digits : String)
  /-- A number that fits in 64 bits but not in the 32 of a value. -/
  | numberOutOfRange (digits : String)
  /-- A token that the grammar does not allow at its place. -/
  | unexpected (expected : Expectation) (found : Lexeme)
  /-- A type other than the only one. -/
  | unknownType (name : String)
  deriving DecidableEq, Repr

/-- The name of the only type. -/
def valueType : String := "i32"

/-- A fault of grammar, in the words of an error message. -/
def GrammarFault.message : GrammarFault → String
  | strayCharacter c => s!"unexpected character `{c}`"
  | numberTooLarge digits => s!"integer literal `{digits}` is too large"
  | numberOutOfRange digits => s!"integer literal `{digits}` does not fit in i32"
  | unexpected expected found => s!"expected {expected.describe}, found {found.describe}"
  | unknownType name => s!"unknown type `{name}`, only `{valueType}` is supported"

/-- A fault of meaning. -/
inductive MeaningFault where
  /-- A second function of the same name. -/
  | repeatedFunction (name : String)
  /-- A second parameter of the same name in one function. -/
  | repeatedParameter (name : String)
  /-- A statement behind a return statement. -/
  | unreachable
  /-- A name that is neither a parameter nor bound before. -/
  | unboundName (name : String)
  /-- A call with the wrong number of arguments. -/
  | wrongArity (name : String) (expected supplied : Nat)
  deriving DecidableEq, Repr

/-- A fault of meaning, in the words of an error message. -/
def MeaningFault.message : MeaningFault → String
  | repeatedFunction name => s!"function `{name}` is defined more than once"
  | repeatedParameter name => s!"parameter `{name}` is declared more than once"
  | unreachable => "unreachable statement after `return`"
  | unboundName name => s!"cannot find value `{name}` in this scope"
  | wrongArity name expected supplied =>
    s!"function `{name}` takes {expected} argument(s) but {supplied} were supplied"

/-- A fault and the place it was found at. -/
inductive Fault where
  /-- The text does not follow the grammar. -/
  | grammar (position : Position) (fault : GrammarFault)
  /-- The tree has no meaning. -/
  | meaning (position : Position) (fault : MeaningFault)
  deriving DecidableEq, Repr

namespace Fault

/-- Where the fault was found. -/
def position : Fault → Position
  | grammar p _ => p
  | meaning p _ => p

/-- The fault in words, without its place. -/
def message : Fault → String
  | grammar _ fault => fault.message
  | meaning _ fault => fault.message

end Fault

end Ingot.Source
