import Ingot.Decimal.Binary64

/-!
# TOML documents

A TOML document as a tree that keeps its layout: every key and every value knows how it is
written and what stands before and behind it, and every table knows how it came about.
Entries of a table are in the order in which they first appear. `Data` is what a document
says when its layout is left out.
-/

namespace Ingot.Toml

/-! ### Keys and layout -/

/-- The text before and behind something; `none` stands for the usual text. -/
structure Decor where
  /-- The text before it. -/
  before : Option String
  /-- The text behind it. -/
  behind : Option String
  deriving DecidableEq, Repr, Inhabited

/-- The usual text on both sides. -/
def Decor.usual : Decor := ⟨none, none⟩

/-- A key: the name of an entry. -/
structure Key where
  /-- The name. -/
  name : String
  /-- How the name is written; `none` stands for the shortest way. -/
  written : Option String
  /-- The text around the whole row of keys, where this key is the last one. -/
  outer : Decor
  /-- The text around this key between the dots of a row of keys. -/
  inner : Decor
  deriving DecidableEq, Repr, Inhabited

/-- A key in its usual layout. -/
def Key.plain (name : String) : Key := ⟨name, none, .usual, .usual⟩

/-! ### Values -/

/-- A value without parts. -/
inductive Scalar where
  /-- A text. -/
  | text (content : String)
  /-- A whole number. -/
  | integer (value : Int)
  /-- A number with a point or an exponent. -/
  | float (value : Decimal.Binary64)
  /-- A truth value. -/
  | boolean (value : Bool)
  /-- A date, a time, or both. -/
  | moment
  deriving DecidableEq, Repr, Inhabited

/-- A value with its layout. -/
inductive Value where
  /-- A value without parts, as it is written. -/
  | scalar (scalar : Scalar) (written : String) (decor : Decor)
  /-- An array: its elements, whether a comma follows the last one, and the text before
  the bracket that closes it. -/
  | array (elements : List Value) (comma : Bool) (ending : String) (decor : Decor)
  /-- A table between braces, or one that dotted keys made inside of it, and the text
  behind the brace that opens it. -/
  | table (entries : List (Key × Value)) (dotted : Bool) (opening : String) (decor : Decor)
  deriving Repr, Inhabited

/-- The same value with other text around it. -/
def Value.withDecor (decor : Decor) : Value → Value
  | scalar s w _ => .scalar s w decor
  | array es c e _ => .array es c e decor
  | table es d o _ => .table es d o decor

/-! ### Tables -/

/-- How a table came about. -/
inductive Origin where
  /-- It has a header of its own, or is the whole document. -/
  | header
  /-- The header of a table inside of it names it. -/
  | implied
  /-- A row of keys with dots names it. -/
  | dotted
  deriving DecidableEq, Repr, Inhabited

/-- The layout of a table. -/
structure Layout where
  /-- How it came about. -/
  origin : Origin
  /-- Its place among the headers. -/
  position : Option Nat
  /-- The text around its header. -/
  decor : Decor
  deriving DecidableEq, Repr, Inhabited

/-- An entry of a table outside of braces. -/
inductive Item where
  /-- A value. -/
  | value (value : Value)
  /-- A table. -/
  | table (layout : Layout) (entries : List (Key × Item))
  /-- Tables under one name, each with a header in double brackets. -/
  | tables (elements : List (Layout × List (Key × Item)))
  deriving Repr, Inhabited

/-- A table outside of braces. -/
structure Table where
  /-- The layout. -/
  layout : Layout
  /-- The entries, in order. -/
  entries : List (Key × Item)
  deriving Repr, Inhabited

/-- A table without entries. -/
def Table.empty (origin : Origin) : Table := ⟨⟨origin, none, .usual⟩, []⟩

/-- A document. -/
structure Document where
  /-- The table that holds everything. -/
  root : Table
  /-- The text behind the last entry. -/
  ending : String
  deriving Repr, Inhabited

/-! ### What a document says -/

/-- A value or a table without its layout. -/
inductive Data where
  /-- A value without parts. -/
  | scalar (scalar : Scalar)
  /-- A row of values or tables. -/
  | array (elements : List Data)
  /-- Named values and tables, in order. -/
  | table (entries : List (String × Data))
  deriving Repr, Inhabited

mutual

/-- What a value says. -/
def Value.data : Value → Data
  | .scalar s _ _ => .scalar s
  | .array elements _ _ _ => .array (dataOfValues elements)
  | .table entries _ _ _ => .table (dataOfEntries entries)

/-- What a row of values says. -/
def dataOfValues : List Value → List Data
  | [] => []
  | v :: rest => v.data :: dataOfValues rest

/-- What entries between braces say. -/
def dataOfEntries : List (Key × Value) → List (String × Data)
  | [] => []
  | (k, v) :: rest => (k.name, v.data) :: dataOfEntries rest

end

mutual

/-- What an entry says. -/
def Item.data : Item → Data
  | .value v => v.data
  | .table _ entries => .table (dataOfItems entries)
  | .tables elements => .array (dataOfTables elements)

/-- What the entries of a table say. -/
def dataOfItems : List (Key × Item) → List (String × Data)
  | [] => []
  | (k, item) :: rest => (k.name, item.data) :: dataOfItems rest

/-- What tables under one name say. -/
def dataOfTables : List (Layout × List (Key × Item)) → List Data
  | [] => []
  | (_, entries) :: rest => .table (dataOfItems entries) :: dataOfTables rest

end

/-- What a document says: the entries of its table. -/
def Document.data (d : Document) : List (String × Data) := dataOfItems d.root.entries

end Ingot.Toml
