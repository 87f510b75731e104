import Ingot.Toml.Assembly

/-!
# Writing documents

A document as text. What has a layout of its own keeps it; anything else is written in the
usual layout. Tables with a header are written in the order of their headers. Ends of lines
are written as line feeds alone, those inside of a text of several lines apart, and every
entry and header ends its line.
-/

namespace Ingot.Toml

/-! ### Keys -/

/-- The text before something, where `usual` is the usual one. -/
def Decor.beforeOr (d : Decor) (usual : String) : String := d.before.getD usual

/-- The text behind something, where `usual` is the usual one. -/
def Decor.behindOr (d : Decor) (usual : String) : String := d.behind.getD usual

/-- How a key is written. -/
def Key.text (k : Key) : String := k.written.getD k.name

/-- The keys of a row behind the first one, a dot before each of them. -/
def joinedKeys : List Key → String
  | [] => ""
  | [k] => "." ++ k.inner.beforeOr "" ++ k.text
  | k :: more => "." ++ k.inner.beforeOr "" ++ k.text ++ k.inner.behindOr "" ++ joinedKeys more

/-- A row of keys, the last of which has the text around the row. -/
def keysText (usualBefore usualBehind : String) (keys : List Key) : String :=
  match keys with
  | [] => ""
  | first :: more =>
    let around := (keys.getLast?.map Key.outer).getD .usual
    let firstText := if more.isEmpty then first.text else first.text ++ first.inner.behindOr ""
    around.beforeOr usualBefore ++ firstText ++ joinedKeys more ++ around.behindOr usualBehind

/-! ### Values -/

mutual

/-- The values of entries between braces with the rows of keys that lead to them; the
tables that dotted keys made are left out. -/
def inlineLeaves (path : List Key) : List (Key × Value) → List (List Key × Value)
  | [] => []
  | (k, v) :: rest => leavesOfValue (path ++ [k]) v ++ inlineLeaves path rest

/-- The values inside of a value that dotted keys lead to. -/
def leavesOfValue (path : List Key) : Value → List (List Key × Value)
  | .scalar s w d => [(path, .scalar s w d)]
  | .array es c e d => [(path, .array es c e d)]
  | .table entries true _ _ => inlineLeaves path entries
  | .table entries false o d => [(path, .table entries false o d)]

end

mutual

/-- A value as text, with the usual text around it given. -/
def Value.text (usualBefore usualBehind : String) : Value → String
  | .scalar _ written decor =>
    decor.beforeOr usualBefore ++ written ++ decor.behindOr usualBehind
  | .array elements comma ending decor =>
    decor.beforeOr usualBefore ++ "[" ++ elementsText true elements
      ++ (if comma && !elements.isEmpty then "," else "") ++ ending ++ "]"
      ++ decor.behindOr usualBehind
  | .table entries _ opening decor =>
    decor.beforeOr usualBefore ++ "\x7b" ++ opening ++ inlineEntriesText [] true true entries
      ++ "\x7d" ++ decor.behindOr usualBehind

/-- The elements of an array with commas between them. -/
def elementsText (first : Bool) : List Value → String
  | [] => ""
  | v :: rest =>
    (if first then v.text "" "" else "," ++ v.text " " "") ++ elementsText false rest

/-- The entries between braces with commas between them, the tables that dotted keys made
opened up. The flags say whether nothing stands before the entries and whether nothing
stands behind them. -/
def inlineEntriesText (path : List Key) (first last : Bool) : List (Key × Value) → String
  | [] => ""
  | (k, v) :: rest =>
    entryText (path ++ [k]) first (last && (inlineLeaves [] rest).isEmpty) v
      ++ inlineEntriesText path (first && (leavesOfValue [] v).isEmpty) last rest

/-- An entry between braces, or the entries of a table that dotted keys made. -/
def entryText (path : List Key) (first last : Bool) : Value → String
  | .table entries true _ _ => inlineEntriesText path first last entries
  | .scalar _ written decor =>
    (if first then "" else ",") ++ keysText " " " " path ++ "="
      ++ decor.beforeOr " " ++ written ++ decor.behindOr (if last then " " else "")
  | .array elements comma ending decor =>
    (if first then "" else ",") ++ keysText " " " " path ++ "="
      ++ decor.beforeOr " " ++ "[" ++ elementsText true elements
      ++ (if comma && !elements.isEmpty then "," else "") ++ ending ++ "]"
      ++ decor.behindOr (if last then " " else "")
  | .table entries false opening decor =>
    (if first then "" else ",") ++ keysText " " " " path ++ "="
      ++ decor.beforeOr " " ++ "\x7b" ++ opening ++ inlineEntriesText [] true true entries
      ++ "\x7d" ++ decor.behindOr (if last then " " else "")

end

/-! ### Tables -/

mutual

/-- The values of an entry with the rows of keys that lead to them; a table that dotted keys made
is opened up, and others have lines of their own. -/
def leavesOfItem (path : List Key) : Item → List (List Key × Value)
  | .value v => leavesOfValue path v
  | .table layout entries =>
    if layout.origin = .dotted then leavesOfItems path entries else []
  | .tables _ => []

/-- The values of a table with the rows of keys that lead to them. -/
def leavesOfItems (path : List Key) : List (Key × Item) → List (List Key × Value)
  | [] => []
  | (k, item) :: rest => leavesOfItem (path ++ [k]) item ++ leavesOfItems path rest

end

/-- A table as it is written: its header and its values. -/
structure WrittenTable where
  /-- The keys of the header; there is none for the whole document. -/
  path : List Key
  /-- Whether the header stands in double brackets. -/
  double : Bool
  /-- The layout. -/
  layout : Layout
  /-- The values with the rows of keys that lead to them. -/
  values : List (List Key × Value)

mutual

/-- The tables of an entry, from the outside to the inside. -/
def tablesOfItem (path : List Key) : Item → List WrittenTable
  | .value _ => []
  | .table layout entries =>
    (if layout.origin = .dotted then []
      else [⟨path, false, layout, leavesOfItems [] entries⟩]) ++ tablesOfItems path entries
  | .tables elements => tablesOfElements path elements

/-- The tables of entries. -/
def tablesOfItems (path : List Key) : List (Key × Item) → List WrittenTable
  | [] => []
  | (k, item) :: rest => tablesOfItem (path ++ [k]) item ++ tablesOfItems path rest

/-- The tables under one name. -/
def tablesOfElements (path : List Key) :
    List (Layout × List (Key × Item)) → List WrittenTable
  | [] => []
  | (layout, entries) :: rest =>
    ⟨path, true, layout, leavesOfItems [] entries⟩ :: tablesOfItems path entries
      ++ tablesOfElements path rest

end

/-- Tables with their places among the headers; one without a place has that of the table
before it. -/
def withPositions : Nat → List WrittenTable → List (Nat × WrittenTable)
  | _, [] => []
  | last, t :: rest =>
    let position := t.layout.position.getD last
    (position, t) :: withPositions position rest

/-- The tables of a document in the order in which they are written. -/
def Document.tables (d : Document) : List WrittenTable :=
  let all := ⟨[], false, d.root.layout, leavesOfItems [] d.root.entries⟩
    :: tablesOfItems [] d.root.entries
  ((withPositions 0 all).mergeSort fun a b => decide (a.1 ≤ b.1)).map Prod.snd

/-- Whether the header of a table is written: one that is only implied and has no values
needs none. -/
def WrittenTable.hasHeader (t : WrittenTable) : Bool :=
  !t.path.isEmpty && (t.double || t.layout.origin != .implied || !t.values.isEmpty)

/-- The header of a table, if it is written. -/
def WrittenTable.headerText (t : WrittenTable) (first : Bool) : String :=
  if t.hasHeader then
    let (opening, closing) := if t.double then ("[[", "]]") else ("[", "]")
    t.layout.decor.beforeOr (if first then "" else "\n") ++ opening ++ keysText "" "" t.path
      ++ closing ++ t.layout.decor.behindOr "" ++ "\n"
  else ""

/-- The lines of an entry. -/
def entryLine (entry : List Key × Value) : String :=
  keysText "" " " entry.1 ++ "=" ++ entry.2.text " " "" ++ "\n"

/-- A table as text. -/
def WrittenTable.text (t : WrittenTable) (first : Bool) : String :=
  t.headerText first ++ String.join (t.values.map entryLine)

/-- Tables as text, one after the other. The flag says whether nothing was written yet. -/
def tablesText (first : Bool) : List WrittenTable → String
  | [] => ""
  | t :: rest =>
    let wrote := t.hasHeader || (t.path.isEmpty && !t.values.isEmpty)
    t.text first ++ tablesText (first && !wrote) rest

/-- A document as text. -/
def Document.text (d : Document) : String :=
  d.root.layout.decor.beforeOr "" ++ tablesText true d.tables
    ++ d.root.layout.decor.behindOr "" ++ d.ending

end Ingot.Toml
