import Ingot.Toml.Grammar

/-!
# From lines to documents

Putting the lines of a document together. A name may be given a value only once; a table
may have only one header, though other headers and rows of keys may have named it before;
and a row of keys with dots may add only to tables that such rows have made.
-/

namespace Ingot.Toml

/-- A table that is named on the way to another one. -/
def Table.named (dotted : Bool) : Table := .empty (if dotted then .dotted else .implied)

/-- Changes the table that a row of keys leads to from a table, making the tables on the
way that are not there. The last of tables under one name counts as the one meant. A row of
keys in an entry may not lead into a table that has a header. -/
def Table.changeAt (dotted : Bool) (change : Table → Option Table) :
    List Key → Table → Option Table
  | [], t => change t
  | k :: path, t =>
    match findEntry k.name t.entries with
    | none => do
      let inner ← Table.changeAt dotted change path (.named dotted)
      some { t with entries := t.entries ++ [(k, .table inner.layout inner.entries)] }
    | some (.table layout entries) =>
      if dotted ∧ layout.origin = .header then none
      else do
        let inner ← Table.changeAt dotted change path ⟨layout, entries⟩
        some { t with entries := replaceEntry k.name (.table inner.layout inner.entries) t.entries }
    | some (.tables elements) =>
      match elements.getLast? with
      | none => none
      | some (layout, entries) => do
        let inner ← Table.changeAt dotted change path ⟨layout, entries⟩
        let elements := elements.dropLast ++ [(inner.layout, inner.entries)]
        some { t with entries := replaceEntry k.name (.tables elements) t.entries }
    | some (.value _) => none

/-- The table that a row of keys leads to from a table. -/
def Table.at? : List Key → Table → Option Table
  | [], t => some t
  | k :: path, t =>
    match findEntry k.name t.entries with
    | none => some (.empty .implied)
    | some (.table layout entries) => Table.at? path ⟨layout, entries⟩
    | some (.tables elements) =>
      match elements.getLast? with
      | none => none
      | some (layout, entries) => Table.at? path ⟨layout, entries⟩
    | some (.value _) => none

/-- Adds an entry to a table, inside of the tables that a row of keys leads to. -/
def Table.addEntry (path : List Key) (key : Key) (value : Value) : Table → Option Table :=
  Table.changeAt true (fun t =>
    if (t.layout.origin = .dotted) = path.isEmpty then none
    else
      match findEntry key.name t.entries with
      | some _ => none
      | none => some { t with entries := t.entries ++ [(key, .value value)] }) path

/-- Adds entries to a table, one after the other. -/
def Table.addEntries : List (List Key × Key × Value) → Table → Option Table
  | [], t => some t
  | (path, key, value) :: more, t => (t.addEntry path key value).bind (Table.addEntries more)

/-- A header and the entries below it. -/
structure Section where
  /-- Whether the header stands in double brackets. -/
  double : Bool
  /-- The keys of the header before the last one. -/
  path : List Key
  /-- The last key of the header. -/
  key : Key
  /-- The text around the header. -/
  decor : Decor
  /-- The entries. -/
  entries : List (List Key × Key × Value)

/-- Lines as the entries before the first header, and sections. -/
def sectionsOf : List Line → List (List Key × Key × Value) × List Section
  | [] => ([], [])
  | .entry path key value :: more =>
    let (entries, sections) := sectionsOf more
    ((path, key, value) :: entries, sections)
  | .header double path key decor :: more =>
    let (entries, sections) := sectionsOf more
    ([], ⟨double, path, key, decor, entries⟩ :: sections)

/-- The entries that a table has before its header comes: those of the tables inside of it
that other headers have named. -/
def Section.earlierEntries (s : Section) (root : Table) : Option (List (Key × Item)) :=
  match root.at? s.path with
  | none => none
  | some parent =>
    match s.double, findEntry s.key.name parent.entries with
    | _, none => some []
    | true, some (.tables _) => some []
    | false, some (.table layout entries) =>
      if layout.origin = .implied then some entries else none
    | _, some _ => none

/-- The entries of a table with that of a section among them: behind the tables under its
name, if the header stands in double brackets, and else behind the other entries. -/
def Section.amongEntries (s : Section) (t : Table) (entries : List (Key × Item)) :
    List (Key × Item) :=
  if s.double then
    match findEntry s.key.name entries with
    | some (.tables elements) =>
      replaceEntry s.key.name (.tables (elements ++ [(t.layout, t.entries)])) entries
    | _ => entries ++ [(s.key, .tables [(t.layout, t.entries)])]
  else
    entries.filter (fun e => e.1.name != s.key.name) ++ [(s.key, .table t.layout t.entries)]

/-- Adds a section, the header of which has some place among the headers, to a document. -/
def Section.addTo (s : Section) (position : Nat) (root : Table) : Option Table :=
  match s.earlierEntries root with
  | none => none
  | some earlier =>
    match Table.addEntries s.entries ⟨⟨.header, some position, s.decor⟩, earlier⟩ with
    | none => none
    | some t =>
      Table.changeAt false
        (fun parent => some { parent with entries := s.amongEntries t parent.entries })
        s.path root

/-- Adds sections, the first of them at some place among the headers. -/
def addSections : Nat → List Section → Table → Option Table
  | _, [], root => some root
  | position, s :: more, root => (s.addTo position root).bind (addSections (position + 1) more)

/-- Reads a text as a document. -/
def parse (text : String) : Option Document :=
  match linesOf text with
  | none => none
  | some (lines, ending) =>
    let (entries, sections) := sectionsOf lines
    match Table.addEntries entries (.empty .header) with
    | none => none
    | some root => (addSections 1 sections root).map fun root => ⟨root, ending⟩

end Ingot.Toml
