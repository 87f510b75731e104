import Ingot.Package.Manifest
import Ingot.Toml.Printing

/-!
# The build counter

The manifest counts how often its package was built. `countBuild` changes the text of a
manifest so that it counts one build more, and leaves everything else in it as it is
written, apart from the layout of the counter itself.
-/

namespace Ingot.Package

open Toml

/-- The largest number of builds that can be counted. -/
def counterLimit : Int := 9223372036854775807

/-- An entry added behind the others, or, where there is one of that name, put in its place
in the usual layout. -/
def setEntry {α : Type} (name : String) (value : α) (entries : List (Key × α)) :
    List (Key × α) :=
  match findEntry name entries with
  | none => entries ++ [(Key.plain name, value)]
  | some _ => entries.map fun e => if e.1.name == name then (Key.plain name, value) else e

/-- A whole number as a value in the usual layout. -/
def integerValue (n : Int) : Value := .scalar (.integer n) (toString n) .usual

/-- What the counter says, given the data of its entry. -/
def counterOf : Option Data → Except ManifestFault Int
  | none => .ok 0
  | some (.scalar (.integer n)) => if n < 0 then .error .invalidCounter else .ok n
  | some _ => .error .invalidCounter

/-- The counter after one build more. -/
def nextCount (count : Int) : Except ManifestFault Int :=
  if count < counterLimit then .ok (count + 1) else .error .fullCounter

/-- The table of the package with one build more in it. -/
def countInItem : Item → Except ManifestFault (Int × Item)
  | .table layout entries => do
    let next ← nextCount (← counterOf ((findEntry "build" entries).map Item.data))
    pure (next, .table layout (setEntry "build" (.value (integerValue next)) entries))
  | .value (.table entries dotted opening decor) => do
    let next ← nextCount (← counterOf ((findEntry "build" entries).map Value.data))
    pure (next, .value (.table (setEntry "build" (integerValue next) entries) dotted opening decor))
  | _ => .error .noPackageTable

/-- A document with one build more, and the number of builds. -/
def countInDocument (d : Document) : Except ManifestFault (Int × Document) :=
  match findEntry "package" d.root.entries with
  | none => .error .noPackageTable
  | some item => do
    let (next, item) ← countInItem item
    let root := { d.root with entries := replaceEntry "package" item d.root.entries }
    pure (next, { d with root := root })

/-- The text of a manifest with one build more, and the number of builds. -/
def countBuild (text : String) : Except ManifestFault (Nat × String) :=
  match Toml.parse text with
  | none => .error (.document .notToml)
  | some document => do
    let (next, document) ← countInDocument document
    pure (next.toNat, document.text)

end Ingot.Package
