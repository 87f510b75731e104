import Ingot.Text.Quoted
import Ingot.Text.Raw
import Ingot.Toml.Assembly

/-!
# Reading data by a schema

Taking typed records out of the data of a document. A record may be written as a table,
whose entries are read in their order and unknown ones left out, or as an array of its
fields in the order of the record. The first thing that does not fit is the fault.
-/

namespace Ingot.Toml

/-- What data can be, in the words of an error message. -/
def Data.describe : Data → String
  | .scalar (.text content) => s!"string {Text.quoted content}"
  | .scalar (.integer value) => s!"integer `{value}`"
  | .scalar (.float value) => s!"floating point `{value.pointedText}`"
  | .scalar (.boolean value) => s!"boolean `{value}`"
  | .scalar .moment => "map"
  | .array _ => "sequence"
  | .table _ => "map"

/-- What does not fit a schema. -/
inductive Mismatch where
  /-- A field that must be there is not. -/
  | missing (field : String)
  /-- Data of another type. -/
  | wrongType (found : String) (expected : String)
  /-- A number out of range. -/
  | wrongValue (found : Int) (expected : String)
  /-- An array that is too short for a record. -/
  | tooShort (length : Nat) (record : String) (fields : Nat)
  deriving DecidableEq, Repr

/-- A mismatch in words. -/
def Mismatch.message : Mismatch → String
  | missing field => s!"missing field `{field}`"
  | wrongType found expected => s!"invalid type: {found}, expected {expected}"
  | wrongValue found expected => s!"invalid value: integer `{found}`, expected {expected}"
  | tooShort length record fields =>
    s!"invalid length {length}, expected struct {record} with {fields} elements"

/-! ### Single data -/

/-- Data that is a text; `expected` is what the message calls it. -/
def Data.asText (expected : String) : Data → Except Mismatch String
  | .scalar (.text content) => .ok content
  | data => .error (.wrongType data.describe expected)

/-- Data that is a text. -/
def Data.asString : Data → Except Mismatch String := Data.asText "a string"

/-- Data that is a path. -/
def Data.asPath (data : Data) : Except Mismatch String :=
  (data.asText "path string").map Raw.ofText

/-- Data that is a whole number and not negative. -/
def Data.asNat (expected : String) : Data → Except Mismatch Nat
  | .scalar (.integer value) =>
    if value < 0 then .error (.wrongValue value expected) else .ok value.toNat
  | data => .error (.wrongType data.describe expected)

/-- Data that is a truth value. -/
def Data.asBool : Data → Except Mismatch Bool
  | .scalar (.boolean value) => .ok value
  | data => .error (.wrongType data.describe "a boolean")

/-- Data that is an array of which every element can be read. -/
def Data.asList {α : Type} (read : Data → Except Mismatch α) : Data → Except Mismatch (List α)
  | .array elements => elements.mapM read
  | data => .error (.wrongType data.describe "a sequence")

/-! ### Records -/

/-- How a record is read: its name, its fields in order, and how a field changes the record
read so far, which starts with the usual values of the fields. -/
structure Record (α : Type) where
  /-- The name of the record. -/
  name : String
  /-- The names of the fields, in order. -/
  fields : List String
  /-- The fields that must be there. -/
  required : List String
  /-- The record before any field is read. -/
  start : α
  /-- Reads a field. -/
  field : String → Data → α → Except Mismatch α

namespace Record

variable {α : Type}

/-- Reads named fields in order; names that are no fields are left out. -/
def readFields (r : Record α) : List (String × Data) → α → Except Mismatch α
  | [], a => .ok a
  | (name, data) :: rest, a =>
    if r.fields.contains name then
      match r.field name data a with
      | .error mismatch => .error mismatch
      | .ok a => r.readFields rest a
    else r.readFields rest a

/-- Reads a table as a record. -/
def ofTable (r : Record α) (entries : List (String × Data)) : Except Mismatch α :=
  match r.readFields entries r.start with
  | .error mismatch => .error mismatch
  | .ok a =>
    match r.required.find? fun name => !entries.any fun e => e.1 == name with
    | some name => .error (.missing name)
    | none => .ok a

/-- Reads an array as a record. -/
def ofArray (r : Record α) (elements : List Data) : Except Mismatch α :=
  match r.readFields (r.fields.zip elements) r.start with
  | .error mismatch => .error mismatch
  | .ok a =>
    match r.fields.zipIdx.find? fun e => elements.length ≤ e.2 && r.required.contains e.1 with
    | some (_, index) => .error (.tooShort index r.name r.fields.length)
    | none => .ok a

/-- Reads data as a record. -/
def read (r : Record α) : Data → Except Mismatch α
  | .table entries => r.ofTable entries
  | .array elements => r.ofArray elements
  | .scalar .moment => r.ofTable []
  | data => .error (.wrongType data.describe s!"struct {r.name}")

end Record

/-! ### Records as documents -/

/-- Why a text is not the document of a record. -/
inductive DocumentFault where
  /-- It is no TOML document. -/
  | notToml
  /-- It does not fit the schema. -/
  | mismatch (mismatch : Mismatch)
  deriving DecidableEq, Repr

/-- A fault in words. What is wrong with the grammar of a document is not told. -/
def DocumentFault.message : DocumentFault → String
  | notToml => "<toml>"
  | mismatch m => m.message

/-- Reads a text as the document of a record. -/
def Record.parse {α : Type} (r : Record α) (text : String) : Except DocumentFault α :=
  match Toml.parse text with
  | none => .error .notToml
  | some document =>
    match r.ofTable document.data with
    | .error mismatch => .error (.mismatch mismatch)
    | .ok a => .ok a

end Ingot.Toml
