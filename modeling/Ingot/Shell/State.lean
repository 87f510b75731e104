import Ingot.Command
import Ingot.Shell.Script

/-!
# The state of a running script

What a script knows while it runs: its name and arguments, variables, the status of the
last command, the files, and what it wrote so far. The words of a command become its
arguments when the values of variables are put into them; a value that is not quoted is
split at blanks. All words are raw, as names are: a script is a row of bytes.
-/

namespace Ingot.Shell

/-- Where a stream leads. -/
inductive Sink where
  /-- To the standard output of the script. -/
  | out
  /-- To the standard error of the script. -/
  | err
  /-- To a file. -/
  | file (location : Location)
  /-- To nowhere. -/
  | nowhere
  deriving DecidableEq, Repr

/-- Where the two streams lead on which a command writes. -/
structure Streams where
  /-- The standard output. -/
  out : Sink
  /-- The standard error. -/
  err : Sink
  deriving DecidableEq, Repr

/-- The streams of the script itself. -/
def Streams.own : Streams := ⟨.out, .err⟩

/-- How a script goes on. -/
inductive Flow where
  /-- With the next command. -/
  | next
  /-- Not at all: it ends with a status. -/
  | exit (status : Nat)
  /-- Not at all: a signal ends it. -/
  | signalled (signal : Nat)
  /-- Behind the loop. -/
  | leave
  /-- With the next turn of the loop. -/
  | again
  deriving DecidableEq, Repr

/-- The state of a running script. -/
structure State where
  /-- The files, and the directory the script is in. -/
  files : FileSystem
  /-- The name of the script. -/
  name : String
  /-- The arguments. -/
  arguments : List String
  /-- The values of variables. -/
  bindings : List (String × String)
  /-- The status of the last command. -/
  status : Nat
  /-- What was written, in order. -/
  outputs : List Output

/-- The number by which a script names itself. -/
def ownNumber : String := "4711"

namespace State

/-- Writes a text. -/
def write (s : State) (sink : Sink) (text : String) : State :=
  match sink with
  | .nowhere => s
  | .out => { s with outputs := s.outputs ++ [.out text] }
  | .err => { s with outputs := s.outputs ++ [.err text] }
  | .file location =>
    match s.files.node? location with
    | some (.file content permissions) =>
      let bytes : ByteArray := ⟨(Raw.bytes text).toArray⟩
      { s with files := s.files.put location (.file (content ++ bytes) permissions) }
    | _ => s

/-- The value of a variable. -/
def value (s : State) (name : String) : String :=
  match name with
  | "0" => s.name
  | "#" => toString s.arguments.length
  | "?" => toString s.status
  | "$" => ownNumber
  | "*" => " ".intercalate s.arguments
  | "@" => " ".intercalate s.arguments
  | name =>
    match name.toNat? with
    | some n => (s.arguments[n - 1]?).getD ""
    | none => (s.bindings.lookup name).getD ""

/-- Gives a variable a value. -/
def assign (s : State) (name value : String) : State :=
  { s with bindings := (name, value) :: s.bindings.filter fun v => v.1 != name }

/-! ### Words -/

/-- The pieces of a row of characters between blanks, with empty pieces where blanks are at
an end. -/
def piecesAtBlanks : List Char → List (List Char)
  | [] => [[]]
  | c :: rest =>
    if c = ' ' ∨ c = '\t' ∨ c = '\n' then [] :: piecesAtBlanks rest
    else
      match piecesAtBlanks rest with
      | [] => [[c]]
      | piece :: more => (c :: piece) :: more

/-- Fields, the last one first, of which the first may still grow. -/
structure Fields where
  /-- The fields that are complete. -/
  done : List String
  /-- The field that grows, if there is one. -/
  open? : Option String

namespace Fields

/-- Adds text to the field that grows. -/
def add (f : Fields) (text : String) : Fields := { f with open? := some (f.open?.getD "" ++ text) }

/-- Ends the field that grows. -/
def close (f : Fields) : Fields :=
  match f.open? with
  | none => f
  | some text => ⟨text :: f.done, none⟩

/-- Adds pieces; a field ends between two of them. -/
def addPieces (f : Fields) : List String → Fields
  | [] => f
  | [piece] => f.add piece
  | piece :: pieces => addPieces (f.add piece).close pieces

/-- Adds pieces of which those that are empty are no fields of their own. -/
def addSplit (f : Fields) : List String → Fields
  | [] => f
  | [piece] => if piece.isEmpty then f else f.add piece
  | piece :: pieces => addSplit ((if piece.isEmpty then f else f.add piece).close) pieces

end Fields

/-- Puts a part of a word behind fields. -/
def expandPart (s : State) (f : Fields) : Part → Fields
  | .text _ text => f.add text
  | .value true "@" => f.addPieces s.arguments
  | .value true name => f.add (s.value name)
  | .value false name =>
    f.addSplit ((piecesAtBlanks (s.value name).toList).map String.ofList)

/-- The fields of a word. -/
def expand (s : State) (w : Word) : List String :=
  if s.arguments.isEmpty ∧ w = [.text true "", .value true "@"] then []
  else ((w.foldl s.expandPart ⟨[], none⟩).close).done.reverse

/-- A word as a single text. -/
def expandWhole (s : State) (w : Word) : String := " ".intercalate (s.expand w)

/-! ### Redirections -/

/-- The words for a file that cannot be opened. -/
def openFaultText : IoFault → String
  | .notFound => "Directory nonexistent"
  | .isDirectory => "Is a directory"
  | .notPermitted => "Permission denied"
  | .notDirectory => "Directory nonexistent"
  | fault => fault.message

/-- Opens a file to write to it. -/
def openFile (s : State) (path : String) (append : Bool) : Except String (State × Sink) :=
  if path = "/dev/null" then .ok (s, .nowhere)
  else
    let content := if append then (s.files.readBytes path).toOption.getD .empty else .empty
    match s.files.writeBytes path content with
    | .error fault => .error s!"cannot create {path}: {openFaultText fault}"
    | .ok files =>
      match files.find true path with
      | .ok (location, _) => .ok ({ s with files := files }, .file location)
      | .error fault => .error s!"cannot create {path}: {openFaultText fault}"

/-- Leads a stream elsewhere. -/
def redirect (s : State) (streams : Streams) (r : Redirection) :
    Except String (State × Streams) := do
  let (s, sink) ← match r.target with
    | .write path => s.openFile (s.expandWhole path) false
    | .append path => s.openFile (s.expandWhole path) true
    | .copy 1 => pure (s, streams.out)
    | .copy 2 => pure (s, streams.err)
    | .copy _ => pure (s, .nowhere)
    | .read path =>
      let path := s.expandWhole path
      if s.files.isThere path then pure (s, .nowhere)
      else throw s!"cannot open {path}: No such file"
  return match r.stream with
    | 1 => (s, { streams with out := sink })
    | 2 => (s, { streams with err := sink })
    | _ => (s, streams)

/-- Leads streams elsewhere, one after the other. -/
def redirectAll (s : State) (streams : Streams) (rs : List Redirection) :
    Except String (State × Streams) :=
  rs.foldlM (fun (s, streams) r => s.redirect streams r) (s, streams)

end State

end Ingot.Shell
