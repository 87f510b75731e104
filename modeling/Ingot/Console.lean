import Ingot.Text.Blank

/-!
# What the user sees

Messages for the user are events: lines with a label, lines about single files, lines about
time that was spent, notes on the course of the program, and what tools say. An event
becomes text, or nothing, by how much the user wants to see and whether in colour.
-/

namespace Ingot.Console

/-! ### How much is shown -/

/-- How much the user wants to see. -/
inductive Verbosity where
  /-- Errors only. -/
  | quiet
  /-- What usually matters. -/
  | normal
  /-- Every file as well. -/
  | verbose
  deriving DecidableEq, Repr

/-- The verbosity of two switches, of which the one for silence wins. -/
def Verbosity.ofSwitches (quiet verbose : Bool) : Verbosity :=
  if quiet then .quiet else if verbose then .verbose else .normal

/-- When to use colours. -/
inductive ColorChoice where
  /-- On a terminal. -/
  | auto
  /-- In any case. -/
  | always
  /-- In no case. -/
  | never
  deriving DecidableEq, Repr

/-- Whether to use colours. -/
def ColorChoice.apply (terminal : Bool) : ColorChoice → Bool
  | auto => terminal
  | always => true
  | never => false

/-- The choice of a name in any mixture of small and capital letters, or why there is none. -/
def ColorChoice.ofName (name : String) : Except String ColorChoice :=
  match String.ofList (name.toList.map Char.toLower) with
  | "auto" => .ok .auto
  | "always" => .ok .always
  | "never" => .ok .never
  | other => .error s!"unknown color mode `{other}` (auto, always, never)"

/-! ### Labels -/

/-- What a line is about. -/
inductive Status where
  /-- Something was made. -/
  | created
  /-- Something is done. -/
  | finished
  /-- A source is compiled. -/
  | compiling
  /-- A file is written. -/
  | emitting
  /-- A program runs. -/
  | running
  /-- Something to know. -/
  | info
  /-- Something to mind. -/
  | warning
  /-- Something failed. -/
  | error
  deriving DecidableEq, Repr

/-- The label of a line. -/
def Status.label : Status → String
  | created => "Created"
  | finished => "Finished"
  | compiling => "Compiling"
  | emitting => "Emitting"
  | running => "Running"
  | info => "Info"
  | warning => "Warning"
  | error => "error"

/-- The number of the colour of a label. -/
def Status.color : Status → String
  | created => "32"
  | finished => "32"
  | compiling => "36"
  | emitting => "36"
  | running => "36"
  | info => "34"
  | warning => "33"
  | error => "31"

/-- Whether lines with this label are about single files. -/
def Status.isPerFile : Status → Bool
  | compiling => true
  | emitting => true
  | _ => false

/-- The number of characters that a label takes. -/
def labelWidth : Nat := 12

/-- A text with spaces in front, so that it takes a number of characters. -/
def alignRight (width : Nat) (text : String) : String :=
  String.ofList (List.replicate (width - text.length) ' ') ++ text

/-- The character that starts a change of colour. -/
def escapeChar : String := String.singleton (Char.ofNat 27)

/-- A label as it is shown. -/
def Status.shown (colored : Bool) (status : Status) : String :=
  let text := alignRight labelWidth status.label
  if colored then escapeChar ++ "[1;" ++ status.color ++ "m" ++ text ++ escapeChar ++ "[0m"
  else text

/-! ### Events -/

/-- How much a note on the course of the program matters. -/
inductive Level where
  /-- Something failed. -/
  | error
  /-- Something to mind. -/
  | warn
  /-- Something to know. -/
  | info
  /-- A step of the program. -/
  | debug
  /-- Every detail. -/
  | trace
  deriving DecidableEq, Repr

/-- The place of a level: notes up to the chosen place are shown. -/
def Level.rank : Level → Nat
  | error => 1
  | warn => 2
  | info => 3
  | debug => 4
  | trace => 5

/-- The name of a level. -/
def Level.name : Level → String
  | error => "ERROR"
  | warn => "WARN"
  | info => "INFO"
  | debug => "DEBUG"
  | trace => "TRACE"

/-- Something for the user to see. -/
inductive Event where
  /-- A line with a label. -/
  | line (status : Status) (message : String)
  /-- A line with a label that is about a single file, if the label is of that kind. -/
  | detail (status : Status) (message : String)
  /-- The end of a work that took some time. -/
  | timed (work : String)
  /-- A note on the course of the program, and the part of the program it comes from. -/
  | note (level : Level) (topic : String) (message : String)
  /-- What a tool writes to the user. -/
  | toolOutput (text : String)
  /-- What a tool writes about itself. -/
  | toolMessage (text : String)
  deriving DecidableEq, Repr

/-- What the user wants to see, and how. -/
structure View where
  /-- How much. -/
  verbosity : Verbosity
  /-- Whether in colour. -/
  colored : Bool
  /-- Which notes, by level and topic. -/
  showsNote : Level → String → Bool
  /-- How long a work took, in words. -/
  duration : String → String

namespace View

/-- A view without notes. -/
def plain (verbosity : Verbosity) (colored : Bool) (duration : String) : View :=
  ⟨verbosity, colored, fun _ _ => false, fun _ => duration⟩

/-- A line with a label, unless the user wants to see errors only and it is none. -/
def lineText (v : View) (status : Status) (message : String) : String :=
  if v.verbosity = .quiet ∧ status ≠ .error then ""
  else status.shown v.colored ++ " " ++ message ++ "\n"

/-- A line about a single file, which only those see who want to see every file. -/
def detailText (v : View) (status : Status) (message : String) : String :=
  if status.isPerFile ∧ v.verbosity ≠ .verbose then "" else v.lineText status message

/-- An event as text on the standard error. -/
def errorText (v : View) : Event → String
  | .line status message => v.lineText status message
  | .detail status message => v.detailText status message
  | .timed work => v.lineText .finished s!"{work} in {v.duration work}"
  | .note level topic message =>
    if v.showsNote level topic then alignRight 5 level.name ++ " " ++ message ++ "\n" else ""
  | .toolOutput _ => ""
  | .toolMessage text => text

/-- An event as text on the standard output. -/
def outputText : Event → String
  | .toolOutput text => text
  | _ => ""

/-- Events as text on the standard error. -/
def errorTexts (v : View) (events : List Event) : String :=
  String.join (events.map v.errorText)

/-- Events as text on the standard output. -/
def outputTexts (events : List Event) : String := String.join (events.map outputText)

end View

/-- How long a work took, in words: minutes from sixty seconds on. -/
def durationText (milliseconds : Nat) : String :=
  let fixed (hundredths : Nat) (places : Nat) : String :=
    let digits := toString (hundredths % Nat.pow 10 places)
    toString (hundredths / Nat.pow 10 places) ++ "." ++
      String.ofList (List.replicate (places - digits.length) '0') ++ digits
  if milliseconds ≥ 60000 then fixed ((milliseconds + 3000) / 6000) 1 ++ "m"
  else fixed ((milliseconds + 5) / 10) 2 ++ "s"

end Ingot.Console
