import Ingot.Shell.State

/-!
# Inner commands

The commands that a script knows by itself, without the file of a program.
-/

namespace Ingot.Shell

namespace State

/-- Goes on with a status. -/
def finish (s : State) (status : Nat) : State × Flow := ({ s with status := status }, .next)

/-! ### Writing -/

/-- A row of characters with what backslashes stand for; nothing more is written behind
`\c`, which is told by the second part of the answer. -/
def unescape : List Char → List Char × Bool
  | '\\' :: 'n' :: rest => let (t, e) := unescape rest; ('\n' :: t, e)
  | '\\' :: 't' :: rest => let (t, e) := unescape rest; ('\t' :: t, e)
  | '\\' :: 'r' :: rest => let (t, e) := unescape rest; ('\r' :: t, e)
  | '\\' :: '\\' :: rest => let (t, e) := unescape rest; ('\\' :: t, e)
  | '\\' :: 'c' :: _ => ([], true)
  | c :: rest => let (t, e) := unescape rest; (c :: t, e)
  | [] => ([], false)

/-- The text of `echo`. -/
def echoText (arguments : List String) : String :=
  let (arguments, ending) := match arguments with
    | "-n" :: rest => (rest, "")
    | rest => (rest, "\n")
  let (text, isCut) := unescape (" ".intercalate arguments).toList
  String.ofList text ++ (if isCut then "" else ending)

/-- Puts arguments in the places that a format has for them. -/
def fillFormat : List Char → List String → List Char
  | '%' :: 's' :: rest, arguments =>
    (arguments.headD "").toList ++ fillFormat rest arguments.tail
  | '%' :: 'd' :: rest, arguments =>
    (arguments.headD "0").toList ++ fillFormat rest arguments.tail
  | '%' :: '%' :: rest, arguments => '%' :: fillFormat rest arguments
  | c :: rest, arguments => c :: fillFormat rest arguments
  | [], _ => []

/-- How many places a format has. -/
def places : List Char → Nat
  | '%' :: 's' :: rest => places rest + 1
  | '%' :: 'd' :: rest => places rest + 1
  | '%' :: '%' :: rest => places rest
  | _ :: rest => places rest
  | [] => 0

/-- The text of `printf`: the format is used again as long as there are arguments. -/
def formatText (format : List Char) (arguments : List String) : Nat → List Char
  | 0 => []
  | turns + 1 =>
    fillFormat format arguments ++
      (if places format = 0 ∨ arguments.length ≤ places format then []
       else formatText format (arguments.drop (places format)) turns)

/-! ### Asking -/

/-- A whole number. -/
def number? (text : String) : Option Int := text.toInt?

/-- Compares two numbers. -/
def compare? (operator : String) (a b : Int) : Option Bool :=
  match operator with
  | "-eq" => some (a == b)
  | "-ne" => some (a != b)
  | "-lt" => some (decide (a < b))
  | "-le" => some (decide (a ≤ b))
  | "-gt" => some (decide (b < a))
  | "-ge" => some (decide (b ≤ a))
  | _ => none

/-- The answer of `test`. -/
def test? (s : State) : List String → Option Bool
  | [] => some false
  | [a] => some (!a.isEmpty)
  | ["!", a] => some a.isEmpty
  | ["-n", a] => some (!a.isEmpty)
  | ["-z", a] => some a.isEmpty
  | ["-e", a] => some (s.files.isThere a)
  | ["-f", a] => some (s.files.isFile a)
  | ["-d", a] => some (s.files.isDirectory a)
  | ["-r", a] => some (s.files.isThere a)
  | ["-w", a] => some (s.files.isThere a)
  | ["-x", a] => some (s.files.isDirectory a || s.files.isProgram a)
  | ["-s", a] => some ((s.files.readBytes a).toOption.any fun b => !b.isEmpty)
  | [a, "=", b] => some (a == b)
  | [a, "!=", b] => some (a != b)
  | "!" :: rest => (s.test? rest).map not
  | [a, operator, b] => do compare? operator (← number? a) (← number? b)
  | _ => none

/-- The status of an answer. -/
def statusOf : Option Bool → Nat
  | some true => 0
  | some false => 1
  | none => 2

/-! ### Signals -/

/-- The signals that can be named. -/
def signals : List (String × Nat) :=
  [("HUP", 1), ("INT", 2), ("QUIT", 3), ("ABRT", 6), ("KILL", 9), ("USR1", 10), ("SEGV", 11),
    ("USR2", 12), ("PIPE", 13), ("ALRM", 14), ("TERM", 15)]

/-- The number of a signal. -/
def signal? (text : String) : Option Nat := text.toNat? <|> signals.lookup text

/-- What becomes of a script that sends itself a signal. -/
def kill (s : State) : List String → State × Flow
  | ["-s", signal, target] => send signal target
  | [signal, target] =>
    if signal.toList.head? = some '-' then send (String.ofList signal.toList.tail) target
    else s.finish 1
  | [target] => send "TERM" target
  | _ => s.finish 2
where
  /-- Sends a signal. -/
  send (signal target : String) : State × Flow :=
    match signal? signal with
    | some 0 => s.finish 0
    | some n => if target = ownNumber then (s, .signalled n) else s.finish 1
    | none => s.finish 1

/-! ### The commands -/

/-- Goes to another directory. -/
def goTo (s : State) (streams : Streams) (place path : String) : State × Flow :=
  match s.files.find true path with
  | .ok (location, .directory) =>
    ({ s with files := { s.files with workingDirectory := location } }).finish 0
  | _ => (s.write streams.err s!"{place}: cd: can't cd to {path}\n").finish 2

/-- Does an inner command, if it is one. The place is for messages. -/
def builtin? (s : State) (streams : Streams) (place : String) (command : String)
    (arguments : List String) : Option (State × Flow) :=
  match command with
  | ":" => some (s.finish 0)
  | "true" => some (s.finish 0)
  | "false" => some (s.finish 1)
  | "echo" => some ((s.write streams.out (echoText arguments)).finish 0)
  | "printf" =>
    let text := match arguments with
      | format :: rest => formatText (unescape format.toList).1 rest (rest.length + 1)
      | [] => []
    some ((s.write streams.out (String.ofList text)).finish 0)
  | "pwd" => some ((s.write streams.out (s.files.workingPath ++ "\n")).finish 0)
  | "cd" => some (s.goTo streams place (arguments.headD ""))
  | "exit" =>
    match arguments with
    | [] => some (s, .exit s.status)
    | a :: _ =>
      match a.toNat? with
      | some n => some (s, .exit (n % 256))
      | none =>
        some (s.write streams.err s!"{place}: exit: Illegal number: {a}\n", .exit 2)
  | "kill" => some (s.kill arguments)
  | "test" => some (s.finish (statusOf (s.test? arguments)))
  | "[" =>
    if arguments.getLast? = some "]" then
      some (s.finish (statusOf (s.test? arguments.dropLast)))
    else some ((s.write streams.err s!"{place}: [: missing ]\n").finish 2)
  | "shift" => some ({ s with arguments := s.arguments.tail }.finish 0)
  | "break" => some (s, .leave)
  | "continue" => some (s, .again)
  | _ => none

end State

end Ingot.Shell
