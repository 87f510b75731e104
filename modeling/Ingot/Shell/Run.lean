import Ingot.Shell.Builtin

/-!
# Running scripts

A script runs command by command. A command is an inner one, an assignment, or a program,
whose file is looked for like that of any other command. Programs are scripts themselves,
named by the line at their front, or one of the few programs that every machine has.
Everything takes steps, of which there is a given number.
-/

namespace Ingot.Shell

open State

/-! ### Programs that every machine has -/

/-- The programs that every machine has. -/
inductive Native where
  /-- The one that runs scripts. -/
  | shell
  /-- Writes files. -/
  | cat
  /-- Makes directories. -/
  | makeDirectories
  /-- Makes a link. -/
  | link
  /-- An inner command as a program. -/
  | inner (command : String)
  deriving DecidableEq, Repr

/-- Where the programs are that every machine has. -/
def natives : List (Location × Native) :=
  [(["bin", "sh"], .shell), (["bin", "cat"], .cat), (["bin", "mkdir"], .makeDirectories),
    (["bin", "ln"], .link), (["bin", "echo"], .inner "echo"),
    (["bin", "true"], .inner "true"), (["bin", "false"], .inner "false"),
    (["bin", "pwd"], .inner "pwd")]

/-- What a file starts with that names its interpreter. -/
def marker : List Char := ['#', '!']

/-- The interpreter that a file names in its first line, and an argument for it. -/
def interpreter? (text : String) : Option (String × List String) :=
  if marker.isPrefixOf text.toList then
    let line := (text.toList.drop marker.length).takeWhile (· != '\n')
    let isBlank := fun c : Char => c == ' ' || c == '\t'
    let start := line.dropWhile isBlank
    let argument := ((start.dropWhile fun c => !isBlank c).dropWhile isBlank).reverse.dropWhile
      isBlank
    let name := String.ofList (start.takeWhile fun c => !isBlank c)
    if name.isEmpty then none
    else some (name, if argument.isEmpty then [] else [String.ofList argument.reverse])
  else none

/-- What `cat` writes of a file. -/
def catFile (fs : FileSystem) (path : String) : Except String String :=
  match fs.readText path with
  | .ok text => .ok text
  | .error fault =>
    let reason := (fault.message.splitOn " (os error").headD ""
    .error s!"cat: {path}: {reason}\n"

/-- What `cat` writes. -/
def catText (fs : FileSystem) (paths : List String) : Except String String :=
  (paths.mapM (catFile fs)).map String.join

/-- What `mkdir` leaves of the files, and its status: it goes on where a directory cannot be
made. -/
def makeEach (fs : FileSystem) (paths : List String) : FileSystem × Nat :=
  paths.foldl (fun (fs, status) path =>
    match fs.makeDirectory path with
    | .ok fs => (fs, status)
    | .error _ => (fs, 1)) (fs, 0)

/-- What `ln` leaves of the files, and its status. -/
def makeLink (fs : FileSystem) : List String → FileSystem × Nat
  | ["-s", target, path] =>
    match fs.resolve false path with
    | .ok (.vacant location) => (fs.put location (.link target), 0)
    | _ => (fs, 1)
  | _ => (fs, 1)

/-- The raw text of a script. -/
def scriptText (fs : FileSystem) (path : String) : Except IoFault String :=
  (fs.readBytes path).map fun bytes => Raw.ofBytes bytes.toList

/-- The name and value of an assignment. -/
def assignment? : Word → Option (String × Word)
  | .text false s :: rest =>
    let name := s.toList.takeWhile (· != '=')
    match s.toList.dropWhile (· != '=') with
    | '=' :: value =>
      if name.isEmpty || !name.all Reader.isNameChar || name.head?.any Char.isDigit then none
      else some (String.ofList name,
        if value.isEmpty then rest else .text false (String.ofList value) :: rest)
    | _ => none
  | _ => none

/-! ### Running -/

/-- How a script ends that comes to its end, or is left. -/
def endingOf (s : State) : Flow → Ending
  | .exit status => .exited status
  | .signalled signal => .signalled signal
  | _ => .exited s.status

/-- The status that a script sees of a program. -/
def statusOfEnding : Ending → Nat
  | .exited status => status
  | .signalled signal => 128 + signal

/-- Goes on behind a program whose outputs go where the streams lead. -/
def resume (s : State) (streams : Streams) (e : Execution) : State × Flow :=
  let files := { e.files with workingDirectory := s.files.workingDirectory }
  let s := e.outputs.foldl (fun s o => match o with
    | .out text => s.write streams.out text
    | .err text => s.write streams.err text) { s with files := files }
  s.finish (statusOfEnding e.ending)

mutual

/-- Runs a command. -/
def runScript (steps : Nat) (search : List String) (streams : Streams) (script : Script)
    (s : State) : State × Flow :=
  match steps with
  | 0 => (s, .signalled 9)
  | steps + 1 =>
    match script with
    | .simple line words redirections => runSimple steps search streams line words redirections s
    | .sequence scripts => runAll steps search streams scripts s
    | .both first second =>
      match runScript steps search streams first s with
      | (s, .next) => if s.status = 0 then runScript steps search streams second s else (s, .next)
      | other => other
    | .either first second =>
      match runScript steps search streams first s with
      | (s, .next) => if s.status = 0 then (s, .next) else runScript steps search streams second s
      | other => other
    | .negated script =>
      match runScript steps search streams script s with
      | (s, .next) => s.finish (if s.status = 0 then 1 else 0)
      | other => other
    | .choice condition yes no =>
      match runScript steps search streams condition s with
      | (s, .next) =>
        if s.status = 0 then runScript steps search streams yes { s with status := 0 }
        else runScript steps search streams no { s with status := 0 }
      | other => other
    | .repeated whileTrue condition body =>
      match runScript steps search streams condition s with
      | (s, .next) =>
        if (s.status == 0) == whileTrue then
          match runScript steps search streams body s with
          | (s, .next) => runScript steps search streams (.repeated whileTrue condition body) s
          | (s, .again) => runScript steps search streams (.repeated whileTrue condition body) s
          | (s, .leave) => s.finish 0
          | other => other
        else s.finish 0
      | other => other
    | .each name words body =>
      let values := match words with
        | some words => words.flatMap s.expand
        | none => s.arguments
      runEach steps search streams name values body { s with status := 0 }

/-- Runs commands one after the other. -/
def runAll (steps : Nat) (search : List String) (streams : Streams) (scripts : List Script)
    (s : State) : State × Flow :=
  match steps, scripts with
  | 0, _ => (s, .signalled 9)
  | _, [] => (s, .next)
  | steps + 1, script :: scripts =>
    match runScript steps search streams script s with
    | (s, .next) => runAll steps search streams scripts s
    | other => other

/-- Runs a command once for each of some values. -/
def runEach (steps : Nat) (search : List String) (streams : Streams) (name : String)
    (values : List String) (body : Script) (s : State) : State × Flow :=
  match steps, values with
  | 0, _ => (s, .signalled 9)
  | _, [] => (s, .next)
  | steps + 1, value :: values =>
    match runScript steps search streams body (s.assign name value) with
    | (s, .next) => runEach steps search streams name values body s
    | (s, .again) => runEach steps search streams name values body s
    | (s, .leave) => (s, .next)
    | other => other

/-- Runs a simple command. -/
def runSimple (steps : Nat) (search : List String) (streams : Streams) (line : Nat)
    (words : List Word) (redirections : List Redirection) (s : State) : State × Flow :=
  match steps with
  | 0 => (s, .signalled 9)
  | steps + 1 =>
    let place := s!"{s.name}: {line}"
    match s.redirectAll streams redirections with
    | .error message => (s.write streams.err s!"{place}: {message}\n").finish 2
    | .ok (s, streams) =>
      let assignments := (words.map assignment?).takeWhile Option.isSome
      let s := assignments.foldl (fun s a => match a with
        | some (name, value) => s.assign name (s.expandWhole value)
        | none => s) s
      match (words.drop assignments.length).flatMap s.expand with
      | [] => s.finish 0
      | command :: arguments =>
        match s.builtin? streams place command arguments with
        | some result => result
        | none =>
          let file :=
            if command.toList.contains '/' then s.files.findProgram command
            else searchProgram s.files command search .notFound
          match file with
          | .error .notPermitted =>
            (s.write streams.err s!"{place}: {command}: Permission denied\n").finish 126
          | .error _ => (s.write streams.err s!"{place}: {command}: not found\n").finish 127
          | .ok file =>
            let launch : Launch := ⟨command, file, arguments, s.files.workingDirectory⟩
            match runProgram steps search s.files launch with
            | .error .notProgram =>
              match scriptText s.files file.path with
              | .ok text =>
                resume s streams (runText steps search s.files launch.directory file.path arguments
                  text)
              | .error _ => s.finish 126
            | .error _ => (s.write streams.err s!"{place}: {command}: not found\n").finish 127
            | .ok execution => resume s streams execution

/-- Runs the text of a script. -/
def runText (steps : Nat) (search : List String) (fs : FileSystem) (directory : Location)
    (name : String) (arguments : List String) (text : String) : Execution :=
  let s : State := ⟨{ fs with workingDirectory := directory }, name, arguments, [], 0, []⟩
  match steps with
  | 0 => ⟨fs, [], .signalled 9⟩
  | steps + 1 =>
    match Script.parse text with
    | none => ⟨fs, [.err s!"{name}: 1: Syntax error\n"], .exited 2⟩
    | some script =>
      let (s, flow) := runScript steps search .own script s
      ⟨{ s.files with workingDirectory := fs.workingDirectory }, s.outputs, endingOf s flow⟩

/-- Runs a program. -/
def runProgram (steps : Nat) (search : List String) (fs : FileSystem) (launch : Launch) :
    Except IoFault Execution :=
  match steps with
  | 0 => .ok ⟨fs, [], .signalled 9⟩
  | steps + 1 =>
    let here := { fs with workingDirectory := launch.directory }
    match natives.lookup launch.file.location with
    | some .shell =>
      match launch.arguments with
      | "-c" :: text :: name :: rest =>
        .ok (runText steps search fs launch.directory name rest text)
      | ["-c", text] => .ok (runText steps search fs launch.directory launch.name [] text)
      | path :: rest =>
        match scriptText here path with
        | .ok text => .ok (runText steps search fs launch.directory path rest text)
        | .error _ =>
          .ok ⟨fs, [.err s!"{launch.name}: 0: cannot open {path}: No such file\n"], .exited 2⟩
      | [] => .ok ⟨fs, [], .exited 0⟩
    | some .cat =>
      match catText here launch.arguments with
      | .ok text => .ok ⟨fs, [.out text], .exited 0⟩
      | .error message => .ok ⟨fs, [.err message], .exited 1⟩
    | some .makeDirectories =>
      let (files, status) := makeEach here launch.arguments
      .ok ⟨{ files with workingDirectory := fs.workingDirectory }, [], .exited status⟩
    | some .link =>
      let (files, status) := makeLink here launch.arguments
      .ok ⟨{ files with workingDirectory := fs.workingDirectory }, [], .exited status⟩
    | some (.inner command) =>
      let s : State := ⟨here, launch.name, launch.arguments, [], 0, []⟩
      match s.builtin? .own launch.name command launch.arguments with
      | some (s, flow) => .ok ⟨fs, s.outputs, endingOf s flow⟩
      | none => .ok ⟨fs, [], .exited 1⟩
    | none =>
      match scriptText here launch.file.path with
      | .error _ => .error .notProgram
      | .ok text =>
        match interpreter? text with
        | none => .error .notProgram
        | some (interpreter, options) =>
          match here.findProgram interpreter with
          | .error fault => .error fault
          | .ok file =>
            runProgram steps search fs
              ⟨interpreter, file, options ++ launch.file.path :: launch.arguments,
                launch.directory⟩

end

/-! ### The machine -/

/-- The number of steps that scripts may take. -/
def stepLimit : Nat := 100000

/-- A machine on which scripts run. -/
def scriptHost (platform : Platform) (searchPath : List String) : Host where
  platform := platform
  searchPath := searchPath
  run := runProgram stepLimit searchPath

end Ingot.Shell
