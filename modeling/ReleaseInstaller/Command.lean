import ReleaseInstaller.Files.Walk
import ReleaseInstaller.PackageManager
import ReleaseInstaller.SearchPath
import ReleaseInstaller.ShellWords

/-! Commands: finding a program on the search path, preparing it to be run, and reading what it
prints. Windows scripts are run through PowerShell. -/
namespace ReleaseInstaller

structure Command where
  program : Path
  arguments : List String

namespace Command

def find? (files : Files) (searchPath? : Option OsText) (name : String) : Option Path :=
  searchPath?.bind fun searchPath =>
    ((SearchPath.directories searchPath).map (·.joinName name)).find? files.holds

/-- A name with a slash of either kind is a path already. -/
def resolve (files : Files) (searchPath? : Option OsText) (name : String) : Path :=
  if name.toList.any fun c => c = '/' || c = '\\' then .ofString name
  else (find? files searchPath? name).getD (.ofString name)

def scriptExtensions : List String := ["ps1", "cmd", "bat"]

def isWindowsScript (p : Path) : Bool :=
  p.extension?.any fun extension =>
    String.ofList (Text.lower (Text.Utf8.decodeLossy extension)) ∈ scriptExtensions

/-- The line that PowerShell is given: the script and its arguments, the latter quoted. -/
def scriptLine (script : Path) (arguments : List String) : String :=
  String.ofList (Text.trim (script.display.toList ++ ' ' ::
    ShellWords.join (arguments.map String.toList)))

def holdsNul (word : String) : Bool := word.toList.contains (Char.ofNat 0)

def standIn : String := "<string-with-nul>"

def shownWord (word : String) : String := if holdsNul word then standIn else word

def shownProgram (program : Path) : Path :=
  if program.octets.contains 0 then .ofString standIn else program

/-- The command for a list of words; there is none for the empty list. -/
def ofWords? (files : Files) (searchPath? : Option OsText) : List String → Option Command
  | [] => none
  | name :: arguments =>
    let program := resolve files searchPath? name
    if isWindowsScript program then
      some ⟨(find? files searchPath? "pwsh").getD (.ofString "powershell"),
        ["-Command", shownWord (scriptLine program arguments)]⟩
    else
      some ⟨shownProgram program, arguments.map shownWord⟩

structure Interpreter where
  path : Path
  argument? : Option OsText

def isGap (octet : UInt8) : Bool := octet = 0x20 || octet = 0x09

/-- The interpreter is named on the first line, after a number sign and an exclamation mark;
whatever else is on the line is one argument. -/
def interpreter? : List UInt8 → Option Interpreter
  | 0x23 :: 0x21 :: rest =>
    let line := (rest.takeWhile (· ≠ 0x0A)).dropWhile isGap
    let name := line.takeWhile fun octet => ! (isGap octet || octet = 0)
    let argument := (line.drop name.length).dropWhile isGap
    let argument := (argument.reverse.dropWhile isGap).reverse
    if name.isEmpty then none
    else some ⟨⟨name⟩, if argument.isEmpty then none else some ⟨argument⟩⟩
  | _ => none

structure Started where
  program : Program
  leading : List OsText

inductive Attempt where
  | runs (started : Started)
  | passedOver
  /-- What is there cannot be reached, or may be run and is no program. -/
  | refused

def interpreterLimit : Nat := 4

/-- A file may be run if it is executable for somebody. -/
def attempt (files : Files) : (interpreters : Nat) → Path → Attempt
  | interpreters, p => match files.follow? p with
    | .error .notFound | .error .notDirectory => .passedOver
    | .error _ => .refused
    | .ok l => match files.at? l with
      | some (.file content mode) =>
        if mode &&& 0o111 = 0 then .passedOver
        else match content, interpreters with
          | .program program, _ => .runs ⟨program, []⟩
          | .data _, 0 => .refused
          | .data octets, interpreters + 1 => match interpreter? octets with
            | none => .refused
            | some interpreter => match attempt files interpreters interpreter.path with
              | .runs started =>
                .runs ⟨started.program,
                  started.leading ++ interpreter.argument?.toList ++ [⟨p.octets⟩]⟩
              | failed => failed
      | _ => .passedOver

/-- The first of a row of paths that is run; one that is refused ends the search. -/
def firstRun? (files : Files) : List Path → Option Started
  | [] => none
  | p :: rest => match attempt files interpreterLimit p with
    | .runs started => some started
    | .passedOver => firstRun? files rest
    | .refused => none

def started? (files : Files) (searchPath? : Option OsText) (program : Path) : Option Started :=
  if program.octets.contains Path.slash then firstRun? files [program]
  else searchPath?.bind fun searchPath =>
    firstRun? files ((SearchPath.directories searchPath).map (·.join program))

def printed (program : Program) (arguments : List OsText) : List UInt8 :=
  if program.printsArguments then
    program.output ++ arguments.flatMap fun argument =>
      Text.Utf8.encode ['['] ++ argument.octets ++ Text.Utf8.encode [']']
  else
    program.output

/-- The trimmed output of a command that runs, succeeds and prints more than blanks. -/
def capture? (files : Files) (searchPath? : Option OsText) (words : List String) :
    Option String := do
  guard (! words.any holdsNul)
  let command ← ofWords? files searchPath? words
  let started ← started? files searchPath? command.program
  guard (started.program.exitCode % 256 = 0)
  let arguments := started.leading ++ command.arguments.map OsText.ofString
  let shown := Text.trim (Text.Utf8.decodeLossy (printed started.program arguments))
  guard (! shown.isEmpty)
  return String.ofList shown

def globalBin? (files : Files) (searchPath? : Option OsText) (manager : PackageManager) :
    Option Path :=
  (capture? files searchPath? manager.globalBinCommand).map Path.ofString

end Command
end ReleaseInstaller
