import ReleaseInstaller.Environment

/-! The arguments of the command line. Arguments are read from left to right; the first one that
decides the outcome ends the reading. The log level may be given before and after the name of
the command, once in each place, or by the environment. -/
namespace ReleaseInstaller.CommandLine

inductive LogLevel where
  | off | warn | info | debug | trace
  deriving DecidableEq, Repr

def LogLevel.ofName? : String → Option LogLevel
  | "off" => some off
  | "warn" => some warn
  | "info" => some info
  | "debug" => some debug
  | "trace" => some trace
  | _ => none

inductive Subcommand where
  | noop
  | updateVersion
  | getTag
  | install (version? : Option String)
  | uninstall
  | finishInstall (version? : Option String)
  deriving DecidableEq

def Subcommand.ofName? : String → Option Subcommand
  | "noop" => some noop
  | "update-version" => some updateVersion
  | "get-tag" => some getTag
  | "install" => some (install none)
  | "uninstall" => some uninstall
  | "finish-install" => some (finishInstall none)
  | _ => none

def Subcommand.withVersion? (version : String) : Subcommand → Option Subcommand
  | install none => some (install (some version))
  | finishInstall none => some (finishInstall (some version))
  | _ => none

inductive Stop where
  | usage
  | showVersion
  | showHelp
  deriving DecidableEq

structure Invocation where
  log? : Option LogLevel
  subcommand : Subcommand
  deriving DecidableEq

def Invocation.warns (i : Invocation) : Bool := i.log? ≠ some .off

inductive Argument where
  | plain (text : String)
  | terminator
  | long (name : String) (value? : Option String)
  | short (letters : List Char)

def Argument.ofString (text : String) : Argument :=
  match text.toList with
  | '-' :: '-' :: [] => terminator
  | '-' :: '-' :: body =>
    let name := String.ofList (body.takeWhile (· ≠ '='))
    match body.dropWhile (· ≠ '=') with
    | [] => long name none
    | _ :: value => long name (some (String.ofList value))
  | '-' :: letter :: letters => short (letter :: letters)
  | _ => plain text

/-- An argument serves as the value of the option before it unless it looks like an option. -/
def value? (text : String) : Option String :=
  match Argument.ofString text with
  | .plain value => some value
  | _ => none

/-- The log level, if it was not given in the same place before. -/
def setLog (log? : Option LogLevel) (value : String) : Except Stop LogLevel :=
  match log?, LogLevel.ofName? value with
  | none, some level => .ok level
  | _, _ => .error .usage

def setVersion (command : Subcommand) (value : String) : Except Stop Subcommand :=
  match command.withVersion? value with
  | some command => .ok command
  | none => .error .usage

/-- Arguments after the name of the command. Nothing may follow the terminator. -/
def readOptions (log? : Option LogLevel) (command : Subcommand) :
    List String → Except Stop Invocation
  | [] => .ok ⟨log?, command⟩
  | text :: rest => match Argument.ofString text, rest with
    | .long "log" (some value), rest => do
      readOptions (some (← setLog log? value)) command rest
    | .long "version" (some value), rest => do
      readOptions log? (← setVersion command value) rest
    | .long "log" none, next :: rest => do
      let some value := value? next | .error .usage
      readOptions (some (← setLog log? value)) command rest
    | .long "version" none, next :: rest => do
      let some value := value? next | .error .usage
      readOptions log? (← setVersion command value) rest
    | .long "help" none, _ => .error .showHelp
    | .short ('h' :: _), _ => .error .showHelp
    | .terminator, [] => .ok ⟨log?, command⟩
    | _, _ => .error .usage

/-- The level that the environment sets, if it sets any; what it sets has to be a level. -/
def environmentLog? (env : Environment) : Except Stop (Option LogLevel) :=
  match env.get? "DEVSPACE_INSTALLER_LOG" with
  | none => .ok none
  | some value => match value.toString?.bind LogLevel.ofName? with
    | none => .error .usage
    | some level => .ok (some level)

def placeLog? (env : Environment) (given? : Option LogLevel) : Except Stop (Option LogLevel) :=
  match given? with
  | some level => .ok (some level)
  | none => environmentLog? env

/-- Arguments from the start. A level after the name of the command goes before one in front of
it, and both go before the environment's. -/
def readArguments (env : Environment) (log? : Option LogLevel) :
    List String → Except Stop Invocation
  | [] => .error .usage
  | text :: rest => match Argument.ofString text, rest with
    | .plain name, rest => do
      let some command := Subcommand.ofName? name | .error .usage
      let invocation ← readOptions none command rest
      let inner ← placeLog? env invocation.log?
      let outer ← placeLog? env log?
      return { invocation with log? := (invocation.log?.or log?).or (inner.or outer) }
    | .long "log" (some value), rest => do
      readArguments env (some (← setLog log? value)) rest
    | .long "log" none, next :: rest => do
      let some value := value? next | .error .usage
      readArguments env (some (← setLog log? value)) rest
    | .long "version" none, _ => .error .showVersion
    | .short ('V' :: _), _ => .error .showVersion
    | .long "help" none, _ => .error .showHelp
    | .short ('h' :: _), _ => .error .showHelp
    | _, _ => .error .usage

def read (env : Environment) (arguments : List String) : Except Stop Invocation :=
  readArguments env none arguments

end ReleaseInstaller.CommandLine
