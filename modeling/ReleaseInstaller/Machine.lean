import ReleaseInstaller.InstallError
import ReleaseInstaller.Files.Change
import ReleaseInstaller.Net.Response

/-! The machine that a run acts on, and procedures that act on it. Whatever a run does is written
to one history, in order: what it asked of the network and of its feed, what it downloaded, and
the file tree after every single change. A procedure that fails leaves what it did before. -/
namespace ReleaseInstaller

inductive Phase where
  | idle | resolving | downloading | installing | installed | failed
  deriving DecidableEq, Repr

inductive Event where
  | requested (url : String)
  | askedFeed (includePrerelease : Bool)
  | downloading (version : String) (url : String)
  /-- Octets written so far, and the total or zero where it is unknown. -/
  | progressed (written total : Nat)
  | entered (phase : Phase)
  | askedUser (message : String)
  | changed (files : Files)

structure Machine where
  files : Files
  network : Net.Network
  /-- What happens to the writes and flushes to come: `some n` stores the first n octets and
  fails. Once the list is used up every write is stored. -/
  disk : List (Option Nat)
  history : List Event

abbrev Procedure (ε α : Type) := ExceptT ε (StateM Machine) α

namespace Event

def request? : Event → Option String
  | requested url => some url
  | _ => none

def feedCall? : Event → Option Bool
  | askedFeed includePrerelease => some includePrerelease
  | _ => none

def progress? : Event → Option (Nat × Nat)
  | progressed written total => some (written, total)
  | _ => none

def phase? : Event → Option Phase
  | entered phase => some phase
  | _ => none

def question? : Event → Option String
  | askedUser message => some message
  | _ => none

def files? : Event → Option Files
  | changed files => some files
  | _ => none

end Event

namespace Machine

def fresh (files : Files) (network : Net.Network) : Machine := ⟨files, network, [], []⟩

def record (event : Event) (m : Machine) : Machine := { m with history := m.history ++ [event] }

/-- The tree is replaced, and the history shows it. -/
def withFiles (files : Files) (m : Machine) : Machine :=
  { m with files, history := m.history ++ [.changed files] }

def requests (m : Machine) : List String := m.history.filterMap Event.request?
def feedCalls (m : Machine) : List Bool := m.history.filterMap Event.feedCall?
def lastProgress? (m : Machine) : Option (Nat × Nat) :=
  (m.history.filterMap Event.progress?).getLast?
def phase (m : Machine) : Phase := ((m.history.filterMap Event.phase?).getLast?).getD .idle
def questions (m : Machine) : List String := m.history.filterMap Event.question?

/-- The trees that a run went through, the first one included. -/
def trees (start : Files) (m : Machine) : List Files :=
  start :: m.history.filterMap Event.files?

end Machine

namespace Procedure

variable {ε ε' α : Type}

def record (event : Event) : Procedure ε Unit := modify (Machine.record event)

/-- What can be seen in the tree as it is now. -/
def look (see : Files → α) : Procedure ε α := return see (← get).files

def change (operation : Files → Except Fault Files) : Procedure Fault Unit := do
  match operation (← get).files with
  | .ok files => modify (Machine.withFiles files)
  | .error fault => throw fault

/-- Runs a procedure with one kind of failure inside another. -/
def failing (asError : ε → ε') (p : Procedure ε α) : Procedure ε' α :=
  ExceptT.adapt asError p

/-- Runs a procedure and gives what came of it; it does not fail itself. -/
def outcome (p : Procedure ε α) : Procedure ε' (Except ε α) := fun m =>
  let (result, m) := p m
  (.ok result, m)

def succeeds (p : Procedure ε α) : Procedure ε' Bool := do
  return (← outcome p).isOk

end Procedure
end ReleaseInstaller
