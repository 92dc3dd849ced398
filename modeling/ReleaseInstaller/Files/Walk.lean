import ReleaseInstaller.Files.Tree

/-! From paths to locations. Walking to a path passes through every link on the way; whether a
link at the very end is passed too depends on the operation, so there are two readings of a
path: `follow?` goes where the last link leads, and `entry?` stops at the entry itself. A path
that is to be a file has to look like one as well, which `checkFilePath` decides. -/
namespace ReleaseInstaller

inductive Fault where
  | notFound
  | notDirectory
  | isDirectory
  | alreadyExists
  | notEmpty
  | tooManyLinks
  | nameTooLong
  | invalidPath
  | busy
  | noSpace
  deriving DecidableEq, Repr

namespace Files

def nameLimit : Nat := 255

def pathLimit : Nat := 4096

def linkLimit : Nat := 40

/-- Walks up to the first link, from which `onLink` goes on. The last name need not exist. -/
def walkToLink (f : Files) (onLink : Location → List Path.Step → Except Fault Location) :
    Location → List Path.Step → Except Fault Location
  | here, [] => .ok here
  | here, .here :: rest => walkToLink f onLink here rest
  | here, .up :: rest => walkToLink f onLink here.dropLast rest
  | here, .into name :: rest =>
    if nameLimit < name.length then .error .nameTooLong
    else match f.at? (here ++ [name]) with
      | none =>
        if rest.isEmpty && f.at? here = some .directory then .ok (here ++ [name])
        else .error .notFound
      | some (.link target) =>
        onLink (if target.isAbsolute then [] else here) (target.steps ++ rest)
      | some node =>
        if rest.isEmpty || node = .directory then walkToLink f onLink (here ++ [name]) rest
        else .error .notDirectory

def walk (f : Files) : (links : Nat) → Location → List Path.Step → Except Fault Location
  | 0 => f.walkToLink fun _ _ => .error .tooManyLinks
  | links + 1 => f.walkToLink (f.walk links)

def start (f : Files) (p : Path) : Location := if p.isAbsolute then [] else f.current

def check (p : Path) : Except Fault Unit :=
  if p.isEmpty then .error .notFound
  else if p.octets.contains 0 then .error .invalidPath
  else if pathLimit ≤ p.octets.length then .error .nameTooLong
  else .ok ()

/-- Where the path leads when links are followed to the end. There need be nothing there, but
the directory around it exists. -/
def follow? (f : Files) (p : Path) : Except Fault Location := do
  check p
  f.walk linkLimit (f.start p) p.steps

/-- The directory around the entry that the path names, and the name of the entry there. A
path whose last step is a dot, or two, and that of the root name no entry; what comes before
the dots is walked through all the same. -/
def lastStep? (f : Files) (start : Location) (p : Path) :
    Except Fault (Option (Location × Name)) :=
  match p.spelledSteps.reverse with
  | [] => .ok none
  | step :: before => do
    let directory ← f.walk linkLimit start (before.reverse ++ [.here])
    match step, f.at? directory with
    | .into name, some .directory => .ok (some (directory, name))
    | .into _, some _ => .error .notDirectory
    | .into _, none => .error .notFound
    | _, _ => .ok none

/-- The entry that the path names, if it names one, a link at the end not being followed. There
need be nothing there, but the directory around it exists. -/
def entry? (f : Files) (p : Path) : Except Fault (Option Location) := do
  check p
  match ← f.lastStep? (f.start p) p with
  | none => .ok none
  | some (directory, name) =>
    if nameLimit < name.length then .error .nameTooLong else .ok (some (directory ++ [name]))

def locate? (f : Files) (p : Path) : Except Fault Location := do
  match ← f.entry? p, p.endsInSlash with
  | some l, false => .ok l
  | _, _ => f.follow? p

/-- A path that ends in a slash or in dots is that of a directory, and so is a link at the end
whose target does. Links beyond the limit are left to the walk. -/
def checkFilePath (f : Files) : (links : Nat) → (start : Location) → Path → Except Fault Unit
  | 0, _, _ => .ok ()
  | links + 1, start, p => do
    match ← f.lastStep? start p with
    | none => .error .isDirectory
    | some (directory, name) =>
      if p.endsInSlash then .error .isDirectory
      else match f.at? (directory ++ [name]) with
        | some (.link target) =>
          f.checkFilePath links (if target.isAbsolute then [] else directory) target
        | _ => .ok ()

def find? (f : Files) (p : Path) : Option Node :=
  match f.follow? p with
  | .ok l => f.at? l
  | .error _ => none

/-- Whether something lies where the path leads; a link that leads nowhere does not count. -/
def holds (f : Files) (p : Path) : Bool := (f.find? p).isSome

def isDirectory (f : Files) (p : Path) : Bool := f.find? p = some .directory

end Files
end ReleaseInstaller
