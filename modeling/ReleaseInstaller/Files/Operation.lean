import ReleaseInstaller.Machine

/-! Operations on files as a run performs them, made of single changes. Each failure names what
was being done, and to which path. -/
namespace ReleaseInstaller

structure FileFailure where
  action : FileAction
  path : Path
  deriving DecidableEq

namespace FileFailure

def toError (failure : FileFailure) : InstallError := .file failure.action failure.path

end FileFailure

namespace Files

open Procedure

def unlessDirectory (p : Path) (fault : Fault) : Procedure Fault Unit := do
  if ← look (·.isDirectory p) then pure () else throw fault

/-- Makes the first directory of the list; the rest of the list leads up from it, and is made
first where the directory around it is missing. -/
def makeUpward : List Path → Procedure Fault Unit
  | [] => throw .notFound
  | p :: up =>
    if p.isEmpty then pure ()
    else do
      match ← outcome (change (makeDirectory p)) with
      | .ok () => pure ()
      | .error .notFound =>
        makeUpward up
        match ← outcome (change (makeDirectory p)) with
        | .ok () => pure ()
        | .error fault => unlessDirectory p fault
      | .error fault => unlessDirectory p fault

def makeDirectories (p : Path) : Procedure FileFailure Unit := do
  if p.isEmpty || (← look (·.holds p)) then pure ()
  else failing (fun _ => ⟨.create, p⟩) (makeUpward p.ancestors)

def makeParent (p : Path) : Procedure FileFailure Unit :=
  match p.parent? with
  | none => pure ()
  | some parent => makeDirectories parent

/-- A write by the verdict of the disk: all octets are stored, or the first of them and the write
fails. -/
def storeAs (l : Location) (octets : List UInt8) : (verdict : Option Nat) → Procedure Fault Unit
  | none => change (append l octets)
  | some n => do
    change (append l (octets.take n))
    throw .noSpace

def store (l : Location) (octets : List UInt8) : Procedure Fault Unit := do
  let m ← get
  match m.disk with
  | [] => storeAs l octets none
  | verdict :: later =>
    set { m with disk := later }
    storeAs l octets verdict

/-- Waits until all that was stored is on the disk, where a late failure may show. A device has
no disk to wait for and refuses. -/
def flush (l : Location) : Procedure Fault Unit := do
  let m ← get
  if m.files.at? l = some .fullDevice then throw .invalidPath
  match m.disk with
  | [] => pure ()
  | verdict :: later =>
    set { m with disk := later }
    if verdict.isSome then throw .noSpace

def openEmpty (p : Path) : Procedure Fault Location := do
  match truncate p (← get).files with
  | .ok (l, files) =>
    modify (Machine.withFiles files)
    return l
  | .error fault => throw fault

def create (p : Path) : Procedure FileFailure Location := do
  makeParent p
  failing (fun _ => ⟨.create, p⟩) (openEmpty p)

def write (p : Path) (octets : List UInt8) : Procedure FileFailure Unit := do
  makeParent p
  failing (fun _ => ⟨.write, p⟩) do
    let l ← openEmpty p
    store l octets

def move (source target : Path) : Procedure FileFailure Unit := do
  makeParent target
  failing (fun _ => ⟨.rename, source⟩) (change (rename source target))

def updateMode (p : Path) (mode : Nat) : Procedure FileFailure Unit :=
  failing (fun _ => ⟨.permissions, p⟩) (change (setMode p mode))

/-- Removes a file if there is one. Tells whether it is gone; a failure is not passed on. -/
def discard {ε : Type} (p : Path) : Procedure ε Bool := do
  if ← look (·.holds p) then succeeds (change (removeFile p)) else pure true

def examine (p : Path) : Procedure Fault Node := do
  let f := (← get).files
  match f.locate? p with
  | .error fault => throw fault
  | .ok l => match f.at? l with
    | none => throw .notFound
    | some node => return node

/-- Removes a directory after all it holds, or a link without what it leads to. Whatever went
away together with the rest is removed as well. -/
def removeTree (p : Path) : Procedure Fault Unit := do
  match ← examine p with
  | .link _ => change (removeFile p)
  | .directory =>
    change (clear p)
    match ← outcome (change (removeDirectory p)) with
    | .ok () | .error .notFound => pure ()
    | .error fault => throw fault
  | _ => throw .notDirectory

def discardTree (p : Path) : Procedure FileFailure Unit := do
  if ← look (·.holds p) then failing (fun _ => ⟨.remove, p⟩) (removeTree p)

end Files
end ReleaseInstaller
