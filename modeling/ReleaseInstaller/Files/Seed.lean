import ReleaseInstaller.Files.Operation

/-! Putting entries into a tree by hand, as its owner would, and taking them out again. -/
namespace ReleaseInstaller

inductive Seed where
  | directory
  | link (target : Path)
  | file (content : Content) (mode : Nat)

namespace Files

open Procedure

def makeAround (p : Path) : Procedure Fault Unit :=
  match p.parent? with
  | none => pure ()
  | some parent => makeUpward parent.ancestors

def plant (p : Path) : Seed → Procedure Fault Unit
  | .directory => makeUpward p.ancestors
  | .link target => do
    makeAround p
    change (makeLink p target)
  | .file content mode => do
    makeAround p
    change (place p content mode)

def plantAll : List (Path × Seed) → Procedure Fault Unit
  | [] => pure ()
  | (p, seed) :: rest => do
    plant p seed
    plantAll rest

/-- Takes out an entry, with everything below it if it is a directory. -/
def uproot (p : Path) : Procedure Fault Unit := do
  match ← examine p with
  | .directory => removeTree p
  | _ => change (removeFile p)

def octetsBefore : List UInt8 → List UInt8 → Bool
  | _, [] => false
  | [], _ :: _ => true
  | a :: s, b :: t => a < b || (a = b && octetsBefore s t)

def relative (base l : Location) : List UInt8 :=
  List.intercalate [Path.slash] (l.drop base.length)

/-- Everything below a location, with the paths that lead there from it, in the order of the
octets of those paths as they are shown. -/
def below (f : Files) (base : Location) : List (OsText × Node) :=
  let inside := f.entries.filter fun entry => base.isPrefixOf entry.1 && entry.1 ≠ base
  (inside.map fun (l, node) =>
    (OsText.ofString (OsText.toStringLossy ⟨relative base l⟩), node)).mergeSort
      fun a b => ! octetsBefore b.1.octets a.1.octets

end Files
end ReleaseInstaller
