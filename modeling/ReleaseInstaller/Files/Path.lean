import ReleaseInstaller.Text.OsText
import ReleaseInstaller.Text.Parts

/-! Paths: octets in which a slash separates names. A path is kept as it is written; names,
components and steps are read off it when they are needed. -/
namespace ReleaseInstaller

abbrev Name := List UInt8

structure Path where
  octets : List UInt8
  deriving DecidableEq, Inhabited

namespace Path

def slash : UInt8 := 0x2F
def dot : UInt8 := 0x2E

def ofText (t : OsText) : Path := ⟨t.octets⟩
def ofString (s : String) : Path := ofText (.ofString s)

def display (p : Path) : String := OsText.toStringLossy ⟨p.octets⟩

def isEmpty (p : Path) : Bool := p.octets.isEmpty
def isAbsolute (p : Path) : Bool := p.octets.head? = some slash

def segments (p : Path) : List Name := Text.splitAt slash p.octets

/-- An absolute path stands for itself; any other goes below the first. -/
def join (base : Path) (below : Path) : Path :=
  if below.isAbsolute || base.isEmpty then below
  else if base.octets.getLast? = some slash then ⟨base.octets ++ below.octets⟩
  else ⟨base.octets ++ slash :: below.octets⟩

def joinName (base : Path) (name : String) : Path := base.join (ofString name)

/-- What the path says once repeated slashes and inner dots are dropped. -/
inductive Component where
  | root
  | here
  | above
  | named (name : Name)
  deriving DecidableEq

def components (p : Path) : List Component :=
  let named := p.segments.filterMap fun segment =>
    if segment = [] || segment = [dot] then none
    else if segment = [dot, dot] then some .above
    else some (.named segment)
  if p.isAbsolute then .root :: named
  else if p.segments.head? = some [dot] then .here :: named
  else named

def same (p q : Path) : Bool := p.components = q.components

/-- What a path starts from: the slash of the root, the dot of the current directory, or
nothing. -/
def origin (p : Path) : List UInt8 :=
  if p.isAbsolute then [slash]
  else if p.segments.head? = some [dot] then [dot]
  else []

def segmentsBackward (p : Path) : List Name :=
  (Text.splitAt slash (p.octets.drop p.origin.length)).reverse

def isIdle (segment : Name) : Bool := segment = [] || segment = [dot]

/-- The path without its last component, as it is spelled up to there; the root and the empty
path have none. -/
def parent? (p : Path) : Option Path :=
  match p.segmentsBackward.dropWhile isIdle with
  | _ :: before =>
    some ⟨p.origin ++ List.intercalate [slash] (before.dropWhile isIdle).reverse⟩
  | [] => if p.origin = [dot] then some ⟨[]⟩ else none

def ancestors (p : Path) : List Path :=
  p :: (go p.components.length p)
where
  go : Nat → Path → List Path
    | 0, _ => []
    | n + 1, p => match p.parent? with
      | none => []
      | some up => up :: go n up

def fileName? (p : Path) : Option Name :=
  match p.components.getLast? with
  | some (.named name) => some name
  | _ => none

/-- What follows the last dot of the file name, unless that dot is its first octet. -/
def extension? (p : Path) : Option Name :=
  p.fileName?.bind fun name =>
    let after := name.reverse.takeWhile (· ≠ dot)
    let before := name.reverse.dropWhile (· ≠ dot)
    if before.length ≤ 1 then none else some after.reverse

inductive Step where
  | here
  | up
  | into (name : Name)
  deriving DecidableEq

def endsInSlash (p : Path) : Bool := p.octets.getLast? = some slash

/-- The steps that the path spells, slashes at its end aside. -/
def spelledSteps (p : Path) : List Step :=
  p.segments.filterMap fun segment =>
    if segment = [] then none
    else if segment = [dot] then some .here
    else if segment = [dot, dot] then some .up
    else some (.into segment)

/-- The steps of the path; a slash at its end asks for a directory there. -/
def steps (p : Path) : List Step :=
  p.spelledSteps ++ if p.endsInSlash then [.here] else []

end Path
end ReleaseInstaller
