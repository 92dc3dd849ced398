import ReleaseInstaller.Files.Walk

/-! Single changes of a file tree. Each either is refused with a fault, and then nothing has
changed, or gives the new tree. Opening a file and changing its mode act where the path leads;
removing, renaming and making a directory act on the entry that the path names. -/
namespace ReleaseInstaller.Files

def newFileMode : Nat := 0o644

/-- The location at which a new entry is made; whatever names no entry is there already. -/
def vacant? (p : Path) (f : Files) : Except Fault Location := do
  match ← f.entry? p with
  | none => .error .alreadyExists
  | some l => if (f.at? l).isSome then .error .alreadyExists else .ok l

def makeDirectory (p : Path) (f : Files) : Except Fault Files := do
  let l ← f.vacant? p
  .ok (f.put l .directory)

def truncate (p : Path) (f : Files) : Except Fault (Location × Files) := do
  check p
  f.checkFilePath linkLimit (f.start p) p
  let l ← f.follow? p
  match f.at? l with
  | none => .ok (l, f.put l (.file (.data []) newFileMode))
  | some (.file _ mode) => .ok (l, f.put l (.file (.data []) mode))
  | some .fullDevice => .ok (l, f)
  | some .directory => .error .isDirectory
  | some (.link _) => .error .tooManyLinks

def append (l : Location) (octets : List UInt8) (f : Files) : Except Fault Files :=
  match f.at? l with
  | some (.file (.data old) mode) => .ok (f.put l (.file (.data (old ++ octets)) mode))
  | some (.file (.program _) mode) => .ok (f.put l (.file (.data octets) mode))
  | some .fullDevice => if octets.isEmpty then .ok f else .error .noSpace
  | some .directory => .error .isDirectory
  | some (.link _) => .error .tooManyLinks
  | none => .error .notFound

def setMode (p : Path) (mode : Nat) (f : Files) : Except Fault Files := do
  let l ← f.follow? p
  match f.at? l with
  | some (.file content _) => .ok (f.put l (.file content mode))
  | some _ => .ok f
  | none => .error .notFound

/-- The location of the entry that the path names; a path that names none gives `fault`. -/
def named? (p : Path) (fault : Fault) (f : Files) : Except Fault Location := do
  match ← f.entry? p with
  | none => .error fault
  | some l => .ok l

def removeFile (p : Path) (f : Files) : Except Fault Files := do
  let l ← f.named? p .isDirectory
  match f.at? l with
  | none => .error .notFound
  | some .directory => .error .isDirectory
  | some _ => if p.endsInSlash then .error .notDirectory else .ok (f.erase l)

def clear (p : Path) (f : Files) : Except Fault Files := do
  let l ← f.follow? p
  match f.at? l with
  | none => .error .notFound
  | some .directory => .ok (f.drop fun k => l.isPrefixOf k && k ≠ l)
  | some _ => .error .notDirectory

def unnamedFault (p : Path) : Fault :=
  match p.spelledSteps.getLast? with
  | some .here => .invalidPath
  | some .up => .notEmpty
  | _ => .busy

def removeDirectory (p : Path) (f : Files) : Except Fault Files := do
  let l ← f.named? p (unnamedFault p)
  match f.at? l with
  | none => .error .notFound
  | some .directory => if f.hasBelow l then .error .notEmpty else .ok (f.erase l)
  | some _ => .error .notDirectory

/-- A directory may take the place of an empty directory only, and anything else the place of
anything but a directory. -/
def rename (source target : Path) (f : Files) : Except Fault Files := do
  let l ← f.named? source .busy
  let k ← f.named? target .busy
  match f.at? l with
  | none => .error .notFound
  | some .directory =>
    if l = k then .ok f
    else if l.isPrefixOf k then .error .invalidPath
    else match f.at? k with
      | none => .ok (f.moveTree l k)
      | some .directory => if f.hasBelow k then .error .notEmpty else .ok (f.moveTree l k)
      | some _ => .error .notDirectory
  | some node =>
    if source.endsInSlash || target.endsInSlash then .error .notDirectory
    else if l = k then .ok f
    else match f.at? k with
      | some .directory => .error .isDirectory
      | _ => .ok ((f.erase l).put k node)

def makeLink (p target : Path) (f : Files) : Except Fault Files := do
  check target
  let l ← f.vacant? p
  if p.endsInSlash then .error .notFound else .ok (f.put l (.link target))

/-- Puts an executable file, or any other, in place of the file where the path leads. A device
takes nothing but the empty content. -/
def place (p : Path) (content : Content) (mode : Nat) (f : Files) : Except Fault Files := do
  let (l, f) ← f.truncate p
  match f.at? l with
  | some .fullDevice => if content = .data [] then .ok f else .error .noSpace
  | _ => .ok (f.put l (.file content mode))

/-- The octets of the file where the path leads. What an executable file is made of is not
recorded, and neither is what can be read from a device. -/
def read (p : Path) (f : Files) : Except Fault (List UInt8) := do
  let l ← f.follow? p
  match f.at? l with
  | some (.file (.data octets) _) => .ok octets
  | some (.file (.program _) _) | some .fullDevice => .ok []
  | some .directory => .error .isDirectory
  | some (.link _) => .error .tooManyLinks
  | none => .error .notFound

end ReleaseInstaller.Files
