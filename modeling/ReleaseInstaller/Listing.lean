import ReleaseInstaller.Text.Ascii
import ReleaseInstaller.Text.Blank
import ReleaseInstaller.Text.Parts

/-! Download links in a release listing. A link is a slash, two segments that name a
repository, the fixed middle part, a version and a slash. Links are found from left to right,
none starting inside another, and the first that belongs to the repository counts. -/
namespace ReleaseInstaller.Listing

structure Link where
  repository : List Char
  version : List Char
  /-- How much of the listing the link takes. -/
  length : Nat
  deriving DecidableEq

def isSegmentChar (c : Char) : Bool :=
  !(c = '/' || c = '"' || c = '\'' || Text.isBlank c)

def middle : List Char := "/releases/download/v".toList

def segment? (s : List Char) : Option (List Char × List Char) :=
  let taken := s.takeWhile isSegmentChar
  if taken.isEmpty then none else some (taken, s.dropWhile isSegmentChar)

def isPlain (version : List Char) : Bool :=
  match Text.splitAt '.' version with
  | [major, minor, patch] => [major, minor, patch].all fun digits =>
      !digits.isEmpty && digits.all Text.isDigit
  | _ => false

def linkAt? (includePrerelease : Bool) : List Char → Option Link
  | '/' :: s => do
    let (owner, s) ← segment? s
    let '/' :: s := s | none
    let (project, s) ← segment? s
    let s ← if middle.isPrefixOf s then some (s.drop middle.length) else none
    let (version, s) ← segment? s
    let '/' :: _ := s | none
    guard (includePrerelease || isPlain version)
    let repository := owner ++ '/' :: project
    return ⟨repository, version, repository.length + middle.length + version.length + 2⟩
  | _ => none

/-- The links after `skip` characters, from left to right. -/
def linksAfter (includePrerelease : Bool) : (skip : Nat) → List Char → List Link
  | _, [] => []
  | skip + 1, _ :: rest => linksAfter includePrerelease skip rest
  | 0, c :: rest => match linkAt? includePrerelease (c :: rest) with
    | none => linksAfter includePrerelease 0 rest
    | some link => link :: linksAfter includePrerelease (link.length - 1) rest

def links (document : String) (includePrerelease : Bool) : List Link :=
  linksAfter includePrerelease 0 document.toList

/-- The version of the repository's first link, without pre-releases unless they are asked
for. -/
def latestVersion? (document repository : String) (includePrerelease : Bool) : Option String :=
  ((links document includePrerelease).find? fun link => link.repository = repository.toList).map
    fun link => String.ofList link.version

end ReleaseInstaller.Listing
