import ReleaseInstaller.Text.Ascii
import ReleaseInstaller.Text.Parts

/-! Semantic version texts. A version is three numbers, a list of pre-release identifiers and a
list of build identifiers; `text` writes it and `parse?` reads it. -/
namespace ReleaseInstaller

structure SemanticVersion where
  major : List Char
  minor : List Char
  patch : List Char
  preRelease : List (List Char)
  build : List (List Char)
  deriving DecidableEq

namespace SemanticVersion

open Text

def isIdentifierChar (c : Char) : Bool := isDigit c || isLetter c || c = '-'

/-- One of the three numbers: digits without a leading zero, below 2 to the 64th. -/
def isNumber (digits : List Char) : Bool :=
  !digits.isEmpty && digits.all isDigit && !hasLeadingZero digits && digitsValue digits < wordLimit

def isBuildIdentifier (identifier : List Char) : Bool :=
  !identifier.isEmpty && identifier.all isIdentifierChar

/-- A pre-release identifier of digits alone is a number and has no leading zero either. -/
def isPreReleaseIdentifier (identifier : List Char) : Bool :=
  isBuildIdentifier identifier && !(identifier.all isDigit && hasLeadingZero identifier)

def dotted (identifiers : List (List Char)) : List Char := List.intercalate ['.'] identifiers

def tail (mark : Char) : List (List Char) → List Char
  | [] => []
  | identifiers => mark :: dotted identifiers

def text (v : SemanticVersion) : List Char :=
  v.major ++ '.' :: v.minor ++ '.' :: v.patch ++ tail '-' v.preRelease ++ tail '+' v.build

structure WellFormed (v : SemanticVersion) : Prop where
  major : isNumber v.major = true
  minor : isNumber v.minor = true
  patch : isNumber v.patch = true
  preRelease : v.preRelease.all isPreReleaseIdentifier = true
  build : v.build.all isBuildIdentifier = true

def identifiers? (accept : List Char → Bool) : Option (List Char) → Option (List (List Char))
  | none => some []
  | some s => if (splitAt '.' s).all accept then some (splitAt '.' s) else none

def numbers? (s : List Char) : Option (List Char × List Char × List Char) :=
  match splitAt '.' s with
  | [major, minor, patch] =>
    if isNumber major && isNumber minor && isNumber patch then some (major, minor, patch)
    else none
  | _ => none

/-- Build identifiers follow the first plus sign, pre-release identifiers the first hyphen
before it. -/
def parse? (s : List Char) : Option SemanticVersion := do
  let (front, build) := cutAt '+' s
  let (core, preRelease) := cutAt '-' front
  let (major, minor, patch) ← numbers? core
  let preRelease ← identifiers? isPreReleaseIdentifier preRelease
  let build ← identifiers? isBuildIdentifier build
  return { major, minor, patch, preRelease, build }

end SemanticVersion
end ReleaseInstaller
