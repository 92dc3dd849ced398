import ReleaseInstaller.PackageManager
import ReleaseInstaller.Process
import ReleaseInstaller.Text.Blank
import ReleaseInstaller.Text.Folding
import ReleaseInstaller.Text.Word

/-! Recognising that a package manager is updating the package. The signature is a pattern
that a command line has to contain: a manager's marker as a whole word, later a word that asks
for an update, and last the name of the package. Letters agree without regard to case, and
what stands between the parts may not run over a line end unless a blank there is part of the
pattern itself. -/
namespace ReleaseInstaller
namespace UpdateSignature

open Text

/-- A stretch without a line end, one blank, and then what `next` accepts. -/
def acrossGap (next : List Char → Bool) : List Char → Bool
  | [] => false
  | c :: rest => (isBlank c && next rest) || (c != '\n' && acrossGap next rest)

def namesPackage (package s : List Char) : Bool :=
  match splitFolded? package s with
  | some (_, []) => true
  | some (_, c :: _) => isBlank c
  | none => false

/-- Once an update word and a blank are read: the name at once, or after a gap. -/
def afterUpdateWord (package s : List Char) : Bool :=
  namesPackage package s || acrossGap (namesPackage package) s

def updateWords : List String :=
  (PackageManager.all.flatMap PackageManager.updateWords).eraseDups

def asksWith (package : List Char) (word : String) (s : List Char) : Bool :=
  match splitFolded? word.toList s with
  | some (_, c :: rest) => isBlank c && afterUpdateWord package rest
  | _ => false

def asksForUpdate (package s : List Char) : Bool :=
  updateWords.any fun word => asksWith package word s

def marksUpdate (package : List Char) (marker : String) (s : List Char) : Bool :=
  match splitFolded? marker.toList s with
  | some (taken, rest) =>
    isWordBoundary taken.getLast? rest.head? && acrossGap (asksForUpdate package) rest
  | none => false

/-- The signature at a place in the text, `before` being the character that precedes it. -/
def startsAt (package : List Char) (before : Option Char) (s : List Char) : Bool :=
  isWordBoundary before s.head? &&
  PackageManager.all.any fun manager => marksUpdate package manager.invocationMarker s

def occursAfter (package : List Char) (before : Option Char) : List Char → Bool
  | [] => startsAt package before []
  | c :: rest => startsAt package before (c :: rest) || occursAfter package (some c) rest

def occursIn (package commandLine : String) : Bool :=
  occursAfter package.toList none commandLine.toList

end UpdateSignature

/-- Package managers run lifecycle scripts through a shell, so it is the second of exactly two
ancestors that shows an update. -/
def isAutomatedUpdate (package : String) : List RunningProcess → Bool
  | [_, grandparent] => UpdateSignature.occursIn package grandparent.commandLine
  | _ => false

def detectAutomatedUpdate (table : ProcessTable) (current : Nat) (package : String) : Bool :=
  isAutomatedUpdate package (table.ancestors current 2)

end ReleaseInstaller
