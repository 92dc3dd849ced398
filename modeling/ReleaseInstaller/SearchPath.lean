import ReleaseInstaller.Files.Path
import ReleaseInstaller.Platform
import ReleaseInstaller.Text.Ascii
import ReleaseInstaller.Text.Blank
import ReleaseInstaller.Text.Lowercase
import ReleaseInstaller.Text.Parts

/-! Directories as entries of a search path. Entries are compared in a normal form that does
not depend on blanks around them, on the kind of slash, on a drive letter or on slashes at the
end; on Windows it does not depend on case either. -/
namespace ReleaseInstaller.SearchPath

/-- Without a letter and a colon at the start. -/
def dropDrive : List Char → List Char
  | letter :: ':' :: rest => if Text.isLetter letter then rest else letter :: ':' :: rest
  | s => s

/-- Slashes at the end are dropped, but a text of slashes alone keeps one. -/
def dropTrailingSlashes (s : List Char) : List Char :=
  match s, Text.dropTrailing (· = '/') s with
  | '/' :: _, [] => ['/']
  | _, short => short

def forwardSlash (c : Char) : Char := if c = '\\' then '/' else c

def normalChars (os : Os) (entry : List Char) : List Char :=
  let short := dropTrailingSlashes (dropDrive ((Text.trim entry).map forwardSlash))
  if os.isWindows then Text.lower short else short

def normalEntry (entry : String) (os : Os) : String :=
  String.ofList (normalChars os entry.toList)

def entries (searchPath : String) (os : Os) : List (List Char) :=
  Text.splitAt os.pathSeparator searchPath.toList

/-- Whether a directory is listed; blank entries list nothing. -/
def lists (searchPath : String) (directory : Path) (os : Os) : Bool :=
  ((entries searchPath os).filter (! Text.isAllBlank ·)).any fun entry =>
    normalChars os entry = normalChars os directory.display.toList

def colon : UInt8 := 0x3A

def directories (searchPath : OsText) : List Path :=
  (Text.splitAt colon searchPath.octets).map Path.mk

end ReleaseInstaller.SearchPath
