import ReleaseInstaller.Text.Lowercase
import ReleaseInstaller.Text.Parts

/-! Package managers that install the command line tool globally. -/
namespace ReleaseInstaller

inductive PackageManager where
  | npm | yarn
  deriving DecidableEq, Repr

namespace PackageManager

def name : PackageManager → String
  | npm => "npm"
  | yarn => "yarn"

def all : List PackageManager := [npm, yarn]

def alternate : PackageManager → PackageManager
  | npm => yarn
  | yarn => npm

def globalBinCommand : PackageManager → List String
  | npm => ["npm", "bin", "-g"]
  | yarn => ["yarn", "global", "bin"]

/-- The text by which a path or a command line names the manager. -/
def invocationMarker : PackageManager → String
  | npm => "npm"
  | yarn => "yarn"

def updateWords : PackageManager → List String
  | npm => ["up", "update", "upgrade"]
  | yarn => ["upgrade"]

/-- Yarn is recognised by its marker; everything else is taken to be npm. -/
def ofInvocation (invocation : String) : PackageManager :=
  if Text.occurs yarn.invocationMarker.toList (Text.lower invocation.toList) then yarn else npm

end PackageManager
end ReleaseInstaller
