import ReleaseInstaller.Files.Path
import ReleaseInstaller.Platform

/-! Where one run installs to: the directory and the paths that depend on the name of the
binary. Users run the binary at the final path, a download is written to the temporary path
first, and a binary that was replaced lies at the legacy path until it is deleted. -/
namespace ReleaseInstaller

structure Target where
  directory : Path
  binaryName : String
  final : Path
  temporary : Path
  legacy : Path
  deriving DecidableEq

namespace Target

def make (directory : Path) (name : String) (os : Os) : Target :=
  let binaryName := os.executableName name
  { directory
    binaryName
    final := directory.joinName binaryName
    temporary := directory.joinName (binaryName ++ ".dl")
    legacy := directory.joinName ("." ++ binaryName ++ ".old") }

/-- Scripts that a package manager puts beside the binary on Windows and that would be run in
its place. The batch script counts only when `all` are asked for. -/
def companions (t : Target) (name : String) (os : Os) (all : Bool) : List Path :=
  if os.isWindows then
    [t.directory.joinName name, t.directory.joinName (name ++ ".ps1")] ++
      if all then [t.directory.joinName (name ++ ".cmd")] else []
  else
    []

end Target
end ReleaseInstaller
