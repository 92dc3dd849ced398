import ReleaseInstaller.Files.Operation

/-! Moving a downloaded binary over the one that users run. The mode is set before the move, and
the move is a single change, so the path holds the old binary or the new one at every moment. -/
namespace ReleaseInstaller.Replacement

def executableMode : Nat := 0o755

def run (temporary final : Path) : Procedure InstallError Unit :=
  Procedure.failing (fun failure => .replaceFailed final failure.action) do
    Files.updateMode temporary executableMode
    Files.move temporary final

end ReleaseInstaller.Replacement
