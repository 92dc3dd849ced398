import ReleaseInstaller.Files.Operation
import ReleaseInstaller.PackageManager
import ReleaseInstaller.SearchPath
import ReleaseInstaller.Settings
import ReleaseInstaller.Target

/-! Choosing the directory to install into: the global bin directory of the package manager
that started the run, of the other manager, or below the npm prefix, provided that the search
path lists it. -/
namespace ReleaseInstaller.Directory

abbrev GlobalBin := PackageManager → Option Path

/-- Asks managers in turn until one answers with a path that is not empty. Gives the managers
asked and the answer. -/
def askInTurn (globalBin : GlobalBin) :
    List PackageManager → List PackageManager × Option Path
  | [] => ([], none)
  | manager :: others =>
    match (globalBin manager).filter (! ·.isEmpty) with
    | some directory => ([manager], some directory)
    | none =>
      let (asked, answer) := askInTurn globalBin others
      (manager :: asked, answer)

def ofPrefix? (host : HostContext) (os : Os) : Option Path :=
  host.npmPrefix?.map fun npmPrefix =>
    let directory := Path.ofString npmPrefix
    if os.isWindows then directory else directory.joinName "bin"

/-- The fallback directory stands in for a directory that is missing or not on the search path,
except on Windows, where that is an error. -/
def choose (settings : Settings) (host : HostContext) (os : Os) :
    Option Path → Except InstallError Path
  | none => if os.isWindows then .error .directoryUnresolved else .ok settings.fallbackDirectory
  | some directory =>
    if SearchPath.lists (host.searchPath?.getD "") directory os then .ok directory
    else if os.isWindows then .error (.directoryNotOnPath directory)
    else .ok settings.fallbackDirectory

def locate (settings : Settings) (host : HostContext) (globalBin : GlobalBin) (os : Os) :
    List PackageManager × Except InstallError Path :=
  let primary := PackageManager.ofInvocation host.invocation
  let (asked, answer) := askInTurn globalBin [primary, primary.alternate]
  (asked, choose settings host os (answer.or (ofPrefix? host os)))

def resolve (settings : Settings) (host : HostContext) (globalBin : GlobalBin) (os : Os) :
    Procedure InstallError Target := do
  let directory ← ExceptT.mk (pure (locate settings host globalBin os).2)
  Procedure.failing FileFailure.toError (Files.makeDirectories directory)
  return Target.make directory settings.binaryName os

end ReleaseInstaller.Directory
