import ReleaseInstaller.Download
import ReleaseInstaller.Feed
import ReleaseInstaller.Replacement
import ReleaseInstaller.Target

/-! Installing a release: a version is settled, its artifact downloaded, and the binary moved
into place. When the server has no artifact of that version, the newest release is looked up,
pre-releases included, and downloaded instead; this happens once. -/
namespace ReleaseInstaller

structure Installed where
  version : ReleaseVersion
  binary : Path
  download : Download
  fresh : Bool
  /-- Scripts beside the binary that were removed. -/
  removed : List Path

structure Install where
  settings : Settings
  feed : Feed
  platform : Platform
  target : Target
  shows : Bool

namespace Install

def newestVersion (i : Install) (includePrerelease : Bool) :
    Procedure InstallError ReleaseVersion := do
  Procedure.record (.entered .resolving)
  i.feed.ask i.settings includePrerelease

/-- Downloads into the temporary file, which holds nothing of an earlier run. -/
def fetch (i : Install) (version : ReleaseVersion) : Procedure InstallError Download := do
  Procedure.record (.entered .downloading)
  let _ ← Files.discard i.target.temporary
  let url := i.settings.downloadUrl version i.platform
  let download ← Download.run url version i.target.temporary i.shows
  if download.outcome = .missing then
    let _ ← Files.discard i.target.temporary
  return download

def fetchNewest (i : Install) : Procedure InstallError (ReleaseVersion × Download) := do
  let version ← i.newestVersion true
  let download ← i.fetch version
  if download.outcome = .missing then
    throw (.notAvailable version.text (toString download.status))
  return (version, download)

def fetchOrNewest (i : Install) (version : ReleaseVersion) :
    Procedure InstallError (ReleaseVersion × Download) := do
  let download ← i.fetch version
  if download.outcome = .completed then return (version, download)
  else i.fetchNewest

def obtain (i : Install) : (explicit : Option ReleaseVersion) →
    Procedure InstallError (ReleaseVersion × Download)
  | some version => i.fetchOrNewest version
  | none => do
    let version ← i.newestVersion false
    i.fetchOrNewest version

def discardEach {ε : Type} : List Path → Procedure ε (List Path)
  | [] => return []
  | p :: rest => do
    let gone ← if ← Procedure.look (·.holds p) then Files.discard p else pure false
    let removed ← discardEach rest
    return if gone then p :: removed else removed

/-- A binary that was there before may have come with a batch script of its own, which then is
removed with the other companions. -/
def putInPlace (i : Install) (version : ReleaseVersion) (download : Download) :
    Procedure InstallError Installed := do
  Procedure.record (.entered .installing)
  let fresh := ! (← Procedure.look (·.holds i.target.final))
  let _ ← Files.discard i.target.legacy
  Replacement.run i.target.temporary i.target.final
  let _ ← Files.discard i.target.legacy
  let removed ← discardEach
    (i.target.companions i.settings.binaryName i.platform.os (! fresh))
  Procedure.record (.entered .installed)
  return ⟨version, i.target.final, download, fresh, removed⟩

def attempt (i : Install) (explicit : Option ReleaseVersion) :
    Procedure InstallError Installed := do
  let (version, download) ← i.obtain explicit
  i.putInPlace version download

/-- After a failure nothing of the download is kept. -/
def run (i : Install) (explicit : Option ReleaseVersion) : Procedure InstallError Installed := do
  match ← Procedure.outcome (i.attempt explicit) with
  | .ok installed => return installed
  | .error error =>
    Procedure.record (.entered .failed)
    let _ ← Files.discard i.target.temporary
    throw error

def runForHost (settings : Settings) (feed : Feed) (os arch : String) (target : Target)
    (shows : Bool) (explicit : Option ReleaseVersion) : Procedure InstallError Installed :=
  match Platform.ofHost os arch with
  | .ok platform => run ⟨settings, feed, platform, target, shows⟩ explicit
  | .error cause => do
    Procedure.record (.entered .failed)
    throw (.unsupportedPlatform cause)

end Install
end ReleaseInstaller
