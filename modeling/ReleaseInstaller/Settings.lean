import ReleaseInstaller.Environment
import ReleaseInstaller.InstallError
import ReleaseInstaller.Version.Release

/-! What a run is configured with. Settings start from the home directory; a few variables of
the environment replace single ones. -/
namespace ReleaseInstaller

structure Settings where
  binaryName : String
  configDirectory : Path
  /-- Directory used when no package manager's directory can be. -/
  fallbackDirectory : Path
  manifestPath : Path
  packageName : String
  /-- Where releases are published, without a slash at the end. -/
  releaseHost : String
  /-- Owner and project, with a slash between them. -/
  repository : String
  connectMilliseconds : Nat
  requestMilliseconds : Nat

namespace Settings

def ofHome (home : Path) : Settings where
  binaryName := "devspace"
  configDirectory := home.joinName ".devspace"
  fallbackDirectory := .ofString "/usr/local/bin"
  manifestPath := .ofString "package.json"
  packageName := "devspace"
  releaseHost := "https://github.com"
  repository := "covexo/devspace"
  connectMilliseconds := 30000
  requestMilliseconds := 600000

/-- Digits, perhaps after a plus sign, that say a positive number of seconds below 2 to the
64th. -/
def seconds? (s : String) : Option Nat :=
  let digits := match s.toList with
    | '+' :: digits => digits
    | digits => digits
  let value := Text.digitsValue digits
  if !digits.isEmpty && digits.all Text.isDigit && 0 < value && value < Text.wordLimit then
    some value
  else
    none

def withReleaseHost (env : Environment) (s : Settings) : Settings :=
  match (env.text? "DEVSPACE_INSTALLER_RELEASE_HOST").filter (! ·.isEmpty) with
  | none => s
  | some host =>
    { s with releaseHost := String.ofList (Text.dropTrailing (· = '/') host.toList) }

def withManifest (env : Environment) (s : Settings) : Settings :=
  match env.present? "DEVSPACE_INSTALLER_MANIFEST" with
  | none => s
  | some manifest => { s with manifestPath := .ofText manifest }

def withFallback (env : Environment) (s : Settings) : Settings :=
  match env.present? "DEVSPACE_INSTALLER_FALLBACK_DIR" with
  | none => s
  | some directory => { s with fallbackDirectory := .ofText directory }

def withTimeout (env : Environment) (s : Settings) : Settings :=
  match (env.text? "DEVSPACE_INSTALLER_TIMEOUT").bind seconds? with
  | none => s
  | some seconds => { s with requestMilliseconds := seconds * 1000 }

def ofEnvironment (env : Environment) : Except InstallError Settings :=
  match env.home? with
  | none => .error .homeUnknown
  | some home =>
    .ok (ofHome home |>.withReleaseHost env |>.withManifest env |>.withFallback env
      |>.withTimeout env)

def projectName (s : Settings) : String :=
  String.ofList (s.repository.toList.reverse.takeWhile (· ≠ '/')).reverse

def downloadDirectory (s : Settings) : String := "/" ++ s.repository ++ "/releases/download/"

def listingUrl (s : Settings) : String := s.releaseHost ++ "/" ++ s.repository ++ "/releases"

def artifactName (s : Settings) (platform : Platform) : String :=
  platform.os.executableName (s.projectName ++ "-" ++ platform.artifactSuffix)

def downloadUrl (s : Settings) (version : ReleaseVersion) (platform : Platform) : String :=
  s.releaseHost ++ s.downloadDirectory ++ "v" ++ version.text ++ "/" ++ s.artifactName platform

end Settings
end ReleaseInstaller
