import ReleaseInstaller.Files.Path
import ReleaseInstaller.Platform
import ReleaseInstaller.Text.Parts

/-! What can go wrong in a run, and how it is told to the user. Each error is a cause with the
facts that belong to it; the wording, the diagnostic code and the advice are read off it. -/
namespace ReleaseInstaller

inductive FileAction where
  | create | read | write | rename | remove | permissions
  deriving DecidableEq, Repr

inductive ManifestFault where
  | malformed
  | uncleanComments
  | file (action : FileAction)
  deriving DecidableEq

inductive InstallError where
  | file (action : FileAction) (path : Path)
  | manifest (fault : ManifestFault) (path : Path)
  | unsupportedPlatform (cause : PlatformError)
  | homeUnknown
  | versionRequestFailed (url : String)
  | versionUnavailable (url status : String)
  | versionNotFound (url : String)
  | invalidVersion (version : String)
  | directoryUnresolved
  | directoryNotOnPath (directory : Path)
  | downloadFailed (url : String)
  | downloadTimeout (url : String)
  | notAvailable (version status : String)
  | writeFailed (path : Path)
  | replaceFailed (path : Path) (cause : FileAction)
  | versionFieldMissing (path : Path)
  deriving DecidableEq

/-- How a path is told: the home directory is shortened to a tilde wherever it occurs. A path
whose octets spell no characters cannot be told. -/
def Path.told (home : String) (p : Path) : String :=
  match OsText.toString? ⟨p.octets⟩ with
  | none => "<unknown>"
  | some shown => String.ofList (Text.replaceAll home.toList ['~'] shown.toList)

namespace FileAction

def message (told : String) : FileAction → String
  | create => s!"Failed to create {told}."
  | read => s!"Failed to read path {told}."
  | write => s!"Failed to write {told}."
  | rename => s!"Failed to rename {told}."
  | remove => s!"Failed to remove path {told}."
  | permissions => s!"Failed to update permissions for {told}."

end FileAction

namespace InstallError

def message (home : String) : InstallError → String
  | file action path => action.message (path.told home)
  | manifest .malformed path => s!"Failed to parse JSON file {path.told home}."
  | manifest .uncleanComments path =>
    s!"Failed to clean comments and trailing commas in JSON file {path.told home}."
  | manifest (.file action) path => action.message (path.told home)
  | unsupportedPlatform cause =>
    s!"Unable to download and install devspace on this platform. {cause.message}"
  | homeUnknown => "Unable to determine your home directory."
  | versionRequestFailed url => s!"Failed to request the latest release from {url}."
  | versionUnavailable url status =>
    s!"Unable to resolve the latest devspace version from {url}.\nStatus: {status}"
  | versionNotFound url => s!"No release version could be found in the listing at {url}."
  | invalidVersion version => s!"Invalid release version {version}."
  | directoryUnresolved =>
    "Unable to determine the global bin directory to install devspace into."
  | directoryNotOnPath directory =>
    s!"The global bin directory {directory.told home} is not on PATH, " ++
      "devspace would not be executable."
  | downloadFailed url => s!"Failed to download release {url}."
  | downloadTimeout url => s!"Timed out downloading release {url}."
  | notAvailable version status =>
    s!"Download for devspace v{version} is not available.\nStatus: {status}"
  | writeFailed path => s!"Failed to write download to {path.told home}."
  | replaceFailed path _ =>
    s!"Unable to move the downloaded binary into place at {path.told home}."
  | versionFieldMissing path =>
    s!"Version metadata {path.told home} is missing a version field."

/-- The last part of the diagnostic code; plain file errors have none. -/
def codeWord? : InstallError → Option String
  | file .. | manifest .. => none
  | unsupportedPlatform _ => some "unsupported_platform"
  | homeUnknown => some "missing_home_dir"
  | versionRequestFailed _ => some "version_request_failed"
  | versionUnavailable .. => some "version_unavailable"
  | versionNotFound _ => some "version_not_found"
  | invalidVersion _ => some "invalid_version"
  | directoryUnresolved => some "install_dir_unresolved"
  | directoryNotOnPath _ => some "install_dir_not_on_path"
  | downloadFailed _ => some "download_failed"
  | downloadTimeout _ => some "download_timeout"
  | notAvailable .. => some "not_available"
  | writeFailed _ => some "write_failed"
  | replaceFailed .. => some "replace_failed"
  | versionFieldMissing _ => some "invalid_manifest"

def code? (e : InstallError) : Option String :=
  e.codeWord?.map fun word => "devspace::installer::" ++ word

def help? : InstallError → Option String
  | versionRequestFailed _ => some "Check your internet connection and try again."
  | versionNotFound _ =>
    some "The release listing may have changed format, please report this issue!"
  | directoryUnresolved =>
    some ("Make sure npm or yarn is available, " ++
      "or set the npm_config_prefix environment variable.")
  | directoryNotOnPath _ =>
    some "Add the directory to your PATH environment variable and try again."
  | downloadTimeout _ => some "The connection timed out, please try again later."
  | notAvailable .. => some "A release may be in progress, please try again later!"
  | replaceFailed .. =>
    some ("This is commonly a permissions issue. Either install without elevated privileges " ++
      "(npm install -g devspace), or re-run with unsafe permissions enabled " ++
      "(sudo npm install -g devspace --unsafe-perm=true).")
  | _ => none

end InstallError
end ReleaseInstaller
