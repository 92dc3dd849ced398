import ReleaseInstaller.CommandLine.Run

/-! The installer as a program. A command runs on a picture of the files it may touch, and the
changes it makes there are then made to the files themselves. The program has no transport of
its own: every request ends as it does on a host without a network, and package managers are
not asked. -/
namespace ReleaseInstaller.Host

def variableNames : List String := [
  "HOME", "PATH", "npm_execpath", "npm_config_prefix", "DEVSPACE_INSTALLER_LOG",
  "DEVSPACE_INSTALLER_RELEASE_HOST", "DEVSPACE_INSTALLER_MANIFEST",
  "DEVSPACE_INSTALLER_FALLBACK_DIR", "DEVSPACE_INSTALLER_TIMEOUT"]

def readEnvironment : IO Environment := do
  let mut found := []
  for name in variableNames do
    if let some value ← IO.getEnv name then found := (name, OsText.ofString value) :: found
  return ⟨found, none, some (.ofString (← IO.appPath).toString)⟩

def locationOf (names : List String) : Location :=
  names.map fun name => (OsText.ofString name).octets

def namesOf (p : String) : List String :=
  ((p.splitOn "/").filter fun name => name ≠ "" && name ≠ ".")

def textOf (l : Location) : String := (Path.mk (Path.slash :: List.intercalate [Path.slash] l)).display

/-- What lies at a place, the contents of a file being read only where they matter. -/
def nodeAt (p : String) (reads : Bool) : IO (Option Node) := do
  let place := (← IO.currentDir) / p
  try
    match (← place.symlinkMetadata).type with
    | .dir => return some .directory
    | .file =>
      let octets ← if reads then pure (← IO.FS.readBinFile place).toList else pure []
      return some (.file (.data octets) Files.newFileMode)
    | .symlink => return some (.link (.ofString (← IO.FS.realPath place).toString))
    | .other => return some .fullDevice
  catch _ => return none

/-- The entries on the way along some names, through at most `links` links. -/
partial def observe (reads : Bool) (links : Nat) (walked : List String) :
    List String → IO (List (Location × Node))
  | [] => return []
  | name :: rest => do
    let here := walked ++ [name]
    match ← nodeAt ("/" ++ "/".intercalate here) reads, links with
    | none, _ | some (.link _), 0 => return []
    | some (.link real), links + 1 =>
      let onward ← observe reads links [] (namesOf real.display ++ rest)
      return (locationOf here, .link real) :: onward
    | some node, _ => return (locationOf here, node) :: (← observe reads links here rest)

def pathsOfInterest (env : Environment) (settings : Settings) : List Path :=
  let host := HostContext.ofEnvironment env
  let directories := settings.fallbackDirectory :: (Directory.ofPrefix? host .linux).toList
  settings.manifestPath :: settings.configDirectory :: directories.flatMap fun directory =>
    Uninstall.artifacts settings .linux (some (.make directory settings.binaryName .linux))

def picture (env : Environment) (current : String) : IO Files := do
  let here := namesOf current
  let start : Files := ⟨[], locationOf here⟩
  match Settings.ofEnvironment env with
  | .error _ => return start
  | .ok settings =>
    let mut files := start
    for p in pathsOfInterest env settings do
      let names := (if p.isAbsolute then [] else here) ++ namesOf p.display
      for (l, node) in ← observe (p = settings.manifestPath) Files.linkLimit [] names do
        files := files.put l node
    return files

/-- Makes the changes between two pictures: first what is gone, then what is new, directories
before what they hold. -/
def settle (before after : Files) : IO Unit := do
  let current ← IO.currentDir
  for (l, _) in before.entries do
    if (after.at? l).isNone then IO.FS.removeFile (current / textOf l)
  for (l, node) in after.entries.reverse do
    if before.at? l ≠ some node then
      match node with
      | .directory => IO.FS.createDirAll (current / textOf l)
      | .file (.data octets) _ => IO.FS.writeBinFile (current / textOf l) ⟨octets.toArray⟩
      | _ => pure ()

def report (home : String) (outcome : CommandLine.Outcome) : IO Unit := do
  IO.print outcome.output
  if let some error := outcome.error? then
    for line in error.code?.toList ++ [error.message home] ++ error.help?.toList do
      IO.eprintln line
  match outcome.kept? with
  | some .skippedAutomated =>
    IO.eprintln "Keeping the configuration, as a package manager is updating the package"
  | some _ =>
    IO.eprintln "Keeping the configuration, as there is no terminal to confirm its removal"
  | none => pure ()

end ReleaseInstaller.Host

open ReleaseInstaller Host in
def main (arguments : List String) : IO UInt32 := do
  let env ← readEnvironment
  let files ← picture env (← IO.currentDir).toString
  let context : CommandLine.Context := {
    environment := env
    hostOs := "linux"
    hostArch := "x86_64"
    packageManagers := fun _ _ => none
    processes := fun _ => none
    process := 0
    interactive := false
    prompt := fun _ => .unavailable }
  let (outcome, machine) := CommandLine.run context arguments (.fresh files .offline)
  settle files machine.files
  report ((env.home?.map Path.display).getD "") outcome
  return outcome.exitCode.toUInt32
