import ReleaseInstaller.CommandLine.Arguments
import ReleaseInstaller.Directory
import ReleaseInstaller.Install
import ReleaseInstaller.Manifest
import ReleaseInstaller.Uninstall
import ReleaseInstaller.UpdateSignature

/-! The commands of the installer. A command acts on the machine and ends with an exit code, what
it printed, and the error it ended with if there was one. -/
namespace ReleaseInstaller.CommandLine

structure Context where
  environment : Environment
  hostOs : String
  hostArch : String
  /-- What package managers answer, which may depend on the files. -/
  packageManagers : Files → Directory.GlobalBin
  processes : ProcessTable
  process : Nat
  interactive : Bool
  prompt : Prompt

structure Result where
  output : String
  config? : Option ConfigRemoval

structure Outcome where
  exitCode : Nat
  output : String
  error? : Option InstallError
  /-- Why the configuration was kept, where that is told. -/
  kept? : Option ConfigRemoval

structure Run where
  context : Context
  settings : Settings
  host : HostContext

namespace Run

/-- The version asked for: the one given, else the one that the manifest records. -/
def requestedVersion (r : Run) (given? : Option String) (f : Files) :
    Except InstallError (Option ReleaseVersion) :=
  match given? with
  | some text => (ReleaseVersion.parse text).map some
  | none => do
    match ← Manifest.ofFiles? r.settings.manifestPath f with
    | none => return none
    | some manifest => manifest.version

def install (r : Run) (given? : Option String) (shows : Bool) :
    Procedure InstallError Installed := do
  let version ← ExceptT.mk (pure (r.requestedVersion given? (← get).files))
  match Platform.ofHost r.context.hostOs r.context.hostArch with
  | .error cause => throw (.unsupportedPlatform cause)
  | .ok platform =>
    let globalBin := r.context.packageManagers (← get).files
    let target ← Directory.resolve r.settings r.host globalBin platform.os
    Install.run ⟨r.settings, .listing, platform, target, shows⟩ version

def getTag (r : Run) : Procedure InstallError Result := do
  let manifest ← Manifest.load r.settings.manifestPath
  let version ← ExceptT.mk (pure manifest.version)
  return ⟨(version.elim latestChannel ReleaseVersion.channel) ++ "\n", none⟩

def updateVersion (r : Run) : Procedure InstallError Result := do
  let version ← Feed.fromListing r.settings true
  let manifest ← Manifest.load r.settings.manifestPath
  let manifest ← ExceptT.mk (pure (manifest.setVersion version))
  manifest.save
  return ⟨"", none⟩

def uninstall (r : Run) : Procedure InstallError Result := do
  match Os.ofHostName r.context.hostOs with
  | .error cause => throw (.unsupportedPlatform cause)
  | .ok os =>
    let globalBin := r.context.packageManagers (← get).files
    let target? := match (Directory.locate r.settings r.host globalBin os).2 with
      | .ok directory => some (Target.make directory r.settings.binaryName os)
      | .error _ => none
    let automated :=
      detectAutomatedUpdate r.context.processes r.context.process r.settings.packageName
    let home := (r.context.environment.home?.map Path.display).getD ""
    let report ← Uninstall.run
      ⟨r.settings, os, ⟨automated, r.context.interactive⟩, r.context.prompt, home⟩ target?
    return ⟨"", some report.config⟩

def perform (r : Run) : Subcommand → Procedure InstallError Result
  | .noop => return ⟨"", none⟩
  | .updateVersion => r.updateVersion
  | .getTag => r.getTag
  | .install version? => do
    let _ ← r.install version? true
    return ⟨"", none⟩
  | .uninstall => r.uninstall
  | .finishInstall version? => do
    let _ ← r.install version? false
    return ⟨"", none⟩

end Run

/-- The command that does nothing succeeds whatever the environment is like. -/
def perform (context : Context) (subcommand : Subcommand) : Procedure InstallError Result :=
  if subcommand = .noop then return ⟨"", none⟩
  else match Settings.ofEnvironment context.environment with
    | .error error => throw error
    | .ok settings =>
      Run.perform ⟨context, settings, .ofEnvironment context.environment⟩ subcommand

def versionLine : String := "devspace-installer 0.1.0\n"

def helpText : String :=
  "Usage: devspace-installer [--log <LEVEL>] <COMMAND>\n\n" ++
  "Commands:\n" ++
  "  noop            Do nothing and exit successfully.\n" ++
  "  update-version  Record the latest devspace release in the package metadata.\n" ++
  "  get-tag         Print the release channel of the packaged version.\n" ++
  "  install         Download and install the devspace binary.\n" ++
  "  uninstall       Remove the devspace binary.\n" ++
  "  finish-install  Download and install from a package lifecycle script.\n"

def Stop.outcome : Stop → Outcome
  | usage => ⟨2, "", none, none⟩
  | showVersion => ⟨0, versionLine, none, none⟩
  | showHelp => ⟨0, helpText, none, none⟩

/-- Keeping the configuration is told as a warning, unless it was declined. -/
def keptNotice? (invocation : Invocation) (config? : Option ConfigRemoval) :
    Option ConfigRemoval :=
  if invocation.warns then
    config?.filter fun config => config = .skippedAutomated || config = .skippedNonInteractive
  else
    none

def finish (invocation : Invocation) : Except InstallError Result → Outcome
  | .ok result => ⟨0, result.output, none, keptNotice? invocation result.config?⟩
  | .error error => ⟨1, "", some error, none⟩

def run (context : Context) (arguments : List String) (m : Machine) : Outcome × Machine :=
  match read context.environment arguments with
  | .error stop => (stop.outcome, m)
  | .ok invocation =>
    let (result, m) := perform context invocation.subcommand m
    (finish invocation result, m)

end ReleaseInstaller.CommandLine
