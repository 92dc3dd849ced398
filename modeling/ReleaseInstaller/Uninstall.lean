import ReleaseInstaller.Files.Operation
import ReleaseInstaller.Settings
import ReleaseInstaller.Target

/-! Uninstalling: the artifacts of an install are removed one after another, and then the user
may be asked whether the configuration goes as well. Nothing that fails stops the rest. -/
namespace ReleaseInstaller

structure UninstallContext where
  /-- A package manager is updating the package, so nobody is there to answer. -/
  automated : Bool
  interactive : Bool

inductive Answer where
  | yes
  | no
  | unavailable
  deriving DecidableEq

abbrev Prompt := (message : String) → Answer

inductive ConfigRemoval where
  | removed | declined | missing | skippedAutomated | skippedNonInteractive | failed
  deriving DecidableEq, Repr

structure UninstallReport where
  removed : List Path
  failed : List Path
  config : ConfigRemoval

structure Uninstall where
  settings : Settings
  os : Os
  context : UninstallContext
  prompt : Prompt
  home : String

namespace Uninstall

/-- Everything an install may have left, and the binary in the fallback directory. -/
def artifacts (settings : Settings) (os : Os) (target? : Option Target) : List Path :=
  let listed := match target? with
    | none => []
    | some target => [target.final, target.temporary, target.legacy] ++
        target.companions settings.binaryName os true
  let fallback := (Target.make settings.fallbackDirectory settings.binaryName os).final
  if listed.any (Path.same fallback) then listed else listed ++ [fallback]

/-- The paths that are gone and those that could not be removed; paths at which nothing lies
when their turn comes are neither. -/
def removeEach {ε : Type} : List Path → Procedure ε (List Path × List Path)
  | [] => return ([], [])
  | p :: rest => do
    if ← Procedure.look (·.holds p) then
      let gone ← Files.discard p
      let (removed, failed) ← removeEach rest
      return if gone then (p :: removed, failed) else (removed, p :: failed)
    else
      removeEach rest

def question (u : Uninstall) : String :=
  s!"Remove devspace configuration in {u.settings.configDirectory.told u.home}?"

/-- The configuration is removed only if somebody is there to agree to it. -/
def removeConfig {ε : Type} (u : Uninstall) : Procedure ε ConfigRemoval := do
  if ! (← Procedure.look (·.holds u.settings.configDirectory)) then return .missing
  else if u.context.automated then return .skippedAutomated
  else if ! u.context.interactive then return .skippedNonInteractive
  else
    Procedure.record (.askedUser u.question)
    if u.prompt u.question ≠ .yes then return .declined
    else
      let gone ← Procedure.succeeds (Files.discardTree u.settings.configDirectory)
      return if gone then .removed else .failed

def run {ε : Type} (u : Uninstall) (target? : Option Target) : Procedure ε UninstallReport := do
  let (removed, failed) ← removeEach (artifacts u.settings u.os target?)
  let config ← u.removeConfig
  let failed := if config = .failed then failed ++ [u.settings.configDirectory] else failed
  return { removed, failed, config }

end Uninstall
end ReleaseInstaller
