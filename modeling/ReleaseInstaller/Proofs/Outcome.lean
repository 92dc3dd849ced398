import ReleaseInstaller.CommandLine.Run
import ReleaseInstaller.Proofs.Procedure

/-! How a command ends. A command that needs settings fails without them; with them its exit code
says whether it succeeded, and the machine is the one that it left. -/
namespace ReleaseInstaller.CommandLine

open Procedure

variable {context : Context} {arguments : List String} {invocation : Invocation}
  {settings : Settings} {m : Machine}

theorem run_of_settled (heard : read context.environment arguments = .ok invocation)
    (settled : Settings.ofEnvironment context.environment = .ok settings)
    (some : invocation.subcommand ≠ .noop) :
    run context arguments m =
      let ran := (Run.perform ⟨context,settings,.ofEnvironment context.environment⟩
        invocation.subcommand).run m
      (finish invocation ran.1,ran.2) := by
  simp only [run,heard,perform,if_neg some,settled]
  rfl

theorem run_of_unsettled {error : InstallError}
    (heard : read context.environment arguments = .ok invocation)
    (unsettled : Settings.ofEnvironment context.environment = .error error)
    (some : invocation.subcommand ≠ .noop) :
    run context arguments m = (finish invocation (.error error),m) := by
  simp only [run,heard,perform,if_neg some,unsettled]
  rfl

/-- A run with a home directory and nothing else to go by. -/
def atHome : Context where
  environment := ⟨[],some ⟨[Path.slash]⟩,none⟩
  hostOs := "linux"
  hostArch := "x86_64"
  packageManagers _ _ := none
  processes _ := none
  process := 1
  interactive := false
  prompt _ := .unavailable

end ReleaseInstaller.CommandLine
