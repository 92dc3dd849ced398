import ReleaseInstaller.Files.Path

/-! The environment of a run: its variables, the home directory of the account, and the running
program itself. -/
namespace ReleaseInstaller

structure Environment where
  bindings : List (String × OsText)
  accountHome? : Option Path
  executable? : Option Path

namespace Environment

def get? (env : Environment) (name : String) : Option OsText := env.bindings.lookup name

/-- A variable whose octets spell no characters counts as unset. -/
def text? (env : Environment) (name : String) : Option String :=
  (env.get? name).bind OsText.toString?

def present? (env : Environment) (name : String) : Option OsText :=
  (env.get? name).filter (! ·.isEmpty)

def presentText? (env : Environment) (name : String) : Option String :=
  (env.text? name).filter (! ·.isEmpty)

def set (env : Environment) (name : String) (value : OsText) : Environment :=
  { env with bindings := (name, value) :: env.bindings.filter (·.1 ≠ name) }

def unset (env : Environment) (name : String) : Environment :=
  { env with bindings := env.bindings.filter (·.1 ≠ name) }

/-- The home directory: the variable of that name, else the one of the account. -/
def home? (env : Environment) : Option Path :=
  ((env.present? "HOME").map Path.ofText).or env.accountHome?

end Environment

structure HostContext where
  /-- Path of the package manager, or of the running program, that started the run. -/
  invocation : String
  npmPrefix? : Option String
  searchPath? : Option String

namespace HostContext

def ofEnvironment (env : Environment) : HostContext where
  invocation :=
    ((env.presentText? "npm_execpath").or (env.executable?.map Path.display)).getD ""
  npmPrefix? := env.presentText? "npm_config_prefix"
  searchPath? := env.text? "PATH"

end HostContext
end ReleaseInstaller
