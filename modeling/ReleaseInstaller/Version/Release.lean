import ReleaseInstaller.InstallError
import ReleaseInstaller.Text.Blank
import ReleaseInstaller.Version.Channel
import ReleaseInstaller.Version.Semantic

/-! Versions of published releases, such as 4.2.0 or 4.2.0-beta.4. -/
namespace ReleaseInstaller

structure ReleaseVersion where
  text : String
  deriving DecidableEq

namespace ReleaseVersion

/-- A version may be written with blanks around it and one letter v before it. -/
def bareText (value : String) : List Char :=
  match Text.trim value.toList with
  | 'v' :: rest => rest
  | bare => bare

def parse (value : String) : Except InstallError ReleaseVersion :=
  let bare := bareText value
  if (SemanticVersion.parse? bare).isSome then .ok ⟨String.ofList bare⟩
  else .error (.invalidVersion (String.ofList bare))

def channel (v : ReleaseVersion) : String := channelTag v.text

end ReleaseVersion
end ReleaseInstaller
