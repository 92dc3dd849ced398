import ReleaseInstaller.Text.Blank
import ReleaseInstaller.Text.OsText

/-! Processes and their ancestors. A table answers for some process numbers and not for
others; the parents it gives may form a cycle. -/
namespace ReleaseInstaller

structure RunningProcess where
  pid : Nat
  parent? : Option Nat
  commandLine : String
  deriving DecidableEq

/-- Each argument is stripped of blanks, empty ones are left out, and a space joins the rest. -/
def commandLineOf (arguments : List OsText) : String :=
  let stripped := arguments.map fun argument => trimOctets argument.octets
  let shown := (stripped.filter (! ·.isEmpty)).map fun octets => OsText.toStringLossy ⟨octets⟩
  " ".intercalate shown
where
  blank (octet : UInt8) : Bool := octet < 0x80 && Text.isAsciiBlank (Char.ofNat octet.toNat)
  trimOctets (octets : List UInt8) : List UInt8 :=
    Text.dropTrailing blank (octets.dropWhile blank)

abbrev ProcessTable := Nat → Option RunningProcess

namespace ProcessTable

/-- Of two entries with one number the later counts. -/
def ofList (entries : List RunningProcess) : ProcessTable :=
  fun pid => entries.reverse.find? fun entry => entry.pid = pid

/-- At most `depth` processes, each the parent of the one before it; the walk ends where a
parent is unknown or cannot be looked up. -/
def climb (table : ProcessTable) : (depth : Nat) → (next : Option Nat) → List RunningProcess
  | 0, _ => []
  | _ + 1, none => []
  | depth + 1, some pid => match table pid with
    | none => []
    | some found => found :: climb table depth found.parent?

def ancestors (table : ProcessTable) (pid depth : Nat) : List RunningProcess :=
  table.climb depth ((table pid).bind RunningProcess.parent?)

@[simp] theorem climb_none (table : ProcessTable) (depth : Nat) :
    table.climb depth none = [] := by
  cases depth <;> rfl

theorem length_climb_le (table : ProcessTable) (depth : Nat) (next : Option Nat) :
    (table.climb depth next).length ≤ depth := by
  induction depth generalizing next with
  | zero => simp [climb]
  | succ depth ih =>
    cases next with
    | none => simp
    | some pid =>
      simp only [climb]
      split
      · simp
      · simpa using ih _

end ProcessTable
end ReleaseInstaller
