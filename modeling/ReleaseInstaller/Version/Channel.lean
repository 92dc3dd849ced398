import ReleaseInstaller.Text.Ascii
import ReleaseInstaller.Text.Blank
import ReleaseInstaller.Text.Lowercase

/-! Release channels. A version text that ends in a hyphen, letters, and perhaps a dot and
digits names its channel by those letters; any other is published as the latest. -/
namespace ReleaseInstaller

/-- Letters without regard to case, which takes in the long s and the Kelvin sign. -/
def isChannelLetter (c : Char) : Bool :=
  Text.isLetter c || c = Char.ofNat 0x17F || c = Char.ofNat 0x212A

/-- A dot and digits up to the end of the text, or the end itself. -/
def isChannelEnd : List Char → Bool
  | [] => true
  | '.' :: digits => !digits.isEmpty && digits.all Text.isDigit
  | _ => false

def channelHere? (s : List Char) : Option (List Char) :=
  let letters := s.takeWhile isChannelLetter
  if !letters.isEmpty && isChannelEnd (s.dropWhile isChannelLetter) then some letters else none

def findChannel? : List Char → Option (List Char)
  | [] => none
  | c :: rest => if c = '-' then (channelHere? rest).or (findChannel? rest) else findChannel? rest

def latestChannel : String := "latest"

def channelTag (version : String) : String :=
  match findChannel? (Text.trim version.toList) with
  | some letters => String.ofList (Text.lower letters)
  | none => latestChannel

end ReleaseInstaller
