import ReleaseInstaller.Text.Utf8

/-! Texts of the operating system: octets that usually, but not always, spell characters. -/
namespace ReleaseInstaller

structure OsText where
  octets : List UInt8
  deriving DecidableEq, Inhabited

namespace OsText

def ofChars (s : List Char) : OsText := ⟨Text.Utf8.encode s⟩

def ofString (s : String) : OsText := ofChars s.toList

/-- The characters, if the octets spell nothing else. -/
def toString? (t : OsText) : Option String := (Text.Utf8.decode? t.octets).map String.ofList

def toStringLossy (t : OsText) : String := String.ofList (Text.Utf8.decodeLossy t.octets)

def isEmpty (t : OsText) : Bool := t.octets.isEmpty

end OsText
end ReleaseInstaller
