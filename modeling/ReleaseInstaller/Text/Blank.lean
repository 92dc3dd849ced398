import ReleaseInstaller.Text.CodePoint

/-! White space in the sense of the Unicode property of that name, and texts without it at
their ends. -/
namespace ReleaseInstaller.Text

def blankRanges : List CodeRange := [
  (0x9, 0xD), (0x20, 0x20), (0x85, 0x85), (0xA0, 0xA0), (0x1680, 0x1680), (0x2000, 0x200A),
  (0x2028, 0x2029), (0x202F, 0x202F), (0x205F, 0x205F), (0x3000, 0x3000)]

def isBlank (c : Char) : Bool := inRanges blankRanges c

/-- Blank characters of the ASCII range, the vertical tab excepted. -/
def isAsciiBlank (c : Char) : Bool :=
  c = ' ' || c = '\t' || c = '\n' || c = '\r' || c = '\x0c'

def dropTrailing (drop : α → Bool) (s : List α) : List α :=
  (s.reverse.dropWhile drop).reverse

def trim (s : List Char) : List Char :=
  dropTrailing isBlank (s.dropWhile isBlank)

def isAllBlank (s : List Char) : Bool := s.all isBlank

end ReleaseInstaller.Text
