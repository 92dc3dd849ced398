import ReleaseInstaller.Decimal.Shortest
import ReleaseInstaller.Json.Value

/-! Writing JSON texts: one item or member a line, two spaces for each level, and nothing inside
the brackets of an empty array or object. -/
namespace ReleaseInstaller.Json

def hexDigit (n : Nat) : Char := "0123456789abcdef".toList.getD n '0'

def escape (c : Char) : List Char :=
  if c = '"' then ['\\', '"']
  else if c = '\\' then ['\\', '\\']
  else if c = '\x08' then ['\\', 'b']
  else if c = '\x0c' then ['\\', 'f']
  else if c = '\n' then ['\\', 'n']
  else if c = '\r' then ['\\', 'r']
  else if c = '\t' then ['\\', 't']
  else if c.toNat < 0x20 then
    ['\\', 'u', '0', '0', hexDigit (c.toNat / 16), hexDigit (c.toNat % 16)]
  else [c]

def quoted (text : List Char) : List Char := '"' :: text.flatMap escape ++ ['"']

def natText (n : Nat) : List Char := Nat.toDigits 10 n

def intText (n : Int) : List Char :=
  if n < 0 then '-' :: natText n.natAbs else natText n.natAbs

/-- Which exponents are written out, the exponent being that of the first digit. -/
structure FractionFormat where
  leastWritten : Int
  greatestWritten : Int

/-- Numbers from a hundred-thousandth up to below ten to the sixteenth are written without an
exponent. -/
def fractionFormat : FractionFormat := ⟨-5, 15⟩

/-- A decimal with a point; a whole number ends in a point and a zero. -/
def positional (digits : List Char) (exponent : Int) : List Char :=
  if 0 ≤ exponent then digits ++ List.replicate exponent.natAbs '0' ++ ['.', '0']
  else
    let places := exponent.natAbs
    let padded := List.replicate (places + 1 - digits.length) '0' ++ digits
    padded.take (padded.length - places) ++ '.' :: padded.drop (padded.length - places)

/-- One digit, a point if more follow, and the exponent with its sign. -/
def scientific (digits : List Char) (lead : Int) : List Char :=
  let front := match digits with
    | first :: second :: more => first :: '.' :: second :: more
    | short => short
  front ++ 'e' :: (if lead < 0 then '-' else '+') :: natText lead.natAbs

def magnitudeText (b : Binary64) : List Char :=
  let d := Decimal.shortest b
  let digits := natText d.digits
  let lead := d.exponent + digits.length - 1
  if b.isZero then ['0', '.', '0']
  else if fractionFormat.leastWritten ≤ lead && lead ≤ fractionFormat.greatestWritten then
    positional digits d.exponent
  else scientific digits lead

def Number.text : Number → List Char
  | integer value => intText value
  | fraction negative magnitude =>
    if negative then '-' :: magnitudeText magnitude else magnitudeText magnitude

def newline (level : Nat) : List Char := '\n' :: List.replicate (2 * level) ' '

mutual

def Value.textAt (level : Nat) : Value → List Char
  | .null => "null".toList
  | .bool true => "true".toList
  | .bool false => "false".toList
  | .number n => n.text
  | .string text => quoted text
  | .array [] => ['[', ']']
  | .array (item :: items) =>
    '[' :: newline (level + 1) ++ item.textAt (level + 1) ++ itemsText (level + 1) items ++
      newline level ++ [']']
  | .object [] => ['{', '}']
  | .object ((key, value) :: members) =>
    '{' :: newline (level + 1) ++ quoted key ++ ':' :: ' ' :: value.textAt (level + 1) ++
      membersText (level + 1) members ++ newline level ++ ['}']

def itemsText (level : Nat) : List Value → List Char
  | [] => []
  | item :: items => ',' :: newline level ++ item.textAt level ++ itemsText level items

def membersText (level : Nat) : List (List Char × Value) → List Char
  | [] => []
  | (key, value) :: members =>
    ',' :: newline level ++ quoted key ++ ':' :: ' ' :: value.textAt level ++
      membersText level members

end

def Value.text (v : Value) : List Char := v.textAt 0

end ReleaseInstaller.Json
