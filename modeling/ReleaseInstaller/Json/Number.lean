import ReleaseInstaller.Json.Value
import ReleaseInstaller.Text.Ascii

/-! Reading JSON numbers. Digits are gathered in a 64-bit significand; once another digit would
not fit, the digits of the whole part only raise the exponent, and those of the fraction are
left out. A number with a fraction, an exponent or too many digits becomes binary by one
multiplication with, or division by, a power of ten. -/
namespace ReleaseInstaller.Json

open Text (isDigit digitValue digitsValue hasLeadingZero)

structure Gathered where
  significand : Nat
  exponent : Int
  deriving DecidableEq

def overflows (significand : Nat) (c : Char) : Bool :=
  Text.wordLimit ≤ significand * 10 + digitValue c

/-- Whole digits. Once one has not fitted in, each further one counts for the exponent. -/
def gatherWhole (significand : Nat) : List Char → Gathered
  | [] => ⟨significand, 0⟩
  | c :: rest =>
    if overflows significand c then ⟨significand, (c :: rest).length⟩
    else gatherWhole (significand * 10 + digitValue c) rest

/-- Digits of a fraction; those from the first that does not fit in are left out. -/
def gatherFraction (g : Gathered) : List Char → Gathered
  | [] => g
  | c :: rest =>
    if overflows g.significand c then g
    else gatherFraction ⟨g.significand * 10 + digitValue c, g.exponent - 1⟩ rest

def powerOfTen? (n : Nat) : Option Binary64 :=
  if n ≤ 308 then Binary64.ofNat? (Nat.pow 10 n) else none

def shrink : (rounds : Nat) → (by10 : Nat) → Binary64 → Option Binary64
  | 0, _, _ => some .zero
  | rounds + 1, by10, b =>
    match powerOfTen? by10 with
    | some power => b.div? power
    | none =>
      if b.isZero then some b
      else do
        let b ← b.div? (← powerOfTen? 308)
        shrink rounds (by10 - 308) b

/-- The binary number of a gathered one; there is none where it would be infinite. Three
divisions by the greatest power of ten leave nothing of a significand. -/
def Gathered.toBinary? (g : Gathered) : Option Binary64 := do
  let b ← Binary64.ofNat? g.significand
  if g.exponent < 0 then shrink 4 g.exponent.natAbs b
  else match powerOfTen? g.exponent.natAbs with
    | some power => b.mul? power
    | none => if b.isZero then some b else none

def readExponent? (s : List Char) : Option (Int × List Char) :=
  let (negative, s) := match s with
    | '+' :: s => (false, s)
    | '-' :: s => (true, s)
    | s => (false, s)
  let digits := s.takeWhile isDigit
  let size : Int := digitsValue digits
  if digits.isEmpty then none
  else some (if negative then -size else size, s.dropWhile isDigit)

def readFraction? (g : Gathered) : List Char → Option (Gathered × List Char)
  | '.' :: s =>
    let digits := s.takeWhile isDigit
    if digits.isEmpty then none else some (gatherFraction g digits, s.dropWhile isDigit)
  | s => some (g, s)

def readScale? : List Char → Option (Option Int × List Char)
  | 'e' :: s | 'E' :: s => (readExponent? s).map fun (e, s) => (some e, s)
  | s => some (none, s)

def readWhole? (s : List Char) : Option (List Char × List Char) :=
  let digits := s.takeWhile isDigit
  if digits.isEmpty || hasLeadingZero digits then none
  else some (digits, s.dropWhile isDigit)

/-- A number without fraction and exponent is an integer where it is in range; minus zero is
not an integer. -/
def integer? (negative : Bool) (digits : List Char) : Option Int :=
  let value := digitsValue digits
  if negative then
    if 0 < value && 2 * value ≤ Text.wordLimit then some (-(value : Int)) else none
  else
    if value < Text.wordLimit then some value else none

def goesOn : List Char → Bool
  | '.' :: _ | 'e' :: _ | 'E' :: _ => true
  | _ => false

def readUnsigned? (negative : Bool) (s : List Char) : Option (Number × List Char) := do
  let (whole, s) ← readWhole? s
  match integer? negative whole, goesOn s with
  | some value, false => return (.integer value, s)
  | _, _ =>
    let (g, s) ← readFraction? (gatherWhole 0 whole) s
    let (scale, s) ← readScale? s
    let magnitude ← Gathered.toBinary? ⟨g.significand, g.exponent + scale.getD 0⟩
    return (.fraction negative magnitude, s)

def readNumber? : List Char → Option (Number × List Char)
  | '-' :: s => readUnsigned? true s
  | s => readUnsigned? false s

end ReleaseInstaller.Json
