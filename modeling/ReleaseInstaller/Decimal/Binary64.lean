/-! Magnitudes of finite binary numbers of 64 bits, with exact operations that round once, to
the nearest such number and to the even one of two that are equally near. -/
namespace ReleaseInstaller

/-- The number `significand * 2 ^ exponent`. The significand has at most 53 bits, and fewer only
for the least exponent. -/
structure Binary64 where
  significand : Nat
  exponent : Int
  deriving DecidableEq

namespace Binary64

def leastExponent : Int := -1074
def greatestExponent : Int := 971

def leastFull : Nat := 0x10000000000000

def zero : Binary64 := ⟨0, leastExponent⟩

def scaled (n : Nat) (e : Int) : Nat × Nat :=
  if e < 0 then (n, Nat.pow 2 e.natAbs) else (n * Nat.pow 2 e.natAbs, 1)

/-- The quotient rounded to a natural number, a half to the even neighbour. -/
def roundQuotient (num den : Nat) : Nat :=
  let floor := num / den
  let rest := num % den
  if 2 * rest < den then floor
  else if den < 2 * rest then floor + 1
  else if floor % 2 = 0 then floor else floor + 1

def inUnits (num den : Nat) (e : Int) : Nat :=
  let (scaledNum, scaledDen) := scaled num (-e)
  roundQuotient scaledNum (scaledDen * den)

/-- The exponent at which a quotient has 53 bits before rounding. -/
def exponentFor (num den : Nat) : Int :=
  let guess : Int := (num.log2 : Int) - den.log2 - 52
  let (scaledNum, scaledDen) := scaled num (-guess)
  let exact := if scaledNum < leastFull * (scaledDen * den) then guess - 1 else guess
  max exact leastExponent

/-- The number nearest to a quotient; there is none beyond the greatest. -/
def ofQuotient? (num den : Nat) : Option Binary64 :=
  if num = 0 then some zero
  else
    let exponent := exponentFor num den
    let significand := inUnits num den exponent
    let rounded : Binary64 :=
      if significand = 2 * leastFull then ⟨leastFull, exponent + 1⟩ else ⟨significand, exponent⟩
    if greatestExponent < rounded.exponent then none else some rounded

def ofNat? (n : Nat) : Option Binary64 := ofQuotient? n 1

def isZero (b : Binary64) : Bool := b.significand = 0

def mul? (a b : Binary64) : Option Binary64 :=
  let (num, den) := scaled (a.significand * b.significand) (a.exponent + b.exponent)
  ofQuotient? num den

def div? (a b : Binary64) : Option Binary64 :=
  let (num, den) := scaled a.significand (a.exponent - b.exponent)
  ofQuotient? num (den * b.significand)

end Binary64
end ReleaseInstaller
