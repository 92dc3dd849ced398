import ReleaseInstaller.Decimal.Binary64

/-! The shortest decimal of a binary number: of all decimals that round to it, one with the
fewest digits, and of those the nearest. Points `d * 10 ^ p` form a grid for every `p`; the
coarsest grid with a point in the interval of reals that round to the number has the shortest
decimals. -/
namespace ReleaseInstaller

structure Decimal where
  digits : Nat
  exponent : Int
  deriving DecidableEq

namespace Decimal

/-- The interval that rounds to a number, in quarters of its unit. Its ends belong to it when
the significand is even; below a power of two the neighbour is only half as far. -/
structure Interval where
  low : Nat
  middle : Nat
  high : Nat
  closed : Bool

def interval (b : Binary64) : Interval :=
  let near := b.significand = Binary64.leastFull ∧ Binary64.leastExponent < b.exponent
  { low := 4 * b.significand - (if near then 1 else 2)
    middle := 4 * b.significand
    high := 4 * b.significand + 2
    closed := b.significand % 2 = 0 }

def overCommon (a : Nat) (e : Int) (d : Nat) (p : Int) : Nat × Nat :=
  let left := a * (if e < 0 then 1 else Nat.pow 2 e.natAbs) *
    (if p < 0 then Nat.pow 10 p.natAbs else 1)
  let right := d * (if p < 0 then 1 else Nat.pow 10 p.natAbs) *
    (if e < 0 then Nat.pow 2 e.natAbs else 1)
  (left, right)

def inside (i : Interval) (e : Int) (d : Nat) (p : Int) : Bool :=
  let (low, pointLow) := overCommon i.low e d p
  let (high, pointHigh) := overCommon i.high e d p
  if i.closed then low ≤ pointLow && pointHigh ≤ high
  else low < pointLow && pointHigh < high

/-- A point of the grid in the interval, the nearest to the middle. -/
def onGrid? (i : Interval) (e : Int) (p : Int) : Option Nat :=
  let (value, unit) := overCommon i.middle e 1 p
  let below := value / unit
  let above := below + 1
  match inside i e below p, inside i e above p with
  | true, true =>
    let rest := value % unit
    if 2 * rest < unit then some below
    else if unit < 2 * rest then some above
    else if below % 2 = 0 then some below else some above
  | true, false => some below
  | false, true => some above
  | false, false => none

def search (i : Interval) (e : Int) : (grids : Nat) → (p : Int) → Decimal
  | 0, _ => ⟨0, 0⟩
  | grids + 1, p => match onGrid? i e p with
    | some digits => ⟨digits, p⟩
    | none => search i e grids (p - 1)

/-- The first grid is coarser than every finite number is large, and the last is finer than the
least of them. -/
def shortest (b : Binary64) : Decimal :=
  if b.isZero then ⟨0, 0⟩ else search (interval b) (b.exponent - 2) 660 309

end Decimal
end ReleaseInstaller
