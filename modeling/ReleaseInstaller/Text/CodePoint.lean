/-! Sets of code points listed as ranges, and maps listed as runs that move code points by a
constant distance. Both are read off a table, so a property of a character is a property of
its number. -/
namespace ReleaseInstaller.Text

abbrev CodeRange := Nat × Nat

def CodeRange.contains (range : CodeRange) (c : Char) : Bool :=
  range.1 ≤ c.toNat && c.toNat ≤ range.2

def inRanges (table : List CodeRange) (c : Char) : Bool :=
  table.any fun range => range.contains c

/-- First and last code point, the distance between neighbours, and the image of the first. -/
abbrev CodeRun := Nat × Nat × Nat × Nat

def CodeRun.image? (run : CodeRun) (c : Char) : Option Char :=
  let (first, last, step, image) := run
  if first ≤ c.toNat && c.toNat ≤ last && (c.toNat - first) % step = 0 then
    some (Char.ofNat (image + (c.toNat - first)))
  else
    none

/-- The image of a character under the first run that holds it, else the character itself. -/
def applyRuns (table : List CodeRun) (c : Char) : Char :=
  (table.findSome? fun run => run.image? c).getD c

theorem inRanges_iff {table : List CodeRange} {c : Char} :
    inRanges table c = true ↔ ∃ range ∈ table, range.1 ≤ c.toNat ∧ c.toNat ≤ range.2 := by
  simp [inRanges, CodeRange.contains]

end ReleaseInstaller.Text
