/-! Digits and letters of the ASCII range. -/
namespace ReleaseInstaller.Text

def isDigit (c : Char) : Bool := '0' ≤ c && c ≤ '9'

def isLetter (c : Char) : Bool := ('a' ≤ c && c ≤ 'z') || ('A' ≤ c && c ≤ 'Z')

def digitValue (c : Char) : Nat := c.toNat - '0'.toNat

def digitsValue (digits : List Char) : Nat :=
  digits.foldl (fun value c => value * 10 + digitValue c) 0

/-- Numbers below it fit in a word of 64 bits. -/
def wordLimit : Nat := 0x10000000000000000

def hasLeadingZero : List Char → Bool
  | '0' :: _ :: _ => true
  | _ => false

theorem isLetter_of_isDigit {c : Char} (h : isDigit c = true) : isLetter c = false := by
  simp only [isDigit, isLetter, Bool.and_eq_true, decide_eq_true_eq, Bool.or_eq_false_iff,
    Bool.and_eq_false_iff, decide_eq_false_iff_not] at *
  obtain ⟨_, high⟩ := h
  have small : c.toNat ≤ '9'.toNat := high
  constructor <;> left <;> intro low
  · have : 'a'.toNat ≤ c.toNat := low
    have : 'a'.toNat ≤ '9'.toNat := Nat.le_trans this small
    revert this
    decide
  · have : 'A'.toNat ≤ c.toNat := low
    have : 'A'.toNat ≤ '9'.toNat := Nat.le_trans this small
    revert this
    decide

end ReleaseInstaller.Text
