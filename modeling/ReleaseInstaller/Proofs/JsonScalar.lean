import ReleaseInstaller.Json.Printer
import ReleaseInstaller.Json.Reader
import ReleaseInstaller.Proofs.Numeral

/-! Strings and integers that are written are read again, whatever follows them that is no part of
a number. -/
namespace ReleaseInstaller.Json

open Text (isDigit digitValue digitsValue hasLeadingZero)

variable {s rest digits : List Char} {c : Char} {n : Nat}

theorem unit16?_control : ∀ n : Fin 32,
    unit16? '0' '0' (hexDigit (n / 16)) (hexDigit (n % 16)) = some n.val := by decide

theorem readString?_plain (quote : c ≠ '"') (backslash : c ≠ '\\') (control : ¬c.toNat < 0x20)
    (s : List Char) :
    readString? none (c :: s) = (readString? none s).map fun (text,rest) => (c :: text,rest) := by
  rw [readString?]
  · simp [quote,backslash,control]
  · simp [backslash]
  · simp [backslash]

/-- A character that is written is read as itself. -/
theorem readString?_escape (c : Char) (s : List Char) :
    readString? none (escape c ++ s) =
      (readString? none s).map fun (text,rest) => (c :: text,rest) := by
  unfold escape
  split
  · next same => subst same; rfl
  split
  · next same => subst same; rfl
  split
  · next same => subst same; rfl
  split
  · next same => subst same; rfl
  split
  · next same => subst same; rfl
  split
  · next same => subst same; rfl
  split
  · next same => subst same; rfl
  split
  · next control =>
    have unit : unit16? '0' '0' (hexDigit (c.toNat / 16)) (hexDigit (c.toNat % 16)) =
        some c.toNat := unit16?_control ⟨c.toNat,control⟩
    have inner : isHighSurrogate c.toNat = false ∧ isLowSurrogate c.toNat = false := by
      simp only [isHighSurrogate,isLowSurrogate,Bool.and_eq_false_iff,decide_eq_false_iff_not]
      omega
    simp only [List.cons_append,List.nil_append,readString?.eq_4 _ _ _ _ _ _ unit,inner.1,inner.2,
      Bool.false_eq_true,if_false,Char.ofNat_toNat]
  · next quote backslash _ _ _ _ _ control => exact readString?_plain quote backslash control s

theorem readString?_quoted (text rest : List Char) :
    readString? none (text.flatMap escape ++ '"' :: rest) = some (text,rest) := by
  induction text with
  | nil => rfl
  | cons c text ih =>
    rw [List.flatMap_cons,List.append_assoc,readString?_escape,ih]
    rfl

/-- What may follow a value that is written: nothing, a comma or a line end. -/
def Closes (rest : List Char) : Prop := ∀ c, rest.head? = some c → c = ',' ∨ c = '\n'

theorem Closes.head {p : Char → Bool} (closes : Closes rest) (comma : p ',' = false)
    (line : p '\n' = false) : rest.takeWhile p = [] ∧ rest.dropWhile p = rest := by
  cases rest with
  | nil => exact ⟨rfl,rfl⟩
  | cons c rest =>
    rcases closes c rfl with rfl | rfl
    · simp [comma]
    · simp [line]

theorem isDigit_of_mem_natText (member : c ∈ natText n) : isDigit c = true :=
  Text.isDigit_of_mem_toDigits member

theorem digitsValue_natText (n : Nat) : digitsValue (natText n) = n := Text.digitsValue_toDigits n

theorem exists_cons_natText (n : Nat) : ∃ d more, natText n = d :: more :=
  List.exists_cons_of_ne_nil Nat.toDigits_ne_nil

theorem hasLeadingZero_natText (n : Nat) : hasLeadingZero (natText n) = false :=
  Text.hasLeadingZero_toDigits n

theorem readWhole?_natText (n : Nat) (closes : Closes rest) :
    readWhole? (natText n ++ rest) = some (natText n,rest) := by
  have digits : ∀ c ∈ natText n, isDigit c = true := fun _ => isDigit_of_mem_natText
  obtain ⟨none,whole⟩ := closes.head (p := isDigit) (by decide) (by decide)
  have some : (natText n).isEmpty = false := by simp [natText]
  simp only [readWhole?,List.takeWhile_append_of_pos digits,List.dropWhile_append_of_pos digits,none,
    whole,List.append_nil,some,hasLeadingZero_natText,Bool.or_self,Bool.false_eq_true,if_false]

theorem goesOn_of_closes (closes : Closes rest) : goesOn rest = false := by
  cases rest with
  | nil => rfl
  | cons c rest => rcases closes c rfl with rfl | rfl <;> rfl

theorem readUnsigned?_natText {negative : Bool} {value : Int} (closes : Closes rest)
    (integer : integer? negative (natText n) = some value) :
    readUnsigned? negative (natText n ++ rest) = some (.integer value,rest) := by
  simp [readUnsigned?,readWhole?_natText n closes,integer,goesOn_of_closes closes]

/-- The integers that are told apart from fractions. -/
def InRange (n : Int) : Prop := -(Text.wordLimit : Int) ≤ 2 * n ∧ n < Text.wordLimit

theorem readNumber?_intText {n : Int} (range : InRange n) (closes : Closes rest) :
    readNumber? (intText n ++ rest) = some (.integer n,rest) := by
  obtain ⟨low,high⟩ := range
  unfold intText
  split
  · next below =>
    refine readUnsigned?_natText closes ?_
    simp only [integer?,digitsValue_natText,if_true,Bool.and_eq_true,decide_eq_true_eq]
    rw [if_pos (by omega)]
    congr 1
    omega
  · next above =>
    have unsigned : readNumber? (natText n.natAbs ++ rest) =
        readUnsigned? false (natText n.natAbs ++ rest) := by
      obtain ⟨d,more,digits⟩ := exists_cons_natText n.natAbs
      have digit : isDigit d = true := isDigit_of_mem_natText (digits ▸ List.mem_cons_self)
      rw [digits,List.cons_append,readNumber?]
      intro s same
      obtain ⟨rfl,-⟩ := List.cons.inj same
      exact absurd digit (by decide)
    rw [unsigned]
    refine readUnsigned?_natText closes ?_
    simp only [integer?,digitsValue_natText,Bool.false_eq_true,if_false]
    rw [if_pos (by omega)]
    congr 1
    omega

end ReleaseInstaller.Json
