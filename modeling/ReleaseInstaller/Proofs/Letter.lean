import ReleaseInstaller.Text.Ascii
import ReleaseInstaller.Text.Blank

/-! Letters of the ASCII range. Only these are moved by the lower case of a character, so that it keeps
whatever all of them have in common. -/
namespace ReleaseInstaller.Text

variable {c : Char}

theorem isLetter_iff :
    isLetter c = true ↔ 0x41 ≤ c.toNat ∧ c.toNat ≤ 0x5A ∨ 0x61 ≤ c.toNat ∧ c.toNat ≤ 0x7A := by
  simp only [isLetter,Bool.or_eq_true,Bool.and_eq_true,decide_eq_true_eq,Char.le_def,
    UInt32.le_iff_toNat_le]
  exact or_comm

theorem toNat_lt_of_isLetter (letter : isLetter c = true) : c.toNat < 0x80 := by
  have range := isLetter_iff.mp letter
  omega

/-- A character keeps its case, or is a capital letter and moves to the small one. -/
theorem toLower_cases (c : Char) :
    c.toLower = c ∧ ¬ (0x41 ≤ c.toNat ∧ c.toNat ≤ 0x5A) ∨
      0x41 ≤ c.toNat ∧ c.toNat ≤ 0x5A ∧ c.toLower.toNat = c.toNat + 0x20 := by
  unfold Char.toLower
  split
  · next capital =>
    obtain ⟨low,high⟩ : 0x41 ≤ c.toNat ∧ c.toNat ≤ 0x5A := capital
    refine .inr ⟨low,high,?_⟩
    change (c.val + 0x20).toNat = c.toNat + 0x20
    rw [UInt32.toNat_add]
    exact Nat.mod_eq_of_lt (Nat.lt_of_le_of_lt (Nat.add_le_add_right high 0x20) (by decide))
  · next other => exact .inl ⟨rfl,other⟩

theorem isLetter_toLower (c : Char) : isLetter c.toLower = isLetter c := by
  rw [Bool.eq_iff_iff,isLetter_iff,isLetter_iff]
  rcases toLower_cases c with ⟨same,-⟩ | ⟨low,high,moved⟩
  · rw [same]
  · rw [moved]
    omega

/-- The lower case of a letter is one of a to z. -/
theorem toLower_between (letter : isLetter c = true) : 'a' ≤ c.toLower ∧ c.toLower ≤ 'z' := by
  change 0x61 ≤ c.toLower.toNat ∧ c.toLower.toNat ≤ 0x7A
  rcases toLower_cases c with ⟨same,capital⟩ | ⟨low,high,moved⟩
  · rw [same]
    exact (isLetter_iff.mp letter).resolve_left capital
  · omega

theorem toLower_toLower (c : Char) : c.toLower.toLower = c.toLower := by
  rcases toLower_cases c with ⟨same,-⟩ | ⟨low,high,moved⟩
  · exact congrArg Char.toLower same
  · rcases toLower_cases c.toLower with ⟨same,-⟩ | ⟨_,high',-⟩
    · exact same
    · omega

theorem toLower_of_not_isLetter (other : isLetter c = false) : c.toLower = c := by
  rcases toLower_cases c with ⟨same,-⟩ | ⟨low,high,-⟩
  · exact same
  · exact absurd (isLetter_iff.mpr (.inl ⟨low,high⟩)) (by simp [other])

/-- What all letters have in common is kept. -/
theorem toLower_kept {see : Char → Bool} {seen : Bool} (letters : ∀ c, isLetter c = true → see c = seen)
    (c : Char) : see c.toLower = see c := by
  cases letter : isLetter c with
  | true => rw [letters c letter,letters _ ((isLetter_toLower c).trans letter)]
  | false => rw [toLower_of_not_isLetter letter]

theorem toLower_eq_iff {mark : Char} (other : isLetter mark = false) : c.toLower = mark ↔ c = mark := by
  have unlike (c : Char) (letter : isLetter c = true) : decide (c = mark) = false := by
    rw [decide_eq_false_iff_not]
    rintro rfl
    exact absurd letter (by simp [other])
  simpa using toLower_kept unlike c

theorem inRanges_of_isLetter {table : List CodeRange} (capitals : (0x41,0x5A) ∈ table)
    (small : (0x61,0x7A) ∈ table) (letter : isLetter c = true) : inRanges table c = true := by
  rcases isLetter_iff.mp letter with range | range
  · exact inRanges_iff.mpr ⟨_,capitals,range⟩
  · exact inRanges_iff.mpr ⟨_,small,range⟩

theorem not_inRanges_of_isLetter {table : List CodeRange}
    (apart : ∀ range ∈ table, range.2 < 0x41 ∨ 0x5A < range.1 ∧ range.2 < 0x61 ∨ 0x7A < range.1)
    (letter : isLetter c = true) : inRanges table c = false := by
  rw [← Bool.not_eq_true,inRanges_iff]
  rintro ⟨range,member,low,high⟩
  have outside := apart range member
  have inside := isLetter_iff.mp letter
  omega

theorem unblank_of_isLetter (letter : isLetter c = true) : isBlank c = false :=
  not_inRanges_of_isLetter (by decide) letter

theorem isBlank_toLower (c : Char) : isBlank c.toLower = isBlank c :=
  toLower_kept (fun _ => unblank_of_isLetter) c

end ReleaseInstaller.Text
