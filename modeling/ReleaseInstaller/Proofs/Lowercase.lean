import ReleaseInstaller.Proofs.Folding
import ReleaseInstaller.Text.Lowercase

/-! Lower-case forms. Nothing around an ASCII letter depends on its case, not even the form of a sigma, so
that lower-case forms forget the case of those letters. A blank keeps its place at the end. -/
namespace ReleaseInstaller.Text

variable {c : Char} {s : List Char}

theorem lowerAfter_of_ascii (before : List Char) (ascii : ∀ c ∈ s, c.toNat < 0x80) :
    lowerAfter before s = s.map Char.toLower := by
  induction s generalizing before with
  | nil => rfl
  | cons c rest ih =>
    obtain ⟨small,ascii⟩ := List.forall_mem_cons.mp ascii
    have sigma : c ≠ 'Σ' := by
      rintro rfl
      exact absurd small (by decide)
    rw [lowerAfter,if_neg sigma,lowerChar,if_pos small,ih _ ascii]
    rfl

theorem lower_of_ascii (ascii : ∀ c ∈ s, c.toNat < 0x80) : lower s = s.map Char.toLower :=
  lowerAfter_of_ascii [] ascii

theorem lowerChar_toLower (c : Char) : lowerChar c.toLower = lowerChar c := by
  rcases toLower_cases c with ⟨same,-⟩ | ⟨low,high,moved⟩
  · rw [same]
  · rw [lowerChar,if_pos (by omega),toLower_toLower,lowerChar,if_pos (by omega)]

theorem cased_of_isLetter (letter : isLetter c = true) : inRanges casedRanges c = true :=
  inRanges_of_isLetter (.head _) (.tail _ (.head _)) letter

theorem not_ignorable_of_isLetter (letter : isLetter c = true) : inRanges caseIgnorableRanges c = false :=
  not_inRanges_of_isLetter (by decide +kernel) letter

theorem meetsCased_map_toLower (s : List Char) : meetsCased (s.map Char.toLower) = meetsCased s := by
  have ignorable : inRanges caseIgnorableRanges ∘ Char.toLower = inRanges caseIgnorableRanges :=
    funext (toLower_kept fun _ => not_ignorable_of_isLetter)
  have cased (c : Char) : inRanges casedRanges c.toLower = inRanges casedRanges c :=
    toLower_kept (fun _ => cased_of_isLetter) c
  simp only [meetsCased,List.dropWhile_map,ignorable,List.head?_map,Option.any_map,cased]

theorem lowerAfter_map_toLower (before s : List Char) :
    lowerAfter (before.map Char.toLower) (s.map Char.toLower) = lowerAfter before s := by
  induction s generalizing before with
  | nil => rfl
  | cons c s ih =>
    have sigma : c.toLower = 'Σ' ↔ c = 'Σ' := toLower_eq_iff (by decide)
    have rest := ih (c :: before)
    rw [List.map_cons] at rest
    simp only [List.map_cons,lowerAfter,sigma,meetsCased_map_toLower,lowerChar_toLower,rest]

theorem lower_map_toLower (s : List Char) : lower (s.map Char.toLower) = lower s :=
  lowerAfter_map_toLower [] s

/-- A blank has no lower case. -/
theorem lowerChar_of_isBlank (blank : isBlank c = true) : lowerChar c = [c] := by
  by_cases ascii : c.toNat < 0x80
  · have letterless : isLetter c = false := Bool.eq_false_iff.mpr fun letter => by
      simp [unblank_of_isLetter letter] at blank
    rw [lowerChar,if_pos ascii,toLower_of_not_isLetter letterless]
  have other : c ≠ 'İ' := by
    rintro rfl
    exact absurd blank (by decide)
  rw [lowerChar,if_neg ascii,if_neg other]
  rcases applyRuns_cases lowercaseRuns c with same | ⟨run,member,first,last,-⟩
  · rw [same]
  · have apart : ∀ run ∈ lowercaseRuns, ∀ range ∈ blankRanges,
        run.2.1 < range.1 ∨ range.2 < run.1 := by decide +kernel
    obtain ⟨range,within,above,below⟩ := inRanges_iff.mp blank
    have := apart run member range within
    omega

theorem lower_concat_blank (blank : isBlank c = true) (s : List Char) :
    ∃ front, lower (s ++ [c]) = front ++ [c] := by
  have other : c ≠ 'Σ' := by
    rintro rfl
    exact absurd blank (by decide)
  suffices after : ∀ before, ∃ front, lowerAfter before (s ++ [c]) = front ++ [c] from after []
  intro before
  induction s generalizing before with
  | nil => exact ⟨[],by simp [lowerAfter,other,lowerChar_of_isBlank blank]⟩
  | cons d s ih =>
    obtain ⟨front,shape⟩ := ih (d :: before)
    rw [List.cons_append,lowerAfter,shape]
    exact ⟨_,(List.append_assoc ..).symm⟩

end ReleaseInstaller.Text
