import Mathlib.Data.List.Forall2
import ReleaseInstaller.Proofs.Letter
import ReleaseInstaller.Text.Folding
import ReleaseInstaller.Text.Word

/-! What folding keeps. Blanks and characters that are none stay apart, and only letters of the
ASCII range fold to most of its letters, so a text that agrees with a literal has blanks and word
characters where the literal has them. -/
namespace ReleaseInstaller.Text

variable {c d l : Char} {literal s taken rest : List Char}

abbrev Agrees : List Char → List Char → Prop := List.Forall₂ fun l c => fold l = fold c

theorem splitFolded?_eq_some :
    splitFolded? literal s = some (taken,rest) ↔ s = taken ++ rest ∧ Agrees literal taken := by
  refine ⟨fun found => ⟨eq_append_of_splitFolded? found,?_⟩,?_⟩
  · induction literal generalizing s taken with
    | nil =>
      obtain ⟨rfl,-⟩ : [] = taken ∧ s = rest := by simpa [splitFolded?] using found
      exact .nil
    | cons l literal ih =>
      cases s with
      | nil => simp [splitFolded?] at found
      | cons c s =>
        simp only [splitFolded?,sameFolded,Option.ite_none_right_eq_some,decide_eq_true_eq,
          Option.map_eq_some_iff,Prod.mk.injEq,Prod.exists] at found
        obtain ⟨same,t,r,found,rfl,rfl⟩ := found
        exact .cons same (ih found)
  · rintro ⟨rfl,agrees⟩
    induction agrees with
    | nil => rfl
    | cons same _ ih => simp [splitFolded?,sameFolded,same,ih]

theorem fold_of_ascii (ascii : c.toNat < 0x80) : fold c = c.toLower := if_pos ascii

/-- A character keeps its place under a table of runs, or one of them moves it. -/
theorem applyRuns_cases (table : List CodeRun) (c : Char) :
    applyRuns table c = c ∨
      ∃ run ∈ table, run.1 ≤ c.toNat ∧ c.toNat ≤ run.2.1 ∧
        applyRuns table c = Char.ofNat (run.2.2.2 + (c.toNat - run.1)) := by
  cases found : table.findSome? fun run => run.image? c with
  | none => exact .inl (by simp [applyRuns,found])
  | some image =>
    obtain ⟨run,member,moved⟩ := List.exists_of_findSome?_eq_some found
    simp only [CodeRun.image?,Option.ite_none_right_eq_some,Bool.and_eq_true,decide_eq_true_eq,
      Option.some.injEq] at moved
    obtain ⟨⟨⟨first,last⟩,-⟩,rfl⟩ := moved
    exact .inr ⟨run,member,first,last,by simp [applyRuns,found]⟩

theorem toNat_of_moved {run : CodeRun} (member : run ∈ foldingRuns) (first : run.1 ≤ c.toNat)
    (last : c.toNat ≤ run.2.1) :
    (Char.ofNat (run.2.2.2 + (c.toNat - run.1))).toNat = run.2.2.2 + (c.toNat - run.1) := by
  have legal : ∀ run ∈ foldingRuns, run.2.2.2 + (run.2.1 - run.1) < 0xD800 ∨
      0xDFFF < run.2.2.2 ∧ run.2.2.2 + (run.2.1 - run.1) < 0x110000 := by decide +kernel
  have valid : (run.2.2.2 + (c.toNat - run.1)).isValidChar := by
    rcases legal run member with low | ⟨high,low⟩
    · exact .inl (by omega)
    · exact .inr ⟨by omega,by omega⟩
  rw [Char.ofNat,dif_pos valid]
  rfl

theorem isBlank_fold (c : Char) : isBlank (fold c) = isBlank c := by
  by_cases ascii : c.toNat < 0x80
  · rw [fold_of_ascii ascii,isBlank_toLower]
  · simp only [fold,ascii,if_false]
    rcases applyRuns_cases foldingRuns c with same | ⟨run,member,first,last,moved⟩
    · rw [same]
    · have apart : ∀ run ∈ foldingRuns, ∀ range ∈ blankRanges,
          (run.2.1 < range.1 ∨ range.2 < run.1) ∧
          (run.2.2.2 + (run.2.1 - run.1) < range.1 ∨ range.2 < run.2.2.2) := by decide +kernel
      have image := toNat_of_moved member first last
      rw [moved,Bool.eq_iff_iff,isBlank,isBlank,inRanges_iff,inRanges_iff]
      constructor
      · rintro ⟨range,blank,above,below⟩
        have := apart run member range blank
        omega
      · rintro ⟨range,blank,above,below⟩
        have := apart run member range blank
        omega

theorem isWordChar_of_isLetter (letter : isLetter c = true) : isWordChar c = true :=
  inRanges_of_isLetter (.tail _ (.head _)) (.tail _ (.tail _ (.tail _ (.head _)))) letter

/-- Besides the ASCII characters only the long s and the Kelvin sign fold to one of these. -/
theorem cases_of_fold_ascii (ascii : (fold c).toNat < 0x80) :
    c.toNat < 0x80 ∨ c = Char.ofNat 0x17F ∨ c = Char.ofNat 0x212A := by
  by_cases low : c.toNat < 0x80
  · exact .inl low
  simp only [fold,low,if_false] at ascii
  rcases applyRuns_cases foldingRuns c with same | ⟨run,member,first,last,moved⟩
  · rw [same] at ascii
    exact absurd ascii low
  · have images : ∀ run ∈ foldingRuns, 0x80 ≤ run.2.2.2 ∨
        run.1 = run.2.1 ∧ (run.1 = 0x17F ∨ run.1 = 0x212A) := by decide +kernel
    rw [moved,toNat_of_moved member first last] at ascii
    rcases images run member with high | ⟨single,which⟩
    · omega
    · obtain rfl : c = Char.ofNat run.1 := by
        rw [← Nat.le_antisymm (single ▸ last) first,Char.ofNat_toNat]
      exact .inr (which.imp (congrArg Char.ofNat) (congrArg Char.ofNat))

theorem isWordChar_of_fold (letter : isLetter (fold c) = true) : isWordChar c = true := by
  rcases cases_of_fold_ascii (toNat_lt_of_isLetter letter) with ascii | rfl | rfl
  · rw [fold_of_ascii ascii,isLetter_toLower] at letter
    exact isWordChar_of_isLetter letter
  all_goals decide +kernel

theorem isBlank_of_fold_eq (same : fold l = fold c) : isBlank c = isBlank l := by
  rw [← isBlank_fold c,← same,isBlank_fold]

theorem Agrees.ne_nil (agrees : Agrees literal taken) (some : literal ≠ []) : taken ≠ [] := by
  rintro rfl
  exact some (List.forall₂_nil_right_iff.mp agrees)

theorem Agrees.unblank (agrees : Agrees literal taken) (unblank : ∀ l ∈ literal, isBlank l = false) :
    ∀ c ∈ taken, isBlank c = false := by
  induction agrees with
  | nil => simp
  | cons same _ ih =>
    obtain ⟨first,unblank⟩ := List.forall_mem_cons.mp unblank
    exact List.forall_mem_cons.mpr ⟨(isBlank_of_fold_eq same).trans first,ih unblank⟩

/-- What agrees with letters of the ASCII range consists of word characters. -/
theorem Agrees.word (agrees : Agrees literal taken)
    (letters : literal.all (fun l => isLetter (fold l)) = true) :
    ∀ c ∈ taken, isWordChar c = true := by
  induction agrees with
  | nil => simp
  | cons same _ ih =>
    obtain ⟨first,letters⟩ := Bool.and_eq_true_iff.mp letters
    exact List.forall_mem_cons.mpr ⟨isWordChar_of_fold (same ▸ first),ih letters⟩

theorem not_isWordChar_of_isBlank (blank : isBlank c = true) : isWordChar c = false := by
  have apart : ∀ range ∈ blankRanges, ∀ other ∈ wordRanges,
      range.2 < other.1 ∨ other.2 < range.1 := by decide +kernel
  obtain ⟨range,member,above,below⟩ := inRanges_iff.mp blank
  by_contra word
  obtain ⟨other,member',above',below'⟩ := inRanges_iff.mp (eq_true_of_ne_false word)
  have := apart range member other member'
  omega

theorem isBlank_of_isWordChar (word : isWordChar c = true) : isBlank c = false := by
  by_contra blank
  simp [not_isWordChar_of_isBlank (eq_true_of_ne_false blank)] at word

end ReleaseInstaller.Text
