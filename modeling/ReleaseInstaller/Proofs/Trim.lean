import Mathlib.Data.List.DropRight
import ReleaseInstaller.Text.Blank

/-! Trimmed texts. A text is its trimmed form with blanks on both sides, and nothing but what lies between
the blanks decides what the trimmed form is. -/
namespace ReleaseInstaller.Text

section DropTrailing

variable {α β : Type} {drop : α → Bool} {c : α} {s t : List α}

theorem dropTrailing_append_of_all (all : ∀ c ∈ t, drop c = true) (s : List α) :
    dropTrailing drop (s ++ t) = dropTrailing drop s := by
  have reversed : ∀ c ∈ t.reverse, drop c = true := fun c member => all c (List.mem_reverse.mp member)
  rw [dropTrailing,List.reverse_append,List.dropWhile_append_of_pos reversed,dropTrailing]

theorem exists_dropTrailing (drop : α → Bool) (s : List α) :
    ∃ t, s = dropTrailing drop s ++ t ∧ ∀ c ∈ t, drop c = true :=
  ⟨s.rtakeWhile drop,List.rdropWhile_append_rtakeWhile.symm,fun _ => List.mem_rtakeWhile_imp⟩

theorem getLast?_dropTrailing : ∀ c ∈ (dropTrailing drop s).getLast?, drop c = false := by
  intro c last
  obtain ⟨some,rfl⟩ := List.mem_getLast?_eq_getLast last
  exact Bool.not_eq_true _ |>.mp (List.rdropWhile_last_not drop s some)

theorem dropTrailing_of_last (kept : ∀ c ∈ s.getLast?, drop c = false) : dropTrailing drop s = s :=
  List.rdropWhile_eq_self_iff.mpr fun some => by simp [kept _ (List.getLast?_eq_some_getLast some)]

theorem dropTrailing_append_cons (kept : drop c = false) (s t : List α) :
    dropTrailing drop (s ++ c :: t) = s ++ c :: dropTrailing drop t := by
  obtain ⟨dropped,parts,all⟩ := exists_dropTrailing drop t
  have last : ∀ d ∈ (s ++ c :: dropTrailing drop t).getLast?, drop d = false := by
    intro d last
    rw [List.getLast?_append,List.getLast?_cons] at last
    cases ends : (dropTrailing drop t).getLast? with
    | none =>
      obtain rfl : c = d := by simpa [ends] using last
      exact kept
    | some e =>
      obtain rfl : e = d := by simpa [ends] using last
      exact getLast?_dropTrailing e ends
  calc dropTrailing drop (s ++ c :: t)
      = dropTrailing drop ((s ++ c :: dropTrailing drop t) ++ dropped) := by
        rw [List.append_assoc,List.cons_append,← parts]
    _ = s ++ c :: dropTrailing drop t := by rw [dropTrailing_append_of_all all,dropTrailing_of_last last]

theorem dropTrailing_map (g : β → α) (s : List β) :
    dropTrailing drop (s.map g) = (dropTrailing (drop ∘ g) s).map g := by
  rw [dropTrailing,← List.map_reverse,List.dropWhile_map,← List.map_reverse,dropTrailing]

end DropTrailing

variable {before after s : List Char} {c : Char}

/-- A text with no blank at either end. -/
structure Trimmed (s : List Char) : Prop where
  first : ∀ c ∈ s.head?, isBlank c = false
  last : ∀ c ∈ s.getLast?, isBlank c = false

instance : Decidable (Trimmed s) :=
  decidable_of_iff (s.head?.all (!isBlank ·) = true ∧ s.getLast?.all (!isBlank ·) = true) <| by
    simp only [Option.all_eq_true,Bool.not_eq_true']
    exact ⟨fun ⟨first,last⟩ => ⟨first,last⟩,fun ⟨first,last⟩ => ⟨first,last⟩⟩

theorem Trimmed.trim (trimmed : Trimmed s) : trim s = s := by
  have kept : s.dropWhile isBlank = s := by
    cases s with
    | nil => rfl
    | cons c s => simp [trimmed.first c rfl]
  rw [Text.trim,kept,dropTrailing_of_last trimmed.last]

/-- Behind a text the characters that are no blanks are not trimmed off. -/
theorem Trimmed.append (trimmed : Trimmed s) (some : s ≠ []) (unblank : ∀ c ∈ after, isBlank c = false) :
    Trimmed (s ++ after) := by
  refine ⟨fun c first => trimmed.first c ?_,fun c last => ?_⟩
  · rwa [List.head?_append_of_ne_nil _ some] at first
  · cases ends : after.getLast? with
    | none =>
      rw [List.getLast?_eq_none_iff.mp ends,List.append_nil] at last
      exact trimmed.last c last
    | some d =>
      obtain rfl : d = c := by simpa [List.getLast?_append,ends] using last
      exact unblank d (List.mem_of_getLast? ends)

theorem trimmed_trim (s : List Char) : Trimmed (trim s) := by
  refine ⟨fun c first => ?_,getLast?_dropTrailing⟩
  obtain ⟨after,parts,-⟩ := exists_dropTrailing isBlank (s.dropWhile isBlank)
  have stops := List.head?_dropWhile_not isBlank s
  have kept : (dropTrailing isBlank (s.dropWhile isBlank)).head? = some c := first
  rw [parts,List.head?_append,kept] at stops
  exact stops

theorem trim_around (blank : ∀ c ∈ before, isBlank c = true) (blank' : ∀ c ∈ after, isBlank c = true)
    (s : List Char) : trim (before ++ (s ++ after)) = trim s := by
  have rest : (s ++ after).dropWhile isBlank = s.dropWhile isBlank ∨
      (s ++ after).dropWhile isBlank = s.dropWhile isBlank ++ after := by
    rw [List.dropWhile_append]
    split
    · next empty =>
      rw [List.isEmpty_iff.mp empty]
      exact .inl (List.dropWhile_eq_nil_iff.mpr blank')
    · exact .inr rfl
  rw [trim,trim,List.dropWhile_append_of_pos blank]
  rcases rest with same | more
  · rw [same]
  · rw [more,dropTrailing_append_of_all blank']

theorem trim_toList_around {before after : String} (blank : isAllBlank before.toList = true)
    (blank' : isAllBlank after.toList = true) (s : String) :
    trim (before ++ s ++ after).toList = trim s.toList := by
  rw [String.toList_append,String.toList_append,List.append_assoc]
  exact trim_around (List.all_eq_true.mp blank) (List.all_eq_true.mp blank') s.toList

theorem exists_trim (s : List Char) :
    ∃ before after, s = before ++ (trim s ++ after) ∧
      (∀ c ∈ before, isBlank c = true) ∧ ∀ c ∈ after, isBlank c = true := by
  obtain ⟨after,parts,blank⟩ := exists_dropTrailing isBlank (s.dropWhile isBlank)
  refine ⟨s.takeWhile isBlank,after,?_,fun c => List.mem_takeWhile_imp,blank⟩
  rw [trim,← parts,List.takeWhile_append_dropWhile]

/-- A text is blank exactly if nothing is left of it. -/
theorem isAllBlank_eq (s : List Char) : isAllBlank s = (trim s).isEmpty := by
  obtain ⟨before,after,parts,blank,blank'⟩ := exists_trim s
  cases left : trim s with
  | nil =>
    rw [left] at parts
    rw [parts,isAllBlank,List.isEmpty_nil,List.all_eq_true]
    intro c member
    exact (List.mem_append.mp member).elim (blank c) (blank' c)
  | cons c rest =>
    have first : isBlank c = false := (trimmed_trim s).first c (by rw [left]; rfl)
    rw [parts,left,isAllBlank]
    simp [first]

theorem trim_map {g : Char → Char} (same : ∀ c, isBlank (g c) = isBlank c) (s : List Char) :
    trim (s.map g) = (trim s).map g := by
  have blank : isBlank ∘ g = isBlank := funext same
  rw [trim,List.dropWhile_map,dropTrailing_map,blank,trim]

theorem isAllBlank_map {g : Char → Char} (same : ∀ c, isBlank (g c) = isBlank c) (s : List Char) :
    isAllBlank (s.map g) = isAllBlank s := by
  simp [isAllBlank,Function.comp_def,same]

end ReleaseInstaller.Text
