import ReleaseInstaller.Text.Blank

/-! The words of a text: its maximal runs of characters that are no blanks. -/
namespace ReleaseInstaller.Text

variable {b : Char} {s front first m rest w : List Char} {before after : List (List Char)}

def words (s : List Char) : List (List Char) := (s.splitOnP isBlank).filter (· ≠ [])

def Unblank (s : List Char) : Prop := ∀ c ∈ s, isBlank c = false

/-- The text ends here, or a blank follows. -/
def Breaks (rest : List Char) : Prop := ∀ c, rest.head? = some c → isBlank c = true

/-- The text starts here, or a blank precedes. -/
def Broken (front : List Char) : Prop := ∀ c, front.getLast? = some c → isBlank c = true

@[simp] theorem breaks_nil : Breaks [] := by simp [Breaks]
@[simp] theorem breaks_cons : Breaks (b :: rest) ↔ isBlank b = true := by simp [Breaks]
@[simp] theorem broken_nil : Broken [] := by simp [Broken]
@[simp] theorem broken_concat : Broken (front ++ [b]) ↔ isBlank b = true := by simp [Broken]

theorem unblank_or_blank (s : List Char) :
    Unblank s ∨ ∃ first b rest, s = first ++ b :: rest ∧ Unblank first ∧ isBlank b = true := by
  induction s with
  | nil => exact .inl (by simp [Unblank])
  | cons c s ih =>
    cases blank : isBlank c with
    | true => exact .inr ⟨[],c,s,rfl,by simp [Unblank],blank⟩
    | false =>
      rcases ih with unblank | ⟨first,b,rest,rfl,unblank,found⟩
      · exact .inl (List.forall_mem_cons.mpr ⟨blank,unblank⟩)
      · exact .inr ⟨c :: first,b,rest,rfl,List.forall_mem_cons.mpr ⟨blank,unblank⟩,found⟩

/-- A text has no blank, or it goes on behind the first one. -/
@[elab_as_elim]
theorem blankInduction {motive : List Char → Prop} (unblank : ∀ s, Unblank s → motive s)
    (blank : ∀ first b rest, Unblank first → isBlank b = true → motive rest →
      motive (first ++ b :: rest)) (s : List Char) : motive s := by
  rcases unblank_or_blank s with none | ⟨first,b,rest,rfl,none,found⟩
  · exact unblank s none
  · exact blank first b rest none found (blankInduction unblank blank rest)
termination_by s.length
decreasing_by
  subst s
  simp only [List.length_append,List.length_cons]
  omega

theorem Broken.append_blank (broken : Broken front) (blank : isBlank b = true) (first : List Char) :
    Broken (first ++ b :: front) := by
  intro c last
  cases ending : front.getLast? with
  | none =>
    obtain rfl : b = c := by simpa [List.getLast?_append,List.getLast?_cons,ending] using last
    exact blank
  | some d =>
    obtain rfl : d = c := by simpa [List.getLast?_append,List.getLast?_cons,ending] using last
    exact broken d ending

@[simp] theorem words_nil : words [] = [] := by simp [words]

theorem words_append_blank (blank : isBlank b = true) (front rest : List Char) :
    words (front ++ b :: rest) = words front ++ words rest := by
  rw [words,List.splitOnP_append_cons front rest blank,List.filter_append]
  rfl

theorem words_of_unblank (unblank : Unblank s) : words s = if s = [] then [] else [s] := by
  rw [words,List.splitOnP_eq_singleton unblank]
  by_cases empty : s = [] <;> simp [empty]

theorem words_append_of_breaks (unblank : Unblank w) (some : w ≠ []) (breaks : Breaks rest) :
    words (w ++ rest) = w :: words rest := by
  cases rest with
  | nil => simp [words_of_unblank unblank,some]
  | cons b rest =>
    have alone := words_append_blank (breaks_cons.mp breaks) [] rest
    rw [words_append_blank (breaks_cons.mp breaks),words_of_unblank unblank,if_neg some]
    simpa using alone.symm

/-- The word around a part of a text. -/
theorem words_around (unblank : Unblank m) (some : m ≠ []) (front rest : List Char) :
    ∃ before a b after, words (front ++ m ++ rest) = before ++ (a ++ m ++ b) :: after ∧
      a <:+ front ∧ b <+: rest := by
  induction front using blankInduction with
  | unblank front whole =>
    have joined {b : List Char} (solid : Unblank b) : Unblank (front ++ m ++ b) := by
      simp only [Unblank,List.mem_append] at *
      rintro c ((member | member) | member)
      · exact whole c member
      · exact unblank c member
      · exact solid c member
    rcases unblank_or_blank rest with solid | ⟨b,c,tail,rfl,solid,blank⟩
    · refine ⟨[],front,rest,[],?_,List.suffix_refl _,List.prefix_refl _⟩
      rw [words_of_unblank (joined solid)]
      simp [some]
    · refine ⟨[],front,b,words tail,?_,List.suffix_refl _,List.prefix_append ..⟩
      rw [← List.append_assoc,words_append_blank blank,words_of_unblank (joined solid)]
      simp [some]
  | blank first c front none blank ih =>
    obtain ⟨before,a,b,after,found,last,head⟩ := ih
    refine ⟨words first ++ before,a,b,after,?_,last.trans ⟨first ++ [c],by simp⟩,head⟩
    rw [List.append_assoc,List.append_assoc,List.cons_append,words_append_blank blank,
      ← List.append_assoc front,found,← List.append_assoc (words first)]

theorem exists_of_words (found : words s = before ++ w :: after) :
    ∃ front rest, s = front ++ w ++ rest ∧ words front = before ∧ words rest = after ∧
      Broken front ∧ Breaks rest ∧ Unblank w ∧ w ≠ [] := by
  induction s using blankInduction generalizing before with
  | unblank s unblank =>
    rw [words_of_unblank unblank] at found
    split at found
    · simp at found
    · next some =>
      rcases before with _ | ⟨_,_ | _⟩ <;> simp at found
      obtain ⟨rfl,rfl⟩ := found
      exact ⟨[],[],by simp [unblank,some]⟩
  | blank first b rest none blank ih =>
    have later {before : List (List Char)} (found : words rest = before ++ w :: after) :
        ∃ front tail, first ++ b :: rest = front ++ w ++ tail ∧
          words front = words first ++ before ∧ words tail = after ∧ Broken front ∧ Breaks tail ∧
            Unblank w ∧ w ≠ [] := by
      obtain ⟨front,tail,rfl,rfl,after,broken,facts⟩ := ih found
      exact ⟨first ++ b :: front,tail,by simp,words_append_blank blank ..,after,
        broken.append_blank blank first,facts⟩
    rw [words_append_blank blank] at found
    by_cases empty : first = []
    · rw [words_of_unblank none,if_pos empty] at found later
      exact later found
    · rw [words_of_unblank none,if_neg empty] at found later
      cases before with
      | nil =>
        obtain ⟨rfl,rfl⟩ : first = w ∧ words rest = after := by simpa using found
        exact ⟨[],b :: rest,rfl,words_nil,words_append_blank blank [] rest,broken_nil,
          breaks_cons.mpr blank,none,empty⟩
      | cons _ before =>
        obtain ⟨rfl,inside⟩ : first = _ ∧ words rest = before ++ w :: after := by simpa using found
        exact later inside

end ReleaseInstaller.Text
