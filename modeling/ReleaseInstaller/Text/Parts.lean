/-! Parts of texts, be they characters or octets: the pieces between marks, whether a part
occurs, and putting something else in its place. -/
namespace ReleaseInstaller.Text

def splitAt [DecidableEq α] (mark : α) : List α → List (List α)
  | [] => [[]]
  | c :: rest =>
    if c = mark then [] :: splitAt mark rest
    else match splitAt mark rest with
      | [] => [[c]]
      | piece :: more => (c :: piece) :: more

/-- The text before the first occurrence of a mark, and the text after it if there is one. -/
def cutAt (mark : Char) (s : List Char) : List Char × Option (List Char) :=
  match s.dropWhile (· ≠ mark) with
  | [] => (s, none)
  | _ :: after => (s.takeWhile (· ≠ mark), some after)

def occurs (part : List Char) : List Char → Bool
  | [] => part.isEmpty
  | c :: rest => part.isPrefixOf (c :: rest) || occurs part rest

def replaceAfter (part image : List Char) : (skip : Nat) → List Char → List Char
  | _, [] => []
  | skip + 1, _ :: rest => replaceAfter part image skip rest
  | 0, c :: rest =>
    if part.isPrefixOf (c :: rest) then
      image ++ replaceAfter part image (part.length - 1) rest
    else
      c :: replaceAfter part image 0 rest

/-- Replaces every occurrence of a part, from left to right; an empty part is not replaced. -/
def replaceAll (part image s : List Char) : List Char :=
  if part.isEmpty then s else replaceAfter part image 0 s

theorem splitAt_ne_nil [DecidableEq α] (mark : α) (s : List α) : splitAt mark s ≠ [] := by
  cases s with
  | nil => simp [splitAt]
  | cons c rest =>
    simp only [splitAt]
    split
    · simp
    · split <;> simp

theorem intercalate_splitAt [DecidableEq α] (mark : α) (s : List α) :
    List.intercalate [mark] (splitAt mark s) = s := by
  induction s with
  | nil => rfl
  | cons c rest ih =>
    simp only [splitAt]
    obtain ⟨piece, more, pieces⟩ := List.exists_cons_of_ne_nil (splitAt_ne_nil mark rest)
    rw [pieces] at ih ⊢
    split
    · next same =>
      subst same
      simpa [List.intercalate, List.intersperse] using ih
    · cases more <;> simpa [List.intercalate, List.intersperse] using ih

end ReleaseInstaller.Text
