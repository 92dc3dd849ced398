import ReleaseInstaller.Proofs.Seat

/-! Paths that are the same but for their spelling. Single dots are walked over, so two paths with the
same components lead to the same directory. -/
namespace ReleaseInstaller

namespace Path

variable {p q dir dir' : Path} {name name' : String}

/-- The steps of a path that go somewhere. -/
def moves (p : Path) : List Step := p.spelledSteps.filter (· ≠ .here)

def Component.step? : Component → Option Step
  | root | here => none
  | above => some .up
  | named name => some (.into name)

theorem moves_eq (p : Path) : p.moves = p.components.filterMap Component.step? := by
  have named : p.moves = (p.segments.filterMap fun segment =>
      if segment = [] || segment = [dot] then none
      else if segment = [dot,dot] then some .above
      else some (.named segment)).filterMap Component.step? := by
    rw [moves,spelledSteps_eq,List.filter_filterMap,List.filterMap_filterMap]
    congr 1
    funext segment
    simp only [Path.step?]
    by_cases empty : segment = []
    · simp [empty]
    by_cases idle : segment = [dot]
    · simp [idle]
    by_cases above : segment = [dot,dot] <;> simp [empty,idle,above,Component.step?]
  rw [named,components]
  split
  · rw [List.filterMap_cons_none rfl]
  split
  · rw [List.filterMap_cons_none rfl]
  · rfl

theorem isAbsolute_iff : p.isAbsolute = true ↔ p.components.head? = some .root := by
  constructor
  · intro absolute
    simp [components,absolute]
  intro rooted
  cases absolute : p.isAbsolute with
  | true => rfl
  | false =>
    rw [components,absolute] at rooted
    simp only [Bool.false_eq_true,if_false] at rooted
    split at rooted
    · cases rooted
    · obtain ⟨segment,-,found⟩ := List.mem_filterMap.mp (List.mem_of_mem_head? rooted)
      split at found
      · cases found
      split at found <;> cases found

theorem moves_of_same (same : p.same q = true) :
    p.isAbsolute = q.isAbsolute ∧ p.moves = q.moves := by
  have components : p.components = q.components := of_decide_eq_true same
  rw [moves_eq,moves_eq,components,Bool.eq_iff_iff,isAbsolute_iff,isAbsolute_iff,components]
  exact ⟨Iff.rfl,rfl⟩

/-- A name that is none of the dots. -/
structure IsProper (name : String) : Prop extends IsName name where
  step : step? (nameOctets name) = Option.some (.into (nameOctets name))

theorem moves_joinName (proper : IsProper name) :
    (dir.joinName name).moves = dir.moves ++ [.into (nameOctets name)] := by
  simp [moves,joinName_spelledSteps proper.toIsName,proper.step]

theorem moves_of_same_joinName (proper : IsProper name) (proper' : IsProper name')
    (same : (dir.joinName name).same (dir'.joinName name') = true) :
    name = name' ∧ dir.isAbsolute = dir'.isAbsolute ∧ dir.moves = dir'.moves := by
  obtain ⟨start,moves⟩ := moves_of_same same
  rw [joinName_isAbsolute proper.toIsName,joinName_isAbsolute proper'.toIsName] at start
  rw [moves_joinName proper,moves_joinName proper'] at moves
  obtain ⟨front,last⟩ := List.append_singleton_inj.mp moves
  exact ⟨nameOctets_injective (Step.into.inj last),start,front⟩

end Path

namespace Files

variable {f : Files} {p dir dir' : Path}

/-- Steps that stay where they are do not matter to a walk that asks for a directory. -/
theorem walk_moves (f : Files) (links : Nat) (here : Location) (steps : List Path.Step) :
    f.walk links here (steps ++ [.here]) =
      f.walk links here (steps.filter (· ≠ .here) ++ [.here]) := by
  induction steps generalizing links here with
  | nil => rfl
  | cons step rest ih =>
    by_cases idle : step = .here
    · subst idle
      simpa using ih links here
    rw [List.filter_cons_of_pos (by simpa using idle)]
    rcases walk_append f links here [step] with ⟨fault,stuck⟩ | ⟨there,left,goes⟩
    · exact (stuck _ (by simp)).trans (stuck _ (by simp)).symm
    · exact (goes _ (by simp)).trans ((ih left there).trans (goes _ (by simp)).symm)

theorem seat?_of_moves (start : dir.isAbsolute = dir'.isAbsolute) (moves : dir.moves = dir'.moves) :
    f.seat? dir = f.seat? dir' := by
  have starts : f.start dir = f.start dir' := by simp [Files.start,start]
  rw [seat?,seat?,walk_moves,starts]
  change f.walk _ _ (dir.moves ++ _) = _
  rw [moves,Path.moves,← walk_moves]

end Files
end ReleaseInstaller
