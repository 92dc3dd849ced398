import ReleaseInstaller.Files.Walk

/-! Walks step by step. A walk depends only on the directories and links on its way, so it comes
to the same place in every tree that keeps them. -/
namespace ReleaseInstaller

def Node.leadsOn : Node → Bool
  | directory | link _ => true
  | _ => false

namespace Files

variable {f g : Files} {links : Nat} {here there : Location} {steps first rest : List Path.Step}
  {name : Name} {node : Node} {target p : Path} {l : Location}

@[simp] theorem walk_nil : f.walk links here [] = .ok here := by cases links <;> rfl

@[simp] theorem walk_here : f.walk links here (.here :: rest) = f.walk links here rest := by
  cases links <;> rfl

@[simp] theorem walk_up :
    f.walk links here (.up :: rest) = f.walk links here.dropLast rest := by
  cases links <;> rfl

/-- Where a link that is met at a place sends the walk on. -/
def follow (f : Files) (links : Nat) (here : Location) (target : Path) (rest : List Path.Step) :
    Except Fault Location :=
  match links with
  | 0 => .error .tooManyLinks
  | links + 1 => f.walk links (if target.isAbsolute then [] else here) (target.steps ++ rest)

theorem walk_into (name : Name) :
    f.walk links here (.into name :: rest) =
      if nameLimit < name.length then .error .nameTooLong
      else match f.at? (here ++ [name]) with
        | none =>
          if rest.isEmpty && f.at? here = some .directory then .ok (here ++ [name])
          else .error .notFound
        | some (.link target) => f.follow links here target rest
        | some node =>
          if rest.isEmpty || node = .directory then f.walk links (here ++ [name]) rest
          else .error .notDirectory := by
  cases links <;> rfl

/-- Going into a name, a walk comes upon this there. -/
structure Meets (f : Files) (here : Location) (name : Name) (met : Option Node) : Prop where
  short : ¬ nameLimit < name.length
  found : f.at? (here ++ [name]) = met

theorem walk_long (long : nameLimit < name.length) :
    f.walk links here (.into name :: rest) = .error .nameTooLong := by
  rw [walk_into,if_pos long]

theorem walk_missing (meets : f.Meets here name none) :
    f.walk links here (.into name :: rest) =
      if rest.isEmpty && f.at? here = some .directory then .ok (here ++ [name])
      else .error .notFound := by
  rw [walk_into,if_neg meets.short,meets.found]

theorem walk_on (meets : f.Meets here name (some .directory)) :
    f.walk links here (.into name :: rest) = f.walk links (here ++ [name]) rest := by
  rw [walk_into,if_neg meets.short,meets.found]
  simp

theorem walk_stuck (meets : f.Meets here name (some node)) (off : node.leadsOn = false) :
    f.walk links here (.into name :: rest) =
      if rest.isEmpty then .ok (here ++ [name]) else .error .notDirectory := by
  rw [walk_into,if_neg meets.short,meets.found]
  cases node with
  | directory | link => cases off
  | file | fullDevice => cases rest <;> simp

theorem walk_last_link (meets : f.Meets here name (some (.link target))) :
    f.walk 0 here (.into name :: rest) = .error .tooManyLinks := by
  rw [walk_into,if_neg meets.short,meets.found]
  rfl

theorem walk_link (meets : f.Meets here name (some (.link target))) :
    f.walk (links + 1) here (.into name :: rest) =
      f.walk links (if target.isAbsolute then [] else here) (target.steps ++ rest) := by
  rw [walk_into,if_neg meets.short,meets.found]
  rfl

/-- Induction over a walk: what holds of walks holds of one more step, or of one more link that is
passed. -/
@[elab_as_elim]
theorem walk_induction (f : Files) {motive : Nat → Location → List Path.Step → Prop}
    (nil : ∀ links here, motive links here [])
    (here : ∀ links here rest, motive links here rest → motive links here (.here :: rest))
    (up : ∀ links here rest, motive links here.dropLast rest → motive links here (.up :: rest))
    (long : ∀ links here name rest, nameLimit < name.length →
      motive links here (.into name :: rest))
    (missing : ∀ links here name rest, f.Meets here name none →
      motive links here (.into name :: rest))
    (stuck : ∀ links here name rest node, f.Meets here name (some node) → node.leadsOn = false →
      motive links here (.into name :: rest))
    (on : ∀ links here name rest, f.Meets here name (some .directory) →
      motive links (here ++ [name]) rest → motive links here (.into name :: rest))
    (lastLink : ∀ here name rest target, f.Meets here name (some (.link target)) →
      motive 0 here (.into name :: rest))
    (link : ∀ links here name rest target, f.Meets here name (some (.link target)) →
      motive links (if target.isAbsolute then [] else here) (target.steps ++ rest) →
      motive (links + 1) here (.into name :: rest))
    (links : Nat) (place : Location) (steps : List Path.Step) : motive links place steps := by
  induction links using Nat.strongRecOn generalizing place steps with
  | ind links outer =>
  induction steps generalizing place with
  | nil => exact nil links place
  | cons step rest inner =>
    cases step with
    | here => exact here links place rest (inner place)
    | up => exact up links place rest (inner place.dropLast)
    | into name =>
      by_cases short : nameLimit < name.length
      · exact long links place name rest short
      cases met : f.at? (place ++ [name]) with
      | none => exact missing links place name rest ⟨short,met⟩
      | some node =>
        cases node with
        | directory => exact on links place name rest ⟨short,met⟩ (inner _)
        | file | fullDevice => exact stuck links place name rest _ ⟨short,met⟩ rfl
        | link target =>
          cases links with
          | zero => exact lastLink place name rest target ⟨short,met⟩
          | succ links =>
            exact link links place name rest target ⟨short,met⟩
              (outer links (Nat.lt_succ_self _) _ _)

theorem follow?_eq_ok : f.follow? p = .ok l ↔
    check p = .ok () ∧ f.walk linkLimit (f.start p) p.steps = .ok l := by
  rw [follow?]
  cases check p <;> simp [bind,Except.bind]

/-- The first part of a walk either gets stuck or comes to a place from which the walk goes on,
whatever its second part is, with the links that are left. -/
theorem walk_append_within (f : Files) (links : Nat) (here : Location) (first : List Path.Step) :
    (∃ fault, ∀ rest, rest ≠ [] → f.walk links here (first ++ rest) = .error fault) ∨
    ∃ there left, left ≤ links ∧ ∀ rest, rest ≠ [] →
      f.walk links here (first ++ rest) = f.walk left there rest := by
  induction links, here, first using walk_induction f with
  | nil links here => exact .inr ⟨here,links,Nat.le_refl _,fun _ _ => rfl⟩
  | here _ _ _ ih => simpa using ih
  | up _ _ _ ih => simpa using ih
  | long _ _ _ _ long => exact .inl ⟨.nameTooLong,fun rest _ => walk_long long⟩
  | missing _ _ _ _ meets =>
    exact .inl ⟨.notFound,fun rest some => by simp [walk_missing meets,some]⟩
  | stuck _ _ _ _ _ meets off =>
    exact .inl ⟨.notDirectory,fun rest some => by simp [walk_stuck meets off,some]⟩
  | on _ _ _ _ meets ih => simpa [walk_on meets] using ih
  | lastLink _ _ _ _ meets => exact .inl ⟨.tooManyLinks,fun rest _ => walk_last_link meets⟩
  | link _ _ _ _ _ meets ih =>
    rcases ih with ⟨fault,stuck⟩ | ⟨there,left,fewer,goes⟩
    · exact .inl ⟨fault,by simpa [walk_link meets] using stuck⟩
    · exact .inr ⟨there,left,Nat.le_succ_of_le fewer,by simpa [walk_link meets] using goes⟩

theorem walk_append (f : Files) (links : Nat) (here : Location) (first : List Path.Step) :
    (∃ fault, ∀ rest, rest ≠ [] → f.walk links here (first ++ rest) = .error fault) ∨
    ∃ there left, ∀ rest, rest ≠ [] →
      f.walk links here (first ++ rest) = f.walk left there rest := by
  rcases walk_append_within f links here first with stuck | ⟨there,left,-,goes⟩
  · exact .inl stuck
  · exact .inr ⟨there,left,goes⟩

theorem walk_passes (arrived : f.walk links here (first ++ (rest ++ [.here])) = .ok there) :
    ∃ place, f.walk links here (first ++ [.here]) = .ok place := by
  rcases walk_append f links here first with ⟨fault,stuck⟩ | ⟨place,left,goes⟩
  · simp [stuck] at arrived
  · exact ⟨place,by simp [goes]⟩

/-- A walk ends as it does in another tree that keeps the nodes it depends on: directories and
links for a walk that arrives, and all nodes for one that fails. What is missing may come to be
there, so a walk that misses something is left out. -/
theorem walk_kept {r : Except Fault Location} (found : r ≠ .error .notFound)
    (kept : ∀ l node, f.at? l = some node → (node.leadsOn = true ∨ r.isOk = false) →
      g.at? l = some node)
    (walked : f.walk links here (steps ++ [.here]) = r) :
    g.walk links here (steps ++ [.here]) = r := by
  have meets' {here name node} (meets : f.Meets here name (some node))
      (counts : node.leadsOn = true ∨ r.isOk = false) : g.Meets here name (some node) :=
    ⟨meets.short,kept _ _ meets.found counts⟩
  induction links, here, steps using walk_induction f with
  | nil _ _ => simpa using walked
  | here _ _ _ ih => simpa using ih (by simpa using walked)
  | up _ _ _ ih =>
    rw [List.cons_append,walk_up] at walked ⊢
    exact ih walked
  | long _ _ _ _ long => rwa [List.cons_append,walk_long long] at walked ⊢
  | missing _ _ _ _ meets =>
    rw [List.cons_append,walk_missing meets] at walked
    exact absurd (by simpa using walked.symm) found
  | stuck _ _ _ _ _ meets off =>
    rw [List.cons_append,walk_stuck meets off] at walked
    obtain rfl : .error .notDirectory = r := by simpa using walked
    rw [List.cons_append,walk_stuck (meets' meets (.inr rfl)) off]
    simp
  | on _ _ _ _ meets ih =>
    rw [List.cons_append,walk_on meets] at walked
    rw [List.cons_append,walk_on (meets' meets (.inl rfl))]
    exact ih walked
  | lastLink _ _ _ _ meets =>
    rw [List.cons_append,walk_last_link meets] at walked
    rwa [List.cons_append,walk_last_link (meets' meets (.inl rfl))]
  | link _ _ _ _ _ meets ih =>
    rw [List.cons_append,walk_link meets,← List.append_assoc] at walked
    rw [List.cons_append,walk_link (meets' meets (.inl rfl)),← List.append_assoc]
    exact ih walked

/-- Below a place that holds nothing a walk that does not turn back gets nowhere. -/
theorem walk_bare (bare : ∀ name, f.at? (here ++ [name]) = none) (forward : .up ∉ steps)
    (walked : f.walk links here (steps ++ [.here]) = .ok there) : there = here := by
  induction steps with
  | nil => simpa using walked.symm
  | cons step steps ih =>
    cases step with
    | here => exact ih (by simpa using forward) (by simpa using walked)
    | up => simp at forward
    | into name =>
      simp only [List.cons_append,walk_into,bare] at walked
      split at walked
      · cases walked
      · simp at walked

end Files
end ReleaseInstaller
