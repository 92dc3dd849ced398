import ReleaseInstaller.Proofs.Entry
import ReleaseInstaller.Proofs.Operation

/-! Trees that are parts of others. Removing entries leaves a part of a tree; what is named or found
in a part is named or found in the whole, and what could be removed there could be removed before. -/
namespace ReleaseInstaller.Files

variable {f g h : Files} {p q : Path} {l k : Location} {links : Nat} {here : Location}
  {steps : List Path.Step} {node : Node}

/-- All that lies in the second tree lies in the first as well. -/
structure Part (f g : Files) : Prop where
  current : g.current = f.current
  nodes : ∀ l node, g.at? l = some node → f.at? l = some node

theorem Part.refl (f : Files) : Part f f := ⟨rfl,fun _ _ present => present⟩

theorem Part.trans (first : Part f g) (second : Part g h) : Part f h :=
  ⟨second.current.trans first.current,fun l node present => first.nodes l node (second.nodes l node present)⟩

theorem Part.keeps (part : Part f g) : Keeps g f :=
  ⟨part.current.symm,fun l node present _ => part.nodes l node present⟩

theorem at?_drop_cases (f : Files) (gone : Location → Bool) (l : Location) :
    (f.drop gone).at? l = f.at? l ∨ (f.drop gone).at? l = none ∧ gone l = true := by
  by_cases root : l = []
  · exact .inl (by rw [root]; rfl)
  rw [at?_drop f gone l root]
  cases gone l <;> simp

theorem part_drop (f : Files) (gone : Location → Bool) : Part f (f.drop gone) := by
  refine ⟨rfl,fun l node present => ?_⟩
  rcases at?_drop_cases f gone l with same | ⟨absent,-⟩
  · exact same ▸ present
  · simp [absent] at present

theorem part_erase (f : Files) (l : Location) : Part f (f.erase l) := part_drop f _

/-- A walk that comes to something in a part of a tree comes to it in the tree. -/
theorem Part.walk (part : Part f g) (walked : g.walk links here steps = .ok l)
    (present : g.at? l = some node) : f.walk links here steps = .ok l := by
  have meets' {here name node} (meets : g.Meets here name (some node)) :
      f.Meets here name (some node) := ⟨meets.short,part.nodes _ _ meets.found⟩
  induction links, here, steps using walk_induction g with
  | nil _ _ => simpa using walked
  | here _ _ _ ih => simpa using ih (by simpa using walked)
  | up _ _ _ ih =>
    rw [walk_up] at walked ⊢
    exact ih walked
  | long _ _ _ _ long => rwa [walk_long long] at walked ⊢
  | missing _ _ _ _ meets =>
    rw [walk_missing meets] at walked
    split at walked
    · cases walked
      simp [meets.found] at present
    · cases walked
  | stuck _ _ _ _ _ meets off => rwa [walk_stuck meets off,← walk_stuck (meets' meets) off] at walked
  | on _ _ _ _ meets ih =>
    rw [walk_on meets] at walked
    rw [walk_on (meets' meets)]
    exact ih walked
  | lastLink _ _ _ _ meets =>
    rw [walk_last_link meets] at walked
    cases walked
  | link _ _ _ _ _ meets ih =>
    rw [walk_link meets] at walked
    rw [walk_link (meets' meets)]
    exact ih walked

theorem Part.follow? (part : Part f g) (followed : g.follow? p = .ok l)
    (present : g.at? l = some node) : f.follow? p = .ok l := by
  obtain ⟨checked,walked⟩ := follow?_eq_ok.mp followed
  exact follow?_eq_ok.mpr ⟨checked,part.keeps.start p ▸ part.walk walked present⟩

theorem exists_of_holds (held : f.holds p = true) :
    ∃ l node, f.follow? p = .ok l ∧ f.at? l = some node := by
  simp only [holds,find?] at held
  cases followed : f.follow? p with
  | error fault => simp [followed] at held
  | ok l =>
    obtain ⟨node,present⟩ := Option.isSome_iff_exists.mp (by simpa [followed] using held)
    exact ⟨l,node,rfl,present⟩

theorem Part.holds (part : Part f g) (held : g.holds p = true) : f.holds p = true := by
  obtain ⟨l,node,followed,present⟩ := exists_of_holds held
  simp [Files.holds,find?,part.follow? followed present,part.nodes l node present]

/-- What can be removed as a file: an entry that is no directory, named without a slash at the
end. -/
theorem removeFile_isOk : (removeFile p f).isOk = true ↔
    ∃ l node, f.entry? p = .ok (some l) ∧ f.at? l = some node ∧ node ≠ .directory ∧
      p.endsInSlash = false := by
  constructor
  · intro removable
    cases removed : removeFile p f with
    | error fault => simp [removed,Except.isOk,Except.toBool] at removable
    | ok g =>
      obtain ⟨l,node,entry,present,other,-⟩ := removeFile_ok removed
      refine ⟨l,node,entry,present,other,?_⟩
      simp only [removeFile,named?_eq_ok.mpr entry,bind,Except.bind,present] at removed
      cases slash : p.endsInSlash with
      | false => rfl
      | true => cases node <;> simp [slash] at removed
  · rintro ⟨l,node,entry,present,other,slash⟩
    simp only [removeFile,named?_eq_ok.mpr entry,bind,Except.bind,present]
    cases node with
    | directory => exact absurd rfl other
    | file | link | fullDevice => simp [slash,Except.isOk,Except.toBool]

theorem Part.removeFile (part : Part f g) (removable : (removeFile p g).isOk = true) :
    (Files.removeFile p f).isOk = true := by
  obtain ⟨l,node,entry,present,rest⟩ := removeFile_isOk.mp removable
  exact removeFile_isOk.mpr ⟨l,node,part.keeps.entry? entry,part.nodes l node present,rest⟩

theorem follow?_of_directory (entry : f.entry? p = .ok (some l))
    (directory : f.at? l = some .directory) : f.follow? p = .ok l := by
  obtain ⟨checked,before,name,d,spelled,walked,-,short,rfl⟩ := entry?_eq_some.mp entry
  rcases walk_append f linkLimit (f.start p) before with ⟨fault,stuck⟩ | ⟨there,left,goes⟩
  · rw [stuck _ (by simp)] at walked
    cases walked
  rw [goes _ (by simp)] at walked
  obtain rfl : there = d := by simpa using walked
  have onward (rest : List Path.Step) : f.walk linkLimit (f.start p)
      (before ++ .into name :: rest) = f.walk left (there ++ [name]) rest := by
    rw [goes _ (List.cons_ne_nil _ _),walk_on ⟨short,directory⟩]
  refine follow?_eq_ok.mpr ⟨checked,?_⟩
  simp only [Path.steps,spelled,List.append_assoc,List.singleton_append,onward]
  cases p.endsInSlash <;> simp

/-- Once a file is removed, its path leads to nothing. -/
theorem holds_of_removed (removed : removeFile p f = .ok g) : g.holds p = false := by
  obtain ⟨-,-,-,-,-,slash⟩ := removeFile_isOk.mp (by rw [removed]; rfl)
  obtain ⟨l,_,entry,-,-,rfl⟩ := removeFile_ok removed
  obtain ⟨-,before,name,d,spelled,walked,-,short,rfl⟩ := entry?_eq_some.mp entry
  have part := part_erase f (d ++ [name])
  rw [← Bool.not_eq_true]
  intro held
  obtain ⟨k,node,followed,present⟩ := exists_of_holds held
  obtain ⟨-,arrived⟩ := follow?_eq_ok.mp followed
  simp only [Path.steps,slash,spelled,Bool.false_eq_true,if_false,List.append_nil] at arrived
  rcases walk_append (f.erase (d ++ [name])) linkLimit ((f.erase (d ++ [name])).start p) before
    with ⟨fault,stuck⟩ | ⟨there,left,goes⟩
  · simp [stuck _ (List.cons_ne_nil _ _)] at arrived
  have around := part.keeps.walk ((goes [.here] (by simp)).trans (by simp : _ = Except.ok there))
  rw [← part.keeps.start,walked] at around
  cases around
  have gone : (f.erase (d ++ [name])).at? (d ++ [name]) = none := by
    rw [at?_erase_entry,if_pos rfl]
  rw [goes _ (by simp),walk_missing ⟨short,gone⟩] at arrived
  split at arrived
  · cases arrived
    simp [gone] at present
  · cases arrived

theorem clear_ok (cleared : clear p f = .ok g) : ∃ l, f.follow? p = .ok l ∧
    f.at? l = some .directory ∧ g = f.drop fun k => l.isPrefixOf k && k ≠ l := by
  simp only [clear,bind,Except.bind] at cleared
  cases followed : f.follow? p with
  | error fault => simp [followed] at cleared
  | ok l =>
    simp only [followed] at cleared
    refine ⟨l,rfl,?_⟩
    split at cleared
    · cases cleared
    · next directory =>
      cases cleared
      exact ⟨directory,rfl⟩
    · cases cleared

theorem removeDirectory_ok (removed : removeDirectory p f = .ok g) :
    ∃ l, f.entry? p = .ok (some l) ∧ f.at? l = some .directory ∧ g = f.erase l := by
  simp only [removeDirectory,bind,Except.bind] at removed
  cases named : f.named? p (unnamedFault p) with
  | error fault => simp [named] at removed
  | ok l =>
    simp only [named] at removed
    refine ⟨l,named?_eq_ok.mp named,?_⟩
    split at removed
    · cases removed
    · next directory =>
      split at removed
      · cases removed
      · cases removed
        exact ⟨directory,rfl⟩
    · cases removed

theorem locate?_of_entry (entry : f.entry? p = .ok (some l)) (slash : p.endsInSlash = false) :
    f.locate? p = .ok l := by
  simp [locate?,entry,slash,bind,Except.bind]

theorem follow?_of_locate? (located : f.locate? p = .ok l) (directory : f.at? l = some .directory) :
    f.follow? p = .ok l := by
  simp only [locate?,bind,Except.bind] at located
  cases entry : f.entry? p with
  | error fault => simp [entry] at located
  | ok named =>
    simp only [entry] at located
    split at located
    · cases located
      exact follow?_of_directory entry directory
    · exact located

end ReleaseInstaller.Files
