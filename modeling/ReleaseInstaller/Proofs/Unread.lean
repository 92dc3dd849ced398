import ReleaseInstaller.Proofs.Operation
import ReleaseInstaller.Proofs.Seat

/-! Trees that differ only where no path of a run leads. A walk depends on nothing but the places that
it comes to, and so does every operation on a path; two trees that agree on those places give the same
result, and what they differ in stays in each of them as it was. -/
namespace ReleaseInstaller.Files

/-- A walk along the steps comes to a place, or looks at the entry there. Links are followed without a
limit. -/
inductive Comes (f : Files) : Location → List Path.Step → Location → Prop where
  | stop : Comes f here steps here
  | here : Comes f here rest k → Comes f here (.here :: rest) k
  | up : Comes f here.dropLast rest k → Comes f here (.up :: rest) k
  | entry : Comes f here (.into name :: rest) (here ++ [name])
  | on : f.at? (here ++ [name]) = some .directory → Comes f (here ++ [name]) rest k →
      Comes f here (.into name :: rest) k
  | link : f.at? (here ++ [name]) = some (.link target) →
      Comes f (if target.isAbsolute then [] else here) (target.steps ++ rest) k →
      Comes f here (.into name :: rest) k

variable {f g : Files} {links : Nat} {here l k d : Location} {before rest steps : List Path.Step}
  {name : Name} {p q target : Path}

namespace Comes

theorem append (comes : f.Comes here steps k) (more : List Path.Step) :
    f.Comes here (steps ++ more) k := by
  induction comes with
  | stop => exact .stop
  | here _ ih => exact .here ih
  | up _ ih => exact .up ih
  | entry => exact .entry
  | on directory _ ih => exact .on directory ih
  | link met _ ih => exact .link met (by rwa [List.append_assoc] at ih)

theorem of_here (comes : f.Comes here (steps ++ [.here]) k) : f.Comes here steps k := by
  generalize whole : steps ++ [.here] = all at comes
  induction comes generalizing steps with
  | stop => exact .stop
  | here comes ih =>
    cases steps with
    | nil =>
      cases whole
      exact comes
    | cons step steps =>
      cases whole
      exact .here (ih rfl)
  | up _ ih =>
    cases steps with
    | nil => cases whole
    | cons step steps =>
      cases whole
      exact .up (ih rfl)
  | entry =>
    cases steps with
    | nil => cases whole
    | cons step steps =>
      cases whole
      exact .entry
  | on directory _ ih =>
    cases steps with
    | nil => cases whole
    | cons step steps =>
      cases whole
      exact .on directory (ih rfl)
  | link met _ ih =>
    cases steps with
    | nil => cases whole
    | cons step steps =>
      cases whole
      exact .link met (ih (List.append_assoc ..))

theorem of_walk (walked : f.walk links here steps = .ok l) : f.Comes here steps l := by
  induction links, here, steps using walk_induction f with
  | nil _ _ =>
    cases walk_nil.symm.trans walked
    exact .stop
  | here _ _ _ ih => exact .here (ih (walk_here.symm.trans walked))
  | up _ _ _ ih => exact .up (ih (walk_up.symm.trans walked))
  | long _ _ _ _ long => cases (walk_long long).symm.trans walked
  | missing _ _ _ _ meets =>
    rw [walk_missing meets] at walked
    split at walked
    · cases walked
      exact .entry
    · cases walked
  | stuck _ _ _ _ _ meets off =>
    rw [walk_stuck meets off] at walked
    split at walked
    · cases walked
      exact .entry
    · cases walked
  | on _ _ _ _ meets ih => exact .on meets.found (ih ((walk_on meets).symm.trans walked))
  | lastLink _ _ _ _ meets => cases (walk_last_link meets).symm.trans walked
  | link _ _ _ _ _ meets ih => exact .link meets.found (ih ((walk_link meets).symm.trans walked))

/-- Beyond a directory that it arrives at, a walk comes to all that a walk from there comes to. -/
theorem after (walked : f.walk links here (before ++ [.here]) = .ok d) (comes : f.Comes d rest k) :
    f.Comes here (before ++ rest) k := by
  induction links, here, before using walk_induction f with
  | nil _ _ =>
    obtain rfl : _ = d := by simpa using walked
    exact comes
  | here _ _ _ ih => exact .here (ih (walk_here.symm.trans walked))
  | up _ _ _ ih => exact .up (ih (walk_up.symm.trans walked))
  | long _ _ _ _ long => cases (walk_long long).symm.trans walked
  | missing _ _ _ _ meets => simp [walk_missing meets] at walked
  | stuck _ _ _ _ _ meets off => simp [walk_stuck meets off] at walked
  | on _ _ _ _ meets ih => exact .on meets.found (ih ((walk_on meets).symm.trans walked))
  | lastLink _ _ _ _ meets => cases (walk_last_link meets).symm.trans walked
  | link _ _ _ _ _ meets ih =>
    rw [List.cons_append,walk_link meets,← List.append_assoc] at walked
    exact .link meets.found (List.append_assoc .. ▸ ih walked)

end Comes

/-- The trees agree on every place that a walk along the steps comes to. -/
def AgreeOn (f g : Files) (here : Location) (steps : List Path.Step) : Prop :=
  ∀ k, f.Comes here steps k → g.at? k = f.at? k

theorem walk_agree (agree : f.AgreeOn g here steps) :
    g.walk links here steps = f.walk links here steps := by
  induction links, here, steps using walk_induction f with
  | nil _ _ => simp
  | here _ _ _ ih =>
    rw [walk_here,walk_here]
    exact ih fun k comes => agree k (.here comes)
  | up _ _ _ ih =>
    rw [walk_up,walk_up]
    exact ih fun k comes => agree k (.up comes)
  | long _ _ _ _ long => rw [walk_long long,walk_long long]
  | missing _ here _ _ meets =>
    have meets' := (⟨meets.short,(agree _ .entry).trans meets.found⟩ : g.Meets _ _ _)
    rw [walk_missing meets,walk_missing meets',agree here .stop]
  | stuck _ _ _ _ _ meets off =>
    have meets' := (⟨meets.short,(agree _ .entry).trans meets.found⟩ : g.Meets _ _ _)
    rw [walk_stuck meets off,walk_stuck meets' off]
  | on _ _ _ _ meets ih =>
    have meets' := (⟨meets.short,(agree _ .entry).trans meets.found⟩ : g.Meets _ _ _)
    rw [walk_on meets,walk_on meets']
    exact ih fun k comes => agree k (.on meets.found comes)
  | lastLink _ _ _ _ meets =>
    have meets' := (⟨meets.short,(agree _ .entry).trans meets.found⟩ : g.Meets _ _ _)
    rw [walk_last_link meets,walk_last_link meets']
  | link _ _ _ _ _ meets ih =>
    have meets' := (⟨meets.short,(agree _ .entry).trans meets.found⟩ : g.Meets _ _ _)
    rw [walk_link meets,walk_link meets']
    exact ih fun k comes => agree k (.link meets.found comes)

theorem comes_of_lastStep (named : f.lastStep? here p = .ok (some (d,name))) :
    f.Comes here p.steps d ∧ f.Comes here p.steps (d ++ [name]) ∧
      f.at? d = some .directory ∧ ∃ before, p.spelledSteps = before ++ [.into name] ∧
        f.walk linkLimit here (before ++ [.here]) = .ok d := by
  unfold lastStep? at named
  rcases List.eq_nil_or_concat p.spelledSteps with none | ⟨before,step,spelled⟩
  · simp [none] at named
  rw [List.concat_eq_append] at spelled
  simp only [spelled,List.reverse_append,List.reverse_singleton,List.singleton_append,
    List.reverse_reverse,bind,Except.bind] at named
  cases walked : f.walk linkLimit here (before ++ [.here]) with
  | error fault => simp [walked] at named
  | ok around =>
    simp only [walked] at named
    split at named
    · next last name' inside =>
      cases named
      refine ⟨?_,?_,inside,before,spelled,walked⟩
      · rw [Path.steps,spelled]
        exact ((Comes.of_walk walked).of_here.append _).append _
      · rw [Path.steps,spelled]
        exact (Comes.after walked .entry).append _
    all_goals cases named

theorem lastStep?_agree (agree : f.AgreeOn g here p.steps) :
    g.lastStep? here p = f.lastStep? here p := by
  unfold lastStep?
  rcases List.eq_nil_or_concat p.spelledSteps with none | ⟨before,step,spelled⟩
  · simp [none]
  rw [List.concat_eq_append] at spelled
  have around : f.AgreeOn g here (before ++ [.here]) := by
    intro k comes
    apply agree
    rw [Path.steps,spelled]
    exact (comes.of_here.append _).append _
  simp only [spelled,List.reverse_append,List.reverse_singleton,List.singleton_append,
    List.reverse_reverse,bind,Except.bind,walk_agree around]
  cases walked : f.walk linkLimit here (before ++ [.here]) with
  | error fault => rfl
  | ok d => simp only [around d (.of_walk walked)]

/-- A link at the end is looked at and followed where the walk does so. -/
theorem checkFilePath_agree (agree : f.AgreeOn g here p.steps) :
    g.checkFilePath links here p = f.checkFilePath links here p := by
  induction links generalizing here p with
  | zero => rfl
  | succ links ih =>
    simp only [checkFilePath,lastStep?_agree agree,bind,Except.bind]
    rcases named : f.lastStep? here p with fault | _ | ⟨d,name⟩
    · rfl
    · rfl
    obtain ⟨-,comes,-,before,spelled,walked⟩ := comes_of_lastStep named
    dsimp only
    split
    · rfl
    rw [agree _ comes]
    split
    · next target met =>
      refine ih fun k comes => agree k ?_
      rw [Path.steps,spelled,List.append_assoc]
      exact .after walked (.link met (comes.append _))
    · rfl

/-- The trees agree on every place that the walk of a path comes to. -/
structure AgreeAt (f g : Files) (p : Path) : Prop where
  current : g.current = f.current
  nodes : f.AgreeOn g (f.start p) p.steps

namespace AgreeAt

theorem start (agree : f.AgreeAt g p) : g.start p = f.start p := by
  simp [Files.start,agree.current]

theorem follow? (agree : f.AgreeAt g p) : g.follow? p = f.follow? p := by
  simp only [Files.follow?,agree.start,walk_agree agree.nodes]

theorem entry (agree : f.AgreeAt g p) : g.entry? p = f.entry? p := by
  simp only [Files.entry?,agree.start,lastStep?_agree agree.nodes]

theorem checkFilePath (agree : f.AgreeAt g p) :
    g.checkFilePath links (g.start p) p = f.checkFilePath links (f.start p) p := by
  rw [agree.start,checkFilePath_agree agree.nodes]

end AgreeAt

theorem comes_of_follow? (followed : f.follow? p = .ok l) : f.Comes (f.start p) p.steps l :=
  .of_walk (follow?_eq_ok.mp followed).2

theorem comes_of_named (entry : f.entry? p = .ok (some l)) : f.Comes (f.start p) p.steps l := by
  obtain ⟨-,before,name,d,spelled,walked,-,-,rfl⟩ := entry?_eq_some.mp entry
  rw [Path.steps,spelled]
  exact (Comes.after walked .entry).append _

theorem AgreeAt.find? (agree : f.AgreeAt g p) : g.find? p = f.find? p := by
  unfold Files.find?
  rw [agree.follow?]
  split
  · next followed => exact agree.nodes _ (comes_of_follow? followed)
  · rfl

theorem AgreeAt.holds (agree : f.AgreeAt g p) : g.holds p = f.holds p := by
  rw [Files.holds,Files.holds,agree.find?]

theorem AgreeAt.isDirectory (agree : f.AgreeAt g p) : g.isDirectory p = f.isDirectory p := by
  rw [Files.isDirectory,Files.isDirectory,agree.find?]

theorem LeadsTo.refl (p : Path) : LeadsTo p p := ⟨rfl,[],(List.append_nil _).symm⟩

theorem LeadsTo.of_above (above : q.Above p) : LeadsTo q p :=
  let ⟨start,more,_,spelled⟩ := above.spelled
  ⟨start,more,spelled⟩

theorem LeadsTo.of_ancestor {name : String} (isName : Path.IsName name) (above : q ∈ p.ancestors) :
    LeadsTo q (p.joinName name) := by
  have last : (p.joinName name).spelledSteps = _ := Path.joinName_spelledSteps isName
  have start : (p.joinName name).isAbsolute = _ := Path.joinName_isAbsolute isName
  rcases Path.above_of_mem_ancestors above with rfl | above
  · exact ⟨start.symm,_,last⟩
  · obtain ⟨start',more,-,spelled⟩ := above.spelled
    refine ⟨start'.trans start.symm,more ++ (Path.step? (Path.nameOctets name)).toList,?_⟩
    rw [last,spelled,List.append_assoc]

/-- A path that leads on to another one comes to no other places. -/
theorem Comes.of_leadsTo (leads : LeadsTo q p) (comes : f.Comes (f.start q) q.steps k) :
    f.Comes (f.start p) p.steps k := by
  obtain ⟨start,more,spelled⟩ := leads
  have same : f.start q = f.start p := by simp [Files.start,start]
  have comes : f.Comes (f.start q) q.spelledSteps k := by
    rw [Path.steps] at comes
    split at comes
    · exact comes.of_here
    · simpa using comes
  rw [← same,Path.steps,spelled]
  exact (comes.append _).append _

end ReleaseInstaller.Files
