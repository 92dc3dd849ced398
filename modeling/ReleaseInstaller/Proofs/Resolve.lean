import ReleaseInstaller.Directory
import ReleaseInstaller.Proofs.Part
import ReleaseInstaller.Proofs.Trace

/-! The directory that is chosen for an install. It is made when it is missing, with those around it,
and nothing else is done. Once something lies there, its path leaves no missing directory behind by a
step up, and no directory is missed on the way. -/
namespace ReleaseInstaller

open Procedure

namespace Files

variable {f g h : Files} {p q dir : Path} {l : Location} {pre : Machine → Prop} {m after : Machine}
  {links : Nat} {here : Location} {steps : List Path.Step} {node : Node}

theorem Direct.of_follow (found : f.follow? p = .ok l) : f.Direct p := by
  intro before rest spelled missing
  obtain ⟨-,walked⟩ := follow?_eq_ok.mp found
  rw [Path.steps,spelled,List.append_assoc] at walked
  rcases walk_append f linkLimit (f.start p) before with ⟨fault,stuck⟩ | ⟨there,left,goes⟩
  · simp [stuck] at walked
  · simp [goes] at missing

/-- The path is that of the current directory, or something lies where it leads. -/
def Reached (p : Path) (f : Files) : Prop := p.isEmpty = true ∨ f.holds p = true

theorem spelledSteps_of_isEmpty (empty : p.isEmpty = true) : p.spelledSteps = [] := by
  obtain ⟨octets⟩ := p
  obtain rfl : octets = [] := by simpa [Path.isEmpty] using empty
  simp [Path.spelledSteps_eq,Path.segments,Text.splitAt,Path.step?]

theorem Reached.direct (reached : Reached p f) : f.Direct p := by
  rcases reached with empty | there
  · intro before rest spelled
    simp [spelledSteps_of_isEmpty empty] at spelled
  · obtain ⟨l,-,followed,-⟩ := exists_of_holds there
    exact .of_follow followed

/-- Where a walk comes to something, nothing is missed when a directory is asked for. -/
theorem walk_here_of_present (walked : f.walk links here steps = .ok l)
    (present : f.at? l = some node) :
    f.walk links here (steps ++ [.here]) ≠ .error .notFound := by
  induction links, here, steps using walk_induction f with
  | nil _ _ => simp
  | here _ _ _ ih => simpa using ih (by simpa using walked)
  | up _ _ _ ih =>
    rw [walk_up] at walked
    simpa using ih walked
  | long _ _ _ _ long => simp [walk_long long] at walked
  | missing _ _ _ _ meets =>
    rw [walk_missing meets] at walked
    split at walked
    · cases walked
      simp [meets.found] at present
    · cases walked
  | stuck _ _ _ _ _ meets off => simp [walk_stuck meets off]
  | on _ _ _ _ meets ih =>
    rw [walk_on meets] at walked
    simpa [walk_on meets] using ih walked
  | lastLink _ _ _ _ meets => simp [walk_last_link meets]
  | link _ _ _ _ _ meets ih =>
    rw [walk_link meets] at walked
    simpa [walk_link meets] using ih walked

theorem Reached.seat (reached : Reached p f) : f.seat? p ≠ .error .notFound := by
  rcases reached with empty | there
  · simp [seat?,spelledSteps_of_isEmpty empty]
  obtain ⟨l,node,followed,present⟩ := exists_of_holds there
  obtain ⟨-,walked⟩ := follow?_eq_ok.mp followed
  rw [Path.steps] at walked
  split at walked
  · simp [seat?,walked]
  · rw [List.append_nil] at walked
    exact walk_here_of_present walked present

/-- The path is that of the directory, or of one around it. -/
def Around (dir q : Path) : Prop := q = dir ∨ q.Above dir

def Raises (dir : Path) (f g : Files) : Prop :=
  ∃ q l, Around dir q ∧ f.entry? q = .ok (some l) ∧ f.at? l = none ∧ g = f.put l .directory

/-- Nothing is new but directories on the way to another one. -/
structure Grown (dir : Path) (f g : Files) : Prop where
  current : g.current = f.current
  nodes : ∀ l, g.at? l = f.at? l ∨ f.at? l = none ∧ g.at? l = some .directory ∧
    ∃ q, Around dir q ∧ g.entry? q = .ok (some l)

namespace Grown

theorem refl (dir : Path) (f : Files) : Grown dir f f := ⟨rfl,fun _ => .inl rfl⟩

theorem keeps (grown : Grown dir f g) : Keeps f g := by
  refine ⟨grown.current,fun l node present _ => ?_⟩
  rcases grown.nodes l with same | ⟨absent,-⟩
  · exact same.trans present
  · simp [absent] at present

theorem trans (first : Grown dir f g) (second : Grown dir g h) : Grown dir f h := by
  refine ⟨second.current.trans first.current,fun l => ?_⟩
  rcases second.nodes l with same | ⟨absent,made,q,around,entry⟩
  · rw [same]
    exact (first.nodes l).imp id fun ⟨absent,made,q,around,entry⟩ =>
      ⟨absent,made,q,around,second.keeps.entry? entry⟩
  · rcases first.nodes l with same' | ⟨-,made',-⟩
    · exact .inr ⟨same' ▸ absent,made,q,around,entry⟩
    · simp [made'] at absent

end Grown

theorem Raises.grown (raises : Raises dir f g) : Grown dir f g := by
  obtain ⟨q,l,around,entry,vacant,rfl⟩ := raises
  obtain ⟨d,n,rfl,-⟩ := exists_of_entry entry
  refine ⟨rfl,fun k => ?_⟩
  rw [at?_put_entry]
  split
  · next same =>
    have kept : Keeps f (f.put (d ++ [n]) .directory) := .put_vacant f vacant .directory
    exact .inr ⟨same ▸ vacant,rfl,q,around,same ▸ kept.entry? entry⟩
  · exact .inl rfl

theorem Raises.whole (raises : Raises dir f g) (whole : f.WellFormed) : g.WellFormed := by
  obtain ⟨q,l,-,entry,vacant,rfl⟩ := raises
  obtain ⟨d,n,rfl,inside⟩ := exists_of_entry entry
  exact whole.put inside (by simp [vacant]) .directory

def Builds {ε α : Type} (dir : Path) (pre : Machine → Prop) (p : Procedure ε α)
    (post : α → Machine → Prop) : Prop :=
  Does (fun _ => Raises dir) (fun m => m.files.WellFormed) pre p post

theorem builds_makeDirectory (around : Around dir p) :
    Builds dir pre (change (makeDirectory p)) fun _ m => Reached p m.files := by
  refine .change ?_
  intro m g whole _ made
  obtain ⟨l,entry,vacant,rfl⟩ := makeDirectory_ok made
  have raises : Raises dir m.files (m.files.put l .directory) :=
    ⟨p,l,around,entry,vacant,rfl⟩
  obtain ⟨d,n,rfl,-⟩ := exists_of_entry entry
  have directory : (m.files.put (d ++ [n]) .directory).at? (d ++ [n]) = some .directory := by
    rw [at?_put_entry,if_pos rfl]
  have followed := follow?_of_directory (raises.grown.keeps.entry? entry) directory
  refine ⟨raises,raises.whole whole,.inr ?_⟩
  simp only [Machine.withFiles]
  simp [holds,find?,followed,directory]

theorem builds_unlessDirectory (p : Path) (fault : Fault) :
    Builds dir pre (unlessDirectory p fault) fun _ m => Reached p m.files := by
  refine .bind (.look _) ?_
  intro found
  cases found with
  | false => exact .throw fault
  | true =>
    refine .pure fun m ⟨directory,_⟩ => .inr ?_
    have found : m.files.find? p = some .directory := by simpa [isDirectory] using directory.symm
    rw [holds,found]
    rfl

theorem builds_makeUpward (paths : List Path) (around : ∀ p ∈ paths, Around dir p) :
    Builds dir pre (makeUpward paths) fun _ m =>
      ∀ p, paths.head? = some p → Reached p m.files := by
  induction paths generalizing pre with
  | nil => exact .throw _
  | cons p up ih =>
    obtain ⟨first,around⟩ := List.forall_mem_cons.mp around
    suffices Builds dir pre (makeUpward (p :: up)) fun _ m => Reached p m.files from
      this.weaken (fun _ _ start => start) fun _ m _ reached q same => by
        cases same
        exact reached
    have makes {pre : Machine → Prop} : Builds dir pre (change (makeDirectory p)) _ :=
      builds_makeDirectory first
    unfold makeUpward
    split
    · next empty => exact .pure fun m _ => .inl empty
    · refine .bind (.outcome makes) ?_
      intro result
      split
      · exact .pure fun m made => made () rfl
      · refine .bind (ih around) fun _ => .bind (.outcome makes) ?_
        intro result
        split
        · exact .pure fun m made => made () rfl
        · exact builds_unlessDirectory p _
      · exact builds_unlessDirectory p _

theorem builds_makeDirectories (p : Path) :
    Builds p pre (makeDirectories p) fun _ m => Reached p m.files := by
  refine .bind (.look _) ?_
  intro found
  split
  · next there =>
    refine .pure ?_
    rintro m ⟨holds,_⟩
    exact (Bool.or_eq_true _ _ ▸ there).imp id holds.symm.trans
  · have makes : Builds p (fun m => found = m.files.holds p ∧ pre m) (makeUpward p.ancestors) _ :=
      builds_makeUpward p.ancestors fun _ member => Path.above_of_mem_ancestors member
    exact .failing (makes.weaken (fun _ _ start => start) fun _ m _ reached => reached p rfl) _

/-- Once a directory is made with those around it, nothing else is new. -/
theorem grown_of_makeDirectories {result : Except FileFailure Unit} (whole : m.files.WellFormed)
    (made : (makeDirectories p).run m = (result,after)) :
    Grown p m.files after.files ∧ after.files.WellFormed ∧
      (result = .ok () → Reached p after.files) := by
  have builds : Builds p (fun _ => True) (makeDirectories p) _ := builds_makeDirectories p
  obtain ⟨⟨-,events,-,trace⟩,whole',reached⟩ := builds m whole trivial
  rw [made] at trace whole' reached
  refine ⟨?_,whole',reached ()⟩
  exact trace.preserves (P := Grown p m.files)
    (fun _ _ _ grown raises => grown.trans raises.grown) (.refl p _)

end Files

theorem Directory.resolve_ok {settings : Settings} {host : HostContext} {globalBin : GlobalBin}
    {os : Os} {m after : Machine} {t : Target}
    (resolved : (resolve settings host globalBin os).run m = (.ok t,after)) :
    (locate settings host globalBin os).2 = .ok t.directory ∧
      t = Target.make t.directory settings.binaryName os ∧
      (Files.makeDirectories t.directory).run m = (.ok (),after) := by
  simp only [resolve,run_bind,run_mk_pure] at resolved
  cases located : (locate settings host globalBin os).2 with
  | error error => simp [located] at resolved
  | ok directory =>
    simp only [located,run_failing] at resolved
    rcases made : (Files.makeDirectories directory).run m with ⟨failure | _,middle⟩
    · simp [made] at resolved
    · simp only [made,mapError_ok,run_pure] at resolved
      cases resolved
      exact ⟨rfl,rfl,made⟩

theorem Directory.resolve_direct {settings : Settings} {host : HostContext} {globalBin : GlobalBin}
    {os : Os} {m after : Machine} {t : Target} (whole : m.files.WellFormed)
    (resolved : (resolve settings host globalBin os).run m = (.ok t,after)) :
    t = Target.make t.directory settings.binaryName os ∧ after.files.WellFormed ∧
      after.files.Direct t.directory := by
  obtain ⟨-,same,made⟩ := resolve_ok resolved
  obtain ⟨-,whole',reached⟩ := Files.grown_of_makeDirectories whole made
  exact ⟨same,whole',(reached rfl).direct⟩

end ReleaseInstaller
