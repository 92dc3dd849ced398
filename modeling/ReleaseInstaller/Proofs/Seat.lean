import ReleaseInstaller.Files.Change
import ReleaseInstaller.Proofs.Path
import ReleaseInstaller.Proofs.Walk

/-! Where a directory that is given by a path lies, its seat, and which entries lie in it. The seat
may be missing; once it is there, it stays as long as the directories and links on the way do. -/
namespace ReleaseInstaller.Files

variable {f g : Files} {dir p q : Path} {name : String} {d l : Location} {links : Nat}
  {here there : Location} {steps : List Path.Step}

/-- Every entry lies in a directory, and relative paths start in one. -/
structure WellFormed (f : Files) : Prop where
  around : ∀ l name, f.at? (l ++ [name]) ≠ none → f.at? l = some .directory
  current : f.at? f.current = some .directory

/-- The location of the directory to which a path leads. -/
def seat? (f : Files) (dir : Path) : Except Fault Location :=
  f.walk linkLimit (f.start dir) (dir.spelledSteps ++ [.here])

/-- What a path names, a link at its end not being followed. -/
def node? (f : Files) (p : Path) : Option Node :=
  match f.entry? p with
  | .ok (some l) => f.at? l
  | _ => none

/-- No step up leaves a directory that is missing. A path with such a step leads nowhere at first
and, once that directory is made on the way, to another one, which may hold anything. -/
def Direct (f : Files) (dir : Path) : Prop :=
  ∀ before rest, dir.spelledSteps = before ++ .up :: rest →
    f.walk linkLimit (f.start dir) (before ++ [.here]) ≠ .error .notFound

theorem Direct.of_forward (forward : .up ∉ dir.spelledSteps) : f.Direct dir := by
  intro before rest spelled
  simp [spelled] at forward

/-- The second tree has the directories and links of the first. -/
structure Keeps (f g : Files) : Prop where
  current : g.current = f.current
  nodes : ∀ l node, f.at? l = some node → node.leadsOn = true → g.at? l = some node

theorem Keeps.refl (f : Files) : Keeps f f := ⟨rfl,fun _ _ node _ => node⟩

theorem Keeps.start (kept : Keeps f g) (p : Path) : g.start p = f.start p := by
  simp [Files.start,kept.current]

theorem Keeps.walk (kept : Keeps f g) (walked : f.walk links here (steps ++ [.here]) = .ok there) :
    g.walk links here (steps ++ [.here]) = .ok there :=
  walk_kept (by simp) (fun l node at? on => kept.nodes l node at?
    (by simpa [Except.isOk,Except.toBool] using on)) walked

theorem Keeps.seat? (kept : Keeps f g) (seat : f.seat? dir = .ok d) : g.seat? dir = .ok d := by
  rw [Files.seat?,kept.start]
  exact kept.walk seat

theorem WellFormed.up (whole : f.WellFormed) (here : f.at? l = some .directory) :
    f.at? l.dropLast = some .directory := by
  rcases List.eq_nil_or_concat l with rfl | ⟨l,name,rfl⟩
  · rfl
  · rw [List.concat_eq_append] at here ⊢
    simpa using whole.around l name (by simp [here])

theorem WellFormed.walk_directory (whole : f.WellFormed) (from? : f.at? here = some .directory)
    (walked : f.walk links here (steps ++ [.here]) = .ok there) : f.at? there = some .directory := by
  induction links, here, steps using walk_induction f with
  | nil _ _ =>
    simp only [List.nil_append,walk_here,walk_nil,Except.ok.injEq] at walked
    exact walked ▸ from?
  | here _ _ _ ih => exact ih from? (by simpa using walked)
  | up _ _ _ ih => exact ih (whole.up from?) (by simpa using walked)
  | long _ _ _ _ long => simp [walk_long long] at walked
  | missing _ _ _ _ meets => simp [walk_missing meets] at walked
  | stuck _ _ _ _ _ meets off => simp [walk_stuck meets off] at walked
  | on _ _ _ _ meets ih => exact ih meets.found (by simpa [walk_on meets] using walked)
  | lastLink _ _ _ _ meets => simp [walk_last_link meets] at walked
  | link _ _ _ _ target meets ih =>
    refine ih ?_ (by simpa [walk_link meets] using walked)
    split
    · rfl
    · exact from?

theorem WellFormed.start (whole : f.WellFormed) (p : Path) : f.at? (f.start p) = some .directory := by
  unfold Files.start
  split
  · rfl
  · exact whole.current

theorem WellFormed.seat (whole : f.WellFormed) (seat : f.seat? dir = .ok d) :
    f.at? d = some .directory :=
  whole.walk_directory (whole.start dir) seat

/-- A path names an entry when its last step is a name, and what comes before leads to the
directory that the entry lies in. -/
theorem entry?_eq_some : f.entry? q = .ok (some l) ↔
    check q = .ok () ∧ ∃ before name d, q.spelledSteps = before ++ [.into name] ∧
      f.walk linkLimit (f.start q) (before ++ [.here]) = .ok d ∧ f.at? d = some .directory ∧
      ¬ nameLimit < name.length ∧ l = d ++ [name] := by
  unfold entry? lastStep?
  cases checked : check q with
  | error fault => simp [bind,Except.bind]
  | ok =>
    rcases List.eq_nil_or_concat q.spelledSteps with none | ⟨before,step,spelled⟩
    · simp [none,bind,Except.bind]
    · have last (first : List Path.Step) (name : Name) :
          before ++ [step] = first ++ [.into name] ↔ before = first ∧ step = .into name :=
        List.append_singleton_inj
      simp only [spelled,List.concat_eq_append,List.reverse_append,List.reverse_singleton,
        List.singleton_append,List.reverse_reverse,bind,Except.bind,last]
      cases walked : f.walk linkLimit (f.start q) (before ++ [.here]) with
      | error fault => grind
      | ok d =>
        cases step <;> rcases found : f.at? d with _ | _ | _ <;> grind

/-- What lets a name name an entry of a directory, be that there or not. -/
structure Legal (dir : Path) (name : String) : Prop where
  checked : check (dir.joinName name) = .ok ()
  step : Path.step? (Path.nameOctets name) = some (.into (Path.nameOctets name))
  short : ¬ nameLimit < (Path.nameOctets name).length

theorem start_joinName (isName : Path.IsName name) : f.start (dir.joinName name) = f.start dir := by
  simp [start,Path.joinName_isAbsolute isName]

theorem entry?_joinName (whole : f.WellFormed) (isName : Path.IsName name) :
    f.entry? (dir.joinName name) = .ok (some l) ↔
      Legal dir name ∧ ∃ d, f.seat? dir = .ok d ∧ l = d ++ [Path.nameOctets name] := by
  rw [entry?_eq_some,start_joinName isName,Path.joinName_spelledSteps isName]
  constructor
  · rintro ⟨checked,before,last,d,spelled,walked,-,short,rfl⟩
    obtain ⟨found,step⟩ := Path.step?_of_ne_nil isName.octets_ne_nil
    obtain ⟨rfl,same⟩ := List.append_singleton_inj.mp (by simpa [step] using spelled)
    cases same
    obtain rfl : last = Path.nameOctets name := by
      simp only [Path.step?] at step
      grind
    exact ⟨⟨checked,step,short⟩,d,walked,rfl⟩
  · rintro ⟨legal,d,seat,rfl⟩
    exact ⟨legal.checked,_,_,d,by simp [legal.step],seat,whole.seat seat,legal.short,rfl⟩

theorem node?_of_entry (entry : f.entry? p = .ok (some l)) : f.node? p = f.at? l := by
  simp [node?,entry]

theorem node?_joinName (whole : f.WellFormed) (isName : Path.IsName name) (legal : Legal dir name)
    (seat : f.seat? dir = .ok d) : f.node? (dir.joinName name) = f.at? (d ++ [Path.nameOctets name]) :=
  node?_of_entry ((entry?_joinName whole isName).mpr ⟨legal,d,seat,rfl⟩)

theorem node?_of_no_seat (whole : f.WellFormed) (isName : Path.IsName name)
    (missing : ∀ d, f.seat? dir ≠ .ok d) : f.node? (dir.joinName name) = none := by
  unfold node?
  split
  · next l entry =>
    obtain ⟨-,d,seat,-⟩ := (entry?_joinName whole isName).mp entry
    exact absurd seat (missing d)
  · rfl

/-- Unless a link is there, a name leads to the entry that it names. -/
theorem follow?_joinName (whole : f.WellFormed) (isName : Path.IsName name)
    (step : Path.step? (Path.nameOctets name) = some (.into (Path.nameOctets name)))
    (plain : ∀ target, f.node? (dir.joinName name) ≠ some (.link target)) :
    f.follow? (dir.joinName name) = .ok l ↔ f.entry? (dir.joinName name) = .ok (some l) := by
  have spelled : (dir.joinName name).steps = dir.spelledSteps ++ [.into (Path.nameOctets name)] := by
    simp [Path.steps,Path.joinName_endsInSlash isName,Path.joinName_spelledSteps isName,step]
  have followed : f.follow? (dir.joinName name) = .ok l ↔ check (dir.joinName name) = .ok () ∧
      f.walk linkLimit (f.start dir) (dir.spelledSteps ++ [.into (Path.nameOctets name)]) = .ok l := by
    rw [follow?_eq_ok,spelled,start_joinName isName]
  rw [followed,entry?_joinName whole isName]
  rcases walk_append f linkLimit (f.start dir) dir.spelledSteps with
    ⟨fault,stuck⟩ | ⟨there,left,goes⟩
  · simp [seat?,stuck]
  have seat : f.seat? dir = .ok there := by simp [seat?,goes]
  rw [goes _ (by simp),walk_into,seat]
  constructor
  · rintro ⟨checked,walked⟩
    split at walked
    · cases walked
    next short =>
    have legal : Legal dir name := ⟨checked,step,short⟩
    rw [node?_joinName whole isName legal seat] at plain
    refine ⟨legal,there,rfl,?_⟩
    cases node : f.at? (there ++ [Path.nameOctets name]) with
    | none => simpa [node,whole.seat seat,eq_comm] using walked
    | some inside =>
      cases inside with
      | link target => exact absurd node (plain target)
      | directory | file | fullDevice => simpa [node,eq_comm] using walked
  · rintro ⟨legal,d,same,rfl⟩
    cases same
    rw [node?_joinName whole isName legal seat] at plain
    refine ⟨legal.checked,?_⟩
    rw [if_neg legal.short]
    cases node : f.at? (there ++ [Path.nameOctets name]) with
    | none => simp [whole.seat seat]
    | some inside =>
      cases inside with
      | link target => exact absurd node (plain target)
      | directory | file | fullDevice => simp

theorem at?_put_entry (f : Files) (d : Location) (n : Name) (node : Node) (k : Location) :
    (f.put (d ++ [n]) node).at? k = if k = d ++ [n] then some node else f.at? k := by
  by_cases root : k = []
  · subst root
    simp
  · exact at?_put f _ k node root

theorem at?_erase_entry (f : Files) (d : Location) (n : Name) (k : Location) :
    (f.erase (d ++ [n])).at? k = if k = d ++ [n] then none else f.at? k := by
  by_cases root : k = []
  · subst root
    simp
  · exact at?_erase f _ k root

theorem WellFormed.put (whole : f.WellFormed) (inside : f.at? d = some .directory)
    (other : f.at? (d ++ [n]) ≠ some .directory) (node : Node) :
    (f.put (d ++ [n]) node).WellFormed := by
  constructor
  · intro l name present
    rw [at?_put_entry] at present ⊢
    split at present
    · next same =>
      obtain ⟨rfl,rfl⟩ := List.append_singleton_inj.mp same
      simp [inside]
    · have around := whole.around l name present
      rw [if_neg (by rintro rfl; exact other around)]
      exact around
  · rw [current_put,at?_put_entry,if_neg (by intro same; exact other (same ▸ whole.current))]
    exact whole.current

theorem WellFormed.erase (whole : f.WellFormed) (other : f.at? (d ++ [n]) ≠ some .directory) :
    (f.erase (d ++ [n])).WellFormed := by
  constructor
  · intro l name present
    rw [at?_erase_entry] at present ⊢
    split at present
    · contradiction
    · have around := whole.around l name present
      rw [if_neg (by rintro rfl; exact other around)]
      exact around
  · rw [Files.erase,current_drop,← Files.erase,at?_erase_entry,
      if_neg (by intro same; exact other (same ▸ whole.current))]
    exact whole.current

theorem WellFormed.bare (whole : f.WellFormed) (other : f.at? l ≠ some .directory) (name : Name) :
    f.at? (l ++ [name]) = none := by
  by_cases none : f.at? (l ++ [name]) = none
  · exact none
  · exact absurd (whole.around l name none) other

theorem Keeps.put (kept : Keeps f g)
    (off : ∀ node, f.at? (d ++ [n]) = some node → node.leadsOn = false) (node : Node) :
    Keeps f (g.put (d ++ [n]) node) := by
  refine ⟨kept.current,?_⟩
  intro l inside at? on
  rw [at?_put_entry,if_neg]
  · exact kept.nodes l inside at? on
  · rintro rfl
    simp [off inside at?] at on

theorem Keeps.erase (kept : Keeps f g)
    (off : ∀ node, f.at? (d ++ [n]) = some node → node.leadsOn = false) :
    Keeps f (g.erase (d ++ [n])) := by
  refine ⟨kept.current,?_⟩
  intro l inside at? on
  rw [at?_erase_entry,if_neg]
  · exact kept.nodes l inside at? on
  · rintro rfl
    simp [off inside at?] at on

/-- The path `q` leads on to the directory. -/
def LeadsTo (q dir : Path) : Prop :=
  q.isAbsolute = dir.isAbsolute ∧ ∃ more, dir.spelledSteps = q.spelledSteps ++ more

theorem walk_of_vacant (entry : f.entry? q = .ok (some l)) (vacant : f.at? l = none)
    (rest : List Path.Step) :
    f.walk linkLimit (f.start q) (q.spelledSteps ++ (rest ++ [.here])) = .error .notFound := by
  obtain ⟨-,before,name,d,spelled,walked,-,short,rfl⟩ := entry?_eq_some.mp entry
  rw [spelled,List.append_assoc]
  rcases walk_append f linkLimit (f.start q) before with ⟨fault,stuck⟩ | ⟨there,left,goes⟩
  · rw [stuck _ (by simp)] at walked
    cases walked
  · rw [goes _ (by simp)] at walked ⊢
    obtain rfl : there = d := by simpa using walked
    simp [walk_missing ⟨short,vacant⟩]

theorem seat?_of_vacant (leads : LeadsTo q dir) (entry : f.entry? q = .ok (some l))
    (vacant : f.at? l = none) : f.seat? dir = .error .notFound := by
  obtain ⟨start,more,spelled⟩ := leads
  rw [seat?,spelled,List.append_assoc,show f.start dir = f.start q by simp [Files.start,start]]
  exact walk_of_vacant entry vacant more

theorem Keeps.put_vacant (f : Files) (vacant : f.at? (d ++ [n]) = none) (node : Node) :
    Keeps f (f.put (d ++ [n]) node) :=
  (Keeps.refl f).put (by simp [vacant]) node

theorem exists_of_entry (entry : f.entry? q = .ok (some l)) :
    ∃ d n, l = d ++ [n] ∧ f.at? d = some .directory := by
  obtain ⟨-,-,name,d,-,-,inside,-,rfl⟩ := entry?_eq_some.mp entry
  exact ⟨d,name,rfl,inside⟩

/-- If the directory is there once one on the way to it has been made, then it is the one made. -/
theorem seat?_made (whole : f.WellFormed) (direct : f.Direct dir) (leads : LeadsTo q dir)
    (entry : f.entry? q = .ok (some l)) (vacant : f.at? l = none)
    (seat : (f.put l .directory).seat? dir = .ok d) : d = l := by
  obtain ⟨start,more,spelled⟩ := leads
  have starts : f.start dir = f.start q := by simp [Files.start,start]
  have forward : .up ∉ more := by
    intro member
    obtain ⟨before,rest,rfl⟩ := List.append_of_mem member
    apply direct (q.spelledSteps ++ before) rest (by simp [spelled])
    rw [starts,List.append_assoc]
    exact walk_of_vacant entry vacant before
  obtain ⟨-,before,name,around,last,walked,inside,short,rfl⟩ := entry?_eq_some.mp entry
  have kept : Keeps f (f.put (around ++ [name]) .directory) := .put_vacant f vacant .directory
  have arrived := kept.walk walked
  rw [seat?,kept.start,starts,spelled,last] at seat
  simp only [List.append_assoc,List.cons_append] at seat
  rcases walk_append (f.put (around ++ [name]) .directory) linkLimit (f.start q) before with
    ⟨fault,stuck⟩ | ⟨there,left,goes⟩
  · rw [stuck _ (by simp)] at arrived
    cases arrived
  rw [goes _ (by simp)] at arrived seat
  obtain rfl : there = around := by simpa using arrived
  simp only [walk_into,short,if_false,at?_put_entry,if_true,decide_true,
    Bool.or_true] at seat
  refine walk_bare (fun below => ?_) forward seat
  rw [at?_put_entry,if_neg (by simp)]
  exact whole.bare (by simp [vacant]) below

theorem Direct.put_vacant (direct : f.Direct dir) (vacant : f.at? (d ++ [n]) = none) (node : Node) :
    (f.put (d ++ [n]) node).Direct dir := by
  intro before rest spelled
  have kept : ∀ l inside, f.at? l = some inside → (f.put (d ++ [n]) node).at? l = some inside := by
    intro l inside present
    rw [at?_put_entry,if_neg (by rintro rfl; simp [vacant] at present)]
    exact present
  rw [(Keeps.put_vacant f vacant node).start]
  rw [walk_kept (direct before rest spelled) (fun l inside present _ => kept l inside present) rfl]
  exact direct before rest spelled

end ReleaseInstaller.Files
