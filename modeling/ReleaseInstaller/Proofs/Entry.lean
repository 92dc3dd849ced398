import ReleaseInstaller.Proofs.Seat

/-! The entries of a directory in two trees: they are the same paths as long as the directory has
the same seat, and it has when all is kept that lies on the way to it. -/
namespace ReleaseInstaller

/-- Two paths that put different names below the directory. -/
def Path.Apart (dir p q : Path) : Prop :=
  ∃ first second, Path.IsName first ∧ Path.IsName second ∧ first ≠ second ∧
    p = dir.joinName first ∧ q = dir.joinName second

theorem Path.Apart.left {dir p q : Path} (apart : Path.Apart dir p q) : Path.Inside dir p :=
  let ⟨first,_,isName,_,_,same,_⟩ := apart
  ⟨first,isName,same⟩

theorem Path.Apart.right {dir p q : Path} (apart : Path.Apart dir p q) : Path.Inside dir q :=
  let ⟨_,second,_,isName,_,_,same⟩ := apart
  ⟨second,isName,same⟩

theorem Path.apart_of_ne {dir p q : Path} (inside : Path.Inside dir p) (inside' : Path.Inside dir q)
    (differ : p ≠ q) : Path.Apart dir p q := by
  obtain ⟨first,isName,rfl⟩ := inside
  obtain ⟨second,isName',rfl⟩ := inside'
  exact ⟨first,second,isName,isName',fun same => differ (same ▸ rfl),rfl,rfl⟩

theorem Path.Apart.ne {dir p q : Path} (apart : Path.Apart dir p q) : p ≠ q := by
  obtain ⟨first,second,isName,isName',differ,rfl,rfl⟩ := apart
  exact fun same => differ (Path.joinName_injective isName isName' same)

namespace Files

variable {f g : Files} {dir p q : Path} {d l : Location}

/-- Nothing, or a regular file. -/
def Plain (node : Option Node) : Prop := node = none ∨ ∃ content mode, node = some (.file content mode)

instance : (node : Option Node) → Decidable (Plain node)
  | none => isTrue (.inl rfl)
  | some (.file content mode) => isTrue (.inr ⟨content,mode,rfl⟩)
  | some .directory | some (.link _) | some .fullDevice => isFalse (by simp [Plain])

theorem Plain.not_link {node : Option Node} (plain : Plain node) (target : Path) :
    node ≠ some (.link target) := by
  rcases plain with rfl | ⟨_,_,rfl⟩ <;> simp

theorem Plain.not_directory {node : Option Node} (plain : Plain node) : node ≠ some .directory := by
  rcases plain with rfl | ⟨_,_,rfl⟩ <;> simp

/-- Trees in which the directory has the same seat have the same entries in it. -/
theorem entry?_of_seat (whole : f.WellFormed) (whole' : g.WellFormed) (inside : Path.Inside dir p)
    (seat : f.seat? dir = .ok d) (seat' : g.seat? dir = .ok d) (entry : f.entry? p = .ok (some l)) :
    g.entry? p = .ok (some l) := by
  obtain ⟨name,isName,rfl⟩ := inside
  obtain ⟨legal,d',same,rfl⟩ := (entry?_joinName whole isName).mp entry
  cases seat.symm.trans same
  exact (entry?_joinName whole' isName).mpr ⟨legal,d,seat',rfl⟩

theorem seat_of_entry (whole : f.WellFormed) (inside : Path.Inside dir p)
    (entry : f.entry? p = .ok (some l)) : ∃ d n, f.seat? dir = .ok d ∧ l = d ++ [n] := by
  obtain ⟨name,isName,rfl⟩ := inside
  obtain ⟨-,d,seat,rfl⟩ := (entry?_joinName whole isName).mp entry
  exact ⟨d,_,seat,rfl⟩

theorem node?_of_missing (whole : f.WellFormed) (inside : Path.Inside dir p)
    (missing : ∀ d, f.seat? dir ≠ .ok d) : f.node? p = none := by
  obtain ⟨name,isName,rfl⟩ := inside
  exact node?_of_no_seat whole isName missing

theorem node?_of_seat (whole : f.WellFormed) (whole' : g.WellFormed) (inside : Path.Inside dir p)
    (seat : f.seat? dir = .ok d) (seat' : g.seat? dir = .ok d)
    (same : ∀ l, f.entry? p = .ok (some l) → g.at? l = f.at? l) : g.node? p = f.node? p := by
  unfold node?
  split
  · next l entry =>
    have entry := entry?_of_seat whole' whole inside seat' seat entry
    simp [entry,same l entry]
  · next none =>
    split
    · next l entry => exact absurd (entry?_of_seat whole whole' inside seat seat' entry) (none l)
    · rfl

theorem entry?_apart (whole : f.WellFormed) (apart : Path.Apart dir p q)
    (entry : f.entry? p = .ok (some l)) (entry' : f.entry? q = .ok (some k)) : k ≠ l := by
  obtain ⟨first,second,isName,isName',differ,rfl,rfl⟩ := apart
  obtain ⟨-,d,seat,rfl⟩ := (entry?_joinName whole isName).mp entry
  obtain ⟨-,d',seat',rfl⟩ := (entry?_joinName whole isName').mp entry'
  cases seat.symm.trans seat'
  intro same
  exact differ (Path.nameOctets_injective (List.append_singleton_inj.mp same).2).symm

theorem follow?_of_file (whole : f.WellFormed) (inside : Path.Inside dir p)
    (entry : f.entry? p = .ok (some l)) (plain : Plain (f.at? l)) : f.follow? p = .ok l := by
  obtain ⟨name,isName,rfl⟩ := inside
  obtain ⟨legal,-⟩ := (entry?_joinName whole isName).mp entry
  refine (follow?_joinName whole isName legal.step fun target => ?_).mpr entry
  rw [node?_of_entry entry]
  exact plain.not_link target

theorem holds_of_entry (whole : f.WellFormed) (inside : Path.Inside dir p)
    (entry : f.entry? p = .ok (some l)) (plain : Plain (f.at? l)) :
    f.holds p = (f.at? l).isSome := by
  simp [holds,find?,follow?_of_file whole inside entry plain]

theorem exists_of_node? (node : f.node? p = some inside) :
    ∃ l, f.entry? p = .ok (some l) ∧ f.at? l = some inside := by
  unfold node? at node
  split at node
  · next l entry => exact ⟨l,entry,node⟩
  · cases node

theorem holds_of_file (whole : f.WellFormed) (inside : Path.Inside dir p)
    (file : f.node? p = some (.file content mode)) : f.holds p = true := by
  obtain ⟨l,entry,present⟩ := exists_of_node? file
  rw [holds_of_entry whole inside entry (.inr ⟨_,_,present⟩),present]
  rfl

theorem endsInSlash_of_inside (inside : Path.Inside dir p) : p.endsInSlash = false := by
  obtain ⟨name,isName,rfl⟩ := inside
  exact Path.joinName_endsInSlash isName

theorem Keeps.off_plain {way : Files} (kept : Keeps way f) (plain : Plain (f.at? l)) (node : Node)
    (present : way.at? l = some node) : node.leadsOn = false := by
  cases on : node.leadsOn with
  | false => rfl
  | true =>
    have same := kept.nodes l node present on
    rcases plain with none | ⟨content,mode,file⟩
    · simp [same] at none
    · simp only [same,Option.some.injEq] at file
      simp [file,Node.leadsOn] at on

/-- No link on the way is lost where no link on the way lies. -/
theorem Keeps.off_entry {way : Files} (kept : Keeps way f) (other : f.at? l ≠ some .directory)
    (off : ∀ target, way.at? l ≠ some (.link target)) (node : Node)
    (present : way.at? l = some node) : node.leadsOn = false := by
  cases node with
  | directory => exact absurd (kept.nodes l _ present rfl) other
  | link target => exact absurd present (off target)
  | file | fullDevice => rfl

/-- From one tree to the next the directory stays where it is, and so does all on the way to it. -/
structure Steady (dir : Path) (f g : Files) : Prop where
  seat : ∀ d, f.seat? dir = .ok d → g.seat? dir = .ok d
  entry : ∀ q l, LeadsTo q dir → f.entry? q = .ok (some l) → g.entry? q = .ok (some l)

theorem Keeps.entry? (kept : Keeps f g) (entry : f.entry? p = .ok (some l)) :
    g.entry? p = .ok (some l) := by
  obtain ⟨checked,before,name,d,spelled,walked,inside,short,rfl⟩ := entry?_eq_some.mp entry
  exact entry?_eq_some.mpr ⟨checked,before,name,d,spelled,kept.start p ▸ kept.walk walked,
    kept.nodes d _ inside rfl,short,rfl⟩

theorem Keeps.steady (kept : Keeps f g) : Steady dir f g :=
  ⟨fun _ seat => kept.seat? seat,fun _ _ _ entry => kept.entry? entry⟩

/-- Two trees agree on what lies on the way that both keep. -/
theorem Keeps.steady_of_way {way : Files} (kept : Keeps way f) (kept' : Keeps way g)
    (whole : g.WellFormed) (arrives : way.seat? dir = .ok d) : Steady dir f g := by
  refine ⟨fun d' seat => ?_,fun q l leads entry => ?_⟩
  · cases seat.symm.trans (kept.seat? arrives)
    exact kept'.seat? arrives
  obtain ⟨start,more,on⟩ := leads
  obtain ⟨checked,before,name,around,spelled,walked,-,short,rfl⟩ := entry?_eq_some.mp entry
  have starts : way.start dir = way.start q := by simp [Files.start,start]
  rw [Files.seat?,on,spelled,starts,List.append_assoc,List.append_assoc,← List.append_assoc _ more]
    at arrives
  obtain ⟨place,passes⟩ := walk_passes arrives
  have same := kept.walk passes
  rw [← kept.start,walked] at same
  cases same
  have walked' := kept'.start q ▸ kept'.walk passes
  exact entry?_eq_some.mpr ⟨checked,before,name,around,spelled,walked',
    whole.walk_directory (whole.start q) walked',short,rfl⟩

theorem Steady.refl (dir : Path) (f : Files) : Steady dir f f := ⟨fun _ seat => seat,fun _ _ _ entry => entry⟩

theorem Steady.trans {h : Files} (first : Steady dir f g) (second : Steady dir g h) :
    Steady dir f h :=
  ⟨fun d seat => second.seat d (first.seat d seat),
    fun q l leads entry => second.entry q l leads (first.entry q l leads entry)⟩

theorem Steady.inside (steady : Steady dir f g) (whole : f.WellFormed) (whole' : g.WellFormed)
    (inside : Path.Inside dir p) (entry : f.entry? p = .ok (some l)) :
    g.entry? p = .ok (some l) := by
  obtain ⟨d,_,seat,-⟩ := seat_of_entry whole inside entry
  exact entry?_of_seat whole whole' inside seat (steady.seat d seat) entry

end Files

namespace Path

variable {dir q : Path} {name : String}

theorem Above.leadsTo (isName : IsName name) (above : q.Above (dir.joinName name)) :
    Files.LeadsTo q dir := by
  obtain ⟨start,more,some,spelled⟩ := above.spelled
  refine ⟨start.trans (joinName_isAbsolute isName),more.dropLast,?_⟩
  rw [joinName_spelledSteps isName] at spelled
  obtain ⟨front,last,rfl⟩ := (List.eq_nil_or_concat more).resolve_left some
  obtain ⟨step,found⟩ := step?_of_ne_nil isName.octets_ne_nil
  rw [found,List.concat_eq_append,← List.append_assoc] at spelled
  simpa using (List.append_singleton_inj.mp spelled).1

end Path

end ReleaseInstaller
