import ReleaseInstaller.Proofs.Entry
import ReleaseInstaller.Replacement
import ReleaseInstaller.Target

/-! What an install changes in a file tree, one entry at a time, and what each change keeps. -/
namespace ReleaseInstaller

namespace Target

open Files

variable {t : Target} {exe : String} {others touched : List Path} {served : List UInt8 → Prop}
  {f g : Files}

/-- The paths of a target, by the name of the binary. -/
structure Named (t : Target) (exe : String) : Prop where
  isName : Path.IsName exe
  final : t.final = t.directory.joinName exe
  temporary : t.temporary = t.directory.joinName (exe ++ ".dl")
  legacy : t.legacy = t.directory.joinName ("." ++ exe ++ ".old")

/-- What an install may do to a tree in one step: make a directory around the download, write the
download, remove a file, or move the whole download, executable by now, over the binary. -/
inductive Change (t : Target) (others : List Path) (served : List UInt8 → Prop) (f : Files) :
    Files → Prop where
  | made : q.Above t.temporary → f.entry? q = .ok (some l) → f.at? l = none →
      Change t others served f (f.put l .directory)
  | wrote : f.entry? t.temporary = .ok (some l) → Plain (f.at? l) →
      Change t others served f (f.put l (.file content mode))
  | removed : p ∈ t.temporary :: others → f.entry? p = .ok (some l) → f.at? l = some node →
      node ≠ .directory → Change t others served f (f.erase l)
  | moved : f.entry? t.temporary = .ok (some l) → f.entry? t.final = .ok (some k) →
      f.at? l = some (.file (.data octets) Replacement.executableMode) →
      f.at? k ≠ some .directory → served octets →
      Change t others served f
        ((f.erase l).put k (.file (.data octets) Replacement.executableMode))

/-- A tree that an install can work on. As long as its directory is missing, it is spelled
directly; then it stays where it is, since no entry that may be touched is a link on the way. -/
inductive Fit (t : Target) (touched : List Path) (f : Files) : Prop where
  | away (whole : f.WellFormed) (direct : f.Direct t.directory)
      (missing : ∀ d, f.seat? t.directory ≠ .ok d)
  | there (way : Files) (d : Location) (whole : f.WellFormed) (kept : Keeps way f)
      (seat : way.seat? t.directory = .ok d)
      (off : ∀ p ∈ touched, ∀ l target, f.entry? p = .ok (some l) →
        way.at? l ≠ some (.link target))
      (plain : Plain (f.node? t.temporary))

theorem Change.mono {others' : List Path} {served' : List UInt8 → Prop}
    (change : t.Change others served f g) (more : ∀ p ∈ others, p ∈ others')
    (serves : ∀ octets, served octets → served' octets) : t.Change others' served' f g := by
  cases change with
  | made above entry vacant => exact .made above entry vacant
  | wrote entry plain => exact .wrote entry plain
  | removed member entry present other =>
    refine .removed (List.mem_cons.mpr ?_) entry present other
    exact (List.mem_cons.mp member).imp id (more _)
  | moved entry entry' present other serves' =>
    exact .moved entry entry' present other (serves _ serves')

theorem Named.temporary_isName (named : t.Named exe) : Path.IsName (exe ++ ".dl") :=
  ⟨by simp,by simpa using named.isName.slashless⟩

theorem Named.legacy_isName (named : t.Named exe) : Path.IsName ("." ++ exe ++ ".old") :=
  ⟨by simp,by simpa using named.isName.slashless⟩

theorem Named.final_inside (named : t.Named exe) : Path.Inside t.directory t.final :=
  ⟨_,named.isName,named.final⟩

theorem Named.temporary_inside (named : t.Named exe) : Path.Inside t.directory t.temporary :=
  ⟨_,named.temporary_isName,named.temporary⟩

theorem Named.legacy_inside (named : t.Named exe) : Path.Inside t.directory t.legacy :=
  ⟨_,named.legacy_isName,named.legacy⟩

theorem Named.inside (named : t.Named exe) (inside : ∀ p ∈ touched, Path.Inside t.directory p)
    (member : p ∈ t.temporary :: touched) : Path.Inside t.directory p := by
  rcases List.mem_cons.mp member with rfl | member
  · exact named.temporary_inside
  · exact inside p member

theorem Named.leadsTo (named : t.Named exe) (above : q.Above t.temporary) :
    LeadsTo q t.directory :=
  Path.Above.leadsTo named.temporary_isName (named.temporary ▸ above)

theorem Fit.whole (fit : t.Fit touched f) : f.WellFormed := by
  cases fit <;> assumption

theorem Fit.plain (fit : t.Fit touched f) (named : t.Named exe) : Plain (f.node? t.temporary) := by
  cases fit with
  | away whole direct missing => exact .inl (node?_of_missing whole named.temporary_inside missing)
  | there way d whole kept seat off plain => exact plain

theorem Fit.seated (fit : t.Fit touched f) (inside : Path.Inside t.directory p)
    (entry : f.entry? p = .ok (some l)) :
    ∃ way d n, Keeps way f ∧ way.seat? t.directory = .ok d ∧ l = d ++ [n] ∧
      (∀ p ∈ touched, ∀ l target, f.entry? p = .ok (some l) → way.at? l ≠ some (.link target)) ∧
      Plain (f.node? t.temporary) := by
  obtain ⟨d,n,seat,rfl⟩ := seat_of_entry fit.whole inside entry
  cases fit with
  | away whole direct missing => exact absurd seat (missing d)
  | there way d' whole kept seat' off plain =>
    cases seat.symm.trans (kept.seat? seat')
    exact ⟨way,d,n,kept,seat',rfl,off,plain⟩

theorem Fit.node?_made (fit : t.Fit touched f) (named : t.Named exe) (above : q.Above t.temporary)
    (entry : f.entry? q = .ok (some l)) (vacant : f.at? l = none)
    (inside : Path.Inside t.directory p) : (f.put l .directory).node? p = none := by
  have absent := seat?_of_vacant (named.leadsTo above) entry vacant
  cases fit with
  | there way d whole kept seat => simp [kept.seat? seat] at absent
  | away whole direct missing =>
    obtain ⟨d,n,rfl,inDirectory⟩ := exists_of_entry entry
    have whole' : (f.put (d ++ [n]) .directory).WellFormed :=
      whole.put inDirectory (by simp [vacant]) .directory
    unfold node?
    split
    · next l entry' =>
      obtain ⟨d',n',seat',rfl⟩ := seat_of_entry whole' inside entry'
      obtain rfl := seat?_made whole direct (named.leadsTo above) entry vacant seat'
      rw [at?_put_entry,if_neg (by simp)]
      exact whole.bare (by simp [vacant]) n'
    · rfl

theorem Fit.made (fit : t.Fit touched f) (named : t.Named exe)
    (inside : ∀ p ∈ touched, Path.Inside t.directory p) (above : q.Above t.temporary)
    (entry : f.entry? q = .ok (some l)) (vacant : f.at? l = none) :
    t.Fit touched (f.put l .directory) ∧ Steady t.directory f (f.put l .directory) := by
  have absent := seat?_of_vacant (named.leadsTo above) entry vacant
  have unnamed {p : Path} := fit.node?_made named (p := p) above entry vacant
  cases fit with
  | there way d whole kept seat => simp [kept.seat? seat] at absent
  | away whole direct missing =>
    obtain ⟨d,n,rfl,inDirectory⟩ := exists_of_entry entry
    have whole' : (f.put (d ++ [n]) .directory).WellFormed :=
      whole.put inDirectory (by simp [vacant]) .directory
    refine ⟨?_,(Keeps.put_vacant f vacant .directory).steady⟩
    cases seat : (f.put (d ++ [n]) .directory).seat? t.directory with
    | error fault => exact .away whole' (direct.put_vacant vacant _) (by simp [seat])
    | ok d' =>
      refine .there _ d' whole' (.refl _) seat (fun p member l target entry' => ?_)
        (.inl (unnamed named.temporary_inside))
      rw [← node?_of_entry entry',unnamed (inside p member)]
      simp

/-- A change at one entry of the directory, and at none that is a directory, keeps a tree fit. -/
theorem Fit.at_entry (fit : t.Fit touched f) (named : t.Named exe)
    (inside : ∀ p ∈ touched, Path.Inside t.directory p) (member : p ∈ t.temporary :: touched)
    (entry : f.entry? p = .ok (some l)) (other : f.at? l ≠ some .directory) (whole : g.WellFormed)
    (current : g.current = f.current) (same : ∀ k, k ≠ l → g.at? k = f.at? k)
    (plain : Plain (g.at? l)) : t.Fit touched g ∧ Steady t.directory f g := by
  obtain ⟨way,d,n,kept,arrives,rfl,off,plain'⟩ := fit.seated (named.inside inside member) entry
  have kept' : Keeps way g := by
    refine ⟨current.trans kept.current,?_⟩
    intro k node present on
    rw [same]
    · exact kept.nodes k node present on
    rintro rfl
    have leadsOn : node.leadsOn = false := by
      rcases List.mem_cons.mp member with rfl | member
      · exact Keeps.off_plain kept (node?_of_entry entry ▸ plain') node present
      · exact Keeps.off_entry kept other (fun target => off p member _ target entry) node present
    simp [leadsOn] at on
  have back {p k} (inside : Path.Inside t.directory p) (entry : g.entry? p = .ok (some k)) :
      f.entry? p = .ok (some k) :=
    entry?_of_seat whole fit.whole inside (kept'.seat? arrives) (kept.seat? arrives) entry
  refine ⟨.there way d whole kept' arrives
    (fun p member k target entry => off p member k target (back (inside p member) entry)) ?_,
    kept.steady_of_way kept' whole arrives⟩
  unfold node?
  split
  · next k entry' =>
    by_cases here : k = d ++ [n]
    · exact here ▸ plain
    · rw [same k here]
      exact node?_of_entry (back named.temporary_inside entry') ▸ plain'
  · exact .inl rfl

theorem Fit.wrote (fit : t.Fit touched f) (named : t.Named exe)
    (inside : ∀ p ∈ touched, Path.Inside t.directory p) (member : p ∈ t.temporary :: touched)
    (entry : f.entry? p = .ok (some l)) (other : f.at? l ≠ some .directory) :
    t.Fit touched (f.put l (.file content mode)) ∧
      Steady t.directory f (f.put l (.file content mode)) := by
  obtain ⟨d,n,rfl,around⟩ := exists_of_entry entry
  refine fit.at_entry named inside member entry other (fit.whole.put around other _) rfl ?_ ?_
  · intro k elsewhere
    rw [at?_put_entry,if_neg elsewhere]
  · rw [at?_put_entry,if_pos rfl]
    exact .inr ⟨content,mode,rfl⟩

theorem Fit.removed (fit : t.Fit touched f) (named : t.Named exe)
    (inside : ∀ p ∈ touched, Path.Inside t.directory p) (member : p ∈ t.temporary :: touched)
    (entry : f.entry? p = .ok (some l)) (other : f.at? l ≠ some .directory) :
    t.Fit touched (f.erase l) ∧ Steady t.directory f (f.erase l) := by
  obtain ⟨d,n,rfl,around⟩ := exists_of_entry entry
  refine fit.at_entry named inside member entry other (fit.whole.erase other) rfl ?_ ?_
  · intro k elsewhere
    rw [at?_erase_entry,if_neg elsewhere]
  · rw [at?_erase_entry,if_pos rfl]
    exact .inl rfl

/-- Which paths changes are made at, given the name of the binary: all of them are touched. -/
structure Scope (t : Target) (exe : String) (touched others : List Path)
    (served : List UInt8 → Prop) : Prop where
  named : t.Named exe
  inside : ∀ p ∈ touched, Path.Inside t.directory p
  within : ∀ p ∈ others, p ∈ touched
  moves : ∀ octets, served octets → t.final ∈ touched

theorem Scope.member (scope : t.Scope exe touched others served)
    (member : p ∈ t.temporary :: others) : p ∈ t.temporary :: touched :=
  List.mem_cons.mpr ((List.mem_cons.mp member).imp id (scope.within p))

/-- Every change of an install keeps the tree fit and the directory where it is. -/
theorem Change.fit (change : t.Change others served f g) (fit : t.Fit touched f)
    (scope : t.Scope exe touched others served) :
    t.Fit touched g ∧ Steady t.directory f g := by
  obtain ⟨named,inside,within,moves⟩ := scope
  cases change with
  | made above entry vacant => exact fit.made named inside above entry vacant
  | wrote entry plain =>
    exact fit.wrote named inside List.mem_cons_self entry plain.not_directory
  | removed member entry present other =>
    exact fit.removed named inside (Scope.member ⟨named,inside,within,moves⟩ member) entry
      (by simpa [present] using other)
  | moved entry entry' present other serves =>
    obtain ⟨fit',steady⟩ := fit.removed named inside List.mem_cons_self entry (by simp [present])
    have entry'' := steady.inside fit.whole fit'.whole named.final_inside entry'
    obtain ⟨d,n,rfl,-⟩ := exists_of_entry entry
    obtain ⟨fit'',steady'⟩ := fit'.wrote named inside (List.mem_cons_of_mem _ (moves _ serves))
      entry'' (by rw [at?_erase_entry]; split <;> simp [other])
    exact ⟨fit'',steady.trans steady'⟩

theorem Fit.node?_elsewhere (fit : t.Fit touched f) (fit' : t.Fit touched g)
    (steady : Steady t.directory f g) (apart : Path.Apart t.directory p q)
    (entry : f.entry? p = .ok (some l)) (same : ∀ k, k ≠ l → g.at? k = f.at? k) :
    g.node? q = f.node? q := by
  obtain ⟨d,_,seat,-⟩ := seat_of_entry fit.whole apart.left entry
  exact node?_of_seat fit.whole fit'.whole apart.right seat (steady.seat d seat)
    fun k entry' => same k (entry?_apart fit.whole apart entry entry')

/-- A change leaves every entry of the directory alone that it is not made at. -/
theorem Change.node? (change : t.Change others served f g) (fit : t.Fit touched f)
    (scope : t.Scope exe touched others served) (inside : Path.Inside t.directory q)
    (apart : ∀ p ∈ t.temporary :: others, Path.Apart t.directory p q)
    (apart' : ∀ octets, served octets → Path.Apart t.directory t.final q) :
    g.node? q = f.node? q := by
  obtain ⟨fit',steady⟩ := change.fit fit scope
  have named := scope.named
  cases change with
  | made above entry vacant =>
    have absent := seat?_of_vacant (named.leadsTo above) entry vacant
    rw [fit.node?_made named above entry vacant inside,
      node?_of_missing fit.whole inside (by simp [absent])]
  | wrote entry plain =>
    obtain ⟨d,n,rfl,-⟩ := exists_of_entry entry
    refine fit.node?_elsewhere fit' steady (apart _ List.mem_cons_self) entry fun k other => ?_
    rw [at?_put_entry,if_neg other]
  | removed member entry present _ =>
    obtain ⟨d,n,rfl,-⟩ := exists_of_entry entry
    refine fit.node?_elsewhere fit' steady (apart _ member) entry fun k other => ?_
    rw [at?_erase_entry,if_neg other]
  | moved entry final present _ serves =>
    obtain ⟨d,n,seat,rfl⟩ := seat_of_entry fit.whole named.temporary_inside entry
    refine node?_of_seat fit.whole fit'.whole inside seat (steady.seat d seat) fun k entry' => ?_
    have other := entry?_apart fit.whole (apart _ List.mem_cons_self) entry entry'
    have other' := entry?_apart fit.whole (apart' _ serves) final entry'
    obtain ⟨d',n',rfl,-⟩ := exists_of_entry final
    rw [at?_put_entry,if_neg other',at?_erase_entry,if_neg other]

theorem temporary_step (exe : String) : Path.step? (Path.nameOctets (exe ++ ".dl")) =
    some (.into (Path.nameOctets (exe ++ ".dl"))) := by
  refine Path.step?_of_long ?_
  rw [Path.nameOctets_append,List.length_append]
  have three : (Path.nameOctets ".dl").length = 3 := rfl
  omega

theorem Fit.follow? (fit : t.Fit touched f) (named : t.Named exe) :
    f.follow? t.temporary = .ok l ↔ f.entry? t.temporary = .ok (some l) := by
  have plain := fit.plain named
  rw [named.temporary] at plain ⊢
  exact follow?_joinName fit.whole named.temporary_isName (temporary_step exe) plain.not_link

theorem Fit.plain_at (fit : t.Fit touched f) (named : t.Named exe)
    (entry : f.entry? t.temporary = .ok (some l)) : Plain (f.at? l) :=
  node?_of_entry entry ▸ fit.plain named

/-- The download, as far as it is written. -/
def Holds (t : Target) (l : Location) (octets : List UInt8) (f : Files) : Prop :=
  f.entry? t.temporary = .ok (some l) ∧ ∃ mode, f.at? l = some (.file (.data octets) mode)

theorem Named.temporary_final (named : t.Named exe) :
    Path.Apart t.directory t.temporary t.final :=
  ⟨_,_,named.temporary_isName,named.isName,by simp,named.temporary,named.final⟩

theorem Named.legacy_final (named : t.Named exe) : Path.Apart t.directory t.legacy t.final := by
  refine ⟨_,_,named.legacy_isName,named.isName,fun same => ?_,named.legacy,named.final⟩
  have dot : ".".length = 1 := rfl
  have length := congrArg String.length same
  simp only [String.length_append,dot] at length
  omega

theorem Named.legacy_temporary (named : t.Named exe) :
    Path.Apart t.directory t.legacy t.temporary := by
  refine ⟨_,_,named.legacy_isName,named.temporary_isName,fun same => ?_,named.legacy,
    named.temporary⟩
  have dots : ".".length = 1 ∧ ".old".length = 4 ∧ ".dl".length = 3 := ⟨rfl,rfl,rfl⟩
  have length := congrArg String.length same
  simp only [String.length_append,dots] at length
  omega

theorem Scope.unserved (scope : t.Scope exe touched others served) :
    t.Scope exe touched others fun _ => False :=
  ⟨scope.named,scope.inside,scope.within,fun _ => False.elim⟩

/-- What one change does to the binary: nothing, or the whole download is there. -/
theorem Change.final (change : t.Change others served f g) (fit : t.Fit touched f)
    (scope : t.Scope exe touched others served)
    (apart : ∀ p ∈ others, Path.Apart t.directory p t.final) :
    g.node? t.final = f.node? t.final ∨ ∃ octets, served octets ∧
      g.node? t.final = some (.file (.data octets) Replacement.executableMode) := by
  have named := scope.named
  have apart : ∀ p ∈ t.temporary :: others, Path.Apart t.directory p t.final :=
    List.forall_mem_cons.mpr ⟨named.temporary_final,apart⟩
  have elsewhere (change : t.Change others (fun _ => False) f g) : g.node? t.final = f.node? t.final :=
    change.node? fit scope.unserved named.final_inside apart fun _ => False.elim
  obtain ⟨fit',steady⟩ := change.fit fit scope
  cases change with
  | made above entry vacant => exact .inl (elsewhere (.made above entry vacant))
  | wrote entry plain => exact .inl (elsewhere (.wrote entry plain))
  | removed member entry present other => exact .inl (elsewhere (.removed member entry present other))
  | moved entry entry' present other serves =>
    refine .inr ⟨_,serves,?_⟩
    obtain ⟨d,n,rfl,-⟩ := exists_of_entry entry'
    rw [node?_of_entry (steady.inside fit.whole fit'.whole named.final_inside entry'),
      at?_put_entry,if_pos rfl]

/-- A directory that was missing and is there now, on the way to the download; so the directory of
the target was missing. -/
def Made (t : Target) (f g : Files) (l : Location) : Prop :=
  (∀ d, f.seat? t.directory ≠ .ok d) ∧ f.at? l = none ∧ g.at? l = some .directory ∧
    ∃ q, q.Above t.temporary ∧ g.entry? q = .ok (some l)

/-- What changes leave as it was: everything that they are not made at, but for directories made on
the way to the download. A directory that had to be made was empty. -/
structure Framed (t : Target) (touched : List Path) (f g : Files) : Prop where
  rest : ∀ l, (∀ p ∈ t.temporary :: touched, g.entry? p ≠ .ok (some l)) →
    g.at? l = f.at? l ∨ t.Made f g l
  seat : ∀ d, f.seat? t.directory = .ok d → g.seat? t.directory = .ok d
  bare : (∀ d, f.seat? t.directory ≠ .ok d) → ∀ d, g.seat? t.directory = .ok d → f.at? d = none

theorem Framed.refl (t : Target) (touched : List Path) (f : Files) : t.Framed touched f f :=
  ⟨fun _ _ => .inl rfl,fun _ seat => seat,fun missing d seat => absurd seat (missing d)⟩

theorem Made.trans {h : Files} {l : Location} (made : t.Made f g l) (named : t.Named exe)
    (steady : Steady t.directory g h) (same : h.at? l = g.at? l) : t.Made f h l := by
  obtain ⟨missing,absent,present,q,above,entry⟩ := made
  exact ⟨missing,absent,same.trans present,q,above,steady.entry q l (named.leadsTo above) entry⟩

theorem Framed.at_entries {h : Files} (framed : t.Framed touched f g) (named : t.Named exe)
    (fit : t.Fit touched g) (fit' : t.Fit touched h)
    (inside : ∀ p ∈ touched, Path.Inside t.directory p) (steady : Steady t.directory g h)
    (there : g.seat? t.directory = .ok d)
    (same : ∀ l, (∀ p ∈ t.temporary :: touched, h.entry? p ≠ .ok (some l)) → h.at? l = g.at? l) :
    t.Framed touched f h := by
  refine ⟨?_,fun d seat => steady.seat d (framed.seat d seat),?_⟩
  · intro l off
    have off' : ∀ p ∈ t.temporary :: touched, g.entry? p ≠ .ok (some l) := fun p member entry =>
      off p member (steady.inside fit.whole fit'.whole (named.inside inside member) entry)
    rw [same l off]
    exact (framed.rest l off').imp id fun made => made.trans named steady (same l off)
  · intro missing d' seat
    cases seat.symm.trans (steady.seat d there)
    exact framed.bare missing d there

theorem Framed.made (framed : t.Framed touched f g) (named : t.Named exe)
    (fit : t.Fit touched g) (inside : ∀ p ∈ touched, Path.Inside t.directory p)
    (above : q.Above t.temporary) (entry : g.entry? q = .ok (some l)) (vacant : g.at? l = none) :
    t.Framed touched f (g.put l .directory) := by
  have absent := seat?_of_vacant (named.leadsTo above) entry vacant
  have steady := (fit.made named inside above entry vacant).2
  have untouched (l : Location) (p : Path) (member : p ∈ t.temporary :: touched) :
      g.entry? p ≠ .ok (some l) := by
    intro entry
    obtain ⟨d,_,seat,-⟩ := seat_of_entry fit.whole (named.inside inside member) entry
    simp [seat] at absent
  have before : f.at? l = none := by
    rcases framed.rest l (untouched l) with same | ⟨-,absent,-⟩
    · exact same ▸ vacant
    · exact absent
  obtain ⟨d,n,rfl,-⟩ := exists_of_entry entry
  refine ⟨?_,?_,?_⟩
  · intro k _
    by_cases here : k = d ++ [n]
    · subst here
      refine .inr ⟨fun d seat => ?_,before,by rw [at?_put_entry,if_pos rfl],_,above,?_⟩
      · simp [framed.seat d seat] at absent
      · exact steady.entry _ _ (named.leadsTo above) entry
    · have same : (g.put (d ++ [n]) .directory).at? k = g.at? k := by rw [at?_put_entry,if_neg here]
      rw [same]
      exact (framed.rest k (untouched k)).imp id fun made => made.trans named steady same
  · intro d seat
    simp [framed.seat d seat] at absent
  · intro missing d' seat
    cases fit with
    | there way d whole kept arrives => simp [kept.seat? arrives] at absent
    | away whole direct _ =>
      exact seat?_made whole direct (named.leadsTo above) entry vacant seat ▸ before

theorem Change.framed {h : Files} (change : t.Change others served g h)
    (framed : t.Framed touched f g) (fit : t.Fit touched g)
    (scope : t.Scope exe touched others served) : t.Framed touched f h := by
  obtain ⟨fit',steady⟩ := change.fit fit scope
  have named := scope.named
  have inside := scope.inside
  -- what a change is made at is an entry that is touched, before and after the change
  have acted {p k} (member : p ∈ t.temporary :: touched) (entry : g.entry? p = .ok (some k)) (l)
      (off : ∀ p ∈ t.temporary :: touched, h.entry? p ≠ .ok (some l)) : l ≠ k := by
    rintro rfl
    exact off p member (steady.inside fit.whole fit'.whole (named.inside inside member) entry)
  cases change with
  | made above entry vacant => exact framed.made named fit inside above entry vacant
  | wrote entry plain =>
    obtain ⟨d,n,there,rfl⟩ := seat_of_entry fit.whole named.temporary_inside entry
    apply framed.at_entries named fit fit' inside steady there
    intro l off
    rw [at?_put_entry,if_neg (acted List.mem_cons_self entry l off)]
  | removed member entry present other =>
    have member := scope.member member
    obtain ⟨d,n,there,rfl⟩ := seat_of_entry fit.whole (named.inside inside member) entry
    apply framed.at_entries named fit fit' inside steady there
    intro l off
    rw [at?_erase_entry,if_neg (acted member entry l off)]
  | moved entry entry' present other serves =>
    have member := List.mem_cons_of_mem t.temporary (scope.moves _ serves)
    obtain ⟨d,n,there,rfl⟩ := seat_of_entry fit.whole named.temporary_inside entry
    obtain ⟨_,_,_,rfl⟩ := seat_of_entry fit.whole named.final_inside entry'
    apply framed.at_entries named fit fit' inside steady there
    intro l off
    rw [at?_put_entry,if_neg (acted member entry' l off),at?_erase_entry,
      if_neg (acted List.mem_cons_self entry l off)]

end Target
end ReleaseInstaller
