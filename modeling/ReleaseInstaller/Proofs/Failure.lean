import ReleaseInstaller.Proofs.Start

/-! Failed installs. Whatever made an install fail, the download is cleared away and the rest of the
tree is as it was, but for directories made around the download and, where the replacement itself
failed, the legacy binary. -/
namespace ReleaseInstaller

open Files Procedure

variable {s : Site} {t : Target} {exe : String} {f g h : Files} {m after : Machine} {p q : Path}
  {l k : Location} {paths : List Path}

namespace Site

theorem goes_of_failed_replacement {error : InstallError} (working : s.Working m)
    (failed : (Replacement.run s.target.temporary s.target.final).run m = (.error error,after)) :
    m.Goes s.Step after ∧ s.Working after := by
  obtain ⟨result,ran,same⟩ := run_failing_eq.mp failed
  rcases run_bind_eq.mp ran with ⟨_,first,-⟩ | ⟨_,middle,first,second⟩
  all_goals
    rw [run_updateMode] at first
    split at first
    all_goals cases first
  · exact ⟨.refl m,working⟩
  next g changed =>
  obtain ⟨l,content,old,entry,present,shape⟩ := setMode_temporary working.fit changed
  have taken : s.Step m.history m.files g := shape ▸ .wrote entry (.inr ⟨_,_,present⟩)
  obtain ⟨fit,steady⟩ := taken.fit working.fit (s.scope _)
  obtain ⟨d,_,seat,-⟩ := seat_of_entry working.fit.whole s.named.temporary_inside entry
  have still : ((makeParent s.target.final).run (m.withFiles g)).2 = m.withFiles g :=
    makeParent_still s.named.final_inside (steady.seat d seat)
  suffices m.withFiles g = after from
    this ▸ ⟨Machine.goes_withFiles taken,working.withFiles fit⟩
  rcases run_bind_eq.mp second with ⟨_,parent,-⟩ | ⟨_,_,parent,renamed⟩
  · rw [← still,parent]
  · rw [parent] at still
    cases still
    obtain ⟨moved,rename,rfl⟩ := run_failing_eq.mp renamed
    rw [run_change] at rename
    split at rename <;> cases rename
    · cases same
    · rfl

theorem goes_of_failure (working : s.Working m) :
    m.Goes s.Step (Install.cleared s.target.temporary (m.record (.entered .failed))) ∧
      (Install.cleared s.target.temporary (m.record (.entered .failed))).files.node?
        s.target.temporary = none := by
  have clears : s.Does (fun _ => True) (do
      record (.entered .failed)
      discard s.target.temporary : Procedure InstallError Bool) fun _ m =>
        m.files.node? s.target.temporary = none :=
    .bind (s.does_enter .failed) fun _ => s.does_discard_temporary
  obtain ⟨gone,cleared⟩ :=
    Install.run_discard_cleared s.target.temporary (m.record (.entered .failed))
  obtain ⟨goes,-,absent⟩ := clears m working trivial
  simp only [run_bind,run_record,cleared] at goes absent
  exact ⟨goes,absent gone rfl⟩

def alone (named : t.Named exe) (network : Net.Network) : Site :=
  .fetching named (fun _ (member : _ ∈ ([] : List Path)) => nomatch member) network

theorem node?_of_alone {named : t.Named exe} {network : Net.Network}
    (goes : m.Goes (alone named network).Step after) (fit : t.Fit [] m.files)
    (inside : Path.Inside t.directory p) (other : p ≠ t.temporary) :
    after.files.node? p = m.files.node? p :=
  node?_of_goes goes fit inside (List.forall_mem_singleton.mpr
    (Path.apart_of_ne named.temporary_inside inside other.symm)) fun _ _ => False.elim

theorem fit_of_alone {named : t.Named exe} {network : Net.Network}
    (goes : m.Goes (alone named network).Step after) (inside : ∀ p ∈ paths, Path.Inside t.directory p)
    (fit : t.Fit paths m.files) : t.Fit paths after.files := by
  have goes' : m.Goes (fetching named inside network).Step after := goes
  exact (kept_of_goes goes' fit).1

end Site

namespace Target

/-- What a failed install leaves of a tree; it may have been replacing the binary by then. -/
structure Undone (t : Target) (replacing : Prop) (f g : Files) : Prop where
  temporary : g.node? t.temporary = none
  /-- All that lies anywhere else is as it was, but for directories that had to be made. -/
  rest : ∀ l, f.entry? t.temporary ≠ .ok (some l) →
    (replacing → f.entry? t.legacy ≠ .ok (some l)) → g.at? l = f.at? l ∨ t.Made f g l
  /-- So is the binary, and so are all other entries of the directory. -/
  entries : ∀ p, Path.Inside t.directory p → p ≠ t.temporary → (replacing → p ≠ t.legacy) →
    ∀ l, f.entry? p = .ok (some l) → g.at? l = f.at? l
  /-- They are named as before, unless a legacy link led to the directory and is gone. -/
  names : ∀ p, Path.Inside t.directory p → p ≠ t.temporary →
    (replacing → p ≠ t.legacy ∧ f.Beside t.directory [t.legacy]) → g.node? p = f.node? p

theorem Framed.entry_new (framed : t.Framed paths f g) (whole : f.WellFormed)
    (whole' : g.WellFormed) (inside : Path.Inside t.directory p) (entry : g.entry? p = .ok (some l))
    (new : f.entry? p ≠ .ok (some l)) : f.at? l = none := by
  obtain ⟨d,n,seat',rfl⟩ := seat_of_entry whole' inside entry
  have missing (k : Location) : f.seat? t.directory ≠ .ok k := by
    intro seat
    cases seat'.symm.trans (framed.seat k seat)
    exact new (entry?_of_seat whole' whole inside seat' seat entry)
  exact whole.bare (by simp [framed.bare missing d seat']) n

theorem undone_of_goes {network : Net.Network} (replacing : Prop) (named : t.Named exe)
    (goes : m.Goes (Site.alone named network).Step after) (fit : t.Fit [] m.files)
    (gone : after.files.node? t.temporary = none) : t.Undone replacing m.files after.files := by
  obtain ⟨fit',steady,framed⟩ := Site.kept_of_goes goes fit
  constructor
  case temporary => exact gone
  case rest =>
    intro l off _
    by_cases entry : after.files.entry? t.temporary = .ok (some l)
    · rw [node?_of_entry entry] at gone
      exact .inl (gone.trans
        (framed.entry_new fit.whole fit'.whole named.temporary_inside entry off).symm)
    · exact framed.rest l (List.forall_mem_singleton.mpr entry)
  case entries =>
    intro p inside other _ l entry
    have entry' := steady.inside fit.whole fit'.whole inside entry
    rw [← node?_of_entry entry,← node?_of_entry entry']
    exact Site.node?_of_alone goes fit inside other
  case names =>
    intro p inside other _
    exact Site.node?_of_alone goes fit inside other

theorem erase_keeps (entry : f.entry? p = .ok (some l)) : Keeps (f.erase l) f := by
  obtain ⟨d,n,rfl,-⟩ := exists_of_entry entry
  refine ⟨rfl,?_⟩
  intro k node present _
  rw [at?_erase_entry] at present
  split at present
  · cases present
  · exact present

theorem follow?_of_missing (named : t.Named exe) (whole : f.WellFormed)
    (missing : ∀ d, f.seat? t.directory ≠ .ok d) : f.follow? t.temporary ≠ .ok l := by
  have absent := node?_of_missing whole named.temporary_inside missing
  intro found
  rw [named.temporary] at found absent
  have entry := (follow?_joinName whole named.temporary_isName (temporary_step exe)
    (by simp [absent])).mp found
  obtain ⟨d,_,seat,-⟩ := seat_of_entry whole ⟨_,named.temporary_isName,rfl⟩ entry
  exact missing d seat

/-- What is left when the replacement fails on a tree and the download is cleared away. -/
structure Stopped (t : Target) (f g : Files) : Prop where
  temporary : g.node? t.temporary = none
  rest : ∀ l, f.entry? t.temporary ≠ .ok (some l) → g.at? l = f.at? l
  names : ∀ d, f.seat? t.directory = .ok d → ∀ p, Path.Inside t.directory p → p ≠ t.temporary →
    g.node? p = f.node? p

/-- The tree on which a replacement fails need not be fit: with the legacy binary a link to the
directory may be gone. Then there is nothing to be replaced. -/
theorem stopped_of_failed_replacement {error : InstallError} (named : t.Named exe)
    (whole : m.files.WellFormed) (plain : Plain (m.files.node? t.temporary))
    (failed : (Replacement.run t.temporary t.final).run m = (.error error,after)) :
    t.Stopped m.files (Install.cleared t.temporary (after.record (.entered .failed))).files := by
  cases seat : m.files.seat? t.directory with
  | ok d =>
    have working : (Site.alone named m.network).Working m :=
      ⟨rfl,.there m.files d whole (.refl _) seat (by simp [Site.alone,Site.fetching]) plain⟩
    obtain ⟨replaced,working'⟩ := Site.goes_of_failed_replacement working failed
    obtain ⟨cleared,gone⟩ := Site.goes_of_failure working'
    have undone := undone_of_goes False named (replaced.trans cleared) working.fit gone
    refine ⟨gone,fun l off => ?_,fun _ _ p inside other => undone.names p inside other False.elim⟩
    exact (undone.rest l off False.elim).resolve_right fun made => made.1 d seat
  | error fault =>
    have missing (d : Location) : m.files.seat? t.directory ≠ .ok d := by simp [seat]
    obtain ⟨result,ran,same⟩ := run_failing_eq.mp failed
    have still : after = m := by
      rcases run_bind_eq.mp ran with ⟨_,first,-⟩ | ⟨_,middle,first,second⟩
      all_goals
        rw [run_updateMode] at first
        split at first
        all_goals cases first
      · rfl
      · next changed =>
        obtain ⟨l,node,found,-⟩ := setMode_ok changed
        exact absurd found (follow?_of_missing named whole missing)
    have unheld : m.files.holds t.temporary = false := by
      unfold Files.holds find?
      split
      · next found => exact absurd found (follow?_of_missing named whole missing)
      · rfl
    have same : (Install.cleared t.temporary (after.record (.entered .failed))).files = m.files := by
      rw [Install.cleared,run_discard,still,
        show (m.record (.entered .failed)).files.holds t.temporary = false from unheld]
      rfl
    rw [same]
    exact ⟨node?_of_missing whole named.temporary_inside missing,fun _ _ => rfl,
      fun d seat' => absurd seat' (missing d)⟩

theorem entry?_of_cleared (whole : f.WellFormed) (entry : f.entry? q = .ok (some l))
    (other : f.at? l ≠ some .directory) (inside : Path.Inside t.directory p)
    (entry' : Files.entry? (f.erase l) p = .ok (some k)) : f.entry? p = .ok (some k) := by
  obtain ⟨d,n,rfl,-⟩ := exists_of_entry entry
  obtain ⟨_,_,seat,-⟩ := seat_of_entry (whole.erase other) inside entry'
  exact entry?_of_seat (whole.erase other) whole inside seat ((erase_keeps entry).seat? seat) entry'

theorem cleared_plain (named : t.Named exe) (fit : t.Fit paths f)
    (removed : removeFile t.legacy f = .ok h) : h.WellFormed ∧ Plain (h.node? t.temporary) := by
  obtain ⟨k,node,legacy,present,other,rfl⟩ := removeFile_ok removed
  have other : f.at? k ≠ some .directory := by simpa [present] using other
  have back {l} := entry?_of_cleared (k := l) fit.whole legacy other named.temporary_inside
  obtain ⟨d,n,rfl,-⟩ := exists_of_entry legacy
  refine ⟨fit.whole.erase other,?_⟩
  unfold node?
  split
  · next l entry =>
    rw [at?_erase_entry]
    split
    · exact .inl rfl
    · exact fit.plain_at named (back entry)
  · exact .inl rfl

theorem Stopped.at?_of_cleared (stopped : t.Stopped (f.erase k) g) (named : t.Named exe)
    (whole : f.WellFormed) (legacy : f.entry? t.legacy = .ok (some k))
    (other : f.at? k ≠ some .directory) (off : f.entry? t.temporary ≠ .ok (some l))
    (elsewhere : l ≠ k) : g.at? l = f.at? l := by
  have off' : Files.entry? (f.erase k) t.temporary ≠ .ok (some l) := fun entry =>
    off (entry?_of_cleared whole legacy other named.temporary_inside entry)
  obtain ⟨d,n,rfl,-⟩ := exists_of_entry legacy
  rw [stopped.rest l off',at?_erase_entry,if_neg elsewhere]

theorem Stopped.node?_of_cleared (stopped : t.Stopped (f.erase k) g) (named : t.Named exe)
    (fit : t.Fit [t.legacy] f) (legacy : f.entry? t.legacy = .ok (some k))
    (other : f.at? k ≠ some .directory) (inside : Path.Inside t.directory p)
    (off : p ≠ t.temporary) (off' : p ≠ t.legacy) : g.node? p = f.node? p := by
  obtain ⟨d,n,there,rfl⟩ := seat_of_entry fit.whole named.legacy_inside legacy
  have there' : Files.seat? (f.erase (d ++ [n])) t.directory = .ok d := by
    cases fit with
    | away _ _ missing => exact absurd there (missing d)
    | there way d' _ kept arrives clear _ =>
      cases there.symm.trans (kept.seat? arrives)
      have leads := kept.off_entry other fun target =>
        clear t.legacy (List.mem_singleton_self _) _ target legacy
      exact (kept.erase leads).seat? arrives
  rw [stopped.names d there' p inside off]
  refine node?_of_seat fit.whole (fit.whole.erase other) inside there there' fun l entry => ?_
  have apart := Path.apart_of_ne named.legacy_inside inside off'.symm
  rw [at?_erase_entry,if_neg (entry?_apart fit.whole apart legacy entry)]

theorem seated_of_legacy {middle : Machine} {network : Net.Network} {node : Node}
    (named : t.Named exe) (goes : m.Goes (Site.alone named network).Step middle)
    (fit : t.Fit [] m.files) (legacy : middle.files.entry? t.legacy = .ok (some k))
    (present : middle.files.at? k = some node) :
    ∃ d, m.files.seat? t.directory = .ok d ∧ middle.files.seat? t.directory = .ok d := by
  have old : m.files.node? t.legacy = some node := by
    rw [← Site.node?_of_alone goes fit named.legacy_inside named.legacy_temporary.ne,
      node?_of_entry legacy,present]
  obtain ⟨_,entry,-⟩ := exists_of_node? old
  obtain ⟨d,_,seat,-⟩ := seat_of_entry fit.whole named.legacy_inside entry
  exact ⟨d,seat,(Site.kept_of_goes goes fit).2.1.seat d seat⟩

theorem undone_of_cleared {middle : Machine} {network : Net.Network} {replacing : Prop}
    (named : t.Named exe) (goes : m.Goes (Site.alone named network).Step middle)
    (fit : t.Fit [] m.files) (removed : removeFile t.legacy middle.files = .ok h)
    (stopped : t.Stopped h g) (replaces : replacing) : t.Undone replacing m.files g := by
  obtain ⟨fit',-,framed⟩ := Site.kept_of_goes goes fit
  obtain ⟨k,node,legacy,present,other,rfl⟩ := removeFile_ok removed
  obtain ⟨d,seat,there⟩ := seated_of_legacy named goes fit legacy present
  have other : middle.files.at? k ≠ some .directory := by simpa [present] using other
  -- no entry of the directory has moved
  have back {p l} (inside : Path.Inside t.directory p)
      (entry : middle.files.entry? p = .ok (some l)) : m.files.entry? p = .ok (some l) :=
    entry?_of_seat fit'.whole fit.whole inside there seat entry
  have rest (l : Location) (off : m.files.entry? t.temporary ≠ .ok (some l))
      (off' : m.files.entry? t.legacy ≠ .ok (some l)) : g.at? l = m.files.at? l := by
    have off : middle.files.entry? t.temporary ≠ .ok (some l) :=
      fun entry => off (back named.temporary_inside entry)
    rw [stopped.at?_of_cleared named fit'.whole legacy other off
      fun here => off' (here ▸ back named.legacy_inside legacy)]
    exact (framed.rest l (List.forall_mem_singleton.mpr off)).resolve_right fun made => made.1 d seat
  constructor
  case temporary => exact stopped.temporary
  case rest => exact fun l off off' => .inl (rest l off (off' replaces))
  case entries =>
    intro p inside off off' l entry
    have apart := Path.apart_of_ne named.temporary_inside inside off.symm
    have apart' := Path.apart_of_ne named.legacy_inside inside (off' replaces).symm
    apply rest l
    · exact fun entry' => entry?_apart fit.whole apart entry' entry rfl
    · exact fun entry' => entry?_apart fit.whole apart' entry' entry rfl
  case names =>
    intro p inside off unlinked
    obtain ⟨off',beside⟩ := unlinked replaces
    have legacyInside := List.forall_mem_singleton.mpr named.legacy_inside
    have fit' := Site.fit_of_alone goes legacyInside (fit.beside beside)
    rw [← Site.node?_of_alone goes fit inside off]
    exact stopped.node?_of_cleared named fit' legacy other inside off off'

end Target

namespace Install

variable {i : Install} {dir : Path} {name : String} {os : Os} {explicit : Option ReleaseVersion}
  {error : InstallError}

theorem cleared_cases (p : Path) (m : Machine) : cleared p m = m ∨
    ∃ g, Files.removeFile p m.files = .ok g ∧ cleared p m = m.withFiles g := by
  rw [cleared,run_discard]
  cases m.files.holds p with
  | false => exact .inl rfl
  | true =>
    cases removed : removeFile p m.files with
    | error fault => exact .inl rfl
    | ok g => exact .inr ⟨g,rfl,rfl⟩

/-- A failed install undoes what it did: the download is gone, and the tree is as it was but for
directories made around the download and, if the replacement failed, the legacy binary. The
directory is direct, as `Directory.resolve` leaves it: no `..` in it follows what does not exist. -/
theorem undone_of_run_error (aimed : i.target = Target.make dir name os) (isName : Path.IsName name)
    (whole : m.files.WellFormed) (direct : m.files.Direct dir)
    (plain : Plain (m.files.node? i.target.temporary))
    (failed : (i.run explicit).run m = (.error error,after)) :
    i.target.Undone (∃ cause, error = .replaceFailed i.target.final cause) m.files after.files := by
  have named : i.target.Named (os.executableName name) := aimed ▸ Target.make_named dir os isName
  have ready : m.files.Ready i.target.directory [] :=
    ⟨whole,aimed ▸ direct,beside_of_plain (by simp)⟩
  have working : (Site.alone named m.network).Working m := ⟨rfl,.start ready plain⟩
  have obtains : (Site.alone named m.network).Does (fun _ => True) (i.obtain explicit) _ :=
    does_obtain rfl explicit
  have obtains := obtains m working trivial
  rw [run_run] at failed
  rcases attempted : (i.attempt explicit).run m with ⟨error' | installed,stopped⟩
  all_goals rw [attempted] at failed
  all_goals cases failed
  rcases run_bind_eq.mp attempted with ⟨_,obtained,-⟩ | ⟨found,middle,obtained,placed⟩
  all_goals
    rw [obtained] at obtains
    obtain ⟨goes,working',-⟩ := obtains
  · obtain ⟨cleared,gone⟩ := Site.goes_of_failure working'
    exact Target.undone_of_goes _ named (goes.trans cleared) working.fit gone
  · have replacement := putInPlace_error placed
    rcases cleared_cases i.target.legacy (middle.record (.entered .installing)) with
      still | ⟨h,removed,swept⟩
    · rw [still] at replacement
      have entered : middle.Goes (Site.alone named m.network).Step
          (middle.record (.entered .installing)) := Machine.goes_noting (by simp [Event.files?])
      have ready : (Site.alone named m.network).Working (middle.record (.entered .installing)) :=
        ⟨working'.network,working'.fit⟩
      obtain ⟨replaced,ready'⟩ := Site.goes_of_failed_replacement ready replacement
      obtain ⟨cleared,gone⟩ := Site.goes_of_failure ready'
      exact Target.undone_of_goes _ named
        (((goes.trans entered).trans replaced).trans cleared) working.fit gone
    · rw [swept] at replacement
      obtain ⟨whole',plain'⟩ := Target.cleared_plain named working'.fit removed
      have stopped := Target.stopped_of_failed_replacement named whole' plain' replacement
      exact Target.undone_of_cleared named goes working.fit removed stopped
        (replacement_error replacement)

def error? {ε α : Type} : Except ε α → Option ε
  | .error error => some error
  | .ok _ => none

/-- What a failed install may leave otherwise: once `/missing` is made, a directory is found in the
place of the download; and the link that is removed as the legacy binary may be the directory, so
that neither the old binary nor the download is found in it any more. -/
theorem left_of_run_error :
    let winding := into .roundabout .linux
    let blocked := withDirectory "bin" [("devspace.dl",.directory)]
    let first := (winding.run (some ⟨"1"⟩)).run ⟨blocked,.serving [1],[],[]⟩
    let beyond := into (.ofString "/bin/.devspace.old") .linux
    let linked := withDirectory "bin" [(".devspace.old",.link (.ofString "/bin")),
      ("devspace",.file (.data [0]) 0o755)]
    let second := (beyond.run (some ⟨"1"⟩)).run ⟨linked,.serving [1],[],[]⟩
    (first.1.isOk = false ∧ blocked.node? winding.target.temporary = none ∧
      first.2.files.node? winding.target.temporary = some .directory) ∧
    (error? second.1 = some (.replaceFailed beyond.target.final .permissions) ∧
      linked.node? beyond.target.temporary = none ∧
      linked.node? beyond.target.final = some (.file (.data [0]) 0o755) ∧
      second.2.files.node? beyond.target.final = none ∧
      second.2.files.at? [Path.nameOctets "bin",Path.nameOctets "devspace.dl"] =
        some (.file (.data [1]) 0o644)) := by
  decide +kernel

def obstructed : Files := ⟨[([Path.nameOctets "devspace"],.directory),
  ([Path.nameOctets ".devspace.old"],.file (.data [0]) 0o755)],[]⟩

theorem undone_of_run_obstructed : ∃ error after,
    ((intoRoot .linux).run (some ⟨"1"⟩)).run ⟨obstructed,.serving [1],[],[]⟩ = (.error error,after) ∧
    (intoRoot .linux).target.Undone
      (∃ cause, error = .replaceFailed (intoRoot .linux).target.final cause) obstructed after.files := by
  have fails : (((intoRoot .linux).run (some ⟨"1"⟩)).run
      ⟨obstructed,.serving [1],[],[]⟩).1.isOk = false := by decide +kernel
  obtain ⟨error,after,ran⟩ := exists_of_not_isOk fails
  exact ⟨error,after,ran,undone_of_run_error (i := intoRoot .linux) rfl Path.isName_devspace
    (wellFormed_of_flat (by decide)) (direct_root _) (by decide +kernel) ran⟩

end Install
end ReleaseInstaller
