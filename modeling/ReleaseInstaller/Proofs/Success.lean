import ReleaseInstaller.Proofs.Start

/-! Successful installs. The binary is the whole download and executable, the download and the old
files beside it are gone, and the rest of the tree is as it was. -/
namespace ReleaseInstaller

open Files Procedure

namespace Install

variable {i : Install} {dir : Path} {f g : Files} {m after : Machine} {p q : Path}
  {network : Net.Network} {disk : List (Option Nat)} {explicit : Option ReleaseVersion}
  {installed : Installed}

/-- What a successful install leaves of a tree, and what it tells. -/
structure Stands (i : Install) (network : Net.Network) (f : Files) (installed : Installed)
    (after : Machine) : Prop where
  binary : installed.binary = i.target.final
  url : installed.download.url = i.settings.downloadUrl installed.version i.platform
  delivered : ∃ octets, after.files.node? i.target.final = some (.file (.data octets) 0o755) ∧
    installed.download.written = octets.length ∧
      Download.Served network after.history installed.download.url octets
  temporary : after.files.node? i.target.temporary = none
  legacy : after.files.node? i.target.legacy = none
  fresh : installed.fresh = true ↔ f.node? i.target.final = none
  /-- On Windows scripts of the same name are gone; the batch script is left to a fresh binary. -/
  scripts : i.platform.os = .windows →
    after.files.node? (i.target.directory.joinName i.settings.binaryName) = none ∧
    after.files.node? (i.target.directory.joinName (i.settings.binaryName ++ ".ps1")) = none ∧
    (after.files.node? (i.target.directory.joinName (i.settings.binaryName ++ ".cmd")) = none ↔
      f.node? (i.target.directory.joinName (i.settings.binaryName ++ ".cmd")) = none ∨
        installed.fresh = false)
  removed : installed.removed =
    (i.companions (! installed.fresh)).filter fun p => (f.node? p).isSome
  others : ∀ q, Path.Inside i.target.directory q → q ∉ i.target.temporary :: i.target.final ::
    i.target.legacy :: i.companions (! installed.fresh) → after.files.node? q = f.node? q
  /-- Nothing anywhere else has changed, but for directories that had to be made. -/
  rest : ∀ l, (∀ p ∈ i.target.temporary :: i.target.final :: i.target.legacy :: i.companions true,
    after.files.entry? p ≠ .ok (some l)) → after.files.at? l = f.at? l ∨ i.target.Made f after.files l

theorem holds_of_legal {name : String} {d : Location} (whole : f.WellFormed)
    (isName : Path.IsName name) (legal : Legal dir name) (seat : f.seat? dir = .ok d)
    (plain : Plain (f.node? (dir.joinName name))) :
    f.holds (dir.joinName name) = (f.node? (dir.joinName name)).isSome := by
  have entry := (entry?_joinName whole isName).mpr ⟨legal,d,seat,rfl⟩
  rw [node?_of_entry entry] at plain ⊢
  exact holds_of_entry whole ⟨name,isName,rfl⟩ entry plain

def Aims.fetching (aims : i.Aims dir) (network : Net.Network) : Site :=
  .fetching aims.named ((aims.site network).scope []).inside network

theorem Aims.goes_of_fetching (aims : i.Aims dir)
    (goes : m.Goes (aims.fetching network).Step after) : m.Goes (aims.site network).Step after :=
  goes.mono fun _ _ _ taken => taken.mono (fun _ member => nomatch member) fun _ => False.elim

theorem Aims.node?_of_fetching (aims : i.Aims dir)
    (goes : m.Goes (aims.fetching network).Step after)
    (fit : i.target.Fit (aims.site network).touched m.files)
    (inside : Path.Inside i.target.directory q) (other : q ≠ i.target.temporary) :
    after.files.node? q = m.files.node? q :=
  Site.node?_of_goes goes fit inside (List.forall_mem_singleton.mpr
    (Path.apart_of_ne aims.named.temporary_inside inside other.symm)) fun _ _ => False.elim

theorem Aims.companions_inside (aims : i.Aims dir) {all : Bool} (member : p ∈ i.companions all) :
    Path.Inside i.target.directory p :=
  Target.companions_inside aims.isName (Target.companions_subset all member)

/-- A successful install passes through a tree in which the download is complete, and places it. -/
structure Passes (aims : i.Aims dir) (network : Net.Network) (f : Files) (installed : Installed)
    (after middle : Machine) (octets : List UInt8) (y : Path → Option Node) : Prop where
  fetched : ∃ disk, (Machine.mk f network disk []).Goes (aims.fetching network).Step middle
  placed : middle.Goes (aims.site network).Step after
  file : ∃ mode, middle.files.node? i.target.temporary = some (.file (.data octets) mode)
  served : Download.Served network after.history installed.download.url octets
  shows : i.target.Shows y after.files
  shown : i.target.Placed middle.files.node? octets (i.companions (! installed.fresh)) y
    installed.removed
  binary : installed.binary = i.target.final
  url : installed.download.url = i.settings.downloadUrl installed.version i.platform
  written : installed.download.written = octets.length
  fresh : installed.fresh = ! middle.files.holds i.target.final

theorem passes_of_run (aims : i.Aims dir) (fit : i.target.Fit (aims.site network).touched f)
    (ran : (i.run explicit).run ⟨f,network,disk,[]⟩ = (.ok installed,after)) :
    ∃ middle octets y, Passes aims network f installed after middle octets y := by
  rw [run_run] at ran
  rcases attempted : (i.attempt explicit).run ⟨f,network,disk,[]⟩ with ⟨error | _,stopped⟩
  all_goals rw [attempted] at ran
  all_goals cases ran
  rcases run_bind_eq.mp attempted with ⟨_,-,same⟩ | ⟨⟨version,download⟩,middle,obtained,placing⟩
  · cases same
  have obtains : (aims.fetching network).Does (fun _ => True) (i.obtain explicit) _ :=
    does_obtain rfl explicit
  obtain ⟨goes,working,post⟩ := obtains ⟨f,network,disk,[]⟩ ⟨rfl,fit⟩ trivial
  rw [obtained] at goes working post
  obtain ⟨url,octets,mode,file,written,served⟩ := post _ rfl
  change (i.putInPlace version download).run middle = _ at placing
  have places : (aims.site network).Does (fun m =>
      Download.Served network m.history download.url octets ∧
        i.target.Shows middle.files.node? m.files) (i.putInPlace version download) _ :=
    does_putInPlace (aims.worksAt network) version download file
  obtain ⟨goes',-,post⟩ := places middle ⟨working.network,working.fit⟩
    ⟨served,i.target.shows_node? _⟩
  rw [placing] at goes' post
  obtain ⟨y,all,shows,shown,same⟩ := post installed rfl
  obtain ⟨_,_,_,-,-,-,same'⟩ := putInPlace_ok placing
  obtain ⟨events,history,-⟩ := goes'.trace
  refine ⟨middle,octets,y,⟨disk,goes⟩,goes',⟨mode,file⟩,?_,shows,?_,?_,?_,?_,by rw [same']⟩
  all_goals rw [same]
  · exact history ▸ served.append events
  · rw [Bool.not_not]
    exact shown
  · rfl
  · exact url
  · exact written

namespace Passes

variable {aims : i.Aims dir} {middle : Machine} {octets : List UInt8} {y : Path → Option Node}

theorem same (passes : Passes aims network f installed after middle octets y)
    (fit : i.target.Fit (aims.site network).touched f) (inside : Path.Inside i.target.directory q)
    (other : q ≠ i.target.temporary) : middle.files.node? q = f.node? q :=
  let ⟨_,goes⟩ := passes.fetched
  aims.node?_of_fetching goes fit inside other

theorem kept (passes : Passes aims network f installed after middle octets y)
    (fit : i.target.Fit (aims.site network).touched f) :
    i.target.Fit (aims.site network).touched middle.files ∧
      i.target.Fit (aims.site network).touched after.files ∧
      i.target.Framed (aims.site network).touched f after.files := by
  obtain ⟨_,goes⟩ := passes.fetched
  have whole := (aims.goes_of_fetching goes).trans passes.placed
  obtain ⟨fit',-,framed⟩ := Site.kept_of_goes whole fit
  exact ⟨(Site.kept_of_goes goes fit).1,fit',framed⟩

theorem holds_final (passes : Passes aims network f installed after middle octets y)
    (fit : i.target.Fit (aims.site network).touched f) (plain : Plain (f.node? i.target.final)) :
    middle.files.holds i.target.final = (f.node? i.target.final).isSome := by
  have named := aims.named
  obtain ⟨fit',fit'',-⟩ := passes.kept fit
  have there := (passes.shows _ named.final_inside).trans passes.shown.final
  obtain ⟨_,entry,-⟩ := exists_of_node? there
  rw [named.final] at entry
  obtain ⟨legal,-⟩ := (entry?_joinName fit''.whole named.isName).mp entry
  obtain ⟨_,file⟩ := passes.file
  obtain ⟨_,entry',-⟩ := exists_of_node? file
  obtain ⟨d,_,seat,-⟩ := seat_of_entry fit'.whole named.temporary_inside entry'
  rw [← passes.same fit named.final_inside named.temporary_final.ne.symm] at plain ⊢
  rw [named.final] at plain ⊢
  exact holds_of_legal fit'.whole named.isName legal seat plain

end Passes

theorem companions_windows (windows : i.platform.os = .windows) (all : Bool) :
    i.companions all = [i.target.directory.joinName i.settings.binaryName,
      i.target.directory.joinName (i.settings.binaryName ++ ".ps1")] ++
      if all then [i.target.directory.joinName (i.settings.binaryName ++ ".cmd")] else [] := by
  simp [companions,Target.companions,Os.isWindows,windows]

theorem Aims.batch_not_mem (aims : i.Aims dir) (windows : i.platform.os = .windows) :
    i.target.directory.joinName (i.settings.binaryName ++ ".cmd") ∉
      i.target.temporary :: i.target.final :: i.target.legacy :: i.companions false := by
  have unique : (i.companions true).Nodup := Target.companions_nodup aims.isName true
  have batch : i.target.directory.joinName (i.settings.binaryName ++ ".cmd") ∈ i.companions true := by
    simp [companions_windows windows]
  obtain ⟨temporary,final,legacy⟩ := aims.apart batch
  rw [companions_windows windows] at unique ⊢
  simp only [if_true,List.nodup_append,List.mem_singleton] at unique
  simp only [List.mem_cons,not_or,Bool.false_eq_true,if_false,List.append_nil]
  refine ⟨temporary,final,legacy,?_,?_,List.not_mem_nil⟩
  · exact fun here => unique.2.2 _ (by simp) _ rfl here.symm
  · exact fun here => unique.2.2 _ (by simp) _ rfl here.symm

/-- A successful install stands as it says. The directory is direct, as `Directory.resolve` leaves
it. -/
theorem stands_of_run (aims : i.Aims dir) (whole : f.WellFormed) (direct : f.Direct dir)
    (plain : ∀ p ∈ i.target.temporary :: i.target.final :: i.target.legacy :: i.companions true,
      Plain (f.node? p))
    (ran : (i.run explicit).run ⟨f,network,disk,[]⟩ = (.ok installed,after)) :
    i.Stands network f installed after := by
  obtain ⟨temporary,plain⟩ := List.forall_mem_cons.mp plain
  have fit : i.target.Fit (aims.site network).touched f :=
    .start ⟨whole,aims.target ▸ direct,beside_of_plain plain⟩ temporary
  obtain ⟨final,legacy,plain⟩ := List.forall_mem_cons.mp plain |>.imp id List.forall_mem_cons.mp
  obtain ⟨middle,octets,y,passes⟩ := passes_of_run aims fit ran
  have named := aims.named
  have shown := passes.shown
  have companion {p} (member : p ∈ i.companions (! installed.fresh)) : p ∈ i.companions true :=
    Target.companions_subset _ member
  have before {p} (member : p ∈ i.companions (! installed.fresh)) :
      middle.files.node? p = f.node? p :=
    passes.same fit (aims.companions_inside member) (aims.apart (companion member)).1
  have regular : ∀ p ∈ i.companions (! installed.fresh), Plain (middle.files.node? p) :=
    fun p member => before member ▸ plain p (companion member)
  have gone : ∀ p ∈ i.companions (! installed.fresh), after.files.node? p = none :=
    fun p member => (passes.shows p (aims.companions_inside member)).trans (shown.gone regular p member)
  have others : ∀ q, Path.Inside i.target.directory q → q ∉ i.target.temporary ::
      i.target.final :: i.target.legacy :: i.companions (! installed.fresh) →
        after.files.node? q = f.node? q := fun q inside off =>
    (passes.shows q inside).trans ((shown.others q off).trans
      (passes.same fit inside (List.ne_of_not_mem_cons off)))
  exact {
    binary := passes.binary
    url := passes.url
    delivered := ⟨octets,(passes.shows _ named.final_inside).trans shown.final,passes.written,
      passes.served⟩
    temporary := (passes.shows _ named.temporary_inside).trans shown.temporary
    legacy := (passes.shows _ named.legacy_inside).trans (shown.legacy
      (passes.same fit named.legacy_inside named.legacy_temporary.ne ▸ legacy))
    fresh := by
      rw [passes.fresh,passes.holds_final fit final]
      cases f.node? i.target.final <;> simp
    scripts := fun windows => by
      have members := companions_windows windows (! installed.fresh)
      refine ⟨gone _ (by simp [members]),gone _ (by simp [members]),?_⟩
      cases fresh : installed.fresh with
      | false => exact iff_of_true (gone _ (by rw [members,fresh]; simp)) (.inr rfl)
      | true =>
        have batch : Path.IsName (i.settings.binaryName ++ ".cmd") :=
          aims.isName.append (by decide)
        rw [others _ ⟨_,batch,rfl⟩ (by rw [fresh]; exact aims.batch_not_mem windows)]
        simp
    removed := (shown.listed regular).trans (List.filter_congr fun p member => by
      rw [before member])
    others
    rest := (passes.kept fit).2.2.rest }

/-- An install is not fresh although there was no binary at its path: the path leads to an old one
once `/missing` is made. -/
theorem stale_of_run_roundabout :
    let i := into .roundabout .linux
    let f := withDirectory "bin" [("devspace",.file (.data [0]) 0o600)]
    let ran := (i.run (some ⟨"1"⟩)).run ⟨f,.serving [1],[],[]⟩
    i.Aims .roundabout ∧ f.WellFormed ∧
      (∀ p ∈ i.target.temporary :: i.target.final :: i.target.legacy :: i.companions true,
        f.node? p = none) ∧
      ran.1.toOption.map (·.fresh) = some false := by
  refine ⟨aims_into _ _,wellFormed_withDirectory _ _,?_⟩
  decide +kernel

def outdated : Files := ⟨[([Path.nameOctets "devspace.exe"],.file (.data [0]) 0o644),
  ([Path.nameOctets "devspace.cmd"],.file (.data [0]) 0o644),
  ([Path.nameOctets "devspace.exe.dl"],.file (.data []) 0o600)],[]⟩

theorem stands_of_run_outdated : ∃ installed after,
    ((intoRoot .windows).run (some ⟨"1"⟩)).run ⟨outdated,.serving [1],[],[]⟩ =
      (.ok installed,after) ∧
    (intoRoot .windows).Stands (.serving [1]) outdated installed after := by
  have succeeds : (((intoRoot .windows).run (some ⟨"1"⟩)).run
      ⟨outdated,.serving [1],[],[]⟩).1.isOk = true := by decide +kernel
  obtain ⟨installed,after,ran⟩ := exists_of_isOk succeeds
  have aims : (intoRoot .windows).Aims ⟨[Path.slash]⟩ := aims_into _ .windows
  exact ⟨installed,after,ran,stands_of_run aims (wellFormed_of_flat (by decide)) (direct_root _)
    (by decide +kernel) ran⟩

end Install
end ReleaseInstaller
