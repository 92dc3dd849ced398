import ReleaseInstaller.Proofs.Part
import ReleaseInstaller.Proofs.Start

/-! Where an install writes. Its directory being reached without a link, every change is made at an
entry of that directory, whatever lies there, unless the download's place is taken by a link that
leads to nothing: such a link is not cleared away, and the download is written where it leads. -/
namespace ReleaseInstaller

open Files Procedure

def Node.isLink : Node → Bool
  | link _ => true
  | _ => false

namespace Files

variable {f g : Files} {dir p : Path} {d l here : Location} {steps : List Path.Step} {links : Nat}

/-- The path leads to the directory, and no link is on its way. -/
def Straight (f : Files) (dir : Path) (d : Location) : Prop :=
  f.walk 0 (f.start dir) (dir.spelledSteps ++ [.here]) = .ok d

theorem walk_straight (kept : ∀ l, f.at? l = some .directory → g.at? l = some .directory)
    (walked : f.walk 0 here (steps ++ [.here]) = .ok d) :
    g.walk links here (steps ++ [.here]) = .ok d := by
  induction steps generalizing here with
  | nil => simpa using walked
  | cons step steps ih =>
    cases step with
    | here => simpa using ih (by simpa using walked)
    | up =>
      rw [List.cons_append,walk_up] at walked ⊢
      exact ih walked
    | into name =>
      simp only [List.cons_append,walk_into] at walked ⊢
      split
      · next long => simp [long] at walked
      next short =>
      simp only [short,if_false] at walked
      cases node : f.at? (here ++ [name]) with
      | none => simp [node] at walked
      | some inside =>
        cases inside with
        | directory =>
          simp only [node,kept _ node,decide_true,Bool.or_true,if_true] at walked ⊢
          exact ih walked
        | file | fullDevice | link => simp [node,follow] at walked

theorem Straight.seat (straight : f.Straight dir d) : f.seat? dir = .ok d :=
  walk_straight (fun _ directory => directory) straight

theorem Straight.kept (straight : f.Straight dir d) (current : g.current = f.current)
    (kept : ∀ l, f.at? l = some .directory → g.at? l = some .directory) : g.Straight dir d := by
  unfold Straight Files.start
  rw [current]
  exact walk_straight kept straight

def unlinked (f : Files) : Files := f.drop fun l => (f.at? l).any Node.isLink

theorem at?_unlinked (f : Files) (l : Location) :
    f.unlinked.at? l = (f.at? l).filter fun node => ! node.isLink := by
  by_cases root : l = []
  · subst root
    rfl
  rw [unlinked,at?_drop f _ l root]
  cases f.at? l with
  | none => rfl
  | some node => cases link : node.isLink <;> simp [Option.filter,link]

theorem at?_unlinked_ne (f : Files) (l : Location) (target : Path) :
    f.unlinked.at? l ≠ some (.link target) := by
  rw [at?_unlinked]
  simp [Option.filter_eq_some_iff,Node.isLink]

theorem Straight.unlinked (straight : f.Straight dir d) : f.unlinked.seat? dir = .ok d :=
  Straight.seat (straight.kept rfl fun l directory => by rw [at?_unlinked,directory]; rfl)

theorem Ready.of_straight {paths : List Path} (whole : f.WellFormed)
    (straight : f.Straight dir d) : f.Ready dir paths := by
  have seat := straight.seat
  refine ⟨whole,fun before rest spelled missing => ?_,fun d' seat' => ?_⟩
  · rw [seat?,spelled,List.append_assoc] at seat
    obtain ⟨place,arrives⟩ := walk_passes seat
    cases missing.symm.trans arrives
  · cases seat.symm.trans seat'
    exact ⟨f.unlinked,(part_drop f _).keeps,straight.unlinked,
      fun _ _ l target _ => at?_unlinked_ne f l target⟩

theorem Ready.tail {paths : List Path} (ready : f.Ready dir (p :: paths)) : f.Ready dir paths :=
  ⟨ready.whole,ready.direct,fun d seat =>
    let ⟨way,kept,arrives,off⟩ := ready.beside d seat
    ⟨way,kept,arrives,fun q member => off q (List.mem_cons_of_mem p member)⟩⟩

/-- A link lies at the path, and nothing lies where it leads. -/
def Dangles (f : Files) (p : Path) : Prop :=
  ∃ target l, f.node? p = some (.link target) ∧ f.follow? p = .ok l ∧ f.at? l = none

end Files

namespace Target

variable {t : Target} {exe : String} {others touched : List Path} {served : List UInt8 → Prop}
  {f g : Files} {d l : Location}

/-- Two trees that differ in nothing but entries named by the paths, none of which was a
directory. -/
structure Differs (paths : List Path) (f g : Files) : Prop where
  current : g.current = f.current
  entries : ∀ l, g.at? l ≠ f.at? l →
    f.at? l ≠ some .directory ∧ ∃ p ∈ paths, f.entry? p = .ok (some l)

theorem Change.differs (change : t.Change others served f g) (named : t.Named exe)
    (whole : f.WellFormed) (seat : f.seat? t.directory = .ok d) :
    g.WellFormed ∧ Differs (t.temporary :: t.final :: others) f g := by
  cases change with
  | made above entry vacant =>
    simp [seat?_of_vacant (named.leadsTo above) entry vacant] at seat
  | wrote entry plain =>
    obtain ⟨around,n,rfl,directory⟩ := exists_of_entry entry
    refine ⟨whole.put directory plain.not_directory _,rfl,fun l differs => ?_⟩
    rw [at?_put_entry] at differs
    split at differs
    · next here => exact here ▸ ⟨plain.not_directory,_,List.mem_cons_self,entry⟩
    · exact absurd rfl differs
  | removed member entry present other =>
    obtain ⟨around,n,rfl,directory⟩ := exists_of_entry entry
    have other := present ▸ mt Option.some.inj other
    refine ⟨whole.erase other,rfl,fun l differs => ?_⟩
    rw [at?_erase_entry] at differs
    split at differs
    · next here =>
      refine here ▸ ⟨other,_,?_,entry⟩
      exact (List.mem_cons.mp member).elim (· ▸ List.mem_cons_self)
        fun member => List.mem_cons_of_mem _ (List.mem_cons_of_mem _ member)
    · exact absurd rfl differs
  | moved entry final present other serves =>
    obtain ⟨around,n,rfl,directory⟩ := exists_of_entry entry
    obtain ⟨around',n',rfl,directory'⟩ := exists_of_entry final
    have file : f.at? (around ++ [n]) ≠ some .directory := by simp [present]
    refine ⟨(whole.erase file).put ?_ ?_ _,rfl,fun l differs => ?_⟩
    · rw [at?_erase_entry,if_neg (by rintro rfl; exact file directory')]
      exact directory'
    · rw [at?_erase_entry]
      split <;> simp [other]
    rw [at?_put_entry,at?_erase_entry] at differs
    split at differs
    · next here => exact here ▸ ⟨other,_,by simp,final⟩
    split at differs
    · next here => exact here ▸ ⟨file,_,List.mem_cons_self,entry⟩
    · exact absurd rfl differs

/-- What an install may do to a tree: nothing differs but entries of its directory, those that the
paths name. -/
structure Confined (t : Target) (paths : List Path) (d : Location) (f g : Files) : Prop where
  whole : g.WellFormed
  straight : g.Straight t.directory d
  entries : ∀ l, g.at? l ≠ f.at? l → ∃ p ∈ paths, f.entry? p = .ok (some l)

theorem Differs.straight {paths : List Path} {dir : Path} (differs : Differs paths f g)
    (straight : f.Straight dir d) : g.Straight dir d := by
  refine straight.kept differs.current fun l directory => ?_
  by_cases same : g.at? l = f.at? l
  · exact same.trans directory
  · exact absurd directory (differs.entries l same).1

theorem Confined.change {h : Files}
    (confined : t.Confined (t.temporary :: t.final :: others) d f g)
    (change : t.Change others served g h) (scope : t.Scope exe touched others served)
    (whole : f.WellFormed) (straight : f.Straight t.directory d) :
    t.Confined (t.temporary :: t.final :: others) d f h := by
  obtain ⟨whole',straight',entries⟩ := confined
  obtain ⟨whole'',differs⟩ := change.differs scope.named whole' straight'.seat
  refine ⟨whole'',differs.straight straight',fun l other => ?_⟩
  by_cases same : h.at? l = g.at? l
  · exact entries l (same ▸ other)
  obtain ⟨-,p,member,entry⟩ := differs.entries l same
  have inside : Path.Inside t.directory p := by
    rcases List.mem_cons.mp member with rfl | member
    · exact scope.named.temporary_inside
    rcases List.mem_cons.mp member with rfl | member
    · exact scope.named.final_inside
    · exact scope.inside p (scope.within p member)
  exact ⟨p,member,entry?_of_seat whole' whole inside straight'.seat straight.seat entry⟩

/-- Where the download's place could not be cleared and still a file can be opened there, it is that
very place, unless a link leads on to nothing. -/
theorem plain_of_truncate (named : t.Named exe) (whole : f.WellFormed)
    (firm : ¬ f.Dangles t.temporary)
    (kept : f.holds t.temporary = false ∨ ∃ fault, removeFile t.temporary f = .error fault)
    (opened : truncate t.temporary f = .ok (l,g)) : Plain (f.node? t.temporary) := by
  obtain ⟨followed,opens⟩ := truncate_ok opened
  -- what lies there and is found would have been removed
  have stuck {node : Node} (found : f.at? l ≠ none) (lies : f.node? t.temporary = some node) :
      node = .directory := by
    obtain ⟨k,entry,present⟩ := exists_of_node? lies
    rcases kept with missing | ⟨fault,failed⟩
    · simp [holds,find?,followed,Option.isSome_iff_ne_none.mpr found] at missing
    refine Decidable.byContradiction fun removable => ?_
    have removed := removeFile_isOk.mpr
      ⟨k,node,entry,present,removable,endsInSlash_of_inside named.temporary_inside⟩
    simp [failed,Except.isOk,Except.toBool] at removed
  have unlinked (target : Path) : f.node? t.temporary ≠ some (.link target) := by
    intro link
    cases stuck (fun absent => firm ⟨target,l,link,followed,absent⟩) link
  have entry : f.entry? t.temporary = .ok (some l) := by
    rw [named.temporary] at followed unlinked ⊢
    exact (follow?_joinName whole named.temporary_isName (temporary_step exe) unlinked).mp followed
  rw [node?_of_entry entry] at unlinked stuck ⊢
  rcases opens with ⟨absent,-⟩ | ⟨content,mode,present,-⟩ | ⟨device,-⟩
  · exact .inl absent
  · exact .inr ⟨content,mode,present⟩
  · cases stuck (by simp [device]) device

end Target

namespace Site

variable {s : Site} {ε : Type} {f g : Files} {d : Location} {m after : Machine}
  {pre : Machine → Prop}

/-- What the steps of an install do to a tree in which its directory is reached without a link,
whatever lies at the places that they are made at. -/
theorem confined_of_goes (goes : m.Goes s.Step after) (whole : m.files.WellFormed)
    (straight : m.files.Straight s.target.directory d) (past : m.history = []) :
    ∀ g ∈ after.files :: after.trees m.files,
      s.target.Confined (s.target.temporary :: s.target.final :: s.others) d m.files g := by
  obtain ⟨-,events,history,trace⟩ := goes
  have start : s.target.Confined (s.target.temporary :: s.target.final :: s.others) d
      m.files m.files := ⟨whole,straight,fun _ differs => absurd rfl differs⟩
  have kept (past : List Event) (g h : Files)
      (confined : s.target.Confined (s.target.temporary :: s.target.final :: s.others) d m.files g)
      (taken : s.Step past g h) := confined.change taken (s.scope past) whole straight
  refine List.forall_mem_cons.mpr ⟨trace.preserves kept start,?_⟩
  rw [Machine.trees,history,past,List.nil_append]
  exact trace.throughout (fun _ _ _ confined => confined) kept start

structure Opening (s : Site) (f : Files) (m : Machine) : Prop where
  network : m.network = s.network
  files : m.files = f

def Settled (s : Site) (f : Files) (m : Machine) : Prop := s.Opening f m ∨ s.Working m

def Clear (s : Site) (f : Files) (m : Machine) : Prop :=
  s.Working m ∨ s.Opening f m ∧ ∀ result, truncate s.target.temporary f ≠ .ok result

theorem working_of_removed (network : m.network = s.network)
    (ready : m.files.Ready s.target.directory (s.target.temporary :: s.touched))
    (gone : removeFile s.target.temporary m.files = .ok g) :
    s.Step m.history m.files g ∧ s.Working (m.withFiles g) := by
  obtain ⟨l,node,entry,present,other,rfl⟩ := removeFile_ok gone
  have inside := s.named.temporary_inside
  obtain ⟨d,n,seat,rfl⟩ := seat_of_entry ready.whole inside entry
  obtain ⟨way,kept,arrives,off⟩ := ready.beside d seat
  have directory : m.files.at? (d ++ [n]) ≠ some .directory := fun same =>
    other (Option.some.inj (present.symm.trans same))
  have kept' : Keeps way (m.files.erase (d ++ [n])) := kept.erase
    (kept.off_entry directory fun target => off _ List.mem_cons_self _ target entry)
  have whole' := ready.whole.erase directory
  have entry' := entry?_of_seat ready.whole whole' inside seat (kept'.seat? arrives) entry
  have absent : (m.files.erase (d ++ [n])).node? s.target.temporary = none := by
    rw [node?_of_entry entry',at?_erase_entry,if_pos rfl]
  refine ⟨.removed List.mem_cons_self entry present other,network,
    .there way d whole' kept' arrives (fun p member l target named => ?_) (.inl absent)⟩
  exact off p (List.mem_cons_of_mem _ member) l target ((part_erase _ _).keeps.entry? named)

/-- Clearing the download's place removes what lies there, be it a link, or leaves a place that can
be written to only if it is a regular file's. -/
theorem does_clear (ready : f.Ready s.target.directory (s.target.temporary :: s.touched))
    (firm : ¬ f.Dangles s.target.temporary) :
    Procedure.Does s.Step (s.Settled f) pre
      (discard s.target.temporary : Procedure ε Bool) fun _ m => s.Clear f m := by
  rintro m (⟨network,rfl⟩ | working) _
  case inr =>
    have discards : s.Does (fun _ => True) (discard s.target.temporary : Procedure ε Bool) _ :=
      s.does_discard List.mem_cons_self
    obtain ⟨goes,kept,-⟩ := discards m working trivial
    exact ⟨goes,.inr kept,fun _ _ => .inl kept⟩
  -- the tree is the one that was found, and stays it when nothing is removed
  have stays (kept : m.files.holds s.target.temporary = false ∨
      ∃ fault, removeFile s.target.temporary m.files = .error fault) : s.Clear m.files m := by
    by_cases opens : ∃ result, truncate s.target.temporary m.files = .ok result
    · obtain ⟨result,opened⟩ := opens
      exact .inl ⟨network,.start ready.tail
        (Target.plain_of_truncate s.named ready.whole firm kept opened)⟩
    · exact .inr ⟨⟨network,rfl⟩,fun result opened => opens ⟨result,opened⟩⟩
  rw [run_discard]
  cases holds : m.files.holds s.target.temporary with
  | false => exact ⟨.refl m,.inl ⟨network,rfl⟩,fun _ _ => stays (.inl holds)⟩
  | true =>
    cases gone : removeFile s.target.temporary m.files with
    | error fault => exact ⟨.refl m,.inl ⟨network,rfl⟩,fun _ _ => stays (.inr ⟨fault,gone⟩)⟩
    | ok g =>
      obtain ⟨taken,working⟩ := working_of_removed network ready gone
      exact ⟨Machine.goes_withFiles taken,.inr working,fun _ _ => .inl working⟩

theorem Opening.noting (opening : s.Opening f m) (events : List Event) :
    s.Opening f (m.noting events) := ⟨opening.network,opening.files⟩

theorem does_not_create (seat : f.seat? s.target.directory = .ok d)
    (barred : ∀ result, truncate s.target.temporary f ≠ .ok result) :
    Procedure.Does s.Step (s.Opening f) pre (create s.target.temporary) fun _ _ => False := by
  rintro m ⟨network,rfl⟩ _
  have still := makeParent_still s.named.temporary_inside seat
  simp only [create,run_bind]
  rcases parent : (makeParent s.target.temporary).run m with ⟨fault | _,m'⟩
  all_goals
    rw [parent] at still
    obtain rfl : m' = m := still
  · exact ⟨.refl m',⟨network,rfl⟩,by simp⟩
  · simp only [run_failing,run_openEmpty]
    cases opened : truncate s.target.temporary m'.files with
    | error fault => exact ⟨.refl m',⟨network,rfl⟩,by simp⟩
    | ok result => exact absurd opened (barred result)

theorem does_not_download (seat : f.seat? s.target.directory = .ok d)
    (barred : ∀ result, truncate s.target.temporary f ≠ .ok result) (url : String)
    (version : ReleaseVersion) (shows : Bool) :
    Procedure.Does s.Step (s.Opening f) pre (Download.run url version s.target.temporary shows)
      fun download _ => download.url = url ∧ download.outcome ≠ .completed := by
  have noted (m : Machine) (events : List Event) (opening : s.Opening f m) :
      s.Opening f (m.noting events) := ⟨opening.network,opening.files⟩
  have begins : Procedure.Does s.Step (s.Opening f) pre
      (record (.downloading version.text url) : Procedure InstallError Unit) fun _ _ => True :=
    .record rfl noted
  have asks : Procedure.Does s.Step (s.Opening f) (fun _ => True) (Net.request url) _ :=
    .noting (Net.run_request url) (by simp [Event.files?]) noted
  refine .bind begins fun _ => .bind (.failing asks _) fun r => ?_
  split
  · exact .pure fun _ _ => ⟨rfl,by simp⟩
  split
  · exact .bind (.failing (does_not_create seat barred) _) fun _ _ _ opened => opened.elim
  · exact .throw _

/-- An install fetches its download within the directory from whatever it finds there, unless a link
at the download's place leads on to nothing. -/
theorem fetches_ready {i : Install} (aimed : i.target = s.target)
    (ready : f.Ready s.target.directory (s.target.temporary :: s.touched))
    (firm : ¬ f.Dangles s.target.temporary) :
    i.Fetches s.Step (s.Settled f) (s.Clear f) fun download m =>
      s.Working m ∧ s.Fetched download m where
  noted _ _ settled := settled.imp (fun opening => ⟨opening.network,opening.files⟩)
    fun working => ⟨working.network,working.fit⟩
  clears _ := by
    rw [aimed]
    exact does_clear ready firm
  downloads url version := by
    rw [aimed]
    have writes : s.Does (fun _ => True) (Download.run url version s.target.temporary i.shows) _ :=
      s.does_download url version i.shows
    have writes' : Procedure.Does s.Step (s.Settled f) s.Working
        (Download.run url version s.target.temporary i.shows) fun download m =>
          download.url = url ∧ (download.outcome = .completed → s.Working m ∧ s.Fetched download m) :=
      (writes.under fun _ => .inr).weaken (fun _ _ working => ⟨working,trivial⟩)
        fun _ _ _ ⟨working,url,fetched⟩ => ⟨url,fun completed => ⟨working,fetched completed⟩⟩
    cases seat : f.seat? s.target.directory with
    | error fault =>
      -- where the directory is missing, nothing is in the way of the download
      refine writes'.weaken (fun m _ clear => ?_) fun _ _ _ post => post
      rcases clear with working | ⟨⟨network,rfl⟩,-⟩
      · exact working
      · exact ⟨network,.away ready.whole ready.direct (by simp [seat])⟩
    | ok d =>
      refine .either writes' ?_
      intro m settled ⟨opening,barred⟩
      have skips : Procedure.Does s.Step (s.Opening f) (fun _ => True) _ _ :=
        does_not_download seat barred url version i.shows
      obtain ⟨goes,kept,post⟩ := skips m opening trivial
      refine ⟨goes,.inl kept,fun download ran => ?_⟩
      obtain ⟨url,other⟩ := post download ran
      exact ⟨url,fun completed => absurd completed other⟩

theorem fetches_settled {i : Install} (aimed : i.target = s.target) (whole : f.WellFormed)
    (straight : f.Straight s.target.directory d) (firm : ¬ f.Dangles s.target.temporary) :
    i.Fetches s.Step (s.Settled f) (s.Clear f) fun download m =>
      s.Working m ∧ s.Fetched download m :=
  fetches_ready aimed (.of_straight whole straight) firm

end Site

namespace Install

variable {i : Install} {dir : Path} {f : Files} {d : Location} {network : Net.Network}
  {disk : List (Option Nat)} {explicit : Option ReleaseVersion} {after : Machine}
  {result : Except InstallError Installed}

/-- Whatever lies in the directory and whether the install succeeds or fails, no tree on its way
differs from the first one in anything but the entries of the directory that its paths name; and
after a success the binary is a regular file. The directory is reached without a link, and no link
that leads to nothing takes the download's place. -/
theorem confined_of_run (aims : i.Aims dir) (whole : f.WellFormed) (straight : f.Straight dir d)
    (firm : ¬ f.Dangles i.target.temporary)
    (ran : (i.run explicit).run ⟨f,network,disk,[]⟩ = (result,after)) :
    (∀ g ∈ after.files :: after.trees f, ∀ l, g.at? l ≠ f.at? l → (∃ n, l = d ++ [n]) ∧
      ∃ p ∈ i.target.temporary :: i.target.final :: i.target.legacy :: i.companions true,
        f.entry? p = .ok (some l)) ∧
    ∀ installed, result = .ok installed →
      ∃ octets, after.files.node? i.target.final = some (.file (.data octets) 0o755) := by
  have straight : f.Straight i.target.directory d := aims.target ▸ straight
  have runs : Procedure.Does (aims.site network).Step ((aims.site network).Settled f)
      (fun _ => True) (i.run explicit) _ :=
    (Site.fetches_settled rfl whole straight firm).run (aims.worksAt network) (fun _ => .inr)
      explicit
  obtain ⟨goes,-,post⟩ := runs ⟨f,network,disk,[]⟩ (.inl ⟨rfl,rfl⟩) trivial
  rw [ran] at goes post
  refine ⟨fun g member l differs => ?_,post⟩
  obtain ⟨p,listed,entry⟩ := (Site.confined_of_goes goes whole straight rfl g member).entries l differs
  have inside := aims.named.inside (aims.site network).inside listed
  obtain ⟨d',n,seat,rfl⟩ := seat_of_entry whole inside entry
  cases seat.symm.trans straight.seat
  exact ⟨⟨n,rfl⟩,p,listed,entry⟩

def diverted : Files := ⟨[([Path.nameOctets "devspace.dl"],.link (.ofString "/notes")),
  ([Path.nameOctets "notes"],.file (.data [0]) 0o600)],[]⟩

theorem confined_of_run_diverted : ∃ installed after,
    ((intoRoot .linux).run (some ⟨"1.0.0"⟩)).run ⟨diverted,.serving [1],[],[]⟩ =
      (.ok installed,after) ∧
    after.files.at? [Path.nameOctets "notes"] = some (.file (.data [0]) 0o600) ∧
    ∃ octets, after.files.node? (intoRoot .linux).target.final =
      some (.file (.data octets) 0o755) := by
  have succeeds : (((intoRoot .linux).run (some ⟨"1.0.0"⟩)).run
      ⟨diverted,.serving [1],[],[]⟩).1.isOk = true := by decide +kernel
  obtain ⟨installed,after,ran⟩ := exists_of_isOk succeeds
  have aims : (intoRoot .linux).Aims ⟨[Path.slash]⟩ := aims_into _ .linux
  have firm : ¬ diverted.Dangles (intoRoot .linux).target.temporary := by
    have found : diverted.follow? (intoRoot .linux).target.temporary =
        .ok [Path.nameOctets "notes"] := rfl
    rintro ⟨_,l,-,followed,absent⟩
    cases found.symm.trans followed
    exact absurd absent (by decide +kernel)
  obtain ⟨within,final⟩ :=
    confined_of_run aims (wellFormed_of_flat (by decide)) (d := []) rfl firm ran
  have elsewhere : ∀ p ∈ (intoRoot .linux).target.temporary :: (intoRoot .linux).target.final ::
      (intoRoot .linux).target.legacy :: (intoRoot .linux).companions true,
      (diverted.entry? p).toOption ≠ some (some [Path.nameOctets "notes"]) := by decide +kernel
  refine ⟨installed,after,ran,Decidable.byContradiction fun differs => ?_,final installed rfl⟩
  obtain ⟨-,p,member,entry⟩ := within after.files List.mem_cons_self _ differs
  exact elsewhere p member (congrArg Except.toOption entry)

def dangling : Files := ⟨[([Path.nameOctets "bin"],.directory),
  ([Path.nameOctets "bin",Path.nameOctets "devspace.dl"],.link (.ofString "/outside"))],[]⟩

def intoBin : Install := { intoRoot .linux with
  target := .make (.ofString "/bin") "devspace" .linux }

/-- Through a link that leads to nothing the download is written where it leads, and made executable
there; what becomes the binary is the link. -/
theorem outside_of_run_dangling :
    let ran := (intoBin.run (some ⟨"1.0.0"⟩)).run ⟨dangling,.serving [1],[],[]⟩
    dangling.Straight (.ofString "/bin") [Path.nameOctets "bin"] ∧
    dangling.Dangles intoBin.target.temporary ∧
    ran.1.isOk = true ∧
    dangling.at? [Path.nameOctets "outside"] = none ∧
    ran.2.files.at? [Path.nameOctets "outside"] = some (.file (.data [1]) 0o755) ∧
    ran.2.files.node? intoBin.target.final = some (.link (.ofString "/outside")) :=
  ⟨rfl,⟨.ofString "/outside",[Path.nameOctets "outside"],by decide +kernel,rfl,by decide +kernel⟩,
    by decide +kernel⟩

end Install
end ReleaseInstaller
