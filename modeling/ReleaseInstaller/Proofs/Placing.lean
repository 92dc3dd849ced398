import ReleaseInstaller.Proofs.Fetch

/-! Placing a download: what the target's directory shows at each name, as the old files are cleared
away, the download is moved over the binary, and the scripts beside it are removed. -/
namespace ReleaseInstaller

open Files Procedure

/-- What the directory of the target shows below it, by path. -/
def Target.Shows (t : Target) (x : Path → Option Node) (f : Files) : Prop :=
  ∀ q, Path.Inside t.directory q → f.node? q = x q

theorem Target.shows_node? (t : Target) (f : Files) : t.Shows f.node? f := fun _ _ => rfl

def showing (x : Path → Option Node) (p : Path) (node : Option Node) (q : Path) : Option Node :=
  if q = p then node else x q

@[simp] theorem showing_self : showing x p node p = node := by simp [showing]

theorem showing_showing (x : Path → Option Node) (p : Path) (first second : Option Node) :
    showing (showing x p first) p second = showing x p second := by
  funext q
  simp only [showing]
  split <;> rfl

theorem showing_of_ne (differ : q ≠ p) : showing x p node q = x q := by simp [showing,differ]

/-- Of the paths, those that showed regular files show nothing any more and are listed; nothing
else is shown in another way than before. -/
structure Swept (x : Path → Option Node) (paths : List Path) (y : Path → Option Node)
    (removed : List Path) : Prop where
  others : ∀ q, q ∉ paths → y q = x q
  gone : (∀ p ∈ paths, Plain (x p)) → ∀ p ∈ paths, y p = none
  listed : (∀ p ∈ paths, Plain (x p)) → removed = paths.filter fun p => (x p).isSome

theorem Swept.nil (x : Path → Option Node) : Swept x [] x [] := ⟨fun _ _ => rfl,by simp,by simp⟩

theorem Swept.cons_removed (swept : Swept (showing x p none) rest y removed) (fresh : p ∉ rest)
    (present : (x p).isSome = true) : Swept x (p :: rest) y (p :: removed) := by
  have later (q : Path) (member : q ∈ rest) : showing x p none q = x q :=
    showing_of_ne (by rintro rfl; exact fresh member)
  have plain (all : ∀ q ∈ p :: rest, Plain (x q)) (q : Path) (member : q ∈ rest) :
      Plain (showing x p none q) := later q member ▸ all q (List.mem_cons_of_mem p member)
  constructor
  case others =>
    intro q other
    rw [List.mem_cons,not_or] at other
    rw [swept.others q other.2,showing_of_ne other.1]
  case gone =>
    intro all
    exact List.forall_mem_cons.mpr
      ⟨by rw [swept.others p fresh,showing_self],swept.gone (plain all)⟩
  case listed =>
    intro all
    rw [List.filter_cons_of_pos (by exact present),swept.listed (plain all)]
    exact congrArg _ (List.filter_congr fun q member => by rw [later q member])

theorem Swept.cons_kept (swept : Swept x rest y removed) (fresh : p ∉ rest)
    (absent : Plain (x p) → x p = none) : Swept x (p :: rest) y removed := by
  refine ⟨fun q other => swept.others q (mt (List.mem_cons_of_mem p) other),fun all => ?_,
    fun all => ?_⟩
  all_goals obtain ⟨first,more⟩ := List.forall_mem_cons.mp all
  · exact List.forall_mem_cons.mpr
      ⟨by rw [swept.others p fresh,absent first],swept.gone more⟩
  · rw [List.filter_cons_of_neg (by simp [absent first]),swept.listed more]

namespace Site

variable {s : Site} {ε : Type} {pre : Machine → Prop} {f g : Files} {p q : Path} {l : Location}
  {x : Path → Option Node} {octets : List UInt8}

theorem shows_at_entry (shows : s.target.Shows x f) (fit : s.target.Fit s.touched f)
    (fit' : s.target.Fit s.touched g) (steady : Steady s.target.directory f g)
    (inside : Path.Inside s.target.directory p) (entry : f.entry? p = .ok (some l))
    (same : ∀ k, k ≠ l → g.at? k = f.at? k) : s.target.Shows (showing x p (g.at? l)) g := by
  intro q inside'
  by_cases here : q = p
  · subst here
    rw [showing_self,node?_of_entry (steady.inside fit.whole fit'.whole inside entry)]
  · rw [showing_of_ne here,← shows q inside']
    exact fit.node?_elsewhere fit' steady (Path.apart_of_ne inside inside' (Ne.symm here)) entry same

theorem shows_removed (shows : s.target.Shows x f) (fit : s.target.Fit s.touched f)
    (member : p ∈ s.target.temporary :: s.others) (gone : removeFile p f = .ok g) :
    s.target.Shows (showing x p none) g := by
  obtain ⟨taken,absent⟩ := removed fit member [] gone
  obtain ⟨fit',steady⟩ := taken.fit fit (s.scope [])
  obtain ⟨l,node,entry,present,-,rfl⟩ := removeFile_ok gone
  have inside := s.named.inside s.inside ((s.scope []).member member)
  obtain ⟨d,n,rfl,-⟩ := exists_of_entry entry
  have shows' := shows_at_entry shows fit fit' steady inside entry fun k other => by
    rw [at?_erase_entry,if_neg other]
  rwa [at?_erase_entry,if_pos rfl] at shows'

theorem node?_of_kept (fit : s.target.Fit s.touched f)
    (inside : Path.Inside s.target.directory p) (plain : Plain (f.node? p))
    (kept : f.holds p = false ∨ ∃ fault, removeFile p f = .error fault) : f.node? p = none := by
  rcases plain with absent | ⟨content,mode,file⟩
  · exact absent
  · obtain ⟨l,entry,present⟩ := exists_of_node? file
    have found := holds_of_file fit.whole inside file
    have gone := removeFile_file entry present (endsInSlash_of_inside inside)
    rcases kept with missing | ⟨fault,failed⟩
    · simp [found] at missing
    · simp [gone] at failed

theorem does_discard_shows (member : p ∈ s.target.temporary :: s.others) :
    s.Does (fun m => s.target.Shows x m.files) (discard p : Procedure ε Bool) fun _ m =>
      ∃ node, s.target.Shows (showing x p node) m.files ∧ (Plain (x p) → node = none) := by
  intro m working shows
  have discards : s.Does (fun _ => True) (discard p : Procedure ε Bool) _ := does_discard member
  obtain ⟨goes,kept,-⟩ := discards m working trivial
  refine ⟨goes,kept,?_⟩
  intro _ _
  have inside := s.named.inside s.inside ((s.scope []).member member)
  have same : s.target.Shows (showing x p (m.files.node? p)) m.files := by
    intro q inside'
    by_cases here : q = p
    · rw [here,showing_self]
    · rw [showing_of_ne here,shows q inside']
  rw [run_discard]
  rw [← shows p inside]
  cases holds : m.files.holds p with
  | false => exact ⟨_,same,fun plain => node?_of_kept working.fit inside plain (.inl holds)⟩
  | true =>
    cases gone : removeFile p m.files with
    | error fault =>
      exact ⟨_,same,fun plain => node?_of_kept working.fit inside plain (.inr ⟨fault,gone⟩)⟩
    | ok g => exact ⟨none,shows_removed shows working.fit member gone,fun _ => rfl⟩

/-- Of the paths that are discarded one after another, the regular files are gone and are listed. -/
theorem does_discardEach (paths : List Path) (unique : paths.Nodup)
    (members : ∀ p ∈ paths, p ∈ s.others) :
    s.Does (fun m => s.target.Shows x m.files) (Install.discardEach paths : Procedure ε (List Path))
      fun removed m => ∃ y, s.target.Shows y m.files ∧ Swept x paths y removed := by
  induction paths generalizing x with
  | nil => exact .pure fun m shows => ⟨x,shows,.nil x⟩
  | cons p rest ih =>
    obtain ⟨fresh,unique⟩ := List.nodup_cons.mp unique
    have member := List.mem_cons_of_mem s.target.temporary (members p List.mem_cons_self)
    have inside := s.named.inside s.inside ((s.scope []).member member)
    have ih {x} := ih (x := x) unique fun q member => members q (List.mem_cons_of_mem _ member)
    intro m working shows
    rw [Install.run_discardEach_cons]
    split
    · next g holds gone =>
      obtain ⟨taken,-⟩ := removed working.fit member m.history gone
      have working' := working.withFiles (taken.fit working.fit (s.scope _)).1
      have goes : m.Goes s.Step (m.withFiles g) := Machine.goes_withFiles taken
      have later := ih (m.withFiles g) working' (shows_removed shows working.fit member gone)
      have present : (x p).isSome = true := by
        obtain ⟨l,node,entry,present,-⟩ := removeFile_ok gone
        rw [← shows p inside,node?_of_entry entry,present]
        rfl
      revert later
      rcases (Install.discardEach rest : Procedure ε (List Path)).run (m.withFiles g) with
        ⟨_ | removed,after⟩ <;> rintro ⟨goes',kept,post⟩
      · exact ⟨goes.trans goes',kept,fun _ same => nomatch same⟩
      refine ⟨goes.trans goes',kept,?_⟩
      intro all same
      cases same
      obtain ⟨y,shown,swept⟩ := post removed rfl
      exact ⟨y,shown,swept.cons_removed fresh present⟩
    · next kept =>
      obtain ⟨goes,working',post⟩ := ih m working shows
      refine ⟨goes,working',?_⟩
      intro removed same
      obtain ⟨y,shown,swept⟩ := post removed same
      refine ⟨y,shown,swept.cons_kept fresh ?_⟩
      intro plain
      rw [← shows p inside] at plain ⊢
      refine node?_of_kept working.fit inside plain ?_
      cases holds : m.files.holds p with
      | false => exact .inl rfl
      | true =>
        cases gone : removeFile p m.files with
        | error fault => exact .inr ⟨fault,rfl⟩
        | ok g => exact absurd gone (kept g holds)

/-- No directory is made around what lies in a directory that is there. -/
theorem makeParent_still {dir : Path} {d : Location} {m : Machine} (inside : Path.Inside dir p)
    (seat : m.files.seat? dir = .ok d) : ((makeParent p).run m).2 = m := by
  obtain ⟨name,isName,rfl⟩ := inside
  have cannot {q : Path} (above : q.Above (dir.joinName name)) :
      ∃ fault, makeDirectory q m.files = .error fault := by
    cases made : makeDirectory q m.files with
    | error fault => exact ⟨fault,rfl⟩
    | ok g =>
      obtain ⟨l,entry,vacant,-⟩ := makeDirectory_ok made
      simp [seat?_of_vacant (above.leadsTo isName) entry vacant] at seat
  unfold makeParent
  split
  · rfl
  · next parent up =>
    simp only [makeDirectories,run_bind,run_look]
    split
    · rfl
    · refine makeUpward_still parent.ancestors fun q member => cannot ?_
      rcases Path.above_of_mem_ancestors member with rfl | above
      · exact .parent up
      · exact above.trans (.parent up)

theorem setMode_temporary {mode : Nat} (fit : s.target.Fit s.touched f)
    (changed : setMode s.target.temporary mode f = .ok g) :
    ∃ l content old, f.entry? s.target.temporary = .ok (some l) ∧
      f.at? l = some (.file content old) ∧ g = f.put l (.file content mode) := by
  obtain ⟨l,node,followed,present,rfl⟩ := setMode_ok changed
  have entry := (fit.follow? s.named).mp followed
  rcases fit.plain_at s.named entry with absent | ⟨content,old,file⟩
  · simp [present] at absent
  · obtain rfl : node = .file content old := Option.some.inj (present.symm.trans file)
    exact ⟨l,content,old,entry,file,rfl⟩

theorem does_updateMode {content : Content} {old mode : Nat}
    (file : x s.target.temporary = some (.file content old)) :
    s.Does (fun m => s.target.Shows x m.files) (updateMode s.target.temporary mode) fun _ m =>
      s.target.Shows (showing x s.target.temporary (some (.file content mode))) m.files := by
  refine .failing (does_change fun m g working shows changed => ?_) _
  obtain ⟨l,content',old',entry,present,rfl⟩ := setMode_temporary working.fit changed
  have same : some (Node.file content' old') = some (.file content old) := by
    rw [← present,← node?_of_entry entry,shows _ s.named.temporary_inside,file]
  cases same
  refine ⟨.wrote entry (.inr ⟨_,_,present⟩),?_⟩
  intro fit steady
  obtain ⟨d,n,rfl,-⟩ := exists_of_entry entry
  have shows' := shows_at_entry shows working.fit fit steady s.named.temporary_inside entry
    fun k other => by rw [at?_put_entry,if_neg other]
  rwa [at?_put_entry,if_pos rfl] at shows'

theorem shows_moved {k : Location} {node : Node} (shows : s.target.Shows x f)
    (fit : s.target.Fit s.touched f)
    (fit' : s.target.Fit s.touched ((f.erase l).put k node))
    (steady : Steady s.target.directory f ((f.erase l).put k node))
    (entry : f.entry? s.target.temporary = .ok (some l))
    (final : f.entry? s.target.final = .ok (some k)) :
    s.target.Shows (showing (showing x s.target.temporary none) s.target.final (some node))
      ((f.erase l).put k node) := by
  obtain ⟨d,n,seat,rfl⟩ := seat_of_entry fit.whole s.named.temporary_inside entry
  obtain ⟨d',n',-,rfl⟩ := seat_of_entry fit.whole s.named.final_inside final
  have apart := entry?_apart fit.whole s.named.temporary_final entry final
  intro q inside
  by_cases atFinal : q = s.target.final
  · subst atFinal
    rw [showing_self,node?_of_entry (steady.inside fit.whole fit'.whole inside final),
      at?_put_entry,if_pos rfl]
  rw [showing_of_ne atFinal]
  by_cases atTemporary : q = s.target.temporary
  · subst atTemporary
    rw [showing_self,node?_of_entry (steady.inside fit.whole fit'.whole inside entry),
      at?_put_entry,if_neg apart.symm,at?_erase_entry,if_pos rfl]
  rw [showing_of_ne atTemporary,← shows q inside]
  refine node?_of_seat fit.whole fit'.whole inside seat (steady.seat d seat) fun i entry' => ?_
  have other := entry?_apart fit.whole
    (Path.apart_of_ne s.named.final_inside inside (Ne.symm atFinal)) final entry'
  have other' := entry?_apart fit.whole
    (Path.apart_of_ne s.named.temporary_inside inside (Ne.symm atTemporary)) entry entry'
  rw [at?_put_entry,if_neg other,at?_erase_entry,if_neg other']

theorem does_move (file : x s.target.temporary =
      some (.file (.data octets) Replacement.executableMode)) :
    s.Does (fun m => s.served m.history octets ∧ s.target.Shows x m.files)
      (move s.target.temporary s.target.final) fun _ m =>
        s.target.Shows (showing (showing x s.target.temporary none) s.target.final
          (some (.file (.data octets) Replacement.executableMode))) m.files := by
  have around : s.Does (fun m => s.served m.history octets ∧ s.target.Shows x m.files)
      (makeParent s.target.final) fun _ m =>
        s.served m.history octets ∧ s.target.Shows x m.files := by
    rintro m working ⟨serves,shows⟩
    obtain ⟨l,entry,-⟩ := exists_of_node? ((shows _ s.named.temporary_inside).trans file)
    obtain ⟨d,_,seat,-⟩ := seat_of_entry working.fit.whole s.named.temporary_inside entry
    have still := makeParent_still s.named.final_inside seat
    rw [still]
    exact ⟨.refl m,working,fun _ _ => ⟨serves,shows⟩⟩
  refine Procedure.Does.bind around fun _ => .failing (does_change fun m g working => ?_) _
  rintro ⟨serves,shows⟩ renamed
  obtain ⟨l,entry,present⟩ := exists_of_node? ((shows _ s.named.temporary_inside).trans file)
  obtain ⟨k,final,moved⟩ := rename_file entry present renamed
  have apart := entry?_apart working.fit.whole s.named.temporary_final entry final
  rcases moved with ⟨same,-⟩ | ⟨other,rfl⟩
  · exact absurd same.symm apart
  · exact ⟨.moved entry final present other serves,fun fit steady =>
      shows_moved shows working.fit fit steady entry final⟩

theorem does_replacement {mode : Nat}
    (file : x s.target.temporary = some (.file (.data octets) mode)) :
    s.Does (fun m => s.served m.history octets ∧ s.target.Shows x m.files)
      (Replacement.run s.target.temporary s.target.final) fun _ m =>
        s.target.Shows (showing (showing x s.target.temporary none) s.target.final
          (some (.file (.data octets) Replacement.executableMode))) m.files := by
  have executable : s.Does (fun m => s.target.Shows x m.files)
      (updateMode s.target.temporary Replacement.executableMode) _ := does_updateMode file
  have moves : s.Does (fun m => s.served m.history octets ∧ s.target.Shows (showing x
      s.target.temporary (some (.file (.data octets) Replacement.executableMode))) m.files)
      (move s.target.temporary s.target.final) _ := does_move showing_self
  rw [showing_showing] at moves
  exact .failing (.bind (executable.keeping (P := fun past => s.served past octets)
    fun past more => s.grows past more octets) fun _ => moves) _

end Site

/-- What a placed binary comes to be shown by, when the directory showed `x` before: the binary is
the download, of which nothing else is left, and regular files among the old ones are gone. -/
structure Target.Placed (t : Target) (x : Path → Option Node) (octets : List UInt8)
    (companions : List Path) (y : Path → Option Node) (removed : List Path) : Prop where
  final : y t.final = some (.file (.data octets) Replacement.executableMode)
  temporary : y t.temporary = none
  legacy : Plain (x t.legacy) → y t.legacy = none
  gone : (∀ p ∈ companions, Plain (x p)) → ∀ p ∈ companions, y p = none
  listed : (∀ p ∈ companions, Plain (x p)) → removed = companions.filter fun p => (x p).isSome
  others : ∀ q, q ∉ t.temporary :: t.final :: t.legacy :: companions → y q = x q

namespace Install

variable {s : Site} {i : Install} {x : Path → Option Node} {octets : List UInt8}

def companions (i : Install) (all : Bool) : List Path :=
  i.target.companions i.settings.binaryName i.platform.os all

/-- The install works at this site, and its paths are those that may be removed there. -/
structure WorksAt (i : Install) (s : Site) : Prop where
  aimed : i.target = s.target
  legacy : s.target.legacy ∈ s.others
  companions : ∀ all, ∀ p ∈ i.companions all, p ∈ s.others
  unique : ∀ all, (i.companions all).Nodup
  apart : ∀ all, ∀ p ∈ i.companions all,
    p ≠ s.target.temporary ∧ p ≠ s.target.final ∧ p ≠ s.target.legacy
  serves : ∀ past url octets, Download.Served s.network past url octets → s.served past octets

/-- What is shown once the old files are cleared away and the download has been moved. -/
def shownWith (t : Target) (x : Path → Option Node) (octets : List UInt8) (before after : Option Node) :
    Path → Option Node :=
  showing (showing (showing (showing x t.legacy before) t.temporary none) t.final
    (some (.file (.data octets) Replacement.executableMode))) t.legacy after

theorem placed_of_swept (works : i.WorksAt s) {before after : Option Node} {all : Bool}
    {y : Path → Option Node} {removed : List Path}
    (cleared : Plain (x s.target.legacy) → before = none) (cleared' : Plain before → after = none)
    (swept : Swept (shownWith s.target x octets before after) (i.companions all) y removed) :
    s.target.Placed x octets (i.companions all) y removed := by
  have final_ne := s.named.temporary_final.ne
  have legacy_ne := s.named.legacy_final.ne
  have legacy_ne' := s.named.legacy_temporary.ne
  have off (p : Path) (member : p ∈ i.companions all) :
      shownWith s.target x octets before after p = x p := by
    obtain ⟨temporary,final,legacy⟩ := works.apart all p member
    simp [shownWith,showing,temporary,final,legacy]
  have plain (all' : ∀ p ∈ i.companions all, Plain (x p)) (p : Path)
      (member : p ∈ i.companions all) : Plain (shownWith s.target x octets before after p) :=
    off p member ▸ all' p member
  constructor
  case final =>
    rw [swept.others _ fun member => (works.apart all _ member).2.1 rfl]
    simp [shownWith,showing,legacy_ne.symm]
  case temporary =>
    rw [swept.others _ fun member => (works.apart all _ member).1 rfl]
    simp [shownWith,showing,legacy_ne'.symm,final_ne]
  case legacy =>
    intro legacy
    rw [swept.others _ fun member => (works.apart all _ member).2.2 rfl]
    simpa [shownWith,showing] using cleared' (.inl (cleared legacy))
  case gone => exact fun all' => swept.gone (plain all')
  case listed =>
    intro all'
    rw [swept.listed (plain all')]
    exact List.filter_congr fun p member => by rw [off p member]
  case others =>
    intro q other
    simp only [List.mem_cons,not_or] at other
    obtain ⟨temporary,final,legacy,companion⟩ := other
    rw [swept.others q companion]
    simp [shownWith,showing,temporary,final,legacy]

/-- A binary is placed as `Placed` says. -/
theorem does_putInPlace (works : i.WorksAt s) (version : ReleaseVersion) (download : Download)
    {mode : Nat} {url : String} (file : x s.target.temporary = some (.file (.data octets) mode)) :
    s.Does (fun m => Download.Served s.network m.history url octets ∧ s.target.Shows x m.files)
      (i.putInPlace version download) fun installed m => ∃ y all, s.target.Shows y m.files ∧
        s.target.Placed x octets (i.companions all) y installed.removed ∧
        installed = ⟨version,s.target.final,download,! all,installed.removed⟩ := by
  have enters (phase : Phase) (Q : Machine → Prop) (kept : ∀ m, Q m → Q (m.record (.entered phase))) :
      s.Does Q (record (.entered phase) : Procedure InstallError Unit) fun _ => Q :=
    s.does_record rfl kept
  have clears {x : Path → Option Node} : s.Does (fun m => s.target.Shows x m.files)
      (discard s.target.legacy : Procedure InstallError Bool) _ :=
    s.does_discard_shows (List.mem_cons_of_mem _ works.legacy)
  have clears' : s.Does
      (fun m => Download.Served s.network m.history url octets ∧ s.target.Shows x m.files)
      (discard s.target.legacy : Procedure InstallError Bool) _ :=
    clears.keeping (P := fun past => Download.Served s.network past url octets)
      fun past more known => known.append more
  unfold putInPlace
  rw [works.aimed]
  refine .bind (enters _ _ fun m post => ⟨post.1.append _,post.2⟩) fun _ =>
    .bind (.look _) fun all => .bind (clears'.start fun m _ post => post.2) fun _ => ?_
  -- what is shown at the legacy path from now on depends on whether it could be cleared
  refine .each ?_
  rintro m _ ⟨served,before,shows,cleared⟩
  have kept : showing x s.target.legacy before s.target.temporary =
      some (.file (.data octets) mode) := by
    rw [showing_of_ne s.named.legacy_temporary.ne.symm,file]
  refine .bind ((s.does_replacement kept).start fun _ _ same =>
    same ▸ ⟨works.serves _ _ _ served,shows⟩) fun _ => .bind clears fun _ => ?_
  refine .each ?_
  rintro m _ ⟨after,shows,cleared'⟩
  have same : showing (showing (showing x s.target.legacy before) s.target.temporary none)
      s.target.final (some (.file (.data octets) Replacement.executableMode)) s.target.legacy =
      before := by
    rw [showing_of_ne s.named.legacy_final.ne,showing_of_ne s.named.legacy_temporary.ne,showing_self]
  rw [same] at cleared'
  rw [show s.target.companions i.settings.binaryName i.platform.os (! ! all) = i.companions all by
    rw [Bool.not_not,companions,works.aimed]]
  refine .bind ((s.does_discardEach _ (works.unique all) (works.companions all)).start
    fun _ _ same => same ▸ shows) fun removed => .bind (enters _ _ fun m post => post) fun _ =>
    .pure fun m ⟨y,shows,swept⟩ => ?_
  exact ⟨y,all,shows,placed_of_swept works cleared cleared' swept,rfl⟩

structure Delivered (s : Site) (installed : Installed) (m : Machine) : Prop where
  binary : installed.binary = s.target.final
  file : ∃ octets,
    m.files.node? s.target.final = some (.file (.data octets) Replacement.executableMode) ∧
    installed.download.written = octets.length ∧
    Download.Served s.network m.history installed.download.url octets

/-- An attempt makes only changes of an install, and one that succeeds delivers the binary. -/
theorem Fetches.attempt {inv clear pre : Machine → Prop} (works : i.WorksAt s)
    (fetches : i.Fetches s.Step inv clear fun d m => s.Working m ∧ s.Fetched d m)
    (weaker : ∀ m, s.Working m → inv m) (explicit : Option ReleaseVersion) :
    Procedure.Does s.Step inv pre (i.attempt explicit) (Delivered s) := by
  refine .bind (fetches.obtain explicit) fun ⟨version,download⟩ =>
    .each fun m _ ⟨_,working,octets,mode,file,written,served⟩ => ?_
  have places : s.Does (fun n => Download.Served s.network n.history download.url octets ∧
      s.target.Shows m.files.node? n.files) (i.putInPlace version download) _ :=
    does_putInPlace works version download file
  have places' := places.keeping (P := fun past => Download.Served s.network past download.url octets)
    fun _ more served => served.append more
  refine (places'.under weaker).weaken (fun n _ same => ?_) ?_
  · cases same
    exact ⟨working,served,served,s.target.shows_node? m.files⟩
  · rintro installed n - ⟨-,served,y,all,shows,placed,same⟩
    rw [same]
    exact ⟨rfl,octets,(shows _ s.named.final_inside).trans placed.final,written,served⟩

theorem Fetches.run_delivers {inv clear pre : Machine → Prop} (works : i.WorksAt s)
    (fetches : i.Fetches s.Step inv clear fun d m => s.Working m ∧ s.Fetched d m)
    (weaker : ∀ m, s.Working m → inv m) (explicit : Option ReleaseVersion) :
    Procedure.Does s.Step inv pre (i.run explicit) (Delivered s) := by
  refine .bind (.outcome (fetches.attempt works weaker explicit)) fun result => ?_
  split
  · next installed => exact .pure fun m placed => placed installed rfl
  · exact .bind (fetches.enter .failed) fun _ => .bind (fetches.clears _) fun _ => .throw _

theorem Fetches.run {inv clear pre : Machine → Prop} (works : i.WorksAt s)
    (fetches : i.Fetches s.Step inv clear fun d m => s.Working m ∧ s.Fetched d m)
    (weaker : ∀ m, s.Working m → inv m) (explicit : Option ReleaseVersion) :
    Procedure.Does s.Step inv pre (i.run explicit) fun _ m => ∃ octets,
      m.files.node? s.target.final = some (.file (.data octets) Replacement.executableMode) :=
  (fetches.run_delivers works weaker explicit).weaken (fun _ _ start => start)
    fun _ _ _ delivered => let ⟨octets,file,_⟩ := delivered.file; ⟨octets,file⟩

theorem does_run (works : i.WorksAt s) (explicit : Option ReleaseVersion) :
    s.Does (fun _ => True) (i.run explicit) fun _ _ => True :=
  ((fetches works.aimed).run works (fun _ working => working) explicit).weaken
    (fun _ _ start => start) fun _ _ _ _ => trivial

end Install
end ReleaseInstaller
