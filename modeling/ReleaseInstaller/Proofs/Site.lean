import ReleaseInstaller.Proofs.Change
import ReleaseInstaller.Proofs.Operation
import ReleaseInstaller.Proofs.Trace

/-! Where an install works, and what its work on files does there: directories are made around the
download, the download is written, and files are removed. -/
namespace ReleaseInstaller

open Files Procedure

/-- A target with the paths that may be touched there, those that may be removed, and what may be
moved over the binary after a past. -/
structure Site where
  target : Target
  exe : String
  touched : List Path
  others : List Path
  served : List Event → List UInt8 → Prop
  network : Net.Network
  scope : ∀ past, target.Scope exe touched others (served past)
  grows : ∀ past more octets, served past octets → served (past ++ more) octets

namespace Site

variable {s : Site} {ε α : Type} {pre : Machine → Prop} {f g : Files} {p q : Path} {l : Location}
  {octets : List UInt8}

def Step (s : Site) (past : List Event) : Files → Files → Prop :=
  s.target.Change s.others (s.served past)

structure Working (s : Site) (m : Machine) : Prop where
  network : m.network = s.network
  fit : s.target.Fit s.touched m.files

/-- Started where the precondition holds, the procedure makes only changes of an install. -/
def Does (s : Site) (pre : Machine → Prop) (p : Procedure ε α) (post : α → Machine → Prop) : Prop :=
  Procedure.Does s.Step s.Working pre p post

theorem named (s : Site) : s.target.Named s.exe := (s.scope []).named

theorem inside (s : Site) (p : Path) (member : p ∈ s.touched) : Path.Inside s.target.directory p :=
  (s.scope []).inside p member

theorem Working.withFiles (working : s.Working m) (fit : s.target.Fit s.touched g) :
    s.Working (m.withFiles g) := ⟨working.network,fit⟩

/-- What the steps of an install keep: the tree is fit for more, the directory is where it was, and
so is all that no step is made at. -/
theorem kept_of_goes {m after : Machine} (goes : m.Goes s.Step after)
    (fit : s.target.Fit s.touched m.files) :
    s.target.Fit s.touched after.files ∧ Steady s.target.directory m.files after.files ∧
      s.target.Framed s.touched m.files after.files := by
  obtain ⟨-,events,-,trace⟩ := goes
  refine trace.preserves (P := fun f => s.target.Fit s.touched f ∧
    Steady s.target.directory m.files f ∧ s.target.Framed s.touched m.files f) ?_
    ⟨fit,.refl _ _,.refl _ _ _⟩
  intro past f g ⟨fit,steady,framed⟩ taken
  obtain ⟨fit',steady'⟩ := taken.fit fit (s.scope past)
  exact ⟨fit',steady.trans steady',taken.framed framed fit (s.scope past)⟩

/-- What is named in the directory stays there unless a step may be made at it. -/
theorem node?_of_goes {m after : Machine} (goes : m.Goes s.Step after)
    (fit : s.target.Fit s.touched m.files) (inside : Path.Inside s.target.directory q)
    (apart : ∀ p ∈ s.target.temporary :: s.others, Path.Apart s.target.directory p q)
    (apart' : ∀ past octets, s.served past octets →
      Path.Apart s.target.directory s.target.final q) :
    after.files.node? q = m.files.node? q := by
  obtain ⟨-,events,-,trace⟩ := goes
  have kept : s.target.Fit s.touched after.files ∧ _ := trace.preserves
    (P := fun f => s.target.Fit s.touched f ∧ f.node? q = m.files.node? q)
    (fun past f g ⟨fit,same⟩ taken => ⟨(taken.fit fit (s.scope past)).1,
      (taken.node? fit (s.scope past) inside apart (apart' past)).trans same⟩)
    ⟨fit,rfl⟩
  exact kept.2

theorem does_change {operation : Files → Except Fault Files} {post : Unit → Machine → Prop}
    (allowed : ∀ m g, s.Working m → pre m → operation m.files = .ok g →
      s.Step m.history m.files g ∧
        (s.target.Fit s.touched g → Steady s.target.directory m.files g →
          post () (m.withFiles g))) :
    s.Does pre (change operation) post := by
  refine .change ?_
  intro m g working start changed
  obtain ⟨taken,after⟩ := allowed m g working start changed
  obtain ⟨fit,steady⟩ := taken.fit working.fit (s.scope _)
  exact ⟨taken,working.withFiles fit,after fit steady⟩

theorem does_record {event : Event} {post : Machine → Prop} (silent : event.files? = none)
    (after : ∀ m, pre m → post (m.record event)) :
    s.Does pre (record event : Procedure ε Unit) fun _ m => post m :=
  fun m working start => ⟨Machine.goes_noting (by simpa using silent),
    ⟨working.network,working.fit⟩,fun _ _ => after m start⟩

theorem does_enter (phase : Phase) :
    s.Does pre (record (.entered phase) : Procedure ε Unit) fun _ _ => True :=
  does_record rfl fun _ _ => trivial

theorem does_unlessDirectory (p : Path) (fault : Fault) :
    s.Does pre (unlessDirectory p fault) fun _ _ => True := by
  apply Procedure.Does.bind (.look _)
  intro found
  cases found
  · exact .throw fault
  · exact .pure fun _ _ => trivial

theorem does_makeDirectory (above : p.Above s.target.temporary) :
    s.Does pre (change (makeDirectory p)) fun _ _ => True := by
  apply does_change
  intro m g _ _ made
  obtain ⟨l,entry,vacant,rfl⟩ := makeDirectory_ok made
  exact ⟨.made above entry vacant,fun _ _ => trivial⟩

theorem does_makeUpward (paths : List Path) (above : ∀ p ∈ paths, p.Above s.target.temporary) :
    s.Does pre (makeUpward paths) fun _ _ => True := by
  induction paths generalizing pre with
  | nil => exact .throw _
  | cons p up ih =>
    have make {pre : Machine → Prop} : s.Does pre (change (makeDirectory p)) _ :=
      does_makeDirectory (above p List.mem_cons_self)
    have more {pre : Machine → Prop} : s.Does pre (makeUpward up) fun _ _ => True :=
      ih fun q member => above q (List.mem_cons_of_mem _ member)
    unfold makeUpward
    split
    · exact .pure fun _ _ => trivial
    · apply Procedure.Does.bind (.outcome make)
      intro result
      split
      · exact .pure fun _ _ => trivial
      · refine Procedure.Does.bind more fun _ => Procedure.Does.bind (.outcome make) ?_
        intro result
        split
        · exact .pure fun _ _ => trivial
        · exact does_unlessDirectory p _
      · exact does_unlessDirectory p _

theorem does_makeParent : s.Does pre (makeParent s.target.temporary) fun _ _ => True := by
  unfold makeParent
  split
  · exact .pure fun _ _ => trivial
  · next parent up =>
    apply Procedure.Does.bind (.look _)
    intro found
    split
    · exact .pure fun _ _ => trivial
    · refine .failing (does_makeUpward _ fun q member => ?_) _
      rcases Path.above_of_mem_ancestors member with rfl | above
      · exact .parent up
      · exact above.trans (.parent up)

/-- Once octets are written to the download, it holds them. -/
theorem holds_put {mode : Nat} (entry : f.entry? s.target.temporary = .ok (some l))
    (whole : f.WellFormed) (fit : s.target.Fit s.touched (f.put l (.file (.data octets) mode)))
    (steady : Steady s.target.directory f (f.put l (.file (.data octets) mode))) :
    s.target.Holds l octets (f.put l (.file (.data octets) mode)) := by
  refine ⟨steady.inside whole fit.whole s.named.temporary_inside entry,mode,?_⟩
  obtain ⟨d,n,rfl,-⟩ := exists_of_entry entry
  rw [at?_put_entry,if_pos rfl]

theorem truncate_temporary (fit : s.target.Fit s.touched f)
    (opened : truncate s.target.temporary f = .ok (l,g)) :
    f.entry? s.target.temporary = .ok (some l) ∧
      ∃ mode, g = f.put l (.file (.data []) mode) := by
  obtain ⟨followed,opens⟩ := truncate_ok opened
  have entry := (fit.follow? s.named).mp followed
  rcases opens with ⟨-,rfl⟩ | ⟨content,mode,-,rfl⟩ | ⟨device,-⟩
  · exact ⟨entry,_,rfl⟩
  · exact ⟨entry,mode,rfl⟩
  · rcases fit.plain_at s.named entry with absent | ⟨content,mode,present⟩
    · simp [device] at absent
    · simp [device] at present

theorem does_create :
    s.Does pre (create s.target.temporary) fun l m => s.target.Holds l [] m.files := by
  refine Procedure.Does.bind does_makeParent fun _ => .failing ?_ _
  intro m working _
  rw [run_openEmpty]
  cases opened : truncate s.target.temporary m.files with
  | error fault => exact ⟨.refl m,working,fun _ same => nomatch same⟩
  | ok result =>
    obtain ⟨l,g⟩ := result
    obtain ⟨entry,mode,rfl⟩ := truncate_temporary working.fit opened
    have taken : s.Step m.history m.files (m.files.put l (.file (.data []) mode)) :=
      .wrote entry (working.fit.plain_at s.named entry)
    obtain ⟨fit,steady⟩ := taken.fit working.fit (s.scope _)
    refine ⟨Machine.goes_withFiles taken,working.withFiles fit,?_⟩
    intro k same
    cases same
    exact holds_put entry working.fit.whole fit steady

theorem does_append (old octets : List UInt8) :
    s.Does (fun m => s.target.Holds l old m.files) (change (append l octets)) fun _ m =>
      s.target.Holds l (old ++ octets) m.files := by
  apply does_change
  rintro m g working ⟨entry,mode,present⟩ appended
  rw [append_data present] at appended
  cases appended
  exact ⟨.wrote entry (.inr ⟨_,_,present⟩),fun fit steady =>
    holds_put entry working.fit.whole fit steady⟩

theorem does_storeAs (old octets : List UInt8) (verdict : Option Nat) :
    s.Does (fun m => s.target.Holds l old m.files) (storeAs l octets verdict) fun _ m =>
      s.target.Holds l (old ++ octets) m.files := by
  cases verdict with
  | none => exact does_append old octets
  | some n => exact Procedure.Does.bind (does_append old _) fun _ => .throw _

/-- Where octets are stored without a failure, they are stored in full. -/
theorem does_store (old octets : List UInt8) :
    s.Does (fun m => s.target.Holds l old m.files) (store l octets) fun _ m =>
      s.target.Holds l (old ++ octets) m.files := by
  intro m working holds
  have working' : s.Working m.judged := ⟨working.network,working.fit⟩
  obtain ⟨⟨network,trace⟩,kept,post⟩ := does_storeAs old octets m.verdict? m.judged working' holds
  rw [run_store_eq]
  exact ⟨⟨network,trace⟩,kept,post⟩

theorem does_flush (l : Location) (holds : Files → Prop) :
    s.Does (fun m => holds m.files) (flush l) fun _ m => holds m.files := by
  intro m working start
  have goes : m.Goes s.Step m.judged := ⟨rfl,[],(List.append_nil _).symm,.done⟩
  have working' : s.Working m.judged := ⟨working.network,working.fit⟩
  rw [run_flush]
  split
  · exact ⟨.refl m,working,fun _ same => nomatch same⟩
  split
  · exact ⟨goes,working',fun _ same => nomatch same⟩
  · exact ⟨goes,working',fun _ _ => start⟩

theorem removed (fit : s.target.Fit s.touched f) (member : p ∈ s.target.temporary :: s.others)
    (past : List Event) (gone : removeFile p f = .ok g) : s.Step past f g ∧ g.node? p = none := by
  obtain ⟨l,node,entry,present,other,rfl⟩ := removeFile_ok gone
  have taken : s.Step past f (f.erase l) := .removed member entry present other
  obtain ⟨fit',steady⟩ := taken.fit fit (s.scope _)
  have inside := s.named.inside s.inside ((s.scope past).member member)
  refine ⟨taken,?_⟩
  obtain ⟨d,n,rfl,-⟩ := exists_of_entry entry
  rw [node?_of_entry (steady.inside fit.whole fit'.whole inside entry),at?_erase_entry,if_pos rfl]

theorem does_discard (member : p ∈ s.target.temporary :: s.others) :
    s.Does pre (discard p : Procedure ε Bool) fun _ _ => True := by
  intro m working _
  rw [run_discard]
  cases m.files.holds p with
  | false => exact ⟨.refl m,working,fun _ _ => trivial⟩
  | true =>
    cases gone : removeFile p m.files with
    | error fault => exact ⟨.refl m,working,fun _ _ => trivial⟩
    | ok g =>
      obtain ⟨taken,-⟩ := removed working.fit member m.history gone
      exact ⟨Machine.goes_withFiles taken,
        working.withFiles (taken.fit working.fit (s.scope _)).1,fun _ _ => trivial⟩

theorem does_discard_plain (member : p ∈ s.target.temporary :: s.others) :
    s.Does (fun m => Plain (m.files.node? p)) (discard p : Procedure ε Bool) fun _ m =>
      m.files.node? p = none := by
  intro m working plain
  have discards : s.Does (fun _ => True) (discard p : Procedure ε Bool) _ := does_discard member
  obtain ⟨goes,kept,-⟩ := discards m working trivial
  refine ⟨goes,kept,?_⟩
  intro _ _
  have inside := s.named.inside s.inside ((s.scope []).member member)
  rw [run_discard]
  rcases plain with absent | ⟨content,mode,file⟩
  · cases m.files.holds p with
    | false => exact absent
    | true =>
      cases gone : removeFile p m.files with
      | error fault => exact absent
      | ok g => exact (removed working.fit member m.history gone).2
  · obtain ⟨l,entry,present⟩ := exists_of_node? file
    have gone := removeFile_file entry present (endsInSlash_of_inside inside)
    rw [holds_of_file working.fit.whole inside file,gone]
    exact (removed working.fit member m.history gone).2

theorem does_discard_temporary :
    s.Does pre (discard s.target.temporary : Procedure ε Bool) fun _ m =>
      m.files.node? s.target.temporary = none :=
  (does_discard_plain List.mem_cons_self).weaken (fun _ working _ => working.fit.plain s.named)
    fun _ _ _ absent => absent

end Site
end ReleaseInstaller
