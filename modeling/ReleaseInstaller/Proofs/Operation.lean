import ReleaseInstaller.Install
import ReleaseInstaller.Proofs.Procedure

/-! Operations on files that are single steps, as equations: what each gives and which tree it
leaves. -/
namespace ReleaseInstaller

namespace Machine

/-- The disk's verdict on the write that comes next. -/
def verdict? (m : Machine) : Option Nat := m.disk.head?.join

def judged (m : Machine) : Machine := { m with disk := m.disk.tail }

@[simp] theorem judged_files (m : Machine) : m.judged.files = m.files := rfl

theorem judged_of_nil {m : Machine} (disk : m.disk = []) : m.judged = m := by
  rw [judged,disk,List.tail_nil,← disk]

end Machine

namespace Files

open Procedure

variable {ε : Type}

variable {f g : Files} {p q : Path} {l k : Location}

theorem named?_eq_ok {fault : Fault} :
    f.named? p fault = .ok l ↔ f.entry? p = .ok (some l) := by
  simp only [named?,bind,Except.bind]
  rcases f.entry? p with _ | _ | _ <;> simp

theorem vacant?_ok (vacant : f.vacant? p = .ok l) : f.entry? p = .ok (some l) ∧ f.at? l = none := by
  simp only [vacant?,bind,Except.bind] at vacant
  cases entry : f.entry? p with
  | error fault => simp [entry] at vacant
  | ok named =>
    cases named with
    | none => simp [entry] at vacant
    | some k =>
      cases present : f.at? k with
      | none =>
        obtain rfl : k = l := by simpa [entry,present] using vacant
        exact ⟨rfl,present⟩
      | some node => simp [entry,present] at vacant

theorem makeDirectory_ok (made : makeDirectory p f = .ok g) :
    ∃ l, f.entry? p = .ok (some l) ∧ f.at? l = none ∧ g = f.put l .directory := by
  simp only [makeDirectory,bind,Except.bind] at made
  cases vacant : f.vacant? p with
  | error fault => simp [vacant] at made
  | ok l =>
    obtain ⟨entry,absent⟩ := vacant?_ok vacant
    exact ⟨l,entry,absent,by simpa [vacant,eq_comm] using made⟩

theorem removeFile_ok (removed : removeFile p f = .ok g) :
    ∃ l node, f.entry? p = .ok (some l) ∧ f.at? l = some node ∧ node ≠ .directory ∧
      g = f.erase l := by
  simp only [removeFile,bind,Except.bind] at removed
  cases named : f.named? p .isDirectory with
  | error fault => simp [named] at removed
  | ok l =>
    simp only [named] at removed
    refine ⟨l,?_⟩
    split at removed
    · cases removed
    · cases removed
    · next node other present =>
      split at removed
      · cases removed
      · cases removed
        exact ⟨node,named?_eq_ok.mp named,present,other,rfl⟩

theorem removeFile_file (entry : f.entry? p = .ok (some l))
    (present : f.at? l = some (.file content mode)) (named : p.endsInSlash = false) :
    removeFile p f = .ok (f.erase l) := by
  simp [removeFile,named?_eq_ok.mpr entry,bind,Except.bind,present,named]

theorem append_data (present : f.at? l = some (.file (.data old) mode)) (octets : List UInt8) :
    append l octets f = .ok (f.put l (.file (.data (old ++ octets)) mode)) := by
  simp [append,present]

theorem setMode_ok {mode : Nat} (changed : setMode p mode f = .ok g) :
    ∃ l node, f.follow? p = .ok l ∧ f.at? l = some node ∧
      g = match node with
        | .file content _ => f.put l (.file content mode)
        | _ => f := by
  simp only [setMode,bind,Except.bind] at changed
  cases followed : f.follow? p with
  | error fault => simp [followed] at changed
  | ok l =>
    simp only [followed] at changed
    cases present : f.at? l with
    | none => simp [present] at changed
    | some node =>
      refine ⟨l,node,rfl,present,?_⟩
      cases node <;> simpa [present,eq_comm] using changed

theorem truncate_ok (opened : truncate p f = .ok (l,g)) : f.follow? p = .ok l ∧
    (f.at? l = none ∧ g = f.put l (.file (.data []) newFileMode) ∨
      (∃ content mode, f.at? l = some (.file content mode) ∧
        g = f.put l (.file (.data []) mode)) ∨
      f.at? l = some .fullDevice ∧ g = f) := by
  simp only [truncate,bind,Except.bind] at opened
  split at opened
  · cases opened
  split at opened
  · cases opened
  cases followed : f.follow? p with
  | error fault => simp [followed] at opened
  | ok k =>
    simp only [followed] at opened
    split at opened
    all_goals cases opened
    · next absent => exact ⟨rfl,.inl ⟨absent,rfl⟩⟩
    · next present => exact ⟨rfl,.inr (.inl ⟨_,_,present,rfl⟩)⟩
    · next device => exact ⟨rfl,.inr (.inr ⟨device,rfl⟩)⟩

/-- A file that is renamed takes the place of anything but a directory. -/
theorem rename_file (entry : f.entry? p = .ok (some l))
    (present : f.at? l = some (.file content mode)) (renamed : rename p q f = .ok g) :
    ∃ k, f.entry? q = .ok (some k) ∧
      (l = k ∧ g = f ∨
        f.at? k ≠ some .directory ∧ g = (f.erase l).put k (.file content mode)) := by
  simp only [rename,named?_eq_ok.mpr entry,bind,Except.bind] at renamed
  cases target : f.named? q .busy with
  | error fault => simp [target] at renamed
  | ok k =>
    simp only [target,present] at renamed
    refine ⟨k,named?_eq_ok.mp target,?_⟩
    split at renamed
    · cases renamed
    split at renamed
    · next same =>
      cases renamed
      exact .inl ⟨same,rfl⟩
    split at renamed
    · cases renamed
    · next other =>
      cases renamed
      exact .inr ⟨other,rfl⟩

/-- Removing a file at will never fails; it tells whether the file is gone. -/
theorem run_discard (p : Path) (m : Machine) :
    (discard p : Procedure ε Bool).run m =
      match m.files.holds p, removeFile p m.files with
      | false, _ => (.ok true, m)
      | true, .ok files => (.ok true, m.withFiles files)
      | true, .error _ => (.ok false, m) := by
  simp only [discard,run_bind,run_look]
  cases m.files.holds p with
  | false => rfl
  | true =>
    simp only [if_true,run_succeeds,run_change]
    cases removeFile p m.files <;> rfl

theorem discard_total (p : Path) (m : Machine) :
    ∃ gone after, (discard p : Procedure ε Bool).run m = (.ok gone,after) := by
  rw [run_discard]
  split <;> exact ⟨_,_,rfl⟩

theorem makeUpward_still {m : Machine} (paths : List Path)
    (cannot : ∀ p ∈ paths, ∃ fault, makeDirectory p m.files = .error fault) :
    ((makeUpward paths).run m).2 = m := by
  have otherwise (p : Path) (fault : Fault) : ((unlessDirectory p fault).run m).2 = m := by
    simp only [unlessDirectory,run_bind,run_look]
    cases m.files.isDirectory p <;> rfl
  induction paths with
  | nil => rfl
  | cons p up ih =>
    obtain ⟨fault,failed⟩ := cannot p List.mem_cons_self
    have above := ih fun q member => cannot q (List.mem_cons_of_mem _ member)
    have change : (change (makeDirectory p)).run m = (.error fault,m) := by rw [run_change,failed]
    unfold makeUpward
    split
    · rfl
    · simp only [run_bind,run_outcome,change]
      split
      · rfl
      · simp only [run_bind]
        rcases made : (makeUpward up).run m with ⟨r | r,middle⟩
        · simpa [made] using above
        · obtain rfl : middle = m := by simpa [made] using above
          simp only [run_outcome,change]
          exact otherwise p _
      · exact otherwise p _

theorem run_updateMode (p : Path) (mode : Nat) (m : Machine) :
    (updateMode p mode).run m =
      match setMode p mode m.files with
      | .ok files => (.ok (),m.withFiles files)
      | .error _ => (.error ⟨.permissions,p⟩,m) := by
  simp only [updateMode,run_failing,run_change]
  cases setMode p mode m.files <;> rfl

theorem run_openEmpty (p : Path) (m : Machine) :
    (openEmpty p).run m =
      match truncate p m.files with
      | .ok (l,files) => (.ok l,m.withFiles files)
      | .error fault => (.error fault,m) := by
  simp only [openEmpty,run_bind,run_get]
  cases truncate p m.files <;> rfl

/-- Of the disk a write asks one verdict and nothing else. -/
theorem run_store_eq (l : Location) (octets : List UInt8) (m : Machine) :
    (store l octets).run m = (storeAs l octets m.verdict?).run m.judged := by
  simp only [store,run_bind,run_get]
  cases disk : m.disk with
  | nil =>
    rw [Machine.judged_of_nil disk,Machine.verdict?,disk]
    rfl
  | cons verdict later =>
    rw [Machine.judged,Machine.verdict?,disk]
    rfl

theorem run_flush (l : Location) (m : Machine) :
    (flush l).run m =
      if m.files.at? l = some .fullDevice then (.error .invalidPath,m)
      else if m.verdict?.isSome then (.error .noSpace,m.judged)
      else (.ok (),m.judged) := by
  simp only [flush,run_bind,run_get]
  split
  · rfl
  · cases disk : m.disk with
    | nil =>
      rw [Machine.judged_of_nil disk,Machine.verdict?,disk]
      rfl
    | cons verdict later =>
      rw [Machine.judged,Machine.verdict?,disk]
      cases verdict <;> rfl

end Files

namespace Install

open Procedure

variable {ε : Type}

/-- A path is listed when something lies there and can be removed as a file. -/
theorem run_discardEach_cons (p : Path) (rest : List Path) (m : Machine) :
    (discardEach (p :: rest) : Procedure ε (List Path)).run m =
      match m.files.holds p, Files.removeFile p m.files with
      | true, .ok files =>
        let (removed,after) := (discardEach rest : Procedure ε (List Path)).run (m.withFiles files)
        (removed.map (p :: ·),after)
      | _, _ => (discardEach rest).run m := by
  simp only [discardEach,run_bind,run_look]
  cases holds : m.files.holds p with
  | false =>
    simp only [Bool.false_eq_true,if_false,run_bind,run_pure]
    rcases (discardEach rest : Procedure ε (List Path)).run m with ⟨_ | _,_⟩ <;> rfl
  | true =>
    simp only [if_true,run_bind,Files.run_discard,holds]
    cases Files.removeFile p m.files with
    | error fault =>
      dsimp only
      rcases (discardEach rest : Procedure ε (List Path)).run m with ⟨_ | _,_⟩ <;> rfl
    | ok files =>
      dsimp only
      rcases (discardEach rest : Procedure ε (List Path)).run (m.withFiles files) with
        ⟨_ | _,_⟩ <;> rfl

theorem discardEach_total (paths : List Path) (m : Machine) :
    ∃ removed after, (discardEach paths : Procedure ε (List Path)).run m = (.ok removed,after) := by
  induction paths generalizing m with
  | nil => exact ⟨_,_,rfl⟩
  | cons p rest ih =>
    rw [run_discardEach_cons]
    split
    · next files _ _ =>
      obtain ⟨removed,after,others⟩ := ih (m.withFiles files)
      exact ⟨p :: removed,after,by rw [others]; rfl⟩
    · exact ih m

end Install
end ReleaseInstaller
