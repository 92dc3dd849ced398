import ReleaseInstaller.Proofs.FileWork
import ReleaseInstaller.Proofs.Walk

/-! Files that are open to be written to. Wherever a file can be opened it is emptied or made, what is stored
is added to what was stored before, and the path goes on leading there. -/
namespace ReleaseInstaller.Files

open Procedure

variable {f g : Files} {p : Path} {l here : Location} {links : Nat} {steps : List Path.Step}

/-- A file can be opened there: there is none yet, or a file, or the device that takes no octets. -/
inductive Openable (f : Files) (l : Location) : Prop where
  | fresh (absent : f.at? l = none)
  | file {content : Content} {mode : Nat} (present : f.at? l = some (.file content mode))
  | device (present : f.at? l = some .fullDevice)

def openMode (f : Files) (l : Location) : Nat :=
  match f.at? l with
  | some (.file _ mode) => mode
  | _ => newFileMode

/-- The tree where the file that was opened holds these octets. -/
def refill (f : Files) (l : Location) (octets : List UInt8) : Files :=
  if f.at? l = some .fullDevice then f else f.put l (.file (.data octets) (f.openMode l))

theorem refill_device (device : f.at? l = some .fullDevice) (octets : List UInt8) :
    f.refill l octets = f := if_pos device

theorem refill_file (file : f.at? l ≠ some .fullDevice) (octets : List UInt8) :
    f.refill l octets = f.put l (.file (.data octets) (f.openMode l)) := if_neg file

theorem Openable.entry (openable : f.Openable l) : l ≠ [] := by
  rintro rfl
  cases openable with
  | fresh absent => simp at absent
  | file present => simp at present
  | device present => simp at present

theorem put_put (f : Files) (l : Location) (first second : Node) :
    (f.put l first).put l second = f.put l second := by
  simp [put,erase,drop,List.filter_filter]

theorem at?_refill (openable : f.Openable l) (file : f.at? l ≠ some .fullDevice) (octets : List UInt8) :
    (f.refill l octets).at? l = some (.file (.data octets) (f.openMode l)) := by
  rw [refill_file file,at?_put _ _ _ _ openable.entry,if_pos rfl]

theorem at?_refill_of_ne (other : here ≠ l) (octets : List UInt8) :
    (f.refill l octets).at? here = f.at? here := by
  by_cases root : here = []
  · rw [root,at?_root,at?_root]
  · unfold refill
    split
    · rfl
    · rw [at?_put _ _ _ _ root,if_neg other]

theorem at?_refill_device (openable : f.Openable l) (octets : List UInt8) :
    (f.refill l octets).at? l = some .fullDevice ↔ f.at? l = some .fullDevice := by
  by_cases device : f.at? l = some .fullDevice
  · rw [refill_device device]
  · simp [at?_refill openable device,device]

theorem truncate_refill (opened : truncate p f = .ok (l,g)) :
    f.follow? p = .ok l ∧ f.Openable l ∧ g = f.refill l [] := by
  obtain ⟨followed,⟨absent,rfl⟩ | ⟨content,mode,present,rfl⟩ | ⟨present,rfl⟩⟩ := truncate_ok opened
  · exact ⟨followed,.fresh absent,by simp [refill,openMode,absent]⟩
  · exact ⟨followed,.file present,by simp [refill,openMode,present]⟩
  · exact ⟨followed,.device present,(refill_device present _).symm⟩

theorem append_refill (openable : f.Openable l) (old octets : List UInt8) :
    append l octets (f.refill l old) = .ok (f.refill l (old ++ octets)) ∧
        (f.at? l = some .fullDevice → octets = []) ∨
      append l octets (f.refill l old) = .error .noSpace ∧ f.at? l = some .fullDevice := by
  by_cases device : f.at? l = some .fullDevice
  · rw [refill_device device,refill_device device,append,device]
    cases octets <;> simp
  · left
    rw [append_data (at?_refill openable device old),refill_file device,refill_file device,put_put]
    exact ⟨rfl,fun same => absurd same device⟩

/-- A walk to the place of an open file arrives there whatever the file holds, also where it was made. -/
theorem walk_refill (openable : f.Openable l) (octets : List UInt8)
    (walked : f.walk links here steps = .ok l) :
    (f.refill l octets).walk links here steps = .ok l := by
  have kept {here name node} (meets : f.Meets here name (some node)) (on : node.leadsOn = true) :
      (f.refill l octets).Meets here name (some node) := by
    have other : here ++ [name] ≠ l := by
      rintro rfl
      cases openable with
      | fresh absent => simp [meets.found] at absent
      | file present | device present =>
        obtain rfl : node = _ := Option.some.inj (meets.found.symm.trans present)
        cases on
    exact ⟨meets.short,(at?_refill_of_ne other octets).trans meets.found⟩
  have file : ∃ node, (f.refill l octets).at? l = some node ∧ node.leadsOn = false := by
    by_cases device : f.at? l = some .fullDevice
    · exact ⟨_,by rw [refill_device device,device],rfl⟩
    · exact ⟨_,at?_refill openable device octets,rfl⟩
  induction links, here, steps using walk_induction f with
  | nil _ _ => simpa using walked
  | here _ _ _ ih => simpa using ih (by simpa using walked)
  | up _ _ _ ih =>
    rw [walk_up] at walked ⊢
    exact ih walked
  | long _ _ _ _ long => simp [walk_long long] at walked
  | missing _ here name rest meets =>
    -- the place of a new file is the last one of the walk
    rw [walk_missing meets] at walked
    split at walked
    · next last =>
      obtain ⟨node,present,off⟩ := file
      obtain rfl : here ++ [name] = l := Except.ok.inj walked
      simp only [Bool.and_eq_true] at last
      rw [walk_stuck ⟨meets.short,present⟩ off,if_pos last.1]
    · cases walked
  | stuck _ here name rest node meets off =>
    rw [walk_stuck meets off] at walked
    split at walked
    · next last =>
      obtain ⟨node,present,off⟩ := file
      obtain rfl : here ++ [name] = l := Except.ok.inj walked
      rw [walk_stuck ⟨meets.short,present⟩ off,if_pos last]
    · cases walked
  | on _ _ _ _ meets ih =>
    rw [walk_on meets] at walked
    rw [walk_on (kept meets rfl)]
    exact ih walked
  | lastLink _ _ _ _ meets => simp [walk_last_link meets] at walked
  | link _ _ _ _ _ meets ih =>
    rw [walk_link meets] at walked
    rw [walk_link (kept meets rfl)]
    exact ih walked

theorem follow?_refill (openable : f.Openable l) (followed : f.follow? p = .ok l) (octets : List UInt8) :
    (f.refill l octets).follow? p = .ok l := by
  obtain ⟨checked,walked⟩ := follow?_eq_ok.mp followed
  have current : (f.refill l octets).current = f.current := by
    unfold refill
    split <;> rfl
  refine follow?_eq_ok.mpr ⟨checked,?_⟩
  rw [start,current]
  exact walk_refill openable octets walked

theorem find?_refill (openable : f.Openable l) (followed : f.follow? p = .ok l) (octets : List UInt8) :
    (f.refill l octets).find? p = (f.refill l octets).at? l := by
  rw [find?,follow?_refill openable followed]

/-- Creating a file fails in some way, or leaves it open and empty; which of the two, and how, the tree
decides that it starts from. -/
theorem create_cases (p : Path) (f : Files) :
    (∃ failure trees, ∀ m : Machine, m.files = f →
      (create p).run m = (.error failure,m.through trees)) ∨
    ∃ (around : Files) (l : Location) (trees : List Files), around.follow? p = .ok l ∧ around.Openable l ∧
      ∀ m : Machine, m.files = f →
        (create p).run m = (.ok l,m.through (trees ++ [around.refill l []])) := by
  obtain ⟨result,trees,runs⟩ := onFiles_makeParent p f
  cases result with
  | error failure => exact .inl ⟨failure,trees,fun m same => by rw [create,run_bind,runs m same]⟩
  | ok u =>
    have openings (m : Machine) (same : m.files = f) : (create p).run m =
        (failing (fun _ => ⟨.create,p⟩) (openEmpty p)).run (m.through trees) := by
      rw [create,run_bind,runs m same]
    let around := trees.getLast?.getD f
    have files (m : Machine) (same : m.files = f) : (m.through trees).files = around := by
      rw [Machine.through,same]
    cases opened : truncate p around with
    | error fault =>
      refine .inl ⟨⟨.create,p⟩,trees,fun m same => ?_⟩
      rw [openings m same,run_failing,run_openEmpty,files m same,opened]
      rfl
    | ok opening =>
      obtain ⟨l,g⟩ := opening
      obtain ⟨followed,openable,rfl⟩ := truncate_refill opened
      refine .inr ⟨around,l,trees,followed,openable,fun m same => ?_⟩
      rw [openings m same,run_failing,run_openEmpty,files m same,opened,← Machine.through_through]
      rfl

end ReleaseInstaller.Files
