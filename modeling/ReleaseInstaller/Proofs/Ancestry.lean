import ReleaseInstaller.UpdateSignature

/-! Ancestors of a process. A walk up the table comes, generation after generation, to where the parent
links lead, so that an update is recognised by the command line of the grandparent and by nothing else. -/
namespace ReleaseInstaller

variable {table other : ProcessTable} {pid depth : Nat} {next : Option Nat} {package : String}

namespace ProcessTable

def parentOf (table : ProcessTable) (pid : Nat) : Option Nat := (table pid).bind RunningProcess.parent?

/-- The process so many links above the one that is looked up next. -/
def ascend (table : ProcessTable) : (links : Nat) → (next : Option Nat) → Option RunningProcess
  | 0, next => next.bind table
  | links + 1, next => (next.bind table).bind fun found => table.ascend links found.parent?

@[simp] theorem ascend_none (table : ProcessTable) (links : Nat) : table.ascend links none = none := by
  cases links <;> rfl

theorem getElem?_climb (table : ProcessTable) (depth links : Nat) (next : Option Nat) :
    (table.climb depth next)[links]? = if links < depth then table.ascend links next else none := by
  induction depth generalizing links next with
  | zero => simp [climb]
  | succ depth ih =>
    cases next with
    | none => simp
    | some pid =>
      cases found : table pid with
      | none => cases links <;> simp [climb,ascend,found]
      | some process => cases links <;> simp [climb,ascend,found,ih]

theorem getElem?_ancestors (table : ProcessTable) (pid : Nat) :
    (table.ancestors pid 2)[1]? = ((table.parentOf pid).bind table.parentOf).bind table := by
  rw [ancestors,getElem?_climb,if_pos (by decide),parentOf]
  cases (table pid).bind RunningProcess.parent? with
  | none => rfl
  | some p => simp only [ascend,parentOf,Option.bind_some,Option.bind_assoc]

/-- The lookups of a process, its parent and its grandparent all succeed, and so do both links. -/
def HasGrandparent (table : ProcessTable) (pid : Nat) (grandparent : RunningProcess) : Prop :=
  ∃ process p parent g, table pid = some process ∧ process.parent? = some p ∧
    table p = some parent ∧ parent.parent? = some g ∧ table g = some grandparent

theorem hasGrandparent_iff {grandparent : RunningProcess} : table.HasGrandparent pid grandparent ↔
    (table.ancestors pid 2)[1]? = some grandparent := by
  simp only [getElem?_ancestors,HasGrandparent,parentOf,Option.bind_eq_some_iff]
  constructor
  · rintro ⟨process,p,parent,g,found,link,above,up,last⟩
    exact ⟨g,⟨p,⟨process,found,link⟩,parent,above,up⟩,last⟩
  · rintro ⟨g,⟨p,⟨process,found,link⟩,parent,above,up⟩,last⟩
    exact ⟨process,p,parent,g,found,link,above,up,last⟩

/-- Of a process two tables give the same parent, of that the same parent again, if they find it, and of
the grandparent the same command line. -/
structure AlikeAbove (pid : Nat) (table other : ProcessTable) : Prop where
  parent : other.parentOf pid = table.parentOf pid
  link : ∀ p, table.parentOf pid = some p →
    (other p).map RunningProcess.parent? = (table p).map RunningProcess.parent?
  grandparent : ∀ p g, table.parentOf pid = some p → table.parentOf p = some g →
    (other g).map RunningProcess.commandLine = (table g).map RunningProcess.commandLine

theorem AlikeAbove.commandLine (alike : AlikeAbove pid table other) :
    (other.ancestors pid 2)[1]?.map RunningProcess.commandLine =
      (table.ancestors pid 2)[1]?.map RunningProcess.commandLine := by
  rw [getElem?_ancestors,getElem?_ancestors,alike.parent]
  cases parent : table.parentOf pid with
  | none => rfl
  | some p =>
    have link : other.parentOf p = table.parentOf p := by
      have same := congrArg (Option.bind · id) (alike.link p parent)
      simpa only [parentOf,Option.bind_map,Function.id_comp] using same
    rw [Option.bind_some,Option.bind_some,link]
    cases above : table.parentOf p with
    | none => rfl
    | some g => exact alike.grandparent p g parent above

end ProcessTable

open UpdateSignature

theorem isAutomatedUpdate_eq {ancestors : List RunningProcess} (short : ancestors.length ≤ 2) :
    isAutomatedUpdate package ancestors =
      (ancestors[1]?.map RunningProcess.commandLine).any (occursIn package) := by
  match ancestors with
  | [] | [_] | [_,_] => rfl
  | _ :: _ :: _ :: _ => simp at short

theorem detectAutomatedUpdate_eq (table : ProcessTable) (pid : Nat) (package : String) :
    detectAutomatedUpdate table pid package =
      ((table.ancestors pid 2)[1]?.map RunningProcess.commandLine).any (occursIn package) :=
  isAutomatedUpdate_eq (table.length_climb_le 2 _)

/-- Tables that are alike above a process classify it alike, whatever else they hold. The grandparent's
command line decides, and without a grandparent there is no update. -/
theorem detectAutomatedUpdate_grandparent (table : ProcessTable) (pid : Nat) (package : String) :
    (∀ other, table.AlikeAbove pid other →
      detectAutomatedUpdate other pid package = detectAutomatedUpdate table pid package) ∧
    (∀ grandparent, table.HasGrandparent pid grandparent →
      detectAutomatedUpdate table pid package = occursIn package grandparent.commandLine) ∧
    ((¬ ∃ grandparent, table.HasGrandparent pid grandparent) →
      detectAutomatedUpdate table pid package = false) := by
  simp only [detectAutomatedUpdate_eq]
  refine ⟨fun other alike => ?_,fun grandparent reached => ?_,fun none => ?_⟩
  · rw [alike.commandLine]
  · rw [ProcessTable.hasGrandparent_iff.mp reached]
    rfl
  · simp only [ProcessTable.hasGrandparent_iff,not_exists] at none
    rw [Option.eq_none_iff_forall_ne_some.mpr none]
    rfl

theorem detectAutomatedUpdate_grandparent_looped :
    let table := ProcessTable.ofList [⟨4,some 9,"npm update -g devspace"⟩,⟨9,some 4,"sh -c postinstall"⟩]
    let other := ProcessTable.ofList [⟨4,some 9,"npm update -g devspace"⟩,⟨9,some 4,"bash"⟩,⟨1,none,"init"⟩]
    table.AlikeAbove 4 other ∧ table.HasGrandparent 4 ⟨4,some 9,"npm update -g devspace"⟩ ∧
    detectAutomatedUpdate other 4 "devspace" = detectAutomatedUpdate table 4 "devspace" ∧
    detectAutomatedUpdate table 4 "devspace" = true ∧
    detectAutomatedUpdate other 1 "devspace" = false := by
  intro table other
  have alike : table.AlikeAbove 4 other := by
    refine ⟨rfl,fun p parent => ?_,fun p g parent above => ?_⟩
    · cases parent
      rfl
    · cases parent
      cases above
      rfl
  have reached : table.HasGrandparent 4 ⟨4,some 9,"npm update -g devspace"⟩ :=
    ⟨_,_,_,_,rfl,rfl,rfl,rfl,rfl⟩
  obtain ⟨same,decides,-⟩ := detectAutomatedUpdate_grandparent table 4 "devspace"
  obtain ⟨-,-,orphan⟩ := detectAutomatedUpdate_grandparent other 1 "devspace"
  refine ⟨alike,reached,same other alike,(decides _ reached).trans (by decide +kernel),orphan ?_⟩
  rintro ⟨grandparent,process,p,parent,g,found,link,-⟩
  cases found
  cases link

end ReleaseInstaller
