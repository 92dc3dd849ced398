import Mathlib.Logic.Relation
import ReleaseInstaller.Proofs.Ancestry

/-! Lines of parents. The ancestors that are listed for a process are the longest line of parents that the
depth admits. It goes on as long as parents are known and found, so that on a cycle nothing but the depth
ends it. -/
namespace ReleaseInstaller.ProcessTable

variable {table : ProcessTable} {pid parent depth depth' : Nat} {next : Option Nat}
  {process : RunningProcess} {line other : List RunningProcess}

/-- The first process is what is looked up next, and each other one what is looked up as the parent of the
one before it. -/
inductive Lineage (table : ProcessTable) : (next : Option Nat) → List RunningProcess → Prop
  | nil (next : Option Nat) : Lineage table next []
  | cons {pid : Nat} {found : RunningProcess} {rest : List RunningProcess} (here : table pid = some found)
      (above : Lineage table found.parent? rest) : Lineage table (some pid) (found :: rest)

def following (next : Option Nat) (line : List RunningProcess) : Option Nat :=
  line.getLast?.elim next RunningProcess.parent?

@[simp] theorem following_nil (next : Option Nat) : following next [] = next := rfl

@[simp] theorem following_cons (next : Option Nat) (found : RunningProcess) (rest : List RunningProcess) :
    following next (found :: rest) = following found.parent? rest := by
  cases rest with
  | nil => rfl
  | cons second rest => rw [following,following,List.getLast?_cons_cons]; rfl

/-- A line within the depth that begins with every other such line, and ends before the depth only where a
parent is unknown or not found. -/
structure Longest (table : ProcessTable) (next : Option Nat) (depth : Nat) (line : List RunningProcess) :
    Prop where
  lineage : table.Lineage next line
  within : line.length ≤ depth
  longest : ∀ other, table.Lineage next other → other.length ≤ depth → other <+: line
  ends : line.length < depth → ∀ pid, following next line = some pid → table pid = none

theorem lineage_climb (table : ProcessTable) (depth : Nat) (next : Option Nat) :
    table.Lineage next (table.climb depth next) := by
  induction depth generalizing next with
  | zero => exact .nil next
  | succ depth ih =>
    cases next with
    | none => exact .nil none
    | some pid =>
      rw [climb]
      split
      · exact .nil (some pid)
      · next found here => exact .cons here (ih found.parent?)

/-- No line leaves the walk as long as the depth lasts. -/
theorem Lineage.prefix_climb (lineage : table.Lineage next other) (within : other.length ≤ depth) :
    other <+: table.climb depth next := by
  induction lineage generalizing depth with
  | nil next => exact List.nil_prefix
  | cons here above ih =>
    cases depth with
    | zero => simp at within
    | succ depth =>
      simp only [climb,here]
      exact List.prefix_cons_inj _ |>.mpr (ih (Nat.le_of_succ_le_succ within))

theorem climb_ends (short : (table.climb depth next).length < depth) :
    ∀ pid, following next (table.climb depth next) = some pid → table pid = none := by
  induction depth generalizing next with
  | zero => simp at short
  | succ depth ih =>
    cases next with
    | none => simp
    | some first =>
      cases here : table first with
      | none => simp [climb,here]
      | some found =>
        simp only [climb,here,List.length_cons,Nat.add_lt_add_iff_right] at short
        simpa only [climb,here,following_cons] using ih short

theorem longest_climb (table : ProcessTable) (depth : Nat) (next : Option Nat) :
    table.Longest next depth (table.climb depth next) where
  lineage := table.lineage_climb depth next
  within := table.length_climb_le depth next
  longest _ := Lineage.prefix_climb
  ends := climb_ends

theorem Longest.unique (longest : table.Longest next depth line) (longest' : table.Longest next depth other) :
    line = other :=
  have shorter := longest'.longest line longest.lineage longest.within
  have longer := longest.longest other longest'.lineage longest'.within
  shorter.eq_of_length_le longer.length_le

theorem climb_eq_take (deeper : depth ≤ depth') (next : Option Nat) :
    table.climb depth next = (table.climb depth' next).take depth := by
  apply List.ext_getElem?
  intro links
  rw [List.getElem?_take,getElem?_climb,getElem?_climb]
  split
  · next within => rw [if_pos (Nat.lt_of_lt_of_le within deeper)]
  · rfl

def Link (table : ProcessTable) (pid parent : Nat) : Prop := table.parentOf pid = some parent

/-- The links from a process lead to one from which they lead back to it. -/
def RunsIntoCycle (table : ProcessTable) (pid : Nat) : Prop :=
  ∃ looped, Relation.ReflTransGen table.Link pid looped ∧ Relation.TransGen table.Link looped looped

theorem RunsIntoCycle.exists_parent (cycle : table.RunsIntoCycle pid) :
    ∃ parent, table.Link pid parent ∧ table.RunsIntoCycle parent := by
  obtain ⟨looped,reached,loop⟩ := cycle
  rcases Relation.ReflTransGen.cases_head reached with rfl | ⟨parent,link,reached⟩
  · obtain ⟨parent,link,back⟩ := Relation.TransGen.head'_iff.mp loop
    exact ⟨parent,link,_,back,loop⟩
  · exact ⟨parent,link,looped,reached,loop⟩

theorem Link.found (link : table.Link pid parent) :
    ∃ process, table pid = some process ∧ process.parent? = some parent :=
  Option.bind_eq_some_iff.mp link

theorem Link.ancestors_succ (link : table.Link pid parent) (here : table parent = some process) (depth : Nat) :
    table.ancestors pid (depth + 1) = process :: table.ancestors parent depth := by
  have next : (table pid).bind RunningProcess.parent? = some parent := link
  simp [ancestors,climb,next,here]

theorem RunsIntoCycle.length_ancestors (cycle : table.RunsIntoCycle pid) (depth : Nat) :
    (table.ancestors pid depth).length = depth := by
  induction depth generalizing pid with
  | zero => rfl
  | succ depth ih =>
    obtain ⟨parent,link,cycle⟩ := cycle.exists_parent
    obtain ⟨grandparent,link',-⟩ := cycle.exists_parent
    obtain ⟨found,here,-⟩ := link'.found
    rw [link.ancestors_succ here,List.length_cons,ih cycle]

/-- What is listed as the ancestors of a process, in whatever table, is the longest line that starts from
its parent. It is empty if the process is not found, a greater depth only adds to it, and on a cycle it is
as long as the depth. -/
theorem ancestors_longest (table : ProcessTable) (pid : Nat) :
    (∀ depth line, table.ancestors pid depth = line ↔ table.Longest (table.parentOf pid) depth line) ∧
    (table pid = none → ∀ depth, table.ancestors pid depth = []) ∧
    (∀ depth depth', depth ≤ depth' →
      table.ancestors pid depth = (table.ancestors pid depth').take depth) ∧
    (table.RunsIntoCycle pid → ∀ depth, (table.ancestors pid depth).length = depth) := by
  refine ⟨fun depth line => ⟨?_,fun longest => ?_⟩,fun missing depth => ?_,
    fun depth depth' deeper => climb_eq_take deeper _,fun cycle => cycle.length_ancestors⟩
  · rintro rfl
    exact table.longest_climb depth _
  · exact (table.longest_climb depth _).unique longest
  · rw [ancestors,missing,Option.bind_none,climb_none]

/-- A process below two that are each other's parents, one that is its own parent, and one that is unknown. -/
theorem ancestors_longest_looped :
    let table := ofList [⟨7,some 4,"devspace"⟩,⟨4,some 9,"sh"⟩,⟨9,some 4,"npm"⟩,⟨2,some 2,"init"⟩]
    table.RunsIntoCycle 7 ∧ (table.ancestors 7 100).length = 100 ∧
    table.RunsIntoCycle 2 ∧ (table.ancestors 2 100).length = 100 ∧
    table.Longest (some 4) 2 [⟨4,some 9,"sh"⟩,⟨9,some 4,"npm"⟩] ∧
    (table.ancestors 7 100).take 2 = [⟨4,some 9,"sh"⟩,⟨9,some 4,"npm"⟩] ∧
    table 1 = none ∧ table.ancestors 1 100 = [] := by
  intro table
  have below : table.Link 7 4 := rfl
  have up : table.Link 4 9 := rfl
  have back : table.Link 9 4 := rfl
  have own : table.Link 2 2 := rfl
  have cycle : table.RunsIntoCycle 7 := ⟨4,.single below,.head up (.single back)⟩
  have selfLoop : table.RunsIntoCycle 2 := ⟨2,.refl,.single own⟩
  obtain ⟨longest,-,taken,looped⟩ := table.ancestors_longest 7
  obtain ⟨-,-,-,looped'⟩ := table.ancestors_longest 2
  obtain ⟨-,unknown,-⟩ := table.ancestors_longest 1
  have two : table.ancestors 7 2 = [⟨4,some 9,"sh"⟩,⟨9,some 4,"npm"⟩] := rfl
  exact ⟨cycle,looped cycle 100,selfLoop,looped' selfLoop 100,(longest 2 _).mp two,
    (taken 2 100 (by decide)).symm.trans two,rfl,unknown rfl 100⟩

end ReleaseInstaller.ProcessTable
