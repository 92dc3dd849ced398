import ReleaseInstaller.Proofs.Operation

/-! Work on files. What it gives, and the trees that it goes through, depend on the tree that it starts from
alone, and the tree is all of the machine that it changes. -/
namespace ReleaseInstaller

namespace Machine

variable {α : Type} {read : Event → Option α}

/-- The machine after its tree has become one tree after another. -/
def through (trees : List Files) (m : Machine) : Machine :=
  { m with files := trees.getLast?.getD m.files, history := m.history ++ trees.map .changed }

@[simp] theorem through_nil (m : Machine) : m.through [] = m := by simp [through]

theorem through_through (first second : List Files) (m : Machine) :
    (m.through first).through second = m.through (first ++ second) := by
  simp [through,List.getLast?_append,Option.getD_or]

theorem withFiles_eq_through (files : Files) (m : Machine) : m.withFiles files = m.through [files] := rfl

/-- What is read from other events is read no differently afterwards. -/
theorem filterMap_through (other : ∀ f, read (.changed f) = none) (trees : List Files) (m : Machine) :
    (m.through trees).history.filterMap read = m.history.filterMap read := by
  simp [through,List.filterMap_map,other]

end Machine

namespace Procedure

variable {ε ε' α β : Type} {p : Procedure ε α} {next : α → Procedure ε β}

/-- The procedure works on files alone. -/
def OnFiles (p : Procedure ε α) : Prop :=
  ∀ f, ∃ result trees, ∀ m : Machine, m.files = f → p.run m = (result,m.through trees)

theorem OnFiles.pure (a : α) : OnFiles (pure a : Procedure ε α) := fun _ => ⟨.ok a,[],by simp⟩

theorem OnFiles.throw (e : ε) : OnFiles (throw e : Procedure ε α) := fun _ => ⟨.error e,[],by simp⟩

theorem OnFiles.look (see : Files → α) : OnFiles (look see : Procedure ε α) := by
  intro f
  refine ⟨.ok (see f),[],?_⟩
  rintro m rfl
  simp

theorem OnFiles.change (operation : Files → Except Fault Files) : OnFiles (change operation) := by
  intro f
  cases changed : operation f with
  | error fault =>
    refine ⟨.error fault,[],?_⟩
    rintro m rfl
    simp [run_change,changed]
  | ok files =>
    refine ⟨.ok (),[files],?_⟩
    rintro m rfl
    simp [run_change,changed,Machine.withFiles_eq_through]

theorem OnFiles.failing (work : OnFiles p) (asError : ε → ε') : OnFiles (failing asError p) := by
  intro f
  obtain ⟨result,trees,runs⟩ := work f
  exact ⟨result.mapError asError,trees,fun m same => by rw [run_failing,runs m same]⟩

theorem OnFiles.outcome (work : OnFiles p) : OnFiles (outcome p : Procedure ε' (Except ε α)) := by
  intro f
  obtain ⟨result,trees,runs⟩ := work f
  exact ⟨.ok result,trees,fun m same => by rw [run_outcome,runs m same]⟩

theorem OnFiles.bind (first : OnFiles p) (second : ∀ a, OnFiles (next a)) : OnFiles (p >>= next) := by
  intro f
  obtain ⟨result,trees,runs⟩ := first f
  cases result with
  | error e => exact ⟨.error e,trees,fun m same => by rw [run_bind,runs m same]⟩
  | ok a =>
    obtain ⟨result',trees',runs'⟩ := second a (trees.getLast?.getD f)
    refine ⟨result',trees ++ trees',?_⟩
    rintro m rfl
    rw [run_bind,runs m rfl,← Machine.through_through]
    exact runs' _ rfl

theorem OnFiles.succeeds (work : OnFiles p) : OnFiles (succeeds p : Procedure ε' Bool) :=
  .bind work.outcome fun _ => .pure _

end Procedure

namespace Files

open Procedure

variable {ε : Type}

theorem onFiles_unlessDirectory (p : Path) (fault : Fault) : OnFiles (unlessDirectory p fault) := by
  refine .bind (.look _) fun found => ?_
  cases found
  · exact .throw fault
  · exact .pure ()

theorem onFiles_makeUpward (paths : List Path) : OnFiles (makeUpward paths) := by
  induction paths with
  | nil => exact .throw _
  | cons p up ih =>
    unfold makeUpward
    split
    · exact .pure ()
    · refine .bind (.outcome (.change _)) fun result => ?_
      split
      · exact .pure ()
      · refine .bind ih fun _ => .bind (.outcome (.change _)) fun result => ?_
        split
        · exact .pure ()
        · exact onFiles_unlessDirectory p _
      · exact onFiles_unlessDirectory p _

theorem onFiles_makeDirectories (p : Path) : OnFiles (makeDirectories p) := by
  refine .bind (.look _) fun found => ?_
  split
  · exact .pure ()
  · exact .failing (onFiles_makeUpward _) _

theorem onFiles_makeParent (p : Path) : OnFiles (makeParent p) := by
  unfold makeParent
  split
  · exact .pure ()
  · exact onFiles_makeDirectories _

theorem onFiles_discard (p : Path) : OnFiles (discard p : Procedure ε Bool) := by
  refine .bind (.look _) fun found => ?_
  cases found
  · exact .pure true
  · exact .succeeds (.change _)

end Files
end ReleaseInstaller
