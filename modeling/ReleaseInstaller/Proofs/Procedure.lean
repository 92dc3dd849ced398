import ReleaseInstaller.Machine

/-! Running procedures. The equations below say what each way to build a procedure does, so that
a run is followed step by step and no procedure has to be opened. -/
namespace ReleaseInstaller

namespace Procedure

variable {ε ε' α β : Type}

/-- What a procedure gives when it is run on a machine, and the machine afterwards. -/
def run (p : Procedure ε α) (m : Machine) : Except ε α × Machine := p m

theorem run_bind (p : Procedure ε α) (next : α → Procedure ε β) (m : Machine) :
    run (p >>= next) m = match run p m with
      | (.ok a, after) => run (next a) after
      | (.error e, after) => (.error e, after) := by
  change (match run p m with | (result, after) => ExceptT.bindCont next result after) = _
  rcases run p m with ⟨result, after⟩
  cases result <;> rfl

@[simp] theorem run_pure (a : α) (m : Machine) :
    run (pure a : Procedure ε α) m = (.ok a, m) := rfl

@[simp] theorem run_throw (e : ε) (m : Machine) :
    run (throw e : Procedure ε α) m = (.error e, m) := rfl

@[simp] theorem run_mk_pure (result : Except ε α) (m : Machine) :
    run (ExceptT.mk (pure result) : Procedure ε α) m = (result, m) := rfl

@[simp] theorem run_get (m : Machine) : run (get : Procedure ε Machine) m = (.ok m, m) := rfl

@[simp] theorem run_record (event : Event) (m : Machine) :
    run (record event : Procedure ε Unit) m = (.ok (), m.record event) := rfl

@[simp] theorem run_look (see : Files → α) (m : Machine) :
    run (look see : Procedure ε α) m = (.ok (see m.files), m) := rfl

@[simp] theorem run_outcome (p : Procedure ε α) (m : Machine) :
    run (outcome p : Procedure ε' (Except ε α)) m = (.ok (run p m).1, (run p m).2) := rfl

@[simp] theorem run_succeeds (p : Procedure ε α) (m : Machine) :
    run (succeeds p : Procedure ε' Bool) m = (.ok (run p m).1.isOk, (run p m).2) := rfl

@[simp] theorem run_failing (asError : ε → ε') (p : Procedure ε α) (m : Machine) :
    run (failing asError p) m = ((run p m).1.mapError asError, (run p m).2) := rfl

theorem run_change (operation : Files → Except Fault Files) (m : Machine) :
    run (change operation) m = match operation m.files with
      | .ok files => (.ok (), m.withFiles files)
      | .error fault => (.error fault, m) := by
  simp only [change, run_bind, run_get]
  cases operation m.files <;> rfl

@[simp] theorem mapError_ok (f : ε → ε') (a : α) :
    (Except.ok a : Except ε α).mapError f = .ok a := rfl

@[simp] theorem mapError_error (f : ε → ε') (e : ε) :
    (Except.error e : Except ε α).mapError f = .error (f e) := rfl

/-- A sequence ends where its first part fails, or goes on from what that part gives. -/
theorem run_bind_eq {p : Procedure ε α} {next : α → Procedure ε β} {m after : Machine}
    {r : Except ε β} : run (p >>= next) m = (r, after) ↔
      (∃ e, run p m = (.error e, after) ∧ r = .error e) ∨
      ∃ a middle, run p m = (.ok a, middle) ∧ run (next a) middle = (r, after) := by
  rw [run_bind]
  rcases run p m with ⟨_ | a, middle⟩ <;> grind

theorem run_failing_eq {asError : ε → ε'} {p : Procedure ε α} {m after : Machine}
    {r : Except ε' α} : run (failing asError p) m = (r, after) ↔
      ∃ result, run p m = (result, after) ∧ r = result.mapError asError := by
  rw [run_failing]
  rcases run p m with ⟨result, middle⟩
  grind

theorem exists_of_isOk {ran : Except ε α × Machine} (ok : ran.1.isOk = true) :
    ∃ a after, ran = (.ok a, after) := by
  obtain ⟨e | a, after⟩ := ran
  · cases ok
  · exact ⟨a, after, rfl⟩

theorem exists_of_not_isOk {ran : Except ε α × Machine} (failed : ran.1.isOk = false) :
    ∃ e after, ran = (.error e, after) := by
  obtain ⟨e | a, after⟩ := ran
  · exact ⟨e, after, rfl⟩
  · cases failed

end Procedure
end ReleaseInstaller
