import ReleaseInstaller.Proofs.Operation

/-! The stages of an install: how a fetch, the placing of a binary and a whole run are made of
downloads, removals and a replacement. -/
namespace ReleaseInstaller.Install

variable {i : Install} {m after : Machine}

def url (i : Install) (version : ReleaseVersion) : String :=
  i.settings.downloadUrl version i.platform

/-- The machine once a path has been cleared of a file. -/
def cleared (p : Path) (m : Machine) : Machine :=
  ((Files.discard p : Procedure InstallError Bool).run m).2

theorem run_discard_cleared (p : Path) (m : Machine) :
    ∃ gone, (Files.discard p : Procedure InstallError Bool).run m = (.ok gone,cleared p m) := by
  obtain ⟨gone,after,discard⟩ := Files.discard_total (ε := InstallError) p m
  exact ⟨gone,by simp only [cleared,discard]⟩

/-- A binary that was put in place: the old one cleared away, the new one moved over it, and the
scripts beside it removed. -/
theorem putInPlace_ok {version : ReleaseVersion} {download : Download} {installed : Installed}
    (placed : (i.putInPlace version download).run m = (.ok installed,after)) :
    ∃ replaced removed swept,
      (Replacement.run i.target.temporary i.target.final).run
        (cleared i.target.legacy (m.record (.entered .installing))) = (.ok (),replaced) ∧
      (discardEach (i.target.companions i.settings.binaryName i.platform.os
          (m.files.holds i.target.final)) : Procedure InstallError (List Path)).run
        (cleared i.target.legacy replaced) = (.ok removed,swept) ∧
      after = swept.record (.entered .installed) ∧
      installed =
        ⟨version,i.target.final,download,! m.files.holds i.target.final,removed⟩ := by
  obtain ⟨_,discard⟩ := run_discard_cleared i.target.legacy (m.record (.entered .installing))
  simp only [putInPlace,Procedure.run_bind,Procedure.run_record,Procedure.run_look,discard]
    at placed
  rcases replacement : (Replacement.run i.target.temporary i.target.final).run
    (cleared i.target.legacy (m.record (.entered .installing))) with ⟨error | _,replaced⟩
  · simp only [replacement] at placed
    cases placed
  · obtain ⟨_,discard'⟩ := run_discard_cleared i.target.legacy replaced
    obtain ⟨removed,swept,each⟩ := discardEach_total (ε := InstallError)
      (i.target.companions i.settings.binaryName i.platform.os (m.files.holds i.target.final))
      (cleared i.target.legacy replaced)
    simp only [replacement,discard',Bool.not_not] at placed
    rw [show (m.record (.entered .installing)).files = m.files from rfl] at placed
    simp only [each] at placed
    cases placed
    exact ⟨replaced,removed,swept,rfl,each,rfl,rfl⟩

/-- Only the replacement itself can fail, and then it is the last thing done. -/
theorem putInPlace_error {version : ReleaseVersion} {download : Download} {error : InstallError}
    (failed : (i.putInPlace version download).run m = (.error error,after)) :
    (Replacement.run i.target.temporary i.target.final).run
      (cleared i.target.legacy (m.record (.entered .installing))) = (.error error,after) := by
  obtain ⟨_,discard⟩ := run_discard_cleared i.target.legacy (m.record (.entered .installing))
  simp only [putInPlace,Procedure.run_bind,Procedure.run_record,Procedure.run_look,discard]
    at failed
  rcases replacement : (Replacement.run i.target.temporary i.target.final).run
    (cleared i.target.legacy (m.record (.entered .installing))) with ⟨error | _,replaced⟩
  · simp only [replacement] at failed
    cases failed
    rfl
  · obtain ⟨_,discard'⟩ := run_discard_cleared i.target.legacy replaced
    obtain ⟨removed,swept,each⟩ := discardEach_total (ε := InstallError)
      (i.target.companions i.settings.binaryName i.platform.os
        (! ! (m.record (.entered .installing)).files.holds i.target.final))
      (cleared i.target.legacy replaced)
    simp only [replacement,discard',each] at failed
    cases failed

theorem replacement_error {temporary final : Path} {error : InstallError}
    (failed : (Replacement.run temporary final).run m = (.error error,after)) :
    ∃ cause, error = .replaceFailed final cause := by
  obtain ⟨result,_,same⟩ := Procedure.run_failing_eq.mp failed
  cases result <;> cases same
  exact ⟨_,rfl⟩

theorem run_run (i : Install) (explicit : Option ReleaseVersion) (m : Machine) :
    (i.run explicit).run m =
      match (i.attempt explicit).run m with
      | (.ok installed,after) => (.ok installed,after)
      | (.error error,after) =>
        (.error error,cleared i.target.temporary (after.record (.entered .failed))) := by
  simp only [run,Procedure.run_bind,Procedure.run_outcome]
  rcases (i.attempt explicit).run m with ⟨error | installed,after⟩
  · obtain ⟨_,discard⟩ :=
      run_discard_cleared i.target.temporary (after.record (.entered .failed))
    simp only [Procedure.run_bind,Procedure.run_record,discard,Procedure.run_throw]
  · rfl

end ReleaseInstaller.Install
