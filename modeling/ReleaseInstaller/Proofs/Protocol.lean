import ReleaseInstaller.Proofs.Quiet
import ReleaseInstaller.Proofs.Stages

/-! The calls of one install. A run asks its feed and downloads artifacts in one of a few orders
and no other: what was asked for is downloaded, and after a 404, once, the newest release. -/
namespace ReleaseInstaller

/-- A call of a run with the answer to it. -/
inductive Exchange where
  | feed (includePrerelease : Bool) (answer : Except InstallError ReleaseVersion)
  | download (version url : String) (answer : Except Net.TransportFault Net.Response)

namespace Download

/-- How the body of an artifact can be lost on its way into the file. -/
inductive Loss (url : String) (file : Path) (response : Net.Response) : InstallError → Prop where
  | brokenOff : response.body.ending.fault? = some fault →
      Loss url file response (transportError url fault)
  | notCreated (path : Path) : Loss url file response (.file .create path)
  | notWritten : Loss url file response (.writeFailed file)

inductive Outcome (url : String) (version : ReleaseVersion) (file : Path) :
    Except Net.TransportFault Net.Response → Except InstallError Download → Prop where
  | unanswered : Outcome url version file (.error fault) (.error (transportError url fault))
  | missing : response.status = 404 →
      Outcome url version file (.ok response) (.ok ⟨url,404,0,.missing⟩)
  | refused : response.status ≠ 404 → response.isSuccess = false →
      Outcome url version file (.ok response)
        (.error (.notAvailable version.text (Net.statusText response.status)))
  | lost : response.isSuccess = true → Loss url file response error →
      Outcome url version file (.ok response) (.error error)
  | completed : response.isSuccess = true → download.url = url → download.outcome = .completed →
      Outcome url version file (.ok response) (.ok download)

def answered (url : String) (version : ReleaseVersion) (m : Machine) : Machine :=
  let begun := m.record (.downloading version.text url)
  begun.noting ((Net.answer begun.network Net.redirectLimit begun.requests url).1.map .requested)

theorem run_eq (url : String) (version : ReleaseVersion) (file : Path) (shows : Bool)
    (m : Machine) : (run url version file shows).run m =
      match Net.answerAfter m.network m.history url with
      | .error fault => (.error (transportError url fault),answered url version m)
      | .ok response =>
        if response.status = 404 then (.ok ⟨url,404,0,.missing⟩,answered url version m)
        else if response.isSuccess then
          (save url file shows response).run (answered url version m)
        else
          (.error (.notAvailable version.text (Net.statusText response.status)),
            answered url version m) := by
  have same : Net.answerAfter (m.record (.downloading version.text url)).network
      (m.record (.downloading version.text url)).history url =
      Net.answerAfter m.network m.history url := Net.answerAfter_concat m.network m.history rfl url
  simp only [run,Procedure.run_bind,Procedure.run_record,Procedure.run_failing,Net.run_request,same]
  cases Net.answerAfter m.network m.history url with
  | error fault => rfl
  | ok response =>
    simp only [Procedure.mapError_ok]
    split
    · rfl
    · split <;> rfl

theorem create_error {p : Path} {m after : Machine} {failure : FileFailure}
    (failed : (Files.create p).run m = (.error failure,after)) : failure.action = .create := by
  rcases Procedure.run_bind_eq.mp failed with ⟨e,parent,same⟩ | ⟨_,middle,_,opened⟩
  · cases same
    unfold Files.makeParent at parent
    split at parent
    · cases parent
    · rcases Procedure.run_bind_eq.mp parent with ⟨_,look,_⟩ | ⟨found,_,_,made⟩
      · cases look
      · split at made
        · cases made
        · obtain ⟨result,_,same⟩ := Procedure.run_failing_eq.mp made
          cases result <;> cases same
          rfl
  · obtain ⟨result,_,same⟩ := Procedure.run_failing_eq.mp opened
    cases result <;> cases same
    rfl

end Download

namespace Install

variable {i : Install} {m middle after : Machine}

/-- The calls among the events that follow a past, each with what is answered to it then. -/
def exchanges (i : Install) (network : Net.Network) : (past : List Event) → List Event → List Exchange
  | _, [] => []
  | past, event :: events =>
    let later := exchanges i network (past ++ [event]) events
    match event with
    | .askedFeed includePrerelease =>
      .feed includePrerelease (i.feed.reply i.settings network past includePrerelease) :: later
    | .downloading version url =>
      .download version url (Net.answerAfter network past url) :: later
    | _ => later

theorem exchanges_append (network : Net.Network) (past first second : List Event) :
    i.exchanges network past (first ++ second) =
      i.exchanges network past first ++ i.exchanges network (past ++ first) second := by
  induction first generalizing past with
  | nil => simp [exchanges]
  | cons event first ih =>
    simp only [List.cons_append,exchanges,ih]
    cases event <;> simp

/-- From `m` on, these are the calls, with the answers of the network and of the feed. -/
structure Exchanged (i : Install) (m : Machine) (calls : List Exchange) (after : Machine) : Prop where
  network : after.network = m.network
  history : ∃ events, after.history = m.history ++ events ∧
    i.exchanges m.network m.history events = calls

theorem Exchanged.trans {first second : List Exchange} (before : Exchanged i m first middle)
    (rest : Exchanged i middle second after) : Exchanged i m (first ++ second) after := by
  obtain ⟨network,events,history,rfl⟩ := before
  obtain ⟨network',events',history',rfl⟩ := rest
  refine ⟨network'.trans network,events ++ events',by simp [history,history'],?_⟩
  rw [exchanges_append,network,history]

/-- What becomes of an install when its artifact is answered with anything but a 404. -/
inductive Settled (i : Install) (version : ReleaseVersion) :
    Except Net.TransportFault Net.Response → Except InstallError Installed → Prop where
  | unanswered : Settled i version (.error fault)
      (.error (Download.transportError (i.url version) fault))
  | refused : response.status ≠ 404 → response.isSuccess = false →
      Settled i version (.ok response)
        (.error (.notAvailable version.text (Net.statusText response.status)))
  | lost : response.isSuccess = true →
      Download.Loss (i.url version) i.target.temporary response error →
      Settled i version (.ok response) (.error error)
  | notPlaced : response.isSuccess = true →
      Settled i version (.ok response) (.error (.replaceFailed i.target.final cause))
  | installed : response.isSuccess = true → installed.version = version →
      installed.download.url = i.url version → Settled i version (.ok response) (.ok installed)

end Install
end ReleaseInstaller
