import ReleaseInstaller.Feed
import ReleaseInstaller.Proofs.Procedure

/-! What is asked of the network and of a feed, and what comes back, as functions of what went
before. A request leaves the file tree alone; it only adds to the history. -/
namespace ReleaseInstaller

namespace Machine

/-- The machine after a few more events that concern neither its files nor its disk. -/
def noting (events : List Event) (m : Machine) : Machine :=
  { m with history := m.history ++ events }

@[simp] theorem noting_history (events : List Event) (m : Machine) :
    (m.noting events).history = m.history ++ events := rfl

@[simp] theorem noting_files (events : List Event) (m : Machine) :
    (m.noting events).files = m.files := rfl

@[simp] theorem noting_network (events : List Event) (m : Machine) :
    (m.noting events).network = m.network := rfl

@[simp] theorem noting_nil (m : Machine) : m.noting [] = m := by simp [noting]

theorem noting_noting (first second : List Event) (m : Machine) :
    (m.noting first).noting second = m.noting (first ++ second) := by
  simp [noting]

theorem record_eq_noting (event : Event) (m : Machine) : m.record event = m.noting [event] := rfl

end Machine

namespace Net

/-- The URLs that a single request reaches, none or the one, and what comes back. -/
def answerOnce (network : Network) (earlier : List String) (url : String) :
    List String × Except TransportFault Response :=
  match network earlier url with
  | .unreachable => ([], .error .failed)
  | .dropped => ([url], .error .failed)
  | .silent => ([url], .error .timedOut)
  | .response r => ([url], .ok r)

def answer (network : Network) : (redirects : Nat) → (earlier : List String) → (url : String) →
    List String × Except TransportFault Response
  | 0, earlier, url =>
    match answerOnce network earlier url with
    | (asked, .ok r) => (asked, if r.redirection?.isSome then .error .failed else .ok r)
    | fault => fault
  | redirects + 1, earlier, url =>
    match answerOnce network earlier url with
    | (asked, .ok r) =>
      match r.redirection? with
      | some location =>
        let (later, result) :=
          answer network redirects (earlier ++ asked) (Url.resolve url location)
        (asked ++ later, result)
      | none => (asked, .ok r)
    | fault => fault

/-- What a request is answered after the events of the past. -/
def answerAfter (network : Network) (past : List Event) (url : String) :
    Except TransportFault Response :=
  (answer network redirectLimit (past.filterMap Event.request?) url).2

theorem answerAfter_concat (network : Network) (past : List Event) {event : Event}
    (silent : event.request? = none) (url : String) :
    answerAfter network (past ++ [event]) url = answerAfter network past url := by
  simp [answerAfter,silent]

theorem filterMap_requested {α : Type} {see : Event → Option α}
    (unseen : ∀ url, see (.requested url) = none) (urls : List String) :
    (urls.map Event.requested).filterMap see = [] := by
  simp [List.filterMap_map,unseen]

theorem requests_noting (urls : List String) (m : Machine) :
    (m.noting (urls.map .requested)).requests = m.requests ++ urls := by
  have same : (urls.map Event.requested).filterMap Event.request? = urls := by
    induction urls with
    | nil => rfl
    | cons url urls ih => simpa [Event.request?] using ih
  simp only [Machine.requests,Machine.noting_history,List.filterMap_append,same]

theorem run_ask (url : String) (m : Machine) :
    (ask url).run m =
      ((answerOnce m.network m.requests url).2,
        m.noting ((answerOnce m.network m.requests url).1.map .requested)) := by
  simp only [ask,answerOnce,Procedure.run_bind,Procedure.run_get]
  cases m.network m.requests url with
  | unreachable => simp
  | dropped | silent | response => rfl

theorem run_getFollowing (redirects : Nat) (url : String) (m : Machine) :
    (getFollowing redirects url).run m =
      ((answer m.network redirects m.requests url).2,
        m.noting ((answer m.network redirects m.requests url).1.map .requested)) := by
  induction redirects generalizing url m with
  | zero =>
    simp only [getFollowing,answer,Procedure.run_bind,run_ask]
    rcases answerOnce m.network m.requests url with ⟨asked, fault | r⟩
    · rfl
    · dsimp only
      cases r.redirection? <;> rfl
  | succ redirects ih =>
    simp only [getFollowing,answer,Procedure.run_bind,run_ask]
    rcases answerOnce m.network m.requests url with ⟨asked, fault | r⟩
    · rfl
    · dsimp only
      cases r.redirection? with
      | none => rfl
      | some location => simp [ih,requests_noting,Machine.noting_noting]

theorem run_request (url : String) (m : Machine) :
    (request url).run m =
      (answerAfter m.network m.history url,
        m.noting ((answer m.network redirectLimit m.requests url).1.map .requested)) :=
  run_getFollowing redirectLimit url m

end Net

namespace Feed

def readListing (settings : Settings) (includePrerelease : Bool) :
    Except Net.TransportFault Net.Response → Except InstallError ReleaseVersion
  | .error _ => .error (.versionRequestFailed settings.listingUrl)
  | .ok response =>
    if ! response.isSuccess then
      .error (.versionUnavailable settings.listingUrl (Net.statusText response.status))
    else match Net.readText response.body with
      | .error _ => .error (.versionRequestFailed settings.listingUrl)
      | .ok document =>
        match Listing.latestVersion? document settings.repository includePrerelease with
        | none => .error (.versionNotFound settings.listingUrl)
        | some version => ReleaseVersion.parse version

def reply (feed : Feed) (settings : Settings) (network : Net.Network) (past : List Event)
    (includePrerelease : Bool) : Except InstallError ReleaseVersion :=
  match feed with
  | listing =>
    readListing settings includePrerelease (Net.answerAfter network past settings.listingUrl)
  | answers answer => answer (past.filterMap Event.feedCall?).length includePrerelease

/-- The URLs that are requested to learn the reply. -/
def asked (feed : Feed) (settings : Settings) (m : Machine) : List String :=
  match feed with
  | listing => (Net.answer m.network Net.redirectLimit m.requests settings.listingUrl).1
  | answers _ => []

theorem run_fromListing (settings : Settings) (includePrerelease : Bool) (m : Machine) :
    (fromListing settings includePrerelease).run m =
      (readListing settings includePrerelease
          (Net.answerAfter m.network m.history settings.listingUrl),
        m.noting ((listing.asked settings m).map .requested)) := by
  simp only [fromListing,Procedure.run_bind,Procedure.run_failing,Net.run_request]
  cases Net.answerAfter m.network m.history settings.listingUrl with
  | error fault => rfl
  | ok response =>
    simp only [Procedure.mapError_ok,readListing]
    by_cases success : response.isSuccess = true
    · simp only [success,Bool.not_true,Bool.false_eq_true,if_false]
      cases Net.readText response.body with
      | error fault => rfl
      | ok document =>
        dsimp only
        cases Listing.latestVersion? document settings.repository includePrerelease <;> rfl
    · simp only [success,Bool.not_false,if_true]
      rfl

theorem run_ask (feed : Feed) (settings : Settings) (includePrerelease : Bool) (m : Machine) :
    (feed.ask settings includePrerelease).run m =
      (feed.reply settings m.network m.history includePrerelease,
        m.noting (.askedFeed includePrerelease :: (feed.asked settings m).map .requested)) := by
  simp only [ask,Procedure.run_bind,Procedure.run_get,Procedure.run_record]
  cases feed with
  | listing =>
    rw [run_fromListing]
    simp [reply,asked,Net.answerAfter,Machine.record_eq_noting,Machine.noting_noting,
      Machine.requests,List.filterMap_cons,Event.request?]
  | answers answer => rfl

end Feed
end ReleaseInstaller
