import ReleaseInstaller.Listing
import ReleaseInstaller.Net.Client
import ReleaseInstaller.Settings

/-! Where a run learns the newest release: from the release listing of the host, or from answers
that are given with the run. -/
namespace ReleaseInstaller

/-- Answers by the number of earlier calls and by whether pre-releases count. -/
abbrev FeedAnswers := (earlier : Nat) → (includePrerelease : Bool) →
  Except InstallError ReleaseVersion

inductive Feed where
  | listing
  | answers (answers : FeedAnswers)

namespace Feed

def fromListing (settings : Settings) (includePrerelease : Bool) :
    Procedure InstallError ReleaseVersion := do
  let url := settings.listingUrl
  let response ← Procedure.failing (fun _ => .versionRequestFailed url) (Net.request url)
  if ! response.isSuccess then throw (.versionUnavailable url (Net.statusText response.status))
  match Net.readText response.body with
  | .error _ => throw (.versionRequestFailed url)
  | .ok document =>
    match Listing.latestVersion? document settings.repository includePrerelease with
    | none => throw (.versionNotFound url)
    | some version => ExceptT.mk (pure (ReleaseVersion.parse version))

def ask (feed : Feed) (settings : Settings) (includePrerelease : Bool) :
    Procedure InstallError ReleaseVersion := do
  let earlier := (← get).feedCalls.length
  Procedure.record (.askedFeed includePrerelease)
  match feed with
  | listing => fromListing settings includePrerelease
  | answers answer => ExceptT.mk (pure (answer earlier includePrerelease))

end Feed
end ReleaseInstaller
