import ReleaseInstaller.Proofs.FileWork
import ReleaseInstaller.Proofs.Lockstep
import ReleaseInstaller.Proofs.Stages

/-! The first request of a run. Work on files requests nothing, and what a request is redirected to
comes after it, so an install first asks for the artifact of the version that it is given, or else for
the release listing. -/
namespace ReleaseInstaller

namespace Procedure

variable {ε ε' α β : Type} {p : Procedure ε α} {next : α → Procedure ε β} {url : String}

def Silent (p : Procedure ε α) : Prop := ∀ m, (p.run m).2.requests = m.requests

/-- What the procedure requests starts with the URL. If it requests nothing then it fails. -/
def Opens (url : String) (p : Procedure ε α) : Prop :=
  ∀ m, ∃ new, (p.run m).2.requests = m.requests ++ new ∧
    (new.head? = some url ∨ new = [] ∧ (p.run m).1.isOk = false)

theorem Silent.pure (a : α) : Silent (pure a : Procedure ε α) := fun _ => rfl

theorem Silent.throw (e : ε) : Silent (throw e : Procedure ε α) := fun _ => rfl

theorem Silent.record {event : Event} (silent : event.request? = none) :
    Silent (record event : Procedure ε Unit) := by
  intro m
  simp [Machine.requests,Machine.record,silent]

theorem Silent.of_onFiles (work : OnFiles p) : Silent p := by
  intro m
  obtain ⟨result,trees,runs⟩ := work m.files
  rw [runs m rfl]
  exact Machine.filterMap_through (fun _ => rfl) trees m

theorem Silent.failing (silent : Silent p) (asError : ε → ε') : Silent (failing asError p) := silent

theorem Silent.bind (first : Silent p) (second : ∀ a, Silent (next a)) : Silent (p >>= next) := by
  intro m
  have before := first m
  rw [run_bind]
  revert before
  rcases p.run m with ⟨e | a,middle⟩ <;> intro before
  · exact before
  · exact (second a middle).trans before

theorem Opens.failing (opens : Opens url p) (asError : ε → ε') : Opens url (failing asError p) := by
  intro m
  obtain ⟨new,requests,first⟩ := opens m
  refine ⟨new,requests,first.imp id (And.imp id fun failed => ?_)⟩
  rw [run_failing]
  revert failed
  cases (p.run m).1 with
  | error e => exact fun _ => rfl
  | ok a => exact fun failed => nomatch failed

/-- After what is silent, the first request is that of what follows. -/
theorem Opens.after (silent : Silent p) (opens : ∀ a, Opens url (next a)) :
    Opens url (p >>= next) := by
  intro m
  have before := silent m
  rw [run_bind]
  revert before
  rcases p.run m with ⟨e | a,middle⟩ <;> intro before
  · exact ⟨[],by simpa using before,.inr ⟨rfl,rfl⟩⟩
  · obtain ⟨new,requests,first⟩ := opens a middle
    exact ⟨new,requests.trans (congrArg (· ++ new) before),first⟩

theorem Opens.bind (opens : Opens url p)
    (grows : ∀ a m, m.history <+: ((next a).run m).2.history) : Opens url (p >>= next) := by
  intro m
  have before := opens m
  rw [run_bind]
  revert before
  rcases p.run m with ⟨e | a,middle⟩ <;> rintro ⟨new,requests,first⟩
  · exact ⟨new,requests,first⟩
  · obtain ⟨more,later⟩ := (grows a middle).filterMap Event.request?
    have first := first.resolve_right fun failed => nomatch failed.2
    refine ⟨new ++ more,?_,.inl (by simp [List.head?_append,first])⟩
    rw [← List.append_assoc,← requests]
    exact later.symm

end Procedure

namespace Net

theorem answer_opens (network : Network) (redirects : Nat) (earlier : List String) (url : String) :
    (answer network redirects earlier url).1.head? = some url ∨
      (answer network redirects earlier url).1 = [] ∧
        (answer network redirects earlier url).2.isOk = false := by
  have once : (answerOnce network earlier url).1 = [url] ∨
      answerOnce network earlier url = ([],.error .failed) := by
    unfold answerOnce
    cases network earlier url <;> simp
  cases redirects with
  | zero =>
    unfold answer
    rcases once with asked | unreachable
    · left
      revert asked
      rcases answerOnce network earlier url with ⟨asked,fault | r⟩ <;> rintro rfl <;> rfl
    · rw [unreachable]
      exact .inr ⟨rfl,rfl⟩
  | succ redirects =>
    unfold answer
    rcases once with asked | unreachable
    · left
      revert asked
      rcases answerOnce network earlier url with ⟨asked,fault | r⟩ <;> rintro rfl
      · rfl
      · dsimp only
        cases r.redirection? <;> rfl
    · rw [unreachable]
      exact .inr ⟨rfl,rfl⟩

theorem opens_request (url : String) : (request url).Opens url := by
  intro m
  rw [run_request]
  exact ⟨_,requests_noting _ m,answer_opens ..⟩

end Net

namespace Feed

theorem opens_fromListing (settings : Settings) (includePrerelease : Bool) :
    (fromListing settings includePrerelease).Opens settings.listingUrl := by
  intro m
  rw [run_fromListing]
  refine ⟨_,Net.requests_noting _ m,(Net.answer_opens ..).imp id (And.imp id fun failed => ?_)⟩
  have answered : Net.answerAfter m.network m.history settings.listingUrl =
      (Net.answer m.network Net.redirectLimit m.requests settings.listingUrl).2 := rfl
  revert failed
  rw [answered]
  cases (Net.answer m.network Net.redirectLimit m.requests settings.listingUrl).2 with
  | error fault => exact fun _ => rfl
  | ok response => exact fun failed => nomatch failed

theorem opens_ask (settings : Settings) (includePrerelease : Bool) :
    (listing.ask settings includePrerelease).Opens settings.listingUrl := by
  have silent : (get : Procedure InstallError Machine).Silent := fun _ => rfl
  exact .after silent fun _ => .after (.record rfl) fun _ => opens_fromListing settings _

end Feed

namespace Download

theorem opens_run (url : String) (version : ReleaseVersion) (file : Path) (shows : Bool) :
    (run url version file shows).Opens url := by
  refine .after (.record rfl) fun _ => .bind (.failing (Net.opens_request url) _) ?_
  intro response m
  split
  · exact List.prefix_rfl
  split
  · have saves : (Contrast.equal [file]).Lockstep True (save url file shows response)
        (save url file shows response) fun _ => True :=
      Contrast.lockstep_save (List.mem_singleton_self file) url shows shows response
    exact saves.grows m
  · exact List.prefix_rfl

end Download

/-- What is asked for first: the artifact of the version to install, or the listing if there is none. -/
def Settings.firstUrl (s : Settings) (platform : Platform) : Option ReleaseVersion → String
  | some version => s.downloadUrl version platform
  | none => s.listingUrl

namespace Install

open Procedure

variable {i : Install}

theorem opens_fetchOrNewest (version : ReleaseVersion) :
    Opens (i.url version) (i.fetchOrNewest version) := by
  have fetch : Opens (i.url version) (i.fetch version) := by
    refine .after (.record rfl) fun _ => .after (.of_onFiles (Files.onFiles_discard _)) fun _ =>
      .bind (Download.opens_run _ _ _ _) ?_
    intro download m
    split
    · have discards : i.alone.Steady True (Files.discard i.target.temporary >>= fun _ =>
          pure download : Procedure InstallError Download) fun _ => True :=
        .bind (Contrast.steady_discard (by simp [alone,Contrast.equal,Target.paths])) fun _ =>
          .pure fun _ => trivial
      exact discards.grows m
    · exact List.prefix_rfl
  refine .bind fetch ?_
  intro download m
  split
  · exact List.prefix_rfl
  · have fetches : i.alone.Lockstep True i.fetchNewest (fetchNewest { i with shows := true })
        fun _ => True := Contrast.lockstep_fetchNewest (fun _ member => member) true
    exact fetches.grows m

theorem opens_obtain (listing : i.feed = .listing) (explicit : Option ReleaseVersion) :
    Opens (i.settings.firstUrl i.platform explicit) (i.obtain explicit) := by
  cases explicit with
  | some version => exact opens_fetchOrNewest version
  | none =>
    have newest : Opens i.settings.listingUrl (i.newestVersion false) :=
      .after (.record rfl) fun _ => by
        rw [listing]
        exact Feed.opens_ask _ _
    refine .bind newest ?_
    intro version m
    have fetches : i.alone.Lockstep True (i.fetchOrNewest version)
        (fetchOrNewest { i with shows := true } version) fun _ => True :=
      Contrast.lockstep_fetchOrNewest (fun _ member => member) true version
    exact fetches.grows m

/-- A failed install clears its download away, which requests nothing. -/
theorem opens_run (listing : i.feed = .listing) (explicit : Option ReleaseVersion) :
    Opens (i.settings.firstUrl i.platform explicit) (i.run explicit) := by
  have attempt : Opens (i.settings.firstUrl i.platform explicit) (i.attempt explicit) := by
    refine .bind (opens_obtain listing explicit) ?_
    intro got m
    have puts : i.alone.Steady True (i.putInPlace got.1 got.2) fun _ => True :=
      Contrast.steady_putInPlace (fun _ member => member) got.1 got.2
    exact puts.grows m
  intro m
  have opens := attempt m
  rw [run_run]
  revert opens
  rcases (i.attempt explicit).run m with ⟨error | installed,after⟩ <;> rintro ⟨new,requests,first⟩
  · refine ⟨new,?_,first⟩
    have recorded : (after.record (.entered .failed)).requests = after.requests :=
      Silent.record (ε := InstallError) rfl after
    exact (Silent.of_onFiles (Files.onFiles_discard _) _).trans (recorded.trans requests)
  · exact ⟨new,requests,first⟩

end Install

end ReleaseInstaller
