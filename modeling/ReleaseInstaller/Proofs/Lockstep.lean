import ReleaseInstaller.CommandLine.Run
import ReleaseInstaller.Proofs.Contrast
import ReleaseInstaller.Proofs.Distinct

/-! Installs side by side. Installs with the same settings go on in lockstep, whether their downloads are
shown or not, as long as their trees differ in nothing that is on the paths of the target. -/
namespace ReleaseInstaller

/-- The trees of an install beside themselves. -/
def Install.alone (i : Install) : Contrast :=
  .equal (i.target.paths i.settings.binaryName i.platform.os)

namespace Contrast

open Files

variable {c : Contrast} {pre : Prop} {p q : Path} {l : Location} {m n : Machine}

theorem Pair.answerAfter (pair : c.Pair m n) (url : String) :
    Net.answerAfter n.network n.history url = Net.answerAfter m.network m.history url := by
  have requests : n.history.filterMap Event.request? = m.history.filterMap Event.request? :=
    pair.requests
  rw [Net.answerAfter,Net.answerAfter,pair.network,requests]

theorem steady_request (url : String) : c.Steady pre (Net.request url) fun _ => True := by
  constructor
  · intro m
    rw [Net.run_request]
    exact List.prefix_append ..
  · intro _ m n pair _
    rw [Net.run_request,Net.run_request,pair.answerAfter,pair.network,pair.requests]
    exact ⟨rfl,pair.noting rfl rfl (Net.filterMap_requested (fun _ => rfl) _)
      (Net.filterMap_requested (fun _ => rfl) _),fun _ _ => trivial⟩

theorem Pair.reply (pair : c.Pair m n) (feed : Feed) (settings : Settings) (includePrerelease : Bool) :
    feed.reply settings n.network n.history includePrerelease =
      feed.reply settings m.network m.history includePrerelease := by
  cases feed with
  | listing => simp only [Feed.reply,pair.answerAfter]
  | answers answer =>
    have feedCalls : n.history.filterMap Event.feedCall? = m.history.filterMap Event.feedCall? :=
      pair.feedCalls
    simp only [Feed.reply,feedCalls]

theorem Pair.asked (pair : c.Pair m n) (feed : Feed) (settings : Settings) :
    feed.asked settings n = feed.asked settings m := by
  cases feed with
  | listing => simp only [Feed.asked,pair.network,pair.requests]
  | answers answer => rfl

theorem steady_ask (feed : Feed) (settings : Settings) (includePrerelease : Bool) :
    c.Steady pre (feed.ask settings includePrerelease) fun _ => True := by
  have silent (urls : List String) :
      (Event.askedFeed includePrerelease :: urls.map .requested).filterMap Event.files? = [] := by
    simp [List.filterMap_cons,Event.files?]
  constructor
  · intro m
    rw [Feed.run_ask]
    exact List.prefix_append ..
  · intro _ m n pair _
    rw [Feed.run_ask,Feed.run_ask,pair.reply,pair.asked]
    exact ⟨rfl,pair.noting rfl rfl (silent _) (silent _),fun _ _ => trivial⟩

theorem lockstep_receive (shows shows' : Bool) (total written : Nat) (chunks : List (List UInt8)) :
    c.Lockstep (c.shown l) (Download.receive l shows total written chunks)
      (Download.receive l shows' total written chunks) fun _ => True := by
  induction chunks generalizing written with
  | nil => exact .pure fun _ => trivial
  | cons chunk rest ih =>
    refine .bind (steady_store chunk).keep fun _ => ?_
    exact ((ih _).weaken And.left fun _ _ => trivial).showing rfl rfl rfl shows shows'

theorem lockstep_save (member : p ∈ c.paths) (url : String) (shows shows' : Bool)
    (response : Net.Response) :
    c.Lockstep pre (Download.save url p shows response) (Download.save url p shows' response)
      fun _ => True := by
  refine .bind (.failing (steady_create member) _) fun l =>
    .bind (.failing (lockstep_receive shows shows' _ _ _).keep _) fun written => ?_
  cases response.body.ending.fault? with
  | some fault => exact .throw _
  | none =>
    exact .bind (.failing (steady_flush.weaken And.left fun _ _ => trivial) _) fun _ =>
      .pure fun _ => trivial

theorem lockstep_download (member : p ∈ c.paths) (url : String) (version : ReleaseVersion)
    (shows shows' : Bool) :
    c.Lockstep pre (Download.run url version p shows) (Download.run url version p shows')
      fun _ => True := by
  refine .bind (.record rfl) fun _ => .bind (.failing (steady_request url) _) fun response => ?_
  split
  · exact .pure fun _ => trivial
  split
  · exact lockstep_save member url shows shows' response
  · exact .throw _

section Install

variable {i : Install} (within : ∀ p ∈ i.target.paths i.settings.binaryName i.platform.os, p ∈ c.paths)
  (shows : Bool)

theorem steady_newestVersion (includePrerelease : Bool) :
    c.Steady pre (i.newestVersion includePrerelease) fun _ => True :=
  .bind (.record rfl) fun _ => steady_ask ..

include within

theorem lockstep_fetch (version : ReleaseVersion) :
    c.Lockstep pre (i.fetch version) (Install.fetch { i with shows } version) fun _ => True := by
  have member := within i.target.temporary (by simp [Target.paths])
  refine .bind (.record rfl) fun _ => .bind (steady_discard member) fun _ =>
    .bind (lockstep_download member _ version i.shows shows) fun download => ?_
  dsimp only
  split
  · exact .bind (steady_discard member) fun _ => .pure fun _ => trivial
  · exact .pure fun _ => trivial

theorem lockstep_fetchNewest :
    c.Lockstep pre i.fetchNewest (Install.fetchNewest { i with shows }) fun _ => True := by
  refine .bind (steady_newestVersion true) fun version =>
    .bind (lockstep_fetch within shows version) fun download => ?_
  split
  · exact .throw _
  · exact .pure fun _ => trivial

theorem lockstep_fetchOrNewest (version : ReleaseVersion) :
    c.Lockstep pre (i.fetchOrNewest version) (Install.fetchOrNewest { i with shows } version)
      fun _ => True := by
  refine .bind (lockstep_fetch within shows version) fun download => ?_
  split
  · exact .pure fun _ => trivial
  · exact lockstep_fetchNewest within shows

theorem lockstep_obtain (explicit : Option ReleaseVersion) :
    c.Lockstep pre (i.obtain explicit) (Install.obtain { i with shows } explicit)
      fun _ => True := by
  cases explicit with
  | some version => exact lockstep_fetchOrNewest within shows version
  | none =>
    exact .bind (steady_newestVersion false) fun version =>
      lockstep_fetchOrNewest within shows version

theorem steady_putInPlace (version : ReleaseVersion) (download : Download) :
    c.Steady pre (i.putInPlace version download) fun _ => True := by
  have temporary := within i.target.temporary (by simp [Target.paths])
  have final := within i.target.final (by simp [Target.paths])
  have legacy := within i.target.legacy (by simp [Target.paths])
  have companions (all : Bool) (p : Path)
      (member : p ∈ i.target.companions i.settings.binaryName i.platform.os all) : p ∈ c.paths :=
    within p (by simp [Target.paths,Target.companions_subset all member])
  exact .bind (.record rfl) fun _ =>
    .bind (.look fun f g alike clear => (c.looks alike clear final (.refl _)).1) fun _ =>
    .bind (steady_discard legacy) fun _ => .bind (steady_replacement temporary final) fun _ =>
    .bind (steady_discard legacy) fun _ => .bind (steady_discardEach _ (companions _)) fun _ =>
    .bind (.record rfl) fun _ => .pure fun _ => trivial

theorem lockstep_run (explicit : Option ReleaseVersion) :
    c.Lockstep pre (i.run explicit) (Install.run { i with shows } explicit) fun _ => True := by
  have attempt : c.Lockstep pre (i.attempt explicit) (Install.attempt { i with shows } explicit)
      fun _ => True :=
    .bind (lockstep_obtain within shows explicit) fun got => steady_putInPlace within got.1 got.2
  refine .bind attempt.outcome fun result => ?_
  cases result with
  | ok installed => exact .pure fun _ => trivial
  | error error =>
    have member := within i.target.temporary (by simp [Target.paths])
    exact .bind (.record rfl) fun _ => .bind (steady_discard member) fun _ => .throw _

end Install

/-- A tree beside itself differs in nothing, so every install goes on in lockstep somewhere. -/
theorem run_grows (i : Install) (explicit : Option ReleaseVersion) (m : Machine) :
    m.history <+: ((i.run explicit).run m).2.history := by
  have runs : i.alone.Lockstep True (i.run explicit) (Install.run { i with shows := true } explicit)
      fun _ => True := lockstep_run (fun _ member => member) true explicit
  exact runs.grows m

theorem steady_resolve {settings : Settings} {host : HostContext} {globalBin : Directory.GlobalBin}
    {os : Os} (isName : Path.IsName settings.binaryName)
    (within : ∀ directory, (Directory.locate settings host globalBin os).2 = .ok directory →
      ∀ p ∈ (Target.make directory settings.binaryName os).paths settings.binaryName os, p ∈ c.paths) :
    c.Steady pre (Directory.resolve settings host globalBin os) fun t =>
      ∀ p ∈ t.paths settings.binaryName os, p ∈ c.paths := by
  unfold Directory.resolve
  cases located : (Directory.locate settings host globalBin os).2 with
  | error error => exact .throw error
  | ok directory =>
    have within := within directory located
    have leads (q : Path) (above : q ∈ directory.ancestors) :
        LeadsTo q (Target.make directory settings.binaryName os).final :=
      .of_ancestor (os.executableName_isName isName) above
    change c.Steady pre (Procedure.failing FileFailure.toError (makeDirectories directory) >>= fun _ =>
      pure (Target.make directory settings.binaryName os)) _
    exact .bind (.failing (steady_makeDirectories (within _ (by simp [Target.paths])) leads) _)
      fun _ => .pure fun _ => within

end Contrast
end ReleaseInstaller
