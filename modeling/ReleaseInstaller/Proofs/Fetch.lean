import ReleaseInstaller.Proofs.Site
import ReleaseInstaller.Proofs.Stages

/-! Fetching an artifact: when a download is complete, the temporary file holds the body that the
server answered for its URL, and nothing else was changed but that file and directories around it. -/
namespace ReleaseInstaller

open Files Procedure

namespace Download

/-- What an artifact request was answered at some point of the past. -/
def Answered (network : Net.Network) (past : List Event) (url : String) (r : Net.Response) : Prop :=
  ∃ before version after, past = before ++ .downloading version url :: after ∧
    Net.answerAfter network before url = .ok r

/-- The octets are the whole body of an artifact that was served. -/
def Served (network : Net.Network) (past : List Event) (url : String) (octets : List UInt8) : Prop :=
  ∃ r, Answered network past url r ∧ r.isSuccess = true ∧ r.body.ending = .complete ∧
    octets = r.body.octets

theorem Answered.append {network : Net.Network} {past : List Event} {url : String} {r : Net.Response}
    (answered : Answered network past url r) (more : List Event) :
    Answered network (past ++ more) url r := by
  obtain ⟨before,version,after,rfl,answer⟩ := answered
  exact ⟨before,version,after ++ more,by simp,answer⟩

theorem Served.append {network : Net.Network} {past : List Event} {url : String}
    {octets : List UInt8} (served : Served network past url octets) (more : List Event) :
    Served network (past ++ more) url octets :=
  let ⟨r,answered,whole⟩ := served
  ⟨r,answered.append more,whole⟩

end Download

namespace Site

variable {s : Site} {pre : Machine → Prop} {l : Location} {url : String}

/-- The download is complete: the temporary file holds what was served for its URL. -/
def Fetched (s : Site) (d : Download) (m : Machine) : Prop :=
  ∃ octets mode, m.files.node? s.target.temporary = some (.file (.data octets) mode) ∧
    d.written = octets.length ∧ Download.Served s.network m.history d.url octets

theorem does_receive (shows : Bool) (total written : Nat) (old : List UInt8)
    (chunks : List (List UInt8)) :
    s.Does (fun m => s.target.Holds l old m.files) (Download.receive l shows total written chunks)
      fun n m => s.target.Holds l (old ++ chunks.flatten) m.files ∧
        n = written + chunks.flatten.length := by
  induction chunks generalizing written old with
  | nil => exact .pure fun m holds => ⟨by simpa using holds,by simp⟩
  | cons chunk rest ih =>
    have more := (ih (written + chunk.length) (old ++ chunk)).weaken
      (fun _ _ holds => holds) fun n m _ ⟨holds,count⟩ =>
        show s.target.Holds l (old ++ (chunk :: rest).flatten) m.files ∧
            n = written + (chunk :: rest).flatten.length from
          ⟨by simpa using holds,by simp [count,Nat.add_assoc]⟩
    apply Procedure.Does.bind (does_store old chunk)
    intro _
    cases shows with
    | false => exact more
    | true => exact Procedure.Does.bind (does_record rfl fun _ holds => holds) fun _ => more

theorem does_save (url : String) (shows : Bool) (r : Net.Response) :
    s.Does pre (Download.save url s.target.temporary shows r) fun d m =>
      d.url = url ∧ d.outcome = .completed ∧ r.body.ending = .complete ∧
        d.written = r.body.octets.length ∧ ∃ l, s.target.Holds l r.body.octets m.files := by
  refine Procedure.Does.bind (.failing does_create _) fun l =>
    Procedure.Does.bind (.failing (does_receive _ _ _ [] _) _) fun written => ?_
  cases ending : r.body.ending with
  | cut | stalled => exact .throw _
  | complete =>
    refine Procedure.Does.bind (.failing (does_flush l fun f =>
      s.target.Holds l ([] ++ r.body.chunks.flatten) f ∧
        written = 0 + r.body.chunks.flatten.length) _) fun _ => .pure fun m ⟨holds,count⟩ => ?_
    exact ⟨rfl,rfl,rfl,by simpa [Net.Body.octets] using count,l,
      by simpa [Net.Body.octets] using holds⟩

theorem does_request (version url : String) :
    s.Does (fun m => ∃ before, m.history = before ++ [.downloading version url])
      (failing (Download.transportError url) (Net.request url)) fun r m =>
        Download.Answered s.network m.history url r := by
  rintro m working ⟨before,history⟩
  rw [run_failing,Net.run_request]
  refine ⟨Machine.goes_noting (by simp [Event.files?]),⟨working.network,working.fit⟩,
    fun r same => ?_⟩
  have answered : Net.answerAfter s.network before url = .ok r := by
    rw [history,Net.answerAfter_concat _ _ rfl,working.network] at same
    cases answer : Net.answerAfter s.network before url with
    | error fault => simp [answer] at same
    | ok r' => simpa [answer] using same
  refine ⟨before,version,
    (Net.answer m.network Net.redirectLimit m.requests url).1.map .requested,?_,answered⟩
  simp [history]

theorem does_download (url : String) (version : ReleaseVersion) (shows : Bool) :
    s.Does pre (Download.run url version s.target.temporary shows) fun d m =>
      d.url = url ∧ (d.outcome = .completed → s.Fetched d m) := by
  have begun : s.Does pre (record (.downloading version.text url) : Procedure InstallError Unit)
      fun _ m => ∃ before, m.history = before ++ [.downloading version.text url] :=
    does_record rfl fun m _ => ⟨m.history,rfl⟩
  refine Procedure.Does.bind begun fun _ => Procedure.Does.bind (does_request _ _) ?_
  intro r
  split
  · exact .pure fun m _ => ⟨rfl,fun same => nomatch same⟩
  split
  · next success =>
    have saved : s.Does (fun _ => True) (Download.save url s.target.temporary shows r) _ :=
      does_save url shows r
    refine (saved.keeping (P := fun past => Download.Answered s.network past url r)
      fun _ more answered => answered.append more).weaken (fun m _ answered => ⟨answered,trivial⟩) fun d m _ => ?_
    rintro ⟨answered,rfl,-,ending,count,l,entry,mode,present⟩
    exact ⟨rfl,fun _ => ⟨_,mode,(node?_of_entry entry).trans present,count,r,answered,success,
      ending,rfl⟩⟩
  · exact .throw _

end Site

namespace Install

/-- What a fetch is made of does this much: a machine is kept in a state that notes do not change,
the place of the download is made clear, and from there a complete download is got. -/
structure Fetches (i : Install) (step : List Event → Files → Files → Prop)
    (inv clear : Machine → Prop) (got : Download → Machine → Prop) : Prop where
  noted : ∀ m events, inv m → inv (m.noting events)
  clears : ∀ pre : Machine → Prop, Does step inv pre
    (discard i.target.temporary : Procedure InstallError Bool) fun _ m => clear m
  downloads : ∀ url version, Does step inv clear
    (Download.run url version i.target.temporary i.shows) fun d m =>
      d.url = url ∧ (d.outcome = .completed → got d m)

namespace Fetches

variable {i : Install} {step : List Event → Files → Files → Prop} {inv clear pre : Machine → Prop}
  {got : Download → Machine → Prop}

theorem enter (fetches : i.Fetches step inv clear got) (phase : Phase) :
    Does step inv pre (record (.entered phase) : Procedure InstallError Unit) fun _ _ => True :=
  .record rfl fetches.noted

theorem newestVersion (fetches : i.Fetches step inv clear got) (includePrerelease : Bool) :
    Does step inv pre (i.newestVersion includePrerelease) fun _ _ => True :=
  .bind (fetches.enter .resolving) fun _ =>
    .noting (Feed.run_ask i.feed i.settings includePrerelease) (fun _ => by simp [Event.files?])
      fetches.noted

theorem fetch (fetches : i.Fetches step inv clear got) (version : ReleaseVersion) :
    Does step inv pre (i.fetch version) fun d m =>
      d.url = i.url version ∧ (d.outcome = .completed → got d m) := by
  refine .bind (fetches.enter .downloading) fun _ => .bind (fetches.clears _) fun _ =>
    .bind (fetches.downloads (i.url version) version) fun d => ?_
  split
  · next missing =>
    have discards := (fetches.clears fun _ => True).keeping (P := fun _ => d.url = i.url version)
      fun _ _ url => url
    refine .bind (discards.start fun _ _ post => ⟨post.1,trivial⟩) fun _ =>
      .pure fun m post => ⟨post.1,fun completed => ?_⟩
    exact nomatch missing.symm.trans completed
  · exact .pure fun m post => post

theorem fetchNewest (fetches : i.Fetches step inv clear got) :
    Does step inv pre i.fetchNewest fun found m => found.2.url = i.url found.1 ∧ got found.2 m := by
  refine .bind (fetches.newestVersion true) fun version => .bind (fetches.fetch version) fun d => ?_
  split
  · exact .throw _
  · next other =>
    refine .pure fun m ⟨url,complete⟩ => ⟨url,complete ?_⟩
    cases outcome : d.outcome with
    | completed => rfl
    | missing => exact absurd outcome other

theorem fetchOrNewest (fetches : i.Fetches step inv clear got) (version : ReleaseVersion) :
    Does step inv pre (i.fetchOrNewest version) fun found m =>
      found.2.url = i.url found.1 ∧ got found.2 m := by
  refine .bind (fetches.fetch version) fun d => ?_
  split
  · next completed => exact .pure fun m ⟨url,complete⟩ => ⟨url,complete completed⟩
  · exact fetches.fetchNewest

theorem obtain (fetches : i.Fetches step inv clear got) (explicit : Option ReleaseVersion) :
    Does step inv pre (i.obtain explicit) fun found m =>
      found.2.url = i.url found.1 ∧ got found.2 m := by
  cases explicit with
  | some version => exact fetches.fetchOrNewest version
  | none => exact .bind (fetches.newestVersion false) fun version => fetches.fetchOrNewest version

end Fetches

variable {s : Site} {i : Install} {pre : Machine → Prop}

theorem fetches (aimed : i.target = s.target) : i.Fetches s.Step s.Working
    (fun m => m.files.node? s.target.temporary = none) fun d m => s.Working m ∧ s.Fetched d m where
  noted _ _ working := ⟨working.network,working.fit⟩
  clears _ := by
    rw [aimed]
    exact s.does_discard_temporary
  downloads url version := by
    rw [aimed]
    exact (s.does_download url version i.shows).weaken (fun _ _ absent => absent)
      fun _ _ working ⟨url,fetched⟩ => ⟨url,fun completed => ⟨working,fetched completed⟩⟩

/-- What an install obtains is the whole artifact of the version it reports. -/
theorem does_obtain (aimed : i.target = s.target) (explicit : Option ReleaseVersion) :
    s.Does pre (i.obtain explicit) fun found m =>
      found.2.url = i.url found.1 ∧ s.Fetched found.2 m :=
  ((fetches aimed).obtain explicit).weaken (fun _ _ start => start)
    fun _ _ _ ⟨url,_,fetched⟩ => ⟨url,fetched⟩

end Install
end ReleaseInstaller
