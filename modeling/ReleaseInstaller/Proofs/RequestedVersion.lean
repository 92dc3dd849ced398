import ReleaseInstaller.Proofs.Agreement
import ReleaseInstaller.Proofs.FinishInstall
import ReleaseInstaller.Proofs.FirstRequest

/-! Which version an installation goes for. A version that is given settles it, and the manifest is not
looked at; otherwise the manifest does, and where it is of no use the run ends before it has done
anything. -/
namespace ReleaseInstaller

open Files Procedure

variable {p : Path} {f g : Files} {m n : Machine}

namespace Manifest

/-- The file at the path is a manifest with this value in the place of its version, or with none. -/
def Carries (p : Path) (f : Files) (value? : Option Json.Value) : Prop :=
  ∃ stored document, Files.read p f = .ok stored ∧ parse stored = .ok document ∧
    document.member? versionKey = value?

/-- What the manifest at a path asks for: the version that it records, or none in particular. -/
inductive Asks (p : Path) (f : Files) : Option ReleaseVersion → Prop where
  | absent : f.holds p = false → Asks p f none
  | unversioned : Carries p f none → Asks p f none
  | blank : Carries p f (some (.string text)) → Text.isAllBlank text = true → Asks p f none
  | valid : Carries p f (some (.string text)) → Text.isAllBlank text = false →
      ReleaseVersion.parse (String.ofList text) = .ok v → Asks p f (some v)

inductive Unusable (p : Path) (f : Files) : Prop where
  | unreadable : f.holds p = true → Files.read p f = .error fault → Unusable p f
  | malformed : Files.read p f = .ok stored → parse stored = .error fault → Unusable p f
  | invalid : Carries p f (some (.string text)) → Text.isAllBlank text = false →
      ReleaseVersion.parse (String.ofList text) = .error error → Unusable p f
  | otherwise : Carries p f (some value) → (∀ text, value ≠ .string text) → Unusable p f

theorem holds_of_read {stored : List UInt8} (read : Files.read p f = .ok stored) :
    f.holds p = true := by
  unfold Files.read at read
  rw [holds,find?]
  cases followed : f.follow? p with
  | error fault => simp [followed,bind,Except.bind] at read
  | ok l =>
    cases found : f.at? l with
    | none => simp [followed,found,bind,Except.bind] at read
    | some node => simp [found]

theorem asks_or_unusable (p : Path) (f : Files) : (∃ version?, Asks p f version?) ∨ Unusable p f := by
  cases present : f.holds p with
  | false => exact .inl ⟨none,.absent present⟩
  | true =>
  cases read : Files.read p f with
  | error fault => exact .inr (.unreadable present read)
  | ok stored =>
  cases parsed : parse stored with
  | error fault => exact .inr (.malformed read parsed)
  | ok document =>
  have carries : Carries p f (document.member? versionKey) := ⟨stored,document,read,parsed,rfl⟩
  revert carries
  rcases document.member? versionKey with _ | value <;> intro carries
  · exact .inl ⟨none,.unversioned carries⟩
  by_cases string : ∃ text, value = .string text
  · obtain ⟨text,rfl⟩ := string
    cases blank : Text.isAllBlank text with
    | true => exact .inl ⟨none,.blank carries blank⟩
    | false =>
      cases valid : ReleaseVersion.parse (String.ofList text) with
      | error error => exact .inr (.invalid carries blank valid)
      | ok v => exact .inl ⟨some v,.valid carries blank valid⟩
  · exact .inr (.otherwise carries fun text same => string ⟨text,same⟩)

end Manifest

namespace CommandLine

/-- The version that an installation goes for, with the version that it is given or else by its
manifest. -/
inductive Wants (p : Path) (f : Files) : (given? : Option String) → Option ReleaseVersion → Prop where
  | given : ReleaseVersion.parse text = .ok version → Wants p f (some text) (some version)
  | recorded : Manifest.Asks p f version? → Wants p f none version?

inductive Refused (p : Path) (f : Files) : (given? : Option String) → Prop where
  | given : ReleaseVersion.parse text = .error error → Refused p f (some text)
  | recorded : Manifest.Unusable p f → Refused p f none

theorem wants_or_refused (p : Path) (f : Files) (given? : Option String) :
    (∃ version?, Wants p f given? version?) ∨ Refused p f given? := by
  cases given? with
  | some text =>
    cases parsed : ReleaseVersion.parse text with
    | error error => exact .inr (.given parsed)
    | ok version => exact .inl ⟨some version,.given parsed⟩
  | none =>
    exact (Manifest.asks_or_unusable p f).imp (fun asks => asks.imp fun _ => .recorded) .recorded

namespace Run

variable {r : Run} {given? : Option String} {version? : Option ReleaseVersion} {shows : Bool}

theorem requestedVersion_of_carries {value? : Option Json.Value}
    (carries : Manifest.Carries r.settings.manifestPath f value?) :
    ∃ manifest : Manifest, r.requestedVersion none f = manifest.version ∧
      manifest.root.member? Manifest.versionKey = value? := by
  obtain ⟨stored,document,read,parsed,member⟩ := carries
  refine ⟨⟨r.settings.manifestPath,document⟩,?_,member⟩
  simp only [requestedVersion,Manifest.ofFiles?,Manifest.holds_of_read read,if_true,
    Manifest.ofFiles,read,parsed]
  rfl

theorem requestedVersion_of_wants (wants : Wants r.settings.manifestPath f given? version?) :
    r.requestedVersion given? f = .ok version? := by
  cases wants with
  | given valid => simp [requestedVersion,valid,Except.map]
  | recorded asks =>
    cases asks with
    | absent absent =>
      simp only [requestedVersion,Manifest.ofFiles?,absent]
      rfl
    | unversioned carries =>
      obtain ⟨manifest,requested,member⟩ := requestedVersion_of_carries carries
      rw [requested,Manifest.version,member]
    | blank carries blank =>
      obtain ⟨manifest,requested,member⟩ := requestedVersion_of_carries carries
      simp [requested,Manifest.version,member,blank]
    | valid carries some valid =>
      obtain ⟨manifest,requested,member⟩ := requestedVersion_of_carries carries
      simp [requested,Manifest.version,member,some,valid,Except.map]

theorem requestedVersion_of_refused (refused : Refused r.settings.manifestPath f given?) :
    (r.requestedVersion given? f).isOk = false := by
  cases refused with
  | given invalid =>
    simp only [requestedVersion,invalid]
    rfl
  | recorded unusable =>
    cases unusable with
    | unreadable present unread =>
      simp only [requestedVersion,Manifest.ofFiles?,present,Manifest.ofFiles,unread]
      rfl
    | malformed read parsed =>
      simp only [requestedVersion,Manifest.ofFiles?,Manifest.holds_of_read read,Manifest.ofFiles,
        read,parsed]
      rfl
    | invalid carries some invalid =>
      obtain ⟨manifest,requested,member⟩ := requestedVersion_of_carries carries
      simp only [requested,Manifest.version,member,some,invalid]
      rfl
    | @otherwise value carries other =>
      obtain ⟨manifest,requested,member⟩ := requestedVersion_of_carries carries
      rw [requested,Manifest.version,member]
      cases value with
      | string text => exact absurd rfl (other text)
      | null | bool | number | array | object => rfl

theorem run_install (r : Run) (given? : Option String) (shows : Bool) (m : Machine) :
    (r.install given? shows).run m =
      match r.requestedVersion given? m.files,
          Platform.ofHost r.context.hostOs r.context.hostArch with
      | .error error, _ => (.error error,m)
      | .ok _, .error cause => (.error (.unsupportedPlatform cause),m)
      | .ok version?, .ok platform =>
        (Directory.resolve r.settings r.host (r.context.packageManagers m.files) platform.os >>=
          fun t => Install.run ⟨r.settings,.listing,platform,t,shows⟩ version?).run m := by
  simp only [install,run_bind,run_get,run_mk_pure]
  cases r.requestedVersion given? m.files with
  | error error => rfl
  | ok version? =>
    dsimp only
    cases Platform.ofHost r.context.hostOs r.context.hostArch with
    | error cause => rfl
    | ok platform => simp only [run_bind,run_get]

/-- The paths that an installation works on. -/
def paths (r : Run) (f : Files) : List Path :=
  match Platform.ofHost r.context.hostOs r.context.hostArch with
  | .error _ => []
  | .ok platform =>
    match (Directory.locate r.settings r.host (r.context.packageManagers f) platform.os).2 with
    | .error _ => []
    | .ok directory => (Target.make directory r.settings.binaryName platform.os).paths
        r.settings.binaryName platform.os

theorem ends_install {c : Contrast} (pair : c.Pair m n) (isName : Path.IsName r.settings.binaryName)
    (requested : r.requestedVersion given? n.files = r.requestedVersion given? m.files)
    (answers : r.context.packageManagers n.files = r.context.packageManagers m.files)
    (within : ∀ p ∈ r.paths m.files, p ∈ c.paths) (shows shows' : Bool)
    (fair : c.Fair ((r.install given? shows).run m).2) :
    c.Ends (fun _ => True) ((r.install given? shows).run m) ((r.install given? shows').run n) := by
  rw [run_install] at fair ⊢
  rw [run_install,requested,answers]
  revert fair
  cases r.requestedVersion given? m.files with
  | error error => exact fun _ => ⟨rfl,pair,fun _ _ => trivial⟩
  | ok version? =>
  cases named : Platform.ofHost r.context.hostOs r.context.hostArch with
  | error cause => exact fun _ => ⟨rfl,pair,fun _ _ => trivial⟩
  | ok platform =>
  intro fair
  have resolves : c.Steady True (Directory.resolve r.settings r.host
      (r.context.packageManagers m.files) platform.os) fun t =>
        ∀ p ∈ t.paths r.settings.binaryName platform.os, p ∈ c.paths := by
    refine Contrast.steady_resolve isName fun directory located p member => within p ?_
    simpa [paths,named,located] using member
  refine Contrast.Lockstep.ends (.bind resolves fun t => ?_) trivial m n pair fair
  exact .assuming (Contrast.run_grows _ _) fun within => Contrast.lockstep_run within shows' version?

theorem opens_install (wants : Wants r.settings.manifestPath m.files given? version?) :
    ∃ new, ((r.install given? shows).run m).2.requests = m.requests ++ new ∧
      ∀ url ∈ new.head?, ∃ platform, Platform.ofHost r.context.hostOs r.context.hostArch =
        .ok platform ∧ url = r.settings.firstUrl platform version? := by
  rw [run_install,requestedVersion_of_wants wants]
  cases named : Platform.ofHost r.context.hostOs r.context.hostArch with
  | error cause => exact ⟨[],(List.append_nil _).symm,by simp⟩
  | ok platform =>
    have resolves : Silent (Directory.resolve r.settings r.host
        (r.context.packageManagers m.files) platform.os) := by
      have located (result : Except InstallError Path) :
          Silent (ExceptT.mk (pure result) : Procedure InstallError Path) := fun _ => rfl
      exact .bind (located _) fun directory =>
        .bind (.failing (.of_onFiles (onFiles_makeDirectories directory)) _) fun _ => .pure _
    let install (t : Target) : Install := ⟨r.settings,.listing,platform,t,shows⟩
    have opens (t : Target) : Opens (r.settings.firstUrl platform version?)
        ((install t).run version?) := Install.opens_run (i := install t) rfl version?
    obtain ⟨new,requests,first⟩ := Opens.after resolves opens m
    refine ⟨new,requests,fun url member => ⟨platform,rfl,?_⟩⟩
    rcases first with first | ⟨rfl,-⟩
    · exact Option.some.inj (member.symm.trans first)
    · cases member

theorem install_refused (refused : Refused r.settings.manifestPath m.files given?) :
    ∃ error, (r.install given? shows).run m = (.error error,m) := by
  have failed := requestedVersion_of_refused refused
  rw [run_install]
  revert failed
  cases r.requestedVersion given? m.files with
  | error error => exact fun _ => ⟨error,rfl⟩
  | ok version? => exact fun failed => nomatch failed

end Run

def Calls (context : Context) (arguments : List String) (given? : Option String) : Prop :=
  ∃ invocation, read context.environment arguments = .ok invocation ∧
    (invocation.subcommand = .install given? ∨ invocation.subcommand = .finishInstall given?)

/-- Two runs end with the same outcome, having made the same requests and gone through trees that are
alike. -/
structure Concur (alike : Files → Files → Prop) (f g : Files) (x y : Outcome × Machine) : Prop where
  outcome : y.1 = x.1
  requests : y.2.requests = x.2.requests
  trees : List.Forall₂ alike (x.2.trees f) (y.2.trees g)
  files : alike x.2.files y.2.files

variable {context : Context} {arguments arguments' : List String} {given? : Option String}
  {version? : Option ReleaseVersion} {settings : Settings}

def Run.of (context : Context) (settings : Settings) : Run :=
  ⟨context,settings,.ofEnvironment context.environment⟩

def told : Except InstallError Installed → Outcome
  | .ok _ => ⟨0,"",none,none⟩
  | .error error => ⟨1,"",some error,none⟩

theorem Calls.run (calls : Calls context arguments given?) : ∃ shows, ∀ m,
    CommandLine.run context arguments m = match Settings.ofEnvironment context.environment with
      | .error error => (told (.error error),m)
      | .ok settings =>
        let ran := ((Run.of context settings).install given? shows).run m
        (told ran.1,ran.2) := by
  obtain ⟨invocation,heard,which⟩ := calls
  have some : invocation.subcommand ≠ .noop := by
    rcases which with same | same <;> simp [same]
  have performs : ∃ shows, ∀ r : Run, r.perform invocation.subcommand =
      (do let _ ← r.install given? shows; return ⟨"",none⟩) := by
    rcases which with same | same
    · exact ⟨true,fun r => by rw [same,Run.perform]⟩
    · exact ⟨false,fun r => by rw [same,Run.perform]⟩
  obtain ⟨shows,performs⟩ := performs
  have finished : finish invocation (.ok ⟨"",none⟩) = ⟨0,"",none,none⟩ := by
    simp [finish,keptNotice?]
  refine ⟨shows,fun m => ?_⟩
  cases settled : Settings.ofEnvironment context.environment with
  | error error => exact run_of_unsettled heard settled some
  | ok settings =>
    let performed := ((Run.of context settings).perform invocation.subcommand).run m
    have ran : CommandLine.run context arguments m = (finish invocation performed.1,performed.2) :=
      run_of_settled heard settled some
    simp only [ran,performed,performs,run_bind]
    rcases ((Run.of context settings).install given? shows).run m with ⟨error | installed,after⟩
    · rfl
    · exact congrArg (·,after) finished

theorem Concur.refl (f : Files) (x : Outcome × Machine) : Concur Eq f f x x :=
  ⟨rfl,rfl,List.forall₂_refl _,rfl⟩

theorem Concur.of_ends {ε α : Type} {c : Contrast} {post : α → Prop} {x y : Except ε α × Machine}
    (ends : c.Ends post x y) (start : c.alike f g) (told : Except ε α → Outcome) :
    Concur c.alike f g (told x.1,x.2) (told y.1,y.2) where
  outcome := congrArg told ends.result
  requests := ends.pair.requests
  trees := .cons start ends.pair.changes
  files := ends.pair.alike

theorem Run.isName_of_settled (settled : Settings.ofEnvironment context.environment = .ok settings) :
    Path.IsName (Run.of context settings).settings.binaryName := by
  rw [Run.of,Settings.binaryName_eq settled]
  exact ⟨by decide,by decide⟩

theorem concur_of_given {text : String} {hidden : Location → Prop} {network : Net.Network}
    {disk : List (Option Nat)} (calls : Calls context arguments (some text))
    (same : SameBut hidden f g) (answers : context.packageManagers g = context.packageManagers f)
    (spared : ∀ settings, Settings.ofEnvironment context.environment = .ok settings →
      ∀ p ∈ (Run.of context settings).paths f,
      ∀ h ∈ (CommandLine.run context arguments ⟨f,network,disk,[]⟩).2.trees f, h.Spares hidden p) :
    Concur (Twins hidden f g) f g
      (CommandLine.run context arguments ⟨f,network,disk,[]⟩)
      (CommandLine.run context arguments ⟨g,network,disk,[]⟩) := by
  obtain ⟨shows,ran⟩ := calls.run
  have start : Twins hidden f g f g := ⟨same,fun _ _ => rfl,fun _ _ => rfl⟩
  rw [ran] at spared ⊢
  rw [ran]
  revert spared
  cases settled : Settings.ofEnvironment context.environment with
  | error error => exact fun _ => ⟨rfl,rfl,.cons start .nil,start⟩
  | ok settings =>
    intro spared
    have spared := spared settings rfl
    let c := Contrast.apart hidden f g ((Run.of context settings).paths f)
    have pair : c.Pair ⟨f,network,disk,[]⟩ ⟨g,network,disk,[]⟩ :=
      ⟨start,fun p member => spared p member f List.mem_cons_self,rfl,rfl,rfl,rfl,.nil⟩
    let r := Run.of context settings
    have requested : r.requestedVersion (some text) g = r.requestedVersion (some text) f := rfl
    have fair : c.Fair ((r.install (some text) shows).run ⟨f,network,disk,[]⟩).2 :=
      fun h changed p member =>
        spared p member h (List.mem_cons_of_mem _ (List.mem_filterMap.mpr ⟨_,changed,rfl⟩))
    exact .of_ends (Run.ends_install pair (Run.isName_of_settled settled) requested answers
      (fun p member => member) shows shows fair) start told

theorem concur_of_calls (calls : Calls context arguments given?)
    (calls' : Calls context arguments' given?) (m : Machine) :
    Concur Eq m.files m.files (CommandLine.run context arguments m)
      (CommandLine.run context arguments' m) := by
  obtain ⟨shows,ran⟩ := calls.run
  obtain ⟨shows',ran'⟩ := calls'.run
  rw [ran,ran']
  cases settled : Settings.ofEnvironment context.environment with
  | error error => exact .refl _ _
  | ok settings =>
    let c := Contrast.equal ((Run.of context settings).paths m.files)
    have pair : c.Pair m m :=
      ⟨rfl,trivial,rfl,rfl,rfl,rfl,(List.forall₂_refl _ : List.Forall₂ Eq _ _)⟩
    let r := Run.of context settings
    have fair : c.Fair ((r.install given? shows).run m).2 := fun _ _ => trivial
    exact .of_ends (Run.ends_install pair (Run.isName_of_settled settled) rfl rfl
      (fun p member => member) shows shows' fair) rfl told

theorem concur_of_finishing (finishing : read context.environment arguments' =
    (read context.environment arguments).map Invocation.finishing) (m : Machine) :
    Concur Eq m.files m.files (CommandLine.run context arguments m)
      (CommandLine.run context arguments' m) := by
  cases heard : read context.environment arguments with
  | error stop =>
    rw [heard] at finishing
    rw [CommandLine.run,CommandLine.run,heard,finishing]
    exact .refl _ _
  | ok invocation =>
    rw [heard] at finishing
    by_cases installs : ∃ given?, invocation.subcommand = .install given?
    · obtain ⟨given?,installs⟩ := installs
      refine concur_of_calls ⟨_,heard,.inl installs⟩ ⟨_,finishing,.inr ?_⟩ m
      rw [Invocation.finishing,installs]
      rfl
    · have same : invocation.finishing = invocation := by
        rcases invocation with ⟨log?,_ | _ | _ | given? | _ | given?⟩
        case install => exact absurd ⟨given?,rfl⟩ installs
        all_goals rfl
      rw [Except.map,same] at finishing
      rw [CommandLine.run,CommandLine.run,heard,finishing]
      exact .refl _ _

structure VersionRule (context : Context) : Prop where
  /-- With a version that is given, it makes no difference what lies where no path of the installation
  leads, the manifest for one: be it there or not, the run ends, requests and changes the same. -/
  given : ∀ {arguments text hidden f g network disk}, Calls context arguments (some text) →
    SameBut hidden f g → context.packageManagers g = context.packageManagers f →
    (∀ settings, Settings.ofEnvironment context.environment = .ok settings →
      ∀ p ∈ (Run.of context settings).paths f,
      ∀ h ∈ (CommandLine.run context arguments ⟨f,network,disk,[]⟩).2.trees f, h.Spares hidden p) →
    Concur (Twins hidden f g) f g
      (CommandLine.run context arguments ⟨f,network,disk,[]⟩)
      (CommandLine.run context arguments ⟨g,network,disk,[]⟩)
  /-- The first request is that for the artifact of the version or, where there is none, that for the
  release listing. -/
  first : ∀ {arguments given? version? m}, Calls context arguments given? →
    (∀ settings, Settings.ofEnvironment context.environment = .ok settings →
      Wants settings.manifestPath m.files given? version?) →
    ∃ new, (CommandLine.run context arguments m).2.requests = m.requests ++ new ∧
      ∀ url ∈ new.head?, ∃ settings platform,
        Settings.ofEnvironment context.environment = .ok settings ∧
        Platform.ofHost context.hostOs context.hostArch = .ok platform ∧
        url = settings.firstUrl platform version?
  /-- Where there is no version to go for, the run fails and leaves the machine as it was. -/
  refused : ∀ {arguments given? m}, Calls context arguments given? →
    (∀ settings, Settings.ofEnvironment context.environment = .ok settings →
      Refused settings.manifestPath m.files given?) →
    (CommandLine.run context arguments m).1.exitCode = 1 ∧ (CommandLine.run context arguments m).2 = m
  /-- One of the two it is, whatever the arguments give and whatever lies at the manifest's path. -/
  settled : ∀ settings given? f, Settings.ofEnvironment context.environment = .ok settings →
    (∃ version?, Wants settings.manifestPath f given? version?) ∨
      Refused settings.manifestPath f given?
  /-- Both commands that install, with the same arguments, do the same. -/
  either : ∀ before rest m, (∀ text ∈ before, Subcommand.ofName? text = none) →
    Concur Eq m.files m.files (CommandLine.run context (before ++ "install" :: rest) m)
      (CommandLine.run context (before ++ "finish-install" :: rest) m)

theorem versionRule (context : Context) : VersionRule context where
  given := concur_of_given
  first := by
    intro arguments given? version? m calls wants
    obtain ⟨shows,ran⟩ := calls.run
    rw [ran]
    cases settled : Settings.ofEnvironment context.environment with
    | error error => exact ⟨[],(List.append_nil _).symm,by simp⟩
    | ok settings =>
      obtain ⟨new,requests,first⟩ :=
        Run.opens_install (r := .of context settings) (wants settings settled)
      refine ⟨new,requests,fun url member => ?_⟩
      obtain ⟨platform,named,same⟩ := first url member
      exact ⟨settings,platform,rfl,named,same⟩
  refused := by
    intro arguments given? m calls refused
    obtain ⟨shows,ran⟩ := calls.run
    rw [ran]
    cases settled : Settings.ofEnvironment context.environment with
    | error error => exact ⟨rfl,rfl⟩
    | ok settings =>
      obtain ⟨error,failed⟩ :=
        Run.install_refused (r := .of context settings) (refused settings settled)
      dsimp only
      rw [failed]
      exact ⟨rfl,rfl⟩
  settled settings given? f _ := wants_or_refused settings.manifestPath f given?
  either := by
    intro before rest m unnamed
    exact concur_of_finishing (readArguments_finishing rest none before unnamed) m

def manifestOnly (text : String) : Files :=
  ⟨[([Path.nameOctets "package.json"],.file (.data (Text.Utf8.encode text.toList)) newFileMode)],[]⟩

theorem versionRule_atHome :
    let network := Net.Network.serving [1]
    let recorded := manifestOnly "\x7b\"version\": \"2.0.0\"\x7d"
    Concur (Twins (· = [Path.nameOctets "package.json"]) ⟨[],[]⟩ recorded) ⟨[],[]⟩ recorded
        (CommandLine.run atHome ["install","--version","1.0.0"] ⟨⟨[],[]⟩,network,[],[]⟩)
        (CommandLine.run atHome ["install","--version","1.0.0"] ⟨recorded,network,[],[]⟩) ∧
      (∃ new, (CommandLine.run atHome ["install"] (.fresh recorded network)).2.requests = [] ++ new ∧
        ∀ url ∈ new.head?, ∃ settings platform,
          Settings.ofEnvironment atHome.environment = .ok settings ∧
          Platform.ofHost atHome.hostOs atHome.hostArch = .ok platform ∧
          url = settings.firstUrl platform (some ⟨"2.0.0"⟩)) ∧
      (CommandLine.run atHome ["install"] (.fresh (manifestOnly "\x7b") network)).1.exitCode = 1 ∧
      Concur Eq recorded recorded (CommandLine.run atHome ["install"] (.fresh recorded network))
        (CommandLine.run atHome ["finish-install"] (.fresh recorded network)) := by
  intro network recorded
  have settled (settings : Settings)
      (settled : Settings.ofEnvironment atHome.environment = .ok settings) :
      settings = Settings.ofHome ⟨[Path.slash]⟩ := by
    cases settled
    rfl
  have carries : Manifest.Carries (.ofString "package.json") recorded
      (some (.string "2.0.0".toList)) := ⟨_,_,by rfl,by rfl,by rfl⟩
  have spared : ∀ p ∈ (Run.of atHome (Settings.ofHome ⟨[Path.slash]⟩)).paths ⟨[],[]⟩,
      ∀ h ∈ (CommandLine.run atHome ["install","--version","1.0.0"] ⟨⟨[],[]⟩,network,[],[]⟩).2.trees
        ⟨[],[]⟩,
      h.Linkless ∧ [Path.nameOctets "package.json"] ∉ places (h.start p) p.steps ∧
        ∀ k ∈ (h.entry? p).toOption.join, ¬ k <+: [Path.nameOctets "package.json"] := by
    decide +kernel
  have same : SameBut (· = [Path.nameOctets "package.json"]) ⟨[],[]⟩ recorded := by
    refine ⟨rfl,fun k other => ?_⟩
    have off : (k == [Path.nameOctets "package.json"]) = false := by simpa using other
    simp [recorded,manifestOnly,at?,List.lookup_cons,off]
  refine ⟨?_,?_,?_,?_⟩
  · refine (versionRule atHome).given ⟨_,by rfl,.inl rfl⟩ same rfl ?_
    intro settings here p member h gone
    rw [settled settings here] at member
    obtain ⟨linkless,off,above⟩ := spared p member h gone
    exact spares_of_linkless linkless off above
  · refine (versionRule atHome).first ⟨_,by rfl,.inl rfl⟩ ?_
    intro settings here
    rw [settled settings here]
    exact .recorded (.valid carries (by rfl) (by rfl))
  · refine ((versionRule atHome).refused ⟨_,by rfl,.inl rfl⟩ ?_).1
    intro settings here
    rw [settled settings here]
    exact .recorded (.malformed (by rfl) (by rfl))
  · exact (versionRule atHome).either [] [] (.fresh recorded network) (by simp)

end CommandLine
end ReleaseInstaller
