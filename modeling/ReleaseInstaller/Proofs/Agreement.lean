import ReleaseInstaller.Proofs.Alike
import ReleaseInstaller.Proofs.Outcome
import ReleaseInstaller.Proofs.Resolve
import ReleaseInstaller.Proofs.Same
import ReleaseInstaller.Proofs.Start

/-! Installing and then uninstalling. An uninstall looks for the binary where the install put it, so
nothing is left of the install but directories that it had to make. -/
namespace ReleaseInstaller

open Files Procedure

variable {settings : Settings} {os : Os} {t : Target} {p : Path} {f g h : Files} {m after : Machine}

namespace Settings

variable (env : Environment) (s : Settings)

@[simp] theorem withReleaseHost_binaryName : (s.withReleaseHost env).binaryName = s.binaryName := by
  unfold withReleaseHost
  split <;> rfl

@[simp] theorem withManifest_binaryName : (s.withManifest env).binaryName = s.binaryName := by
  unfold withManifest
  split <;> rfl

@[simp] theorem withFallback_binaryName : (s.withFallback env).binaryName = s.binaryName := by
  unfold withFallback
  split <;> rfl

@[simp] theorem withTimeout_binaryName : (s.withTimeout env).binaryName = s.binaryName := by
  unfold withTimeout
  split <;> rfl

theorem binaryName_eq {env : Environment} (settled : ofEnvironment env = .ok settings) :
    settings.binaryName = "devspace" := by
  unfold ofEnvironment at settled
  split at settled
  · cases settled
  · cases settled
    simp [ofHome]

end Settings

namespace Uninstall

def listed (t : Target) (settings : Settings) (os : Os) : List Path :=
  t.final :: t.temporary :: t.removable settings.binaryName os

/-- Where the binary lies if it was installed into the fallback directory. -/
def fallback (settings : Settings) (os : Os) : Path :=
  settings.fallbackDirectory.joinName (os.executableName settings.binaryName)

theorem artifacts_eq : artifacts settings os (some t) =
    if (listed t settings os).any (fallback settings os).same then listed t settings os
    else listed t settings os ++ [fallback settings os] := rfl

theorem mem_artifacts (member : p ∈ listed t settings os) : p ∈ artifacts settings os (some t) := by
  rw [artifacts_eq]
  split
  · exact member
  · exact List.mem_append_left _ member

theorem artifacts_cases (member : p ∈ artifacts settings os (some t)) :
    p ∈ listed t settings os ∨ p = fallback settings os := by
  rw [artifacts_eq] at member
  split at member
  · exact .inl member
  · exact (List.mem_append.mp member).imp id List.mem_singleton.mp

theorem fallback_cases (t : Target) (settings : Settings) (os : Os) :
    fallback settings os ∈ artifacts settings os (some t) ∨
      ∃ q ∈ listed t settings os, (fallback settings os).same q = true := by
  rw [artifacts_eq]
  split
  · next same => exact .inr (List.any_eq_true.mp same)
  · exact .inl (List.mem_append_right _ (List.mem_singleton_self _))

theorem executableName_proper (os : Os) : Path.IsProper (os.executableName "devspace") := by
  cases os <;> exact ⟨⟨by decide,by decide⟩,by decide⟩

theorem listed_proper {dir : Path} (named : settings.binaryName = "devspace")
    (member : p ∈ listed (Target.make dir settings.binaryName os) settings os) :
    ∃ name, Path.IsProper name ∧ p = dir.joinName name := by
  have proper (name : String) (isName : name ≠ "" ∧ '/' ∉ name.toList)
      (step : Path.step? (Path.nameOctets name) = some (.into (Path.nameOctets name))) :
      ∃ name', Path.IsProper name' ∧ dir.joinName name = dir.joinName name' :=
    ⟨name,⟨⟨isName.1,isName.2⟩,step⟩,rfl⟩
  rw [named,listed,named,Target.removable] at member
  simp only [List.mem_cons] at member
  rcases member with rfl | rfl | rfl | member
  · exact ⟨_,executableName_proper os,rfl⟩
  · cases os <;> exact proper _ (by decide) (by decide)
  · cases os <;> exact proper _ (by decide) (by decide)
  · obtain ⟨-,rfl | rfl | rfl⟩ := Target.mem_companions member
    all_goals exact proper _ (by decide) (by decide)

theorem artifacts_inside {dir : Path} (named : settings.binaryName = "devspace")
    (member : p ∈ artifacts settings os (some (Target.make dir settings.binaryName os))) :
    ∃ dir, Path.Inside dir p := by
  rcases artifacts_cases member with member | rfl
  · obtain ⟨name,proper,rfl⟩ := listed_proper named member
    exact ⟨_,name,proper.toIsName,rfl⟩
  · rw [fallback,named]
    exact ⟨_,_,(executableName_proper os).toIsName,rfl⟩

/-- Where all artifacts are gone, and the directory of the target is there, so is the binary of the
fallback directory. -/
theorem fallback_gone {dir : Path} (named : settings.binaryName = "devspace")
    (whole : f.WellFormed) (legal : Legal dir (os.executableName settings.binaryName))
    (gone : ∀ p ∈ artifacts settings os (some (Target.make dir settings.binaryName os)),
      f.node? p = none) : f.node? (fallback settings os) = none := by
  rcases fallback_cases (Target.make dir settings.binaryName os) settings os with
    member | ⟨q,member,same⟩
  · exact gone _ member
  obtain ⟨name,proper,rfl⟩ := listed_proper named member
  have proper' : Path.IsProper (os.executableName settings.binaryName) := by
    rw [named]
    exact executableName_proper os
  obtain ⟨rfl,start,moves⟩ := Path.moves_of_same_joinName proper' proper same
  have seats : f.seat? settings.fallbackDirectory = f.seat? dir := seat?_of_moves start moves
  cases there : f.node? (fallback settings os) with
  | none => rfl
  | some node =>
    obtain ⟨l,entry,present⟩ := exists_of_node? there
    obtain ⟨-,d,seat,rfl⟩ := (entry?_joinName whole proper'.toIsName).mp entry
    have absent := gone _ (mem_artifacts member)
    rw [node?_joinName whole proper'.toIsName legal (seats ▸ seat),present] at absent
    cases absent

theorem run_unattended {ε : Type} (u : Uninstall) (target? : Option Target) (m : Machine)
    (alone : u.context.interactive = false) : ∃ report,
    (u.run target? : Procedure ε UninstallReport).run m =
      (.ok report,swept (artifacts u.settings u.os target?) m) := by
  rcases u.removeConfig_cases (ε := ε) (swept (artifacts u.settings u.os target?) m) with
    ⟨-,config,-,-,configures⟩ | ⟨asks,-⟩ | ⟨asks,-⟩
  · exact ⟨_,u.run_run target? m configures⟩
  all_goals cases alone.symm.trans asks.2.2

end Uninstall

namespace Install

variable {i : Install} {dir : Path} {explicit : Option ReleaseVersion} {installed : Installed}

theorem alike_of_run (aims : i.Aims dir) (whole : m.files.WellFormed) (reached : Reached dir m.files)
    (plain : ∀ p ∈ Uninstall.listed i.target i.settings i.platform.os, Plain (m.files.node? p))
    (ran : (i.run explicit).run m = (.ok installed,after)) :
    Alike m.files after.files ∧ after.files.WellFormed ∧
      (∃ octets, after.files.node? i.target.final =
        some (.file (.data octets) Replacement.executableMode)) ∧
      ∀ l, (∀ p ∈ Uninstall.listed i.target i.settings i.platform.os,
        after.files.entry? p ≠ .ok (some l)) → after.files.at? l = m.files.at? l := by
  have named := aims.named
  have directory : i.target.directory = dir := by
    rw [aims.target]
    rfl
  have all {P : Path → Prop} : (∀ p ∈ i.target.temporary :: i.target.final ::
      i.target.removable i.settings.binaryName i.platform.os, P p) ↔
      ∀ p ∈ Uninstall.listed i.target i.settings i.platform.os, P p := by
    simp only [Uninstall.listed,List.forall_mem_cons]
    exact and_left_comm
  have plain := all.mpr plain
  obtain ⟨temporary,touched⟩ := List.forall_mem_cons.mp plain
  have fit : i.target.Fit (aims.site m.network).touched m.files :=
    .start ⟨whole,directory ▸ reached.direct,beside_of_plain touched⟩ temporary
  have works := aims.worksAt m.network
  have runs : (aims.site m.network).Does (fun _ => True) (i.run explicit) _ :=
    (fetches works.aimed).run works (fun _ working => working) explicit
  obtain ⟨goes,working,delivers⟩ := runs m ⟨rfl,fit⟩ trivial
  rw [ran] at goes working delivers
  obtain ⟨octets,file⟩ := delivers installed rfl
  obtain ⟨l,entry,-⟩ := exists_of_node? file
  obtain ⟨d,_,there,-⟩ := seat_of_entry working.fit.whole named.final_inside entry
  obtain ⟨d,seat⟩ := Site.seat_of_goes goes whole (directory ▸ reached.seat) there
  obtain ⟨-,-,framed⟩ := Site.kept_of_goes goes fit
  refine ⟨Site.alike_of_goes goes seat plain,working.fit.whole,⟨octets,file⟩,fun l off => ?_⟩
  rcases framed.rest l (all.mpr off) with same | ⟨missing,-⟩
  · exact same
  · exact absurd seat (missing d)

end Install

namespace CommandLine

variable {context : Context} {r : Run} {given? : Option String} {shows : Bool}
  {installed : Installed}

/-- Where a run looks for the binary. -/
structure Aim (context : Context) (f : Files) (settings : Settings) (os : Os) (t : Target) : Prop where
  settled : Settings.ofEnvironment context.environment = .ok settings
  host : Os.ofHostName context.hostOs = .ok os
  located : (Directory.locate settings (.ofEnvironment context.environment)
    (context.packageManagers f) os).2 = .ok t.directory
  target : t = Target.make t.directory settings.binaryName os

/-- The tree once the directory is there. -/
def prepared (dir : Path) (m : Machine) : Files := ((Files.makeDirectories dir).run m).2.files

/-- Once the directory of the binary is there, regular files are all that lies at the artifacts. -/
def Clear (context : Context) (m : Machine) : Prop :=
  ∀ settings os t, Aim context m.files settings os t →
    ∀ p ∈ Uninstall.artifacts settings os (some t), Plain ((prepared t.directory m).node? p)

/-- The second run is started in the environment of the first one, and without a terminal. -/
structure Again (first second : Context) (f g : Files) : Prop where
  environment : second.environment = first.environment
  hostOs : second.hostOs = first.hostOs
  answers : second.packageManagers g = first.packageManagers f
  alone : second.interactive = false

/-- Nothing is left of the binary, and nothing else has changed but that directories were made on the
way to it. -/
structure Undone (settings : Settings) (os : Os) (t : Target) (f g : Files) : Prop where
  final : g.node? t.final = none
  temporary : g.node? t.temporary = none
  legacy : g.node? t.legacy = none
  fallback : g.node? (Target.make settings.fallbackDirectory settings.binaryName os).final = none
  rest : ∀ l, (∀ p ∈ Uninstall.artifacts settings os (some t), g.entry? p ≠ .ok (some l)) →
    g.at? l = f.at? l ∨ f.at? l = none ∧ g.at? l = some .directory ∧
      ∃ q, Around t.directory q ∧ g.entry? q = .ok (some l)

theorem Aim.again {second : Context} {os : Os} (aim : Aim context f settings os t)
    (again : Again context second f g) : Aim second g settings os t where
  settled := again.environment ▸ aim.settled
  host := again.hostOs ▸ aim.host
  located := by
    rw [again.environment,again.answers]
    exact aim.located
  target := aim.target

theorem ofHost_ok {os arch : String} {platform : Platform} (named : Platform.ofHost os arch = .ok platform) :
    Os.ofHostName os = .ok platform.os := by
  simp only [Platform.ofHost,bind,Except.bind] at named
  cases system : Os.ofHostName os with
  | error cause => simp [system] at named
  | ok system =>
    cases machine : Arch.ofHostName arch with
    | error cause => simp [system,machine] at named
    | ok machine =>
      simp only [system,machine] at named
      cases named
      rfl

theorem Aim.unique {os : Os} (aim : Aim context f settings os t) {settings' : Settings} {os' : Os} {t' : Target}
    (aim' : Aim context f settings' os' t') :
    settings = settings' ∧ os = os' ∧ t = t' := by
  cases aim.settled.symm.trans aim'.settled
  cases aim.host.symm.trans aim'.host
  have directory := Except.ok.inj (aim.located.symm.trans aim'.located)
  exact ⟨rfl,rfl,by rw [aim.target,aim'.target,directory]⟩

theorem Aim.clear (aim : Aim context m.files settings os t)
    (plain : ∀ p ∈ Uninstall.artifacts settings os (some t),
      Plain ((prepared t.directory m).node? p)) : Clear context m := by
  intro settings' os' t' aim'
  obtain ⟨rfl,rfl,rfl⟩ := aim.unique aim'
  exact plain

/-- An install ends before it has a directory, or it works in a tree in which the directory is there
and spelled directly. -/
theorem install_cases {result : Except InstallError Installed} (whole : m.files.WellFormed)
    (ran : (r.install given? shows).run m = (result,after)) :
    (∃ error, result = .error error ∧ (after = m ∨ ∃ os, (Directory.resolve r.settings r.host
      (r.context.packageManagers m.files) os).run m = (.error error,after))) ∨
    ∃ version platform t made, Platform.ofHost r.context.hostOs r.context.hostArch = .ok platform ∧
      (Directory.resolve r.settings r.host (r.context.packageManagers m.files) platform.os).run m =
        (.ok t,made) ∧ made.files.WellFormed ∧ made.files.Direct t.directory ∧
      (Install.run ⟨r.settings,.listing,platform,t,shows⟩ version).run made = (result,after) := by
  simp only [Run.install,run_bind,run_get,run_mk_pure] at ran
  cases requested : r.requestedVersion given? m.files with
  | error error =>
    simp only [requested] at ran
    cases ran
    exact .inl ⟨error,rfl,.inl rfl⟩
  | ok version =>
    simp only [requested] at ran
    cases named : Platform.ofHost r.context.hostOs r.context.hostArch with
    | error cause =>
      simp only [named] at ran
      cases ran
      exact .inl ⟨_,rfl,.inl rfl⟩
    | ok platform =>
      simp only [named,run_bind,run_get] at ran
      rcases resolved : (Directory.resolve r.settings r.host (r.context.packageManagers m.files)
        platform.os).run m with ⟨error | t,made⟩
      · simp only [resolved] at ran
        cases ran
        exact .inl ⟨error,rfl,.inr ⟨platform.os,resolved⟩⟩
      · simp only [resolved] at ran
        obtain ⟨-,whole',direct⟩ := Directory.resolve_direct whole resolved
        exact .inr ⟨version,platform,t,made,rfl,resolved,whole',direct,ran⟩

def Installs (subcommand : Subcommand) : Prop :=
  ∃ version?, subcommand = .install version? ∨ subcommand = .finishInstall version?

theorem Installs.perform {subcommand : Subcommand} (installs : Installs subcommand) (r : Run) :
    ∃ given? shows, r.perform subcommand =
      (do let _ ← r.install given? shows; return ⟨"",none⟩) := by
  obtain ⟨version?,rfl | rfl⟩ := installs
  · exact ⟨version?,true,rfl⟩
  · exact ⟨version?,false,rfl⟩

theorem install_of_run {arguments : List String} {invocation : Invocation} {outcome : Outcome}
    (heard : read context.environment arguments = .ok invocation)
    (installs : Installs invocation.subcommand)
    (ran : run context arguments m = (outcome,after)) (succeeded : outcome.exitCode = 0) :
    ∃ settings given? shows installed, Settings.ofEnvironment context.environment = .ok settings ∧
      (Run.install ⟨context,settings,.ofEnvironment context.environment⟩ given? shows).run m =
        (.ok installed,after) := by
  have some : invocation.subcommand ≠ .noop := by
    obtain ⟨version?,same | same⟩ := installs <;> simp [same]
  cases settled : Settings.ofEnvironment context.environment with
  | error error =>
    rw [run_of_unsettled heard settled some] at ran
    cases ran
    cases succeeded
  | ok settings =>
    obtain ⟨given?,shows,performs⟩ :=
      installs.perform ⟨context,settings,.ofEnvironment context.environment⟩
    rw [run_of_settled heard settled some,performs,run_bind] at ran
    rcases ran' : (Run.install ⟨context,settings,.ofEnvironment context.environment⟩ given?
      shows).run m with ⟨error | installed,middle⟩
    · rw [ran'] at ran
      cases ran
      cases succeeded
    · rw [ran'] at ran
      cases ran
      exact ⟨settings,given?,shows,installed,rfl,ran'⟩

/-- A successful install leaves a tree in which an uninstall finds the binary. -/
structure Left (context : Context) (m : Machine) (settings : Settings) (os : Os) (t : Target)
    (f : Files) : Prop where
  aim : Aim context m.files settings os t
  grown : Grown t.directory m.files (prepared t.directory m)
  alike : Alike (prepared t.directory m) f
  whole : f.WellFormed
  binary : ∃ octets, f.node? t.final = some (.file (.data octets) Replacement.executableMode)
  rest : ∀ l, (∀ p ∈ Uninstall.listed t settings os, f.entry? p ≠ .ok (some l)) →
    f.at? l = (prepared t.directory m).at? l

theorem left_of_run {arguments : List String} {invocation : Invocation} {outcome : Outcome}
    (heard : read context.environment arguments = .ok invocation)
    (installs : Installs invocation.subcommand) (whole : m.files.WellFormed)
    (clear : Clear context m) (ran : run context arguments m = (outcome,after))
    (succeeded : outcome.exitCode = 0) :
    ∃ settings os t, Left context m settings os t after.files := by
  obtain ⟨settings,given?,shows,installed,settled,ran⟩ :=
    install_of_run heard installs ran succeeded
  rcases install_cases whole ran with
    ⟨_,failed,-⟩ | ⟨version,platform,t,made,host,resolved,whole',-,ran⟩
  · cases failed
  obtain ⟨located,target,makes⟩ := Directory.resolve_ok resolved
  obtain ⟨grown,-,reached⟩ := grown_of_makeDirectories whole makes
  have aim : Aim context m.files settings platform.os t :=
    ⟨settled,ofHost_ok host,located,target⟩
  have same : prepared t.directory m = made.files := by rw [prepared,makes]
  have plain := clear settings platform.os t aim
  rw [same] at plain
  have named := Settings.binaryName_eq settled
  have aims : (Install.mk settings .listing platform t shows).Aims t.directory := by
    refine ⟨target,?_,?_⟩ <;> simp only [named]
    · exact ⟨by decide,by decide⟩
    · exact fun _ => by decide
  obtain ⟨alike,whole,binary,rest⟩ := Install.alike_of_run aims whole' (reached rfl)
    (fun p member => plain p (Uninstall.mem_artifacts member)) ran
  exact ⟨settings,platform.os,t,aim,same ▸ grown,same ▸ alike,whole,binary,same ▸ rest⟩

theorem run_uninstall (aim : Aim context m.files settings os t) (alone : context.interactive = false) :
    ∃ result, (Run.uninstall ⟨context,settings,.ofEnvironment context.environment⟩).run m =
      (.ok result,Uninstall.swept (Uninstall.artifacts settings os (some t)) m) := by
  have target : Target.make t.directory settings.binaryName os = t := aim.target.symm
  simp only [Run.uninstall,aim.host,run_bind,run_get,aim.located,target]
  generalize same : Uninstall.mk settings os _ _ _ = u
  obtain ⟨report,ran⟩ := u.run_unattended (some t) m (same ▸ alone)
  rw [ran,← same]
  exact ⟨_,rfl⟩

theorem undone_of_left (left : Left context m settings os t after.files) (clear : Clear context m) :
    Undone settings os t m.files
      (Uninstall.swept (Uninstall.artifacts settings os (some t)) after).files := by
  have named := Settings.binaryName_eq left.aim.settled
  have target := left.aim.target
  have plain (p : Path) (member : p ∈ Uninstall.artifacts settings os (some t)) :
      Plain (after.files.node? p) :=
    left.alike.plain (clear settings os t left.aim p member)
  have inside (p : Path) (member : p ∈ Uninstall.artifacts settings os (some t)) :
      ∃ dir, Path.Inside dir p := by
    rw [target] at member
    exact Uninstall.artifacts_inside named member
  obtain ⟨alike,whole,gone⟩ := Uninstall.swept_plain left.whole inside plain
  have less := (Uninstall.prunes_swept (Uninstall.artifacts settings os (some t)) after).less
  have listed {p : Path} (member : p ∈ Uninstall.listed t settings os) :=
    gone p (Uninstall.mem_artifacts member)
  have legal : Legal t.directory (os.executableName settings.binaryName) := by
    obtain ⟨octets,file⟩ := left.binary
    obtain ⟨l,entry,-⟩ := exists_of_node? file
    rw [target] at entry
    refine ((entry?_joinName left.whole ?_).mp entry).1
    rw [named]
    exact (Uninstall.executableName_proper os).toIsName
  refine ⟨listed (by simp [Uninstall.listed]),listed (by simp [Uninstall.listed]),
    listed (by simp [Uninstall.listed,Target.removable]),?_,fun l off => ?_⟩
  · refine Uninstall.fallback_gone named whole legal ?_
    rwa [← target]
  · have off' (p : Path) (member : p ∈ Uninstall.artifacts settings os (some t)) :
        after.files.entry? p ≠ .ok (some l) := fun entry => off p member (alike.named.mpr entry)
    have same := left.rest l fun p member => off' p (Uninstall.mem_artifacts member)
    rcases less.rest l with same' | ⟨-,p,member,entry⟩
    · rw [same',same]
      exact (left.grown.nodes l).imp id fun ⟨absent,made,q,around,entry⟩ =>
        ⟨absent,made,q,around,alike.named.mpr (left.alike.named.mpr entry)⟩
    · exact absurd entry (off' p member)

/-- An uninstall that follows a successful install finds the binary where it was installed, and
leaves the tree as the install found it, but for directories that had to be made. -/
theorem undone_of_run {first second : Context} {arguments arguments' : List String}
    {invocation invocation' : Invocation} {outcome outcome' : Outcome} {m' after' : Machine}
    (heard : read first.environment arguments = .ok invocation)
    (installs : Installs invocation.subcommand) (whole : m.files.WellFormed)
    (clear : Clear first m) (ran : run first arguments m = (outcome,after))
    (succeeded : outcome.exitCode = 0)
    (again : Again first second m.files after.files)
    (heard' : read second.environment arguments' = .ok invocation')
    (uninstalls : invocation'.subcommand = .uninstall) (files : m'.files = after.files)
    (ran' : run second arguments' m' = (outcome',after')) :
    outcome'.exitCode = 0 ∧ ∃ settings os t, Aim first m.files settings os t ∧
      (∃ octets, after.files.node? t.final =
        some (.file (.data octets) Replacement.executableMode)) ∧
      Undone settings os t m.files after'.files := by
  obtain ⟨settings,os,t,left⟩ := left_of_run heard installs whole clear ran succeeded
  have aim := left.aim.again again
  rw [← files] at aim left
  obtain ⟨result,uninstalled⟩ := run_uninstall aim again.alone
  rw [run_of_settled heard' aim.settled (by simp [uninstalls]),uninstalls,Run.perform,
    uninstalled] at ran'
  cases ran'
  exact ⟨rfl,settings,os,t,left.aim,files ▸ left.binary,undone_of_left left clear⟩

def below (dir fallback : String) : Context := { atHome with
  environment.bindings := [("npm_config_prefix",.ofString dir),("PATH",.ofString (dir ++ "/bin")),
    ("DEVSPACE_INSTALLER_FALLBACK_DIR",.ofString fallback)] }

def vacant : Machine := .fresh ⟨[],[]⟩ (.serving [1])

def settingsWith (fallback : String) : Settings :=
  { Settings.ofHome ⟨[Path.slash]⟩ with fallbackDirectory := .ofString fallback }

theorem undone_of_run_vacant :
    let installed := run (below "/opt" "/usr") ["install","--version","1.0.0"] vacant
    let uninstalled := run (below "/opt" "/usr") ["uninstall"] installed.2
    uninstalled.1.exitCode = 0 ∧ ∃ settings os t,
      Aim (below "/opt" "/usr") vacant.files settings os t ∧
      (∃ octets, installed.2.files.node? t.final =
        some (.file (.data octets) Replacement.executableMode)) ∧
      Undone settings os t vacant.files uninstalled.2.files := by
  have aim : Aim (below "/opt" "/usr") vacant.files (settingsWith "/usr") .linux
      (.make (.ofString "/opt/bin") "devspace" .linux) := ⟨by rfl,by rfl,by rfl,by rfl⟩
  exact undone_of_run (by rfl : _ = Except.ok ⟨none,.install (some "1.0.0")⟩) ⟨_,.inl rfl⟩
    (wellFormed_of_flat (by decide)) (aim.clear (by decide +kernel)) (Prod.eta _).symm
    (by decide +kernel) ⟨rfl,rfl,rfl,rfl⟩ (by rfl : _ = Except.ok ⟨none,.uninstall⟩) rfl rfl
    (Prod.eta _).symm

/-- The directory that an install makes at the path of another binary is left. -/
theorem directory_left_of_uninstall :
    let t := Target.make (.ofString "/fb/devspace/bin") "devspace" .linux
    let installed := run (below "/fb/devspace" "/fb") ["install","--version","1.0.0"] vacant
    let uninstalled := run (below "/fb/devspace" "/fb") ["uninstall"] installed.2
    Aim (below "/fb/devspace" "/fb") vacant.files (settingsWith "/fb") .linux t ∧
      (∀ p ∈ Uninstall.artifacts (settingsWith "/fb") .linux (some t), vacant.files.node? p = none) ∧
      installed.1.exitCode = 0 ∧ uninstalled.1.exitCode = 0 ∧
      uninstalled.2.files.node?
        (Target.make (settingsWith "/fb").fallbackDirectory "devspace" .linux).final =
          some .directory := by
  refine ⟨⟨by rfl,by rfl,by rfl,by rfl⟩,?_⟩
  decide +kernel

end CommandLine

end ReleaseInstaller
