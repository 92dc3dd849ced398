import ReleaseInstaller.Directory

/-! Which directory is chosen. Three sources are ranked: the package manager that started the run,
the other manager, and the npm prefix. The first one that offers a directory decides, and what the
search path says about that directory can only turn it down: it never brings in a source of a lower
rank. -/
namespace ReleaseInstaller.Directory

variable {settings : Settings} {host host' : HostContext} {globalBin globalBin' : GlobalBin} {os : Os}
  {manager : PackageManager} {managers before after : List PackageManager} {directory chosen : Path}

def Answers (globalBin : GlobalBin) (manager : PackageManager) (directory : Path) : Prop :=
  globalBin manager = some directory ∧ directory.octets ≠ []

theorem answers_iff :
    Answers globalBin manager directory ↔
      (globalBin manager).filter (! ·.isEmpty) = some directory := by
  simp [Answers,Path.isEmpty,Option.filter_eq_some_iff]

theorem silent_iff :
    (∀ directory, ¬Answers globalBin manager directory) ↔
      (globalBin manager).filter (! ·.isEmpty) = none := by
  simp only [answers_iff,Option.eq_none_iff_forall_ne_some,ne_eq]

theorem askInTurn_of_answers (silent : ∀ m ∈ before, ∀ d, ¬Answers globalBin m d)
    (answers : Answers globalBin manager directory) :
    askInTurn globalBin (before ++ manager :: after) = (before ++ [manager],some directory) := by
  induction before with
  | nil => simp [askInTurn,answers_iff.mp answers]
  | cons first before ih =>
    obtain ⟨quiet,silent⟩ := List.forall_mem_cons.mp silent
    simp [askInTurn,silent_iff.mp quiet,ih silent]

theorem askInTurn_of_silent (silent : ∀ m ∈ managers, ∀ d, ¬Answers globalBin m d) :
    askInTurn globalBin managers = (managers,none) := by
  induction managers with
  | nil => rfl
  | cons first managers ih =>
    obtain ⟨quiet,silent⟩ := List.forall_mem_cons.mp silent
    simp [askInTurn,silent_iff.mp quiet,ih silent]

section Pair

variable {primary other : PackageManager}

theorem askInTurn_of_first (answers : Answers globalBin primary directory) :
    askInTurn globalBin [primary,other] = ([primary],some directory) :=
  askInTurn_of_answers (List.forall_mem_nil _) answers

theorem askInTurn_of_second (quiet : ∀ d, ¬Answers globalBin primary d)
    (answers : Answers globalBin other directory) :
    askInTurn globalBin [primary,other] = ([primary,other],some directory) :=
  askInTurn_of_answers (List.forall_mem_singleton.mpr quiet) answers

theorem askInTurn_of_neither (quiet : ∀ d, ¬Answers globalBin primary d)
    (silent : ∀ d, ¬Answers globalBin other d) :
    askInTurn globalBin [primary,other] = ([primary,other],none) :=
  askInTurn_of_silent (by simpa using ⟨quiet,silent⟩)

end Pair

/-- Where a directory can come from. -/
inductive Source where
  | manager (manager : PackageManager)
  | npmPrefix
  deriving DecidableEq

def sources (host : HostContext) : List Source :=
  let primary := PackageManager.ofInvocation host.invocation
  [.manager primary,.manager primary.alternate,.npmPrefix]

/-- What a source offers. An empty answer offers nothing, an empty prefix does. -/
inductive Offers (host : HostContext) (globalBin : GlobalBin) (os : Os) : Source → Path → Prop
  | answer (manager : PackageManager) (directory : Path) :
      Answers globalBin manager directory → Offers host globalBin os (.manager manager) directory
  | linkedInto (npmPrefix : String) :
      host.npmPrefix? = some npmPrefix → os = .windows →
        Offers host globalBin os .npmPrefix (.ofString npmPrefix)
  | linkedBelow (npmPrefix : String) :
      host.npmPrefix? = some npmPrefix → os ≠ .windows →
        Offers host globalBin os .npmPrefix ((Path.ofString npmPrefix).joinName "bin")

/-- A source offers a directory, and none of a higher rank offers any. -/
def Leads (host : HostContext) (globalBin : GlobalBin) (os : Os) (source : Source)
    (directory : Path) : Prop :=
  ∃ higher lower, sources host = higher ++ source :: lower ∧
    Offers host globalBin os source directory ∧
    ∀ other ∈ higher, ∀ d, ¬Offers host globalBin os other d

@[simp] theorem offers_manager :
    Offers host globalBin os (.manager manager) directory ↔ Answers globalBin manager directory :=
  ⟨fun offers => by cases offers; assumption,.answer manager directory⟩

theorem offers_npmPrefix :
    Offers host globalBin os .npmPrefix directory ↔ ofPrefix? host os = some directory := by
  constructor
  · rintro (_ | ⟨npmPrefix,given,windows⟩ | ⟨npmPrefix,given,other⟩)
    · simp [ofPrefix?,given,windows,Os.isWindows]
    · simp [ofPrefix?,given,other,Os.isWindows]
  · intro given
    obtain ⟨npmPrefix,set,rfl⟩ := Option.map_eq_some_iff.mp given
    by_cases windows : os = .windows
    · simpa [windows,Os.isWindows] using @Offers.linkedInto host globalBin _ npmPrefix set rfl
    · simpa [windows,Os.isWindows] using Offers.linkedBelow npmPrefix set windows

theorem leads_cases {source : Source} (leads : Leads host globalBin os source directory) :
    let primary := PackageManager.ofInvocation host.invocation
    Answers globalBin primary directory ∨
      (∀ d, ¬Answers globalBin primary d) ∧
        (Answers globalBin primary.alternate directory ∨
          (∀ d, ¬Answers globalBin primary.alternate d) ∧ ofPrefix? host os = some directory) := by
  obtain ⟨higher,lower,ranked,offers,silent⟩ := leads
  simp only [sources] at ranked
  rcases higher with _ | ⟨first,_ | ⟨second,_ | ⟨third,higher⟩⟩⟩ <;>
    simp only [List.nil_append,List.cons_append,List.cons.injEq] at ranked
  · obtain ⟨rfl,-⟩ := ranked
    exact .inl (offers_manager.mp offers)
  · obtain ⟨rfl,rfl,-⟩ := ranked
    exact .inr ⟨by simpa using silent,.inl (offers_manager.mp offers)⟩
  · obtain ⟨rfl,rfl,rfl,-⟩ := ranked
    simp only [List.mem_cons,List.not_mem_nil,or_false,forall_eq_or_imp,forall_eq,
      offers_manager] at silent
    exact .inr ⟨silent.1,.inr ⟨silent.2,offers_npmPrefix.mp offers⟩⟩
  · simp at ranked

theorem locate_of_leads {source : Source} (leads : Leads host globalBin os source directory) :
    (locate settings host globalBin os).2 = choose settings host os (some directory) := by
  rcases leads_cases leads with answers | ⟨quiet,answers | ⟨silent,given⟩⟩
  · simp [locate,askInTurn_of_first answers]
  · simp [locate,askInTurn_of_second quiet answers]
  · simp [locate,askInTurn_of_neither quiet silent,given]

/-- Which managers are asked does not depend on the prefix or on the search path. -/
theorem locate_asked :
    let primary := PackageManager.ofInvocation host.invocation
    (∀ d, Answers globalBin primary d → (locate settings host globalBin os).1 = [primary]) ∧
      ((∀ d, ¬Answers globalBin primary d) →
        (locate settings host globalBin os).1 = [primary,primary.alternate]) := by
  intro primary
  refine ⟨fun d answers => ?_,fun quiet => ?_⟩
  · simp [locate,primary,askInTurn_of_first answers]
  · by_cases answers : ∃ d, Answers globalBin primary.alternate d
    · obtain ⟨d,answers⟩ := answers
      simp [locate,primary,askInTurn_of_second quiet answers]
    · simp [locate,primary,askInTurn_of_neither quiet (not_exists.mp answers)]

def Unavailable (host : HostContext) (globalBin : GlobalBin) (os : Os) : Prop :=
  ∀ source ∈ sources host, ∀ d, ¬Offers host globalBin os source d

theorem locate_of_unavailable (unavailable : Unavailable host globalBin os) :
    (locate settings host globalBin os).2 = choose settings host os none := by
  simp only [Unavailable,sources,List.mem_cons,List.not_mem_nil,or_false,forall_eq_or_imp,forall_eq,
    offers_manager,offers_npmPrefix] at unavailable
  obtain ⟨quiet,silent,unset⟩ := unavailable
  simp [locate,askInTurn_of_neither quiet silent,Option.eq_none_iff_forall_ne_some.mpr unset]

theorem exists_first (globalBin : GlobalBin) (os : Os) (ranked : List Source) :
    (∀ source ∈ ranked, ∀ d, ¬Offers host globalBin os source d) ∨
      ∃ higher source lower d, ranked = higher ++ source :: lower ∧
        Offers host globalBin os source d ∧
        ∀ other ∈ higher, ∀ d, ¬Offers host globalBin os other d := by
  induction ranked with
  | nil => exact .inl (by simp)
  | cons first ranked ih =>
    by_cases offers : ∃ d, Offers host globalBin os first d
    · obtain ⟨d,offers⟩ := offers
      exact .inr ⟨[],first,ranked,d,rfl,offers,by simp⟩
    · have quiet := not_exists.mp offers
      rcases ih with none | ⟨higher,source,lower,d,rfl,offers,silent⟩
      · exact .inl (List.forall_mem_cons.mpr ⟨quiet,none⟩)
      · exact .inr ⟨first :: higher,source,lower,d,rfl,offers,
          List.forall_mem_cons.mpr ⟨quiet,silent⟩⟩

theorem exists_leads (host : HostContext) (globalBin : GlobalBin) (os : Os) :
    Unavailable host globalBin os ∨ ∃ source d, Leads host globalBin os source d := by
  rcases exists_first globalBin os (sources host) with none | ⟨higher,source,lower,d,first⟩
  · exact .inl none
  · exact .inr ⟨source,d,higher,lower,first⟩

structure Selection (settings : Settings) (host : HostContext) (globalBin : GlobalBin) (os : Os)
    (asked : List PackageManager) (found : Except InstallError Path) : Prop where
  /-- The manager that started the run is asked once, and alone if it answers. -/
  answered : ∀ d, Answers globalBin (PackageManager.ofInvocation host.invocation) d →
    asked = [PackageManager.ofInvocation host.invocation]
  /-- The other manager is asked once after it, whatever it says. -/
  unanswered : (∀ d, ¬Answers globalBin (PackageManager.ofInvocation host.invocation) d) →
    asked = [PackageManager.ofInvocation host.invocation,
      (PackageManager.ofInvocation host.invocation).alternate]
  listed : ∀ source d, Leads host globalBin os source d →
    SearchPath.lists (host.searchPath?.getD "") d os = true → found = .ok d
  unlisted : ∀ source d, Leads host globalBin os source d →
    SearchPath.lists (host.searchPath?.getD "") d os = false →
      found = if os = .windows then .error (.directoryNotOnPath d) else .ok settings.fallbackDirectory
  unavailable : Unavailable host globalBin os →
    found = if os = .windows then .error .directoryUnresolved else .ok settings.fallbackDirectory
  covered : Unavailable host globalBin os ∨ ∃ source d, Leads host globalBin os source d
  total : os ≠ .windows → ∃ d, found = .ok d
  /-- What sources of a lower rank offer has no influence, listed or not. -/
  independent : ∀ source d, Leads host globalBin os source d →
    ∀ (host' : HostContext) (globalBin' : GlobalBin), host'.searchPath? = host.searchPath? →
      Leads host' globalBin' os source d → (locate settings host' globalBin' os).2 = found

/-- The directory is that of the highest ranked source that offers one, or it stays unresolved. -/
theorem locate_selects (settings : Settings) (host : HostContext) (globalBin : GlobalBin) (os : Os) :
    Selection settings host globalBin os (locate settings host globalBin os).1
      (locate settings host globalBin os).2 where
  answered := locate_asked.1
  unanswered := locate_asked.2
  listed source d leads listed := by
    rw [locate_of_leads leads]
    simp [choose,listed]
  unlisted source d leads unlisted := by
    rw [locate_of_leads leads]
    simp [choose,unlisted,Os.isWindows]
  unavailable none := by
    rw [locate_of_unavailable none]
    simp [choose,Os.isWindows]
  covered := exists_leads host globalBin os
  total other := by
    simp only [locate,choose]
    split
    · simp [Os.isWindows,other]
    · split <;> simp [Os.isWindows,other]
  independent source d leads host' globalBin' searchPath leads' := by
    rw [locate_of_leads leads,locate_of_leads leads']
    simp only [choose,searchPath]

example :
    (let host : HostContext := ⟨"/usr/lib/yarn/bin/yarn.js",some "/opt",some "/bin:/opt/bin"⟩
    let globalBin : GlobalBin
      | .yarn => some (.ofString "")
      | .npm => some (.ofString "/srv/npm/bin")
    let settings := Settings.ofHome (.ofString "/home/user")
    (locate settings host globalBin .linux).1 = [.yarn,.npm] ∧
      (locate settings host globalBin .linux).2.toOption = some settings.fallbackDirectory) := by
  decide +kernel

end ReleaseInstaller.Directory
