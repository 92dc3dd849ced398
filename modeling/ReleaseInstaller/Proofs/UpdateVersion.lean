import ReleaseInstaller.Proofs.JsonRoundtrip
import ReleaseInstaller.Proofs.Outcome
import ReleaseInstaller.Proofs.Requests
import ReleaseInstaller.Proofs.Rewriting
import ReleaseInstaller.Proofs.Start
import ReleaseInstaller.Proofs.Utf8
import ReleaseInstaller.Proofs.VersionText

/-! Recording the newest release. Either all of it succeeds, and the manifest has a new version and
is otherwise as it was, or nothing is written at all. -/
namespace ReleaseInstaller

open Procedure

variable {p : Path} {f : Files} {root : Json.Value} {octets : List UInt8}
  {members : List (List Char × Json.Value)} {version : ReleaseVersion} {settings : Settings}
  {m after : Machine}

namespace Manifest

open Json

/-- A file holds a document that is an object with these members. -/
def Records (p : Path) (f : Files) (members : List (List Char × Json.Value)) : Prop :=
  ∃ octets, Files.read p f = .ok octets ∧ parse octets = .ok (.object members)

theorem ofFiles_eq_ok {manifest : Manifest} : ofFiles p f = .ok manifest ↔
    ∃ octets root, Files.read p f = .ok octets ∧ parse octets = .ok root ∧ manifest = ⟨p,root⟩ := by
  unfold ofFiles
  cases Files.read p f with
  | error fault => simp
  | ok octets =>
    simp only [Except.ok.injEq,exists_and_left]
    cases parsed : parse octets with
    | error fault => simp [parsed]
    | ok root => simp [parsed,eq_comm]

theorem records_iff : Records p f members ↔ ofFiles p f = .ok ⟨p,.object members⟩ := by
  simp only [ofFiles_eq_ok,Records]
  constructor
  · rintro ⟨octets,read,parsed⟩
    exact ⟨octets,_,read,parsed,rfl⟩
  · rintro ⟨octets,root,read,parsed,same⟩
    cases same
    exact ⟨octets,read,parsed⟩

theorem canonical_of_parse (parsed : parse octets = .ok root) : Canonical depthLimit root := by
  unfold parse at parsed
  split at parsed
  · cases parsed
  split at parsed
  · cases parsed
  split at parsed
  · cases parsed
  · next read =>
    cases parsed
    exact canonical_of_read? read

theorem ne_nil_of_parse (parsed : parse octets = .ok root) : octets ≠ [] := by
  rintro rfl
  cases parsed

theorem parse_octets (canonical : Canonical depthLimit root) (integral : Integral root) :
    parse (Manifest.octets ⟨p,root⟩) = .ok root := by
  simp [parse,Manifest.octets,withoutComments?_text integral,read?_text canonical integral]

def revised (version : ReleaseVersion) (members : List (List Char × Json.Value)) :
    List (List Char × Json.Value) :=
  setMember versionKey (.string version.text.toList) members

theorem canonical_revised (canonical : Canonical depthLimit (.object members)) :
    Canonical depthLimit (.object (revised version members)) := by
  cases canonical with
  | object _ _ ordered each =>
    refine .object _ _ (ordered_setMember _ _ ordered) fun member inside => ?_
    rcases mem_setMember inside with rfl | inside
    · exact .string ..
    · exact each member inside

/-- Without the version, no member holds a fraction. -/
def OthersIntegral (members : List (List Char × Json.Value)) : Prop :=
  ∀ member ∈ members, member.1 ≠ versionKey → Integral member.2

theorem integral_revised (others : OthersIntegral members) (ordered : Ordered members) :
    Integral (.object (revised version members)) := by
  refine .object _ fun member inside => ?_
  by_cases own : member.1 = versionKey
  · obtain rfl := (ordered_setMember versionKey _ ordered).eq_of_key inside
      (mem_setMember_self versionKey _ members) own
    exact .string ..
  · rcases mem_setMember inside with rfl | inside
    · exact absurd rfl own
    · exact others member inside own

theorem parse_revised (canonical : Canonical depthLimit (.object members))
    (others : OthersIntegral members) :
    parse (Manifest.octets ⟨p,.object (revised version members)⟩) =
      .ok (.object (revised version members)) := by
  have ordered : Ordered members := by
    cases canonical
    assumption
  exact parse_octets (canonical_revised canonical) (integral_revised others ordered)

theorem lookup_revised :
    (revised version members).lookup versionKey = some (.string version.text.toList) := by
  rw [revised,lookup_setMember,if_pos rfl]

def others (members : List (List Char × Json.Value)) : List (List Char × Json.Value) :=
  members.filter (·.1 ≠ versionKey)

theorem others_revised : others (revised version members) = others members := by
  rw [others,others,revised]
  induction members with
  | nil => rfl
  | cons member members ih =>
    obtain ⟨key,value⟩ := member
    rw [setMember]
    split
    · next own => simp [own]
    split
    · simp
    · next other _ => simpa [other] using ih

theorem version_of_records (manifest : Manifest) (object : manifest.root = .object members)
    (recorded : members.lookup versionKey = some (.string version.text.toList))
    (valid : version.Valid) : manifest.version = .ok (some version) := by
  have some : Text.isAllBlank version.text.toList = false := by
    obtain ⟨c,rest,shape⟩ := List.exists_cons_of_ne_nil valid.ne_nil
    simp [shape,Text.isAllBlank,valid.unblank c (shape ▸ List.mem_cons_self)]
  simp [Manifest.version,object,Value.member?,recorded,some,valid.parse_text,Except.map]

theorem setVersion_cases (version : ReleaseVersion) (manifest : Manifest) :
    (∃ members, manifest.root = .object members ∧
      manifest.setVersion version = .ok ⟨manifest.path,.object (revised version members)⟩) ∨
    (∀ members, manifest.root ≠ .object members) ∧
      ∃ error, manifest.setVersion version = .error error := by
  obtain ⟨p,root⟩ := manifest
  cases root with
  | object members => exact .inl ⟨members,rfl,rfl⟩
  | null | bool | number | string | array => exact .inr ⟨by simp,_,rfl⟩

theorem run_save (root : Json.Value) {l : Location} {content : Content} {mode : Nat}
    (leads : m.files.Leads p l content mode) (whole : m.files.WellFormed)
    (stores : Files.Stores m.disk) : ∃ saved, (save ⟨p,root⟩).run m = (.ok (),saved) ∧
      saved.files = m.files.rewritten l (Manifest.octets ⟨p,root⟩) mode := by
  obtain ⟨written,files⟩ := (leads.run_write whole (Manifest.octets ⟨p,root⟩)).1 stores
  exact ⟨_,by rw [save,run_failing,written,mapError_ok],files⟩

end Manifest

namespace Feed

/-- A page of releases was served, and its first link of the repository, pre-releases included, names
the version. -/
def Announces (settings : Settings) (reply : Except Net.TransportFault Net.Response)
    (version : ReleaseVersion) : Prop :=
  ∃ response document text, reply = .ok response ∧ response.isSuccess = true ∧
    Net.readText response.body = .ok document ∧
    Listing.latestVersion? document settings.repository true = some text ∧
    ReleaseVersion.parse text = .ok version

theorem Announces.valid {reply : Except Net.TransportFault Net.Response}
    (announces : Announces settings reply version) : version.Valid := by
  obtain ⟨_,_,text,_,_,_,_,parsed⟩ := announces
  exact ⟨text,parsed⟩

theorem announces_iff {reply : Except Net.TransportFault Net.Response} :
    Announces settings reply version ↔ readListing settings true reply = .ok version := by
  constructor
  · rintro ⟨response,document,text,rfl,success,body,link,parsed⟩
    simp [readListing,success,body,link,parsed]
  · intro found
    cases reply with
    | error fault => cases found
    | ok response =>
      simp only [readListing] at found
      split at found
      · cases found
      next success =>
      split at found
      · cases found
      next document body =>
      split at found
      · cases found
      next text link =>
      exact ⟨response,document,text,rfl,by simpa using success,body,link,found⟩

end Feed

namespace CommandLine

open Manifest Feed

variable {context : Context} {r : Run}

def reply (settings : Settings) (m : Machine) : Except Net.TransportFault Net.Response :=
  Net.answerAfter m.network m.history settings.listingUrl

/-- What a run can come to: nothing is written, or the version that is announced goes into the
object that the manifest holds. -/
inductive Updates (settings : Settings) (m : Machine) : Except InstallError Result → Files → Prop
  | none (error : InstallError) :
      (¬∃ version members, Announces settings (reply settings m) version ∧
        Records settings.manifestPath m.files members) →
      Updates settings m (.error error) m.files
  | recorded (version : ReleaseVersion) (members : List (List Char × Json.Value)) (l : Location)
      (mode : Nat) (old : List UInt8) :
      Announces settings (reply settings m) version →
      m.files.Leads settings.manifestPath l (.data old) mode →
      parse old = .ok (.object members) →
      Updates settings m (.ok ⟨"",Option.none⟩) (m.files.rewritten l
        (Manifest.octets ⟨settings.manifestPath,.object (revised version members)⟩) mode)

theorem updates_of_run (whole : m.files.WellFormed) (disk : m.disk = []) :
    Updates r.settings m (r.updateVersion.run m).1 (r.updateVersion.run m).2.files := by
  simp only [Run.updateVersion,run_bind,run_fromListing]
  cases heard : readListing r.settings true (reply r.settings m) with
  | error error =>
    rw [reply] at heard
    simp only [heard]
    refine .none error ?_
    rintro ⟨version,members,announced,-⟩
    rw [announces_iff,reply,heard] at announced
    cases announced
  | ok version =>
    have announced := announces_iff.mpr heard
    rw [reply] at heard
    simp only [heard,Manifest.load,run_bind,run_get,run_mk_pure,Machine.noting_files]
    cases loaded : ofFiles r.settings.manifestPath m.files with
    | error error =>
      refine .none error ?_
      rintro ⟨version,members,-,records⟩
      rw [records_iff,loaded] at records
      cases records
    | ok manifest =>
      obtain ⟨octets,root,read,parsed,rfl⟩ := ofFiles_eq_ok.mp loaded
      rcases setVersion_cases version ⟨r.settings.manifestPath,root⟩ with
        ⟨members,rfl,set⟩ | ⟨other,error,set⟩
      case inl =>
        obtain ⟨l,mode,leads⟩ := Files.leads_of_read read (ne_nil_of_parse parsed)
        obtain ⟨saved,save,files⟩ := run_save (.object (revised version members))
          (m := m.noting ((listing.asked r.settings m).map .requested)) leads whole
          (show Files.Stores m.disk from disk ▸ Files.stores_nil)
        rw [m.noting_files] at files
        simp only [set,save,run_pure]
        rw [files]
        exact .recorded version members l mode octets announced leads parsed
      case inr =>
        simp only [set]
        refine .none _ ?_
        rintro ⟨_,members,-,records⟩
        rw [records_iff,loaded] at records
        cases records
        exact other members rfl

theorem run_getTag (records : Records r.settings.manifestPath m.files members)
    (recorded : members.lookup versionKey = some (.string version.text.toList))
    (valid : version.Valid) : r.getTag.run m = (.ok ⟨version.channel ++ "\n",none⟩,m) := by
  have read := version_of_records ⟨r.settings.manifestPath,_⟩ rfl recorded valid
  simp [Run.getTag,Manifest.load,run_bind,records_iff.mp records,read]

/-- A newer version can be recorded: one is announced, and there is an object to put it into. -/
structure Recordable (context : Context) (m : Machine) (settings : Settings)
    (version : ReleaseVersion) (members : List (List Char × Json.Value)) : Prop where
  settled : Settings.ofEnvironment context.environment = .ok settings
  announced : Announces settings (reply settings m) version
  records : Records settings.manifestPath m.files members

/-- A version stands in the manifest, next to what stood there before, and every run from then on
that asks for the channel prints the one of the version. -/
structure Recorded (environment : Environment) (settings : Settings) (version : ReleaseVersion)
    (before : List (List Char × Json.Value)) (f : Files) : Prop where
  manifest : ∃ members, Records settings.manifestPath f members ∧
    members.lookup versionKey = some (.string version.text.toList) ∧ others members = others before
  channel : ∀ context arguments invocation, context.environment = environment →
    read context.environment arguments = .ok invocation → invocation.subcommand = .getTag →
    ∀ m : Machine, m.files = f →
      run context arguments m = (⟨0,version.channel ++ "\n",none,none⟩,m)

theorem recorded_of_leads {environment : Environment} {l : Location} {mode : Nat} {f : Files}
    {old : List UInt8} (settled : Settings.ofEnvironment environment = .ok settings)
    (valid : version.Valid) (leads : f.Leads settings.manifestPath l (.data old) mode)
    (parsed : parse old = .ok (.object members)) (integral : OthersIntegral members) :
    Recorded environment settings version members (f.rewritten l
      (Manifest.octets ⟨settings.manifestPath,.object (revised version members)⟩) mode) := by
  have records : Records settings.manifestPath (f.rewritten l
      (Manifest.octets ⟨settings.manifestPath,.object (revised version members)⟩) mode)
      (revised version members) :=
    ⟨_,leads.read_rewritten _,parse_revised (canonical_of_parse parsed) integral⟩
  refine ⟨⟨_,records,lookup_revised,others_revised⟩,?_⟩
  rintro context arguments ⟨log?,subcommand⟩ rfl heard rfl m files
  rw [← files] at records
  have tag := run_getTag (r := ⟨context,settings,.ofEnvironment context.environment⟩)
    records lookup_revised valid
  rw [run_of_settled heard settled (by simp)]
  simp [Run.perform,tag,finish,keptNotice?]

/-- Recording the newest release is all or nothing. -/
theorem run_updateVersion {arguments : List String} {invocation : Invocation} {outcome : Outcome}
    (heard : read context.environment arguments = .ok invocation)
    (command : invocation.subcommand = .updateVersion) (whole : m.files.WellFormed)
    (disk : m.disk = []) (ran : run context arguments m = (outcome,after)) :
    (outcome.exitCode = 0 ∧ ∃ settings version members,
      Recordable context m settings version members ∧ (OthersIntegral members →
        Recorded context.environment settings version members after.files)) ∨
    (outcome.exitCode = 1 ∧ after.files = m.files ∧
      ¬∃ settings version members, Recordable context m settings version members) := by
  obtain ⟨log?,subcommand⟩ := invocation
  obtain rfl : subcommand = .updateVersion := command
  cases settled : Settings.ofEnvironment context.environment with
  | error error =>
    rw [run_of_unsettled heard settled (by simp)] at ran
    cases ran
    refine .inr ⟨rfl,rfl,?_⟩
    rintro ⟨settings,version,members,recordable⟩
    cases settled.symm.trans recordable.settled
  | ok settings =>
    have updates := updates_of_run (r := ⟨context,settings,.ofEnvironment context.environment⟩)
      whole disk
    rw [run_of_settled heard settled (by simp),Run.perform] at ran
    generalize (Run.updateVersion _).run m = result at ran updates
    obtain ⟨result,left⟩ := result
    cases ran
    dsimp only at updates ⊢
    generalize left.files = files at updates ⊢
    cases updates with
    | none error none =>
      refine .inr ⟨rfl,rfl,?_⟩
      rintro ⟨settings',version,members,⟨settled',announced,records⟩⟩
      cases settled.symm.trans settled'
      exact none ⟨version,members,announced,records⟩
    | recorded version members l mode old announced leads parsed =>
      exact .inl ⟨rfl,settings,version,members,⟨settled,announced,old,leads.read,parsed⟩,
        recorded_of_leads settled announced.valid leads parsed⟩

def unversioned : Machine :=
  .fresh ⟨[([Path.nameOctets "package.json"],
      .file (.data (Text.Utf8.encode "\x7b\"name\":1\x7d".toList)) 0o644)],[]⟩
    (.serving (Text.Utf8.encode "/covexo/devspace/releases/download/v4.2.0-beta/".toList))

theorem recorded_of_unversioned : ∃ settings version members,
    Recordable atHome unversioned settings version members ∧
      Recorded atHome.environment settings version members
        (run atHome ["update-version"] unversioned).2.files := by
  have succeeds : (run atHome ["update-version"] unversioned).1.exitCode = 0 := by decide +kernel
  have whole : unversioned.files.WellFormed := Files.wellFormed_of_flat (by decide)
  have heard : read atHome.environment ["update-version"] = .ok ⟨none,.updateVersion⟩ := rfl
  rcases run_updateVersion heard rfl whole rfl (Prod.eta _).symm with
    ⟨-,settings,version,members,recordable,recorded⟩ | ⟨fails,-⟩
  case inr => simp [succeeds] at fails
  refine ⟨settings,version,members,recordable,recorded ?_⟩
  have settled : settings = .ofHome ⟨[Path.slash]⟩ := by
    have settled := recordable.settled
    rw [show Settings.ofEnvironment atHome.environment = .ok (.ofHome ⟨[Path.slash]⟩) by rfl]
      at settled
    cases settled
    rfl
  have holds : Records (Settings.ofHome ⟨[Path.slash]⟩).manifestPath unversioned.files
      [("name".toList,.number (.integer 1))] := ⟨_,by rfl,by rfl⟩
  have records := recordable.records
  rw [records_iff,settled] at records
  rw [records_iff] at holds
  cases holds.symm.trans records
  intro member inside _
  obtain rfl := List.mem_singleton.mp inside
  exact .integer 1

end CommandLine
end ReleaseInstaller
