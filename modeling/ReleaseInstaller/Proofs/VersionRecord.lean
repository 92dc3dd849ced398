import ReleaseInstaller.Proofs.UpdateVersion

/-! Recording versions in a manifest. However often a version is set, what is saved has the last one and is
otherwise as it was, it is loaded again, and saving it once more changes nothing. -/
namespace ReleaseInstaller

open Procedure

variable {p : Path} {m after : Machine} {manifest : Manifest} {version : ReleaseVersion}
  {members : List (List Char × Json.Value)}

namespace Json

theorem setMember_setMember (key : List Char) (value old : Value) (members : List (List Char × Value)) :
    setMember key value (setMember key old members) = setMember key value members := by
  induction members with
  | nil => simp [setMember_cons,setMember]
  | cons member members ih =>
    obtain ⟨k,known⟩ := member
    simp only [setMember_cons]
    split
    · simp [setMember_cons]
    · next other =>
      split
      · simp [setMember_cons]
      · next behind => simp [setMember_cons,other,behind,ih]

end Json

namespace Manifest

open Json

/-- Records a version in place. A manifest that can record none stays as it is. -/
def record (version : ReleaseVersion) : ExceptT InstallError (StateM Manifest) Unit := do
  match (← get).setVersion version with
  | .ok revised => set revised
  | .error error => throw error

theorem run_record_failed (other : ∀ members, manifest.root ≠ .object members) (version : ReleaseVersion) :
    (record version).run.run manifest = (.error (.versionFieldMissing manifest.path),manifest) := by
  obtain ⟨p,root⟩ := manifest
  cases root with
  | object members => exact absurd rfl (other members)
  | null | bool | number | string | array => rfl

theorem run_record_each (versions : List ReleaseVersion) (version : ReleaseVersion) (p : Path)
    (members : List (List Char × Json.Value)) :
    ((versions ++ [version]).forM record).run.run ⟨p,.object members⟩ =
      (.ok (),⟨p,.object (revised version members)⟩) := by
  induction versions generalizing members with
  | nil => rfl
  | cons first versions ih =>
    have step : (((first :: versions) ++ [version]).forM record).run.run ⟨p,.object members⟩ =
        ((versions ++ [version]).forM record).run.run ⟨p,.object (revised first members)⟩ := rfl
    rw [step,ih,revised,revised,setMember_setMember]
    rfl

/-- What a machine's manifest is after a version was saved. Loading it gives that version and the other
members as they were, and saving what is loaded leaves the same octets. -/
structure Recovers (p : Path) (version : ReleaseVersion) (before : List (List Char × Json.Value))
    (m : Machine) (again : Manifest) : Prop where
  loaded : (load p).run m = (.ok again,m)
  version : again.version = .ok (some version)
  others : ∃ members, again.root = .object members ∧ Manifest.others members = Manifest.others before
  saves : Files.Stores m.disk → ((save again).run m).1 = .ok ()
  stable : ∀ after, (save again).run m = (.ok (),after) →
    Files.read p after.files = Files.read p m.files

theorem run_load_eq_ok : (load p).run m = (.ok manifest,m) ↔ ofFiles p m.files = .ok manifest := by
  simp [load,run_bind]

theorem files_of_save {root : Json.Value} {l : Location} {content : Content} {mode : Nat}
    (leads : m.files.Leads p l content mode) (whole : m.files.WellFormed)
    (saved : (save ⟨p,root⟩).run m = (.ok (),after)) :
    after.files = m.files.rewritten l (Manifest.octets ⟨p,root⟩) mode := by
  obtain ⟨result,wrote,same⟩ := run_failing_eq.mp saved
  have stores : Files.Stores m.disk := by
    refine (leads.run_write whole (Manifest.octets ⟨p,root⟩)).2 ?_
    cases result with
    | error failure => cases same
    | ok u => rw [wrote]
  obtain ⟨_,run,files⟩ := run_save root leads whole stores
  cases run.symm.trans saved
  exact files

theorem recovers_of_files {l : Location} {content : Content} {mode : Nat} {f : Files}
    (whole : f.WellFormed) (leads : f.Leads p l content mode)
    (canonical : Canonical depthLimit (.object members)) (integral : OthersIntegral members)
    (valid : version.Valid)
    (written : m.files = f.rewritten l (Manifest.octets ⟨p,.object (revised version members)⟩) mode) :
    Recovers p version members m ⟨p,.object (revised version members)⟩ := by
  have leads' : m.files.Leads p l _ mode := written ▸ leads.rewritten _
  have whole' : m.files.WellFormed := written ▸ (leads.refilled _).wellFormed whole
  refine ⟨?_,version_of_records _ rfl lookup_revised valid,⟨_,rfl,others_revised⟩,fun stores => ?_,
    fun after saved => ?_⟩
  · exact run_load_eq_ok.mpr
      (ofFiles_eq_ok.mpr ⟨_,_,leads'.read,parse_revised canonical integral,rfl⟩)
  · obtain ⟨_,saved,-⟩ := run_save _ leads' whole' stores
    rw [saved]
  · rw [files_of_save leads' whole' saved,leads'.read_rewritten,leads'.read]

/-- However often a version is recorded in a manifest that was loaded, saving it gives the last version back,
and only that has changed; a manifest that is no object records none. -/
theorem record_survives (whole : m.files.WellFormed) (loaded : (load p).run m = (.ok manifest,m)) :
    (∀ members versions version, manifest.root = .object members → OthersIntegral members →
      version.Valid → ∃ written, ((versions ++ [version]).forM record).run.run manifest = (.ok (),written) ∧
        (Files.Stores m.disk → ((save written).run m).1 = .ok ()) ∧
        ∀ after, (save written).run m = (.ok (),after) →
          ∃ again, Recovers p version members after again) ∧
    ((∀ members, manifest.root ≠ .object members) → ∀ version,
      (record version).run.run manifest = (.error (.versionFieldMissing manifest.path),manifest)) := by
  refine ⟨fun members versions version object integral valid => ?_,run_record_failed⟩
  obtain ⟨octets,root,read,parsed,rfl⟩ := ofFiles_eq_ok.mp (run_load_eq_ok.mp loaded)
  obtain rfl : root = .object members := object
  obtain ⟨l,mode,leads⟩ := Files.leads_of_read read (ne_nil_of_parse parsed)
  refine ⟨_,run_record_each versions version p members,fun stores => ?_,fun after saved => ?_⟩
  · obtain ⟨_,saved,-⟩ := run_save _ leads whole stores
    rw [saved]
  · exact ⟨_,recovers_of_files whole leads (canonical_of_parse parsed) integral valid
      (files_of_save leads whole saved)⟩

def holding (text : String) : Machine :=
  .fresh ⟨[([Path.nameOctets "package.json"],.file (.data (Text.Utf8.encode text.toList)) 0o644)],[]⟩
    .offline

theorem wellFormed_holding (text : String) : (holding text).files.WellFormed :=
  Files.wellFormed_of_flat (by simp)

/-- Comments, also where a string only looks as if it held one, and a version that is a number. -/
def commented : Machine :=
  holding "\x7b\"name\":[\"//\\\",\x7d\",-1,],/*#*/\"version\":3,\x7d// end"

def commentedMembers : List (List Char × Json.Value) :=
  [("name".toList,.array [.string "//\",\x7d".toList,.number (.integer (-1))]),
    (versionKey,.number (.integer 3))]

theorem othersIntegral_commented : OthersIntegral commentedMembers := by
  simp only [OthersIntegral,commentedMembers,List.forall_mem_cons]
  refine ⟨fun _ => .array _ ?_,fun own => absurd rfl own,by simp⟩
  simp only [List.forall_mem_cons]
  exact ⟨.string _,.integer _,by simp⟩

def listed : Machine := holding "[1,]"

theorem record_survives_comments :
    (∃ written after again, (load (.ofString "package.json")).run commented =
        (.ok ⟨.ofString "package.json",.object commentedMembers⟩,commented) ∧
      ([⟨"1.0.0"⟩,⟨"2.0.0-rc.1"⟩].forM record).run.run
        ⟨.ofString "package.json",.object commentedMembers⟩ = (.ok (),written) ∧
      (save written).run commented = (.ok (),after) ∧
      Recovers (.ofString "package.json") ⟨"2.0.0-rc.1"⟩ commentedMembers after again) ∧
    ∃ manifest, (load (.ofString "package.json")).run listed = (.ok manifest,listed) ∧
      (record ⟨"1.0.0"⟩).run.run manifest =
        (.error (.versionFieldMissing manifest.path),manifest) := by
  constructor
  · have loaded : (load (.ofString "package.json")).run commented =
        (.ok ⟨.ofString "package.json",.object commentedMembers⟩,commented) :=
      run_load_eq_ok.mpr (ofFiles_eq_ok.mpr ⟨_,_,by rfl,by rfl,rfl⟩)
    have valid : (⟨"2.0.0-rc.1"⟩ : ReleaseVersion).Valid := ⟨"2.0.0-rc.1",by decide +kernel⟩
    obtain ⟨survives,-⟩ := record_survives (wellFormed_holding _) loaded
    obtain ⟨written,recorded,saves,recovers⟩ :=
      survives _ [⟨"1.0.0"⟩] _ rfl othersIntegral_commented valid
    rcases saved : (save written).run commented with ⟨result,after⟩
    obtain rfl : result = .ok () := (congrArg Prod.fst saved).symm.trans (saves Files.stores_nil)
    obtain ⟨again,recovers⟩ := recovers after saved
    exact ⟨written,after,again,loaded,recorded,saved,recovers⟩
  · have loaded : (load (.ofString "package.json")).run listed =
        (.ok ⟨.ofString "package.json",.array [.number (.integer 1)]⟩,listed) :=
      run_load_eq_ok.mpr (ofFiles_eq_ok.mpr ⟨_,_,by rfl,by rfl,rfl⟩)
    exact ⟨_,loaded,(record_survives (wellFormed_holding _) loaded).2 (by simp) _⟩

end Manifest
end ReleaseInstaller
