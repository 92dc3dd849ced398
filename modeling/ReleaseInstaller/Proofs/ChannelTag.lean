import ReleaseInstaller.Proofs.Lowercase
import ReleaseInstaller.Proofs.VersionText

/-! What a version is published as. Its channel is read off the end of its text: letters behind a
hyphen, with perhaps a dot and digits after them. For a version this comes down to its pre-release part,
if nothing but one number follows the first identifier, and to what follows otherwise. -/
namespace ReleaseInstaller

open Text

variable {s t letters front rest : List Char} {c : Char} {tag : String}

/-- The text ends in a hyphen, these letters, and perhaps a dot and digits. -/
def EndsIn (s letters : List Char) : Prop :=
  ∃ front number, s = front ++ '-' :: (letters ++ number) ∧
    letters ≠ [] ∧ (∀ c ∈ letters, isChannelLetter c = true) ∧ isChannelEnd number = true

theorem EndsIn.subset (ends : EndsIn s letters) : letters ⊆ s := by
  obtain ⟨front,number,rfl,-⟩ := ends
  intro c member
  simp [member]

theorem hyphen_not_letter : isChannelLetter '-' = false := by decide

theorem isChannelEnd_iff : isChannelEnd t = true ↔
    t = [] ∨ ∃ digits, t = '.' :: digits ∧ digits ≠ [] ∧ ∀ c ∈ digits, isDigit c = true := by
  unfold isChannelEnd
  split
  · simp
  · simp
  · next other other' => simpa using ⟨other,fun digits same => absurd same (other' digits)⟩

theorem isChannelEnd_stops (ends : isChannelEnd t = true) : ∀ c ∈ t.head?, isChannelLetter c = false := by
  rcases isChannelEnd_iff.mp ends with rfl | ⟨digits,rfl,-⟩
  · simp
  · simp only [List.head?_cons,Option.mem_some]
    rintro c rfl
    decide

theorem hyphen_not_mem_of_isChannelEnd (ends : isChannelEnd t = true) : '-' ∉ t := by
  rcases isChannelEnd_iff.mp ends with rfl | ⟨digits,rfl,-,all⟩
  · simp
  · refine List.not_mem_cons_of_ne_of_not_mem (by decide) fun member => ?_
    exact absurd (all '-' member) (by decide)

theorem channelHere?_append (some : letters ≠ []) (all : ∀ c ∈ letters, isChannelLetter c = true)
    (stops : ∀ c ∈ rest.head?, isChannelLetter c = false) :
    channelHere? (letters ++ rest) = if isChannelEnd rest then .some letters else none := by
  simp [channelHere?,takeWhile_run all stops,dropWhile_run all stops,some]

theorem parts_of_channelHere? (found : channelHere? s = some letters) :
    ∃ number, s = letters ++ number ∧ letters ≠ [] ∧
      (∀ c ∈ letters, isChannelLetter c = true) ∧ isChannelEnd number = true := by
  simp only [channelHere?,Option.ite_none_right_eq_some,Bool.and_eq_true,Bool.not_eq_true',
    List.isEmpty_eq_false_iff] at found
  obtain ⟨⟨some,ends⟩,same⟩ := found
  cases same
  exact ⟨_,List.takeWhile_append_dropWhile.symm,some,fun c member => List.mem_takeWhile_imp member,ends⟩

theorem findChannel?_cons_of_ne (other : c ≠ '-') : findChannel? (c :: s) = findChannel? s := by
  rw [findChannel?,if_neg other]

theorem findChannel?_append (free : '-' ∉ front) : findChannel? (front ++ s) = findChannel? s := by
  induction front with
  | nil => rfl
  | cons c front ih =>
    rw [List.cons_append,findChannel?_cons_of_ne (List.ne_of_not_mem_cons free).symm,
      ih (List.not_mem_of_not_mem_cons free)]

/-- The channel that is found is the one that the text ends in. Since no hyphen follows the one that
names it, it does not matter that the search goes from the front. -/
theorem findChannel?_eq_some : findChannel? s = some letters ↔ EndsIn s letters := by
  induction s with
  | nil => exact iff_of_false nofun fun ⟨front,number,shape,_⟩ => by simp at shape
  | cons c rest ih =>
    rw [findChannel?]
    constructor
    · intro found
      have later (found : findChannel? rest = some letters) : EndsIn (c :: rest) letters :=
        let ⟨front,number,shape,parts⟩ := ih.mp found
        ⟨c :: front,number,congrArg (c :: ·) shape,parts⟩
      split at found
      · next hyphen =>
        rcases Option.or_eq_some_iff.mp found with here | ⟨-,found⟩
        · obtain ⟨number,shape,parts⟩ := parts_of_channelHere? here
          exact ⟨[],number,by rw [hyphen,shape]; rfl,parts⟩
        · exact later found
      · exact later found
    · rintro ⟨front,number,shape,some,all,ends⟩
      cases front with
      | nil =>
        obtain ⟨rfl,rfl⟩ := List.cons.inj shape
        rw [if_pos rfl,channelHere?_append some all (isChannelEnd_stops ends),if_pos ends,Option.some_or]
      | cons first front =>
        obtain ⟨rfl,rfl⟩ := List.cons.inj shape
        have found := ih.mpr ⟨front,number,rfl,some,all,ends⟩
        split
        · -- an earlier hyphen that named a channel would have none behind it
          cases here : channelHere? (front ++ '-' :: (letters ++ number)) with
          | none => rw [Option.none_or,found]
          | some earlier =>
            obtain ⟨tail,shape,-,all',ends'⟩ := parts_of_channelHere? here
            have member : '-' ∈ earlier ++ tail := shape ▸ List.mem_append_right _ List.mem_cons_self
            rcases List.mem_append.mp member with member | member
            · simpa [hyphen_not_letter] using all' '-' member
            · exact absurd member (hyphen_not_mem_of_isChannelEnd ends')
        · exact found

theorem findChannel?_eq_none : findChannel? s = none ↔ ∀ letters, ¬EndsIn s letters := by
  simp only [Option.eq_none_iff_forall_ne_some,ne_eq,findChannel?_eq_some]

theorem channelTag_eq (s : String) : channelTag s =
    (findChannel? (trim s.toList)).elim latestChannel fun letters => String.ofList (lower letters) := by
  rw [channelTag]
  split
  · next found => rw [found]; rfl
  · next missing => rw [missing]; rfl

/-- What a text with this end is published as: the letters that it ends in, in lower case, or else the
latest. -/
def Publishes (s : List Char) (tag : String) : Prop :=
  (∀ letters, EndsIn s letters → tag = String.ofList (letters.map Char.toLower)) ∧
    ((∀ letters, ¬EndsIn s letters) → tag = latestChannel)

theorem publishes_of_found
    (found : tag = (findChannel? s).elim latestChannel fun letters =>
      String.ofList (letters.map Char.toLower)) : Publishes s tag := by
  constructor
  · intro letters ends
    rw [found,findChannel?_eq_some.mpr ends]
    rfl
  · intro none
    rw [found,findChannel?_eq_none.mpr none]
    rfl

namespace SemanticVersion

variable {v : SemanticVersion} {mark : Char} {identifiers : List (List Char)}

/-- What follows a pre-release's first identifier. -/
def behindFirst (more build : List (List Char)) : List Char := tail '.' more ++ tail '+' build

theorem text_of_preRelease {first : List Char} {more : List (List Char)}
    (preRelease : v.preRelease = first :: more) :
    v.text = v.core ++ '-' :: (first ++ behindFirst more v.build) := by
  have joined : dotted (first :: more) = first ++ tail '.' more := by
    cases more <;> simp [dotted,tail,List.intercalate]
  simp [text,core,behindFirst,preRelease,tail,joined]

theorem behindFirst_stops (more build : List (List Char)) :
    ∀ c ∈ (behindFirst more build).head?, isChannelLetter c = false := by
  have dot : isChannelLetter '.' = false := by decide
  have plus : isChannelLetter '+' = false := by decide
  cases more <;> cases build <;> simp [behindFirst,tail,dot,plus]

theorem ne_nil_of_isPreReleaseIdentifier {identifier : List Char}
    (accepted : isPreReleaseIdentifier identifier = true) : identifier ≠ [] := by
  simp only [isPreReleaseIdentifier,isBuildIdentifier,Bool.and_eq_true] at accepted
  simpa using accepted.1.1

def OneNumber (more build : List (List Char)) : Prop :=
  build = [] ∧ (more = [] ∨ ∃ digits, more = [digits] ∧ ∀ c ∈ digits, isDigit c = true)

theorem isChannelEnd_behindFirst {more : List (List Char)} (build : List (List Char))
    (all : more.all isPreReleaseIdentifier = true) :
    isChannelEnd (behindFirst more build) = true ↔ OneNumber more build := by
  cases more with
  | nil => cases build <;> simp [behindFirst,tail,isChannelEnd,OneNumber]
  | cons second more =>
    rw [List.all_cons,Bool.and_eq_true] at all
    have some := ne_nil_of_isPreReleaseIdentifier all.1
    have dot : isDigit '.' = false := by decide
    have plus : isDigit '+' = false := by decide
    cases build with
    | cons first build => simp [behindFirst,tail,isChannelEnd,OneNumber,plus]
    | nil =>
      cases more with
      | nil => simp [behindFirst,tail,isChannelEnd,OneNumber,dotted,List.intercalate,some]
      | cons third more => simp [behindFirst,tail,isChannelEnd,OneNumber,dotted,List.intercalate,dot]

end SemanticVersion

namespace ReleaseVersion

open SemanticVersion

variable {version : ReleaseVersion}

theorem Valid.channel_eq (valid : version.Valid) :
    version.channel = (findChannel? version.text.toList).elim latestChannel fun letters =>
      String.ofList (letters.map Char.toLower) := by
  rw [channel,channelTag_eq,trim_of_unblank valid.unblank]
  cases found : findChannel? version.text.toList with
  | none => rfl
  | some letters =>
    have ascii : ∀ c ∈ letters, c.toNat < 0x80 := fun c member =>
      valid.ascii c ((findChannel?_eq_some.mp found).subset member)
    simp only [lower_of_ascii ascii,Option.elim_some]

/-- A version without a pre-release is published as what its build identifiers end in, so as the latest
if they hold no hyphen. One whose pre-release starts with letters is published under these if nothing but
one number follows them, and else as what the part behind them ends in. -/
theorem Valid.channel_by_parts (valid : version.Valid) :
    ∃ v, SemanticVersion.parse? version.text.toList = some v ∧
      (v.preRelease = [] → Publishes (dotted v.build) version.channel) ∧
      ∀ first more, v.preRelease = first :: more → (∀ c ∈ first, isLetter c = true) →
        (OneNumber more v.build → version.channel = String.ofList (first.map Char.toLower)) ∧
        (¬OneNumber more v.build → Publishes (behindFirst more v.build) version.channel) := by
  obtain ⟨v,parsed⟩ := valid.exists_parse?
  obtain ⟨formed,text⟩ := text_of_parse? parsed
  have tag := valid.channel_eq
  rw [text] at tag
  refine ⟨v,parsed,fun stable => ?_,fun first more preRelease letters => ?_⟩
  case refine_1 =>
    have shape : v.text = v.core ++ tail '+' v.build := by simp [SemanticVersion.text,core,stable,tail]
    have behind : findChannel? (tail '+' v.build) = findChannel? (dotted v.build) := by
      cases v.build with
      | nil => rfl
      | cons first more => exact findChannel?_cons_of_ne (by decide)
    rw [shape,findChannel?_append formed.hyphen_not_mem_core,behind] at tag
    exact publishes_of_found tag
  case refine_2 =>
    have all := formed.preRelease
    rw [preRelease,List.all_cons,Bool.and_eq_true] at all
    have ends := isChannelEnd_behindFirst v.build all.2
    have free : '-' ∉ first := fun member => absurd (letters '-' member) (by decide)
    have here : channelHere? (first ++ behindFirst more v.build) =
        if isChannelEnd (behindFirst more v.build) then some first else none :=
      channelHere?_append (ne_nil_of_isPreReleaseIdentifier all.1)
        (fun c member => by simp [isChannelLetter,letters c member]) (behindFirst_stops more v.build)
    rw [text_of_preRelease preRelease,findChannel?_append formed.hyphen_not_mem_core,findChannel?,
      if_pos rfl,here,findChannel?_append free] at tag
    constructor
    · intro number
      rw [tag,if_pos (ends.mpr number)]
      rfl
    · intro further
      rw [if_neg (mt ends.mp further),Option.none_or] at tag
      exact publishes_of_found tag

/-- What is behind a pre-release's letters is published, where it is more than one number. -/
theorem Valid.channel_by_parts_named :
    (⟨"1.0.0-rc.2+linux-Nightly.7"⟩ : ReleaseVersion).Valid ∧
      (⟨"1.0.0-rc.2+linux-Nightly.7"⟩ : ReleaseVersion).channel = "nightly" := by
  have valid : (⟨"1.0.0-rc.2+linux-Nightly.7"⟩ : ReleaseVersion).Valid :=
    ⟨"1.0.0-rc.2+linux-Nightly.7",by decide +kernel⟩
  refine ⟨valid,?_⟩
  obtain ⟨v,parsed,-,named⟩ := valid.channel_by_parts
  obtain rfl : v = ⟨['1'],['0'],['0'],["rc".toList,['2']],["linux-Nightly".toList,['7']]⟩ :=
    Option.some.inj (parsed.symm.trans (by decide +kernel))
  have letters : ∀ c ∈ "rc".toList, isLetter c = true := List.all_eq_true.mp (by decide)
  have further := (named "rc".toList [['2']] rfl letters).2 (fun number => nomatch number.1)
  exact further.1 "Nightly".toList ⟨".2+linux".toList,".7".toList,by decide +kernel,by decide,
    List.all_eq_true.mp (by decide),by decide⟩

/-- Letters behind a hyphen of a build identifier are a channel for a version without a pre-release, and a
second number hides the letters of a pre-release. -/
theorem channel_of_tail :
    parse "1.2.3+build-foo" = .ok ⟨"1.2.3+build-foo"⟩ ∧
    (SemanticVersion.parse? "1.2.3+build-foo".toList).map (·.preRelease) = some [] ∧
    (⟨"1.2.3+build-foo"⟩ : ReleaseVersion).channel = "foo" ∧
    parse "1.0.0-beta.1.2" = .ok ⟨"1.0.0-beta.1.2"⟩ ∧
    (SemanticVersion.parse? "1.0.0-beta.1.2".toList).map (·.preRelease) =
      some ["beta".toList,['1'],['2']] ∧
    (⟨"1.0.0-beta.1.2"⟩ : ReleaseVersion).channel = "latest" := by decide +kernel

end ReleaseVersion
end ReleaseInstaller
