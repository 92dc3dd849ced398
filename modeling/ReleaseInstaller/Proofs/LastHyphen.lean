import ReleaseInstaller.Proofs.ChannelTag

/-! Channels of texts. Whatever the text, it is published as the letters behind its last hyphen, if nothing
else follows that hyphen than these and perhaps a dot with digits, and as the latest otherwise. Neither
blanks around the text nor the case of its letters change that. -/
namespace ReleaseInstaller

open Text

variable {s behind letters : List Char} {c l : Char} {tag : String}

/-- Case apart, the character is one of a to z. -/
def AgreesWithLetter (c : Char) : Prop := ∃ l, 'a' ≤ l ∧ l ≤ 'z' ∧ sameFolded l c = true

theorem fold_of_between (between : 'a' ≤ l ∧ l ≤ 'z') : fold l = l ∧ isLetter l = true := by
  have range : 0x61 ≤ l.toNat ∧ l.toNat ≤ 0x7A := between
  have letter : isLetter l = true := isLetter_iff.mpr (.inr range)
  refine ⟨(fold_of_ascii (toNat_lt_of_isLetter letter)).trans ?_,letter⟩
  exact (toLower_cases l).elim (·.1) fun ⟨_,capital,_⟩ => absurd capital (by omega)

/-- These are the letters of the ASCII range, the long s and the Kelvin sign. -/
theorem agreesWithLetter_iff :
    AgreesWithLetter c ↔ isLetter c = true ∨ c = Char.ofNat 0x17F ∨ c = Char.ofNat 0x212A := by
  simp only [AgreesWithLetter,sameFolded,decide_eq_true_eq]
  constructor
  · rintro ⟨l,low,high,same⟩
    obtain ⟨folded,letter⟩ := fold_of_between ⟨low,high⟩
    rw [← folded,same] at letter
    refine (cases_of_fold_ascii (toNat_lt_of_isLetter letter)).imp_left fun ascii => ?_
    rwa [fold_of_ascii ascii,isLetter_toLower] at letter
  · rintro (letter | rfl | rfl)
    · obtain ⟨low,high⟩ := toLower_between letter
      refine ⟨c.toLower,low,high,?_⟩
      rw [(fold_of_between ⟨low,high⟩).1,fold_of_ascii (toNat_lt_of_isLetter letter)]
    · exact ⟨'s',by decide +kernel⟩
    · exact ⟨'k',by decide +kernel⟩

theorem isChannelLetter_iff : isChannelLetter c = true ↔ AgreesWithLetter c := by
  rw [agreesWithLetter_iff]
  simp only [isChannelLetter,Bool.or_eq_true,decide_eq_true_eq,or_assoc]

def BehindHyphen (s behind : List Char) : Prop := '-' ∉ behind ∧ ∃ front, s = front ++ '-' :: behind

def Spells (behind letters : List Char) : Prop :=
  letters ≠ [] ∧ (∀ c ∈ letters, AgreesWithLetter c) ∧ (behind = letters ∨
    ∃ digits, behind = letters ++ '.' :: digits ∧ digits ≠ [] ∧ ∀ c ∈ digits, isDigit c = true)

/-- The end that names a channel is all that follows the last hyphen. -/
theorem endsIn_iff : EndsIn s letters ↔ ∃ behind, BehindHyphen s behind ∧ Spells behind letters := by
  constructor
  · rintro ⟨front,number,shape,some,all,ends⟩
    have free : '-' ∉ letters ++ number := fun member =>
      (List.mem_append.mp member).elim (fun here => by simpa [hyphen_not_letter] using all '-' here)
        (hyphen_not_mem_of_isChannelEnd ends)
    refine ⟨_,⟨free,front,shape⟩,some,fun c here => isChannelLetter_iff.mp (all c here),?_⟩
    rcases isChannelEnd_iff.mp ends with rfl | ⟨digits,rfl,more⟩
    · exact .inl (List.append_nil letters)
    · exact .inr ⟨digits,rfl,more⟩
  · rintro ⟨behind,⟨-,front,shape⟩,some,all,spelled⟩
    have letter : ∀ c ∈ letters, isChannelLetter c = true := fun c here =>
      isChannelLetter_iff.mpr (all c here)
    rcases spelled with rfl | ⟨digits,rfl,more⟩
    · exact ⟨front,[],by rw [shape,List.append_nil],some,letter,rfl⟩
    · exact ⟨front,'.' :: digits,shape,some,letter,isChannelEnd_iff.mpr (.inr ⟨digits,rfl,more⟩)⟩

/-- The channel of a text without blanks around. -/
inductive Tagged (s : List Char) : String → Prop
  | named {behind letters : List Char} (follows : BehindHyphen s behind) (spelled : Spells behind letters) :
      Tagged s (String.ofList (lower letters))
  | latest (unspelled : ∀ behind letters, BehindHyphen s behind → ¬Spells behind letters) :
      Tagged s "latest"

theorem tagged_iff {s : String} : Tagged (trim s.toList) tag ↔ channelTag s = tag := by
  rw [channelTag_eq]
  constructor
  · rintro (⟨follows,spelled⟩ | ⟨unspelled⟩)
    · rw [findChannel?_eq_some.mpr (endsIn_iff.mpr ⟨_,follows,spelled⟩)]
      rfl
    · rw [findChannel?_eq_none.mpr fun letters ends => ?_]
      · rfl
      · obtain ⟨behind,follows,spelled⟩ := endsIn_iff.mp ends
        exact unspelled behind letters follows spelled
  · rintro rfl
    cases found : findChannel? (trim s.toList) with
    | none =>
      exact .latest fun behind letters follows spelled =>
        findChannel?_eq_none.mp found letters (endsIn_iff.mpr ⟨behind,follows,spelled⟩)
    | some letters =>
      obtain ⟨behind,follows,spelled⟩ := endsIn_iff.mp (findChannel?_eq_some.mp found)
      exact .named follows spelled

theorem isChannelLetter_toLower (c : Char) : isChannelLetter c.toLower = isChannelLetter c := by
  have letters (c : Char) (letter : isLetter c = true) : isChannelLetter c = true := by
    simp [isChannelLetter,letter]
  exact toLower_kept letters c

theorem isDigit_toLower (c : Char) : isDigit c.toLower = isDigit c := by
  have letters (c : Char) (letter : isLetter c = true) : isDigit c = false :=
    Bool.eq_false_iff.mpr fun digit => by simp [isLetter_of_isDigit digit] at letter
  exact toLower_kept letters c

theorem isChannelEnd_map_toLower (s : List Char) : isChannelEnd (s.map Char.toLower) = isChannelEnd s := by
  cases s with
  | nil => rfl
  | cons c digits =>
    by_cases dot : c = '.'
    · subst dot
      have same : isDigit ∘ Char.toLower = isDigit := funext isDigit_toLower
      simp [isChannelEnd,same]
    · have dot' : c.toLower ≠ '.' := mt (toLower_eq_iff (by decide)).mp dot
      simp [isChannelEnd,dot,dot']

theorem channelHere?_map_toLower (s : List Char) :
    channelHere? (s.map Char.toLower) = (channelHere? s).map (List.map Char.toLower) := by
  have same : isChannelLetter ∘ Char.toLower = isChannelLetter := funext isChannelLetter_toLower
  simp only [channelHere?,List.takeWhile_map,List.dropWhile_map,same,isChannelEnd_map_toLower,
    List.isEmpty_map]
  split <;> rfl

theorem findChannel?_map_toLower (s : List Char) :
    findChannel? (s.map Char.toLower) = (findChannel? s).map (List.map Char.toLower) := by
  induction s with
  | nil => rfl
  | cons c s ih =>
    have hyphen : c.toLower = '-' ↔ c = '-' := toLower_eq_iff (by decide)
    simp only [List.map_cons,findChannel?,hyphen,channelHere?_map_toLower,ih]
    split
    · cases channelHere? s <;> rfl
    · rfl

theorem channelTag_of_toLower_eq {s t : String}
    (same : s.toList.map Char.toLower = t.toList.map Char.toLower) : channelTag s = channelTag t := by
  have small (s : String) : channelTag s = channelTag (String.ofList (s.toList.map Char.toLower)) := by
    rw [channelTag_eq,channelTag_eq,String.toList_ofList,trim_map isBlank_toLower,findChannel?_map_toLower]
    cases findChannel? (trim s.toList) with
    | none => rfl
    | some letters => simp only [Option.map_some,Option.elim_some,lower_map_toLower]
  rw [small s,small t,same]

theorem channelTag_around {before after : String} (blank : isAllBlank before.toList = true)
    (blank' : isAllBlank after.toList = true) (s : String) :
    channelTag (before ++ s ++ after) = channelTag s := by
  rw [channelTag_eq,channelTag_eq,trim_toList_around blank blank']

namespace ReleaseVersion

variable {version : ReleaseVersion}

theorem Valid.channel_between (valid : version.Valid) :
    version.channel.toList ≠ [] ∧ ∀ c ∈ version.channel.toList, 'a' ≤ c ∧ c ≤ 'z' := by
  rw [valid.channel_eq]
  cases found : findChannel? version.text.toList with
  | none =>
    have small : latestChannel.toList.all (fun c => 'a' ≤ c && c ≤ 'z') = true := by decide
    rw [Option.elim_none]
    exact ⟨by decide,by simpa only [List.all_eq_true,Bool.and_eq_true,decide_eq_true_eq] using small⟩
  | some letters =>
    have ends := findChannel?_eq_some.mp found
    obtain ⟨-,-,-,some,all,-⟩ := id ends
    rw [Option.elim_some,String.toList_ofList]
    refine ⟨by simpa using some,fun c member => ?_⟩
    obtain ⟨d,inside,rfl⟩ := List.mem_map.mp member
    have ascii := valid.ascii d (ends.subset inside)
    refine toLower_between ?_
    rcases agreesWithLetter_iff.mp (isChannelLetter_iff.mp (all d inside)) with letter | rfl | rfl
    · exact letter
    · exact absurd ascii (by decide)
    · exact absurd ascii (by decide)

end ReleaseVersion

/-- The channel of every text, blanks around it apart, is read off what follows its last hyphen. It is a word
of small letters for a version, and blanks around the text and the case of its ASCII letters do not matter. -/
theorem channelTag_lastHyphen :
    (∀ (s : String) (tag : String), channelTag s = tag ↔ Tagged (trim s.toList) tag) ∧
    (∀ c, AgreesWithLetter c ↔ isLetter c = true ∨ c = Char.ofNat 0x17F ∨ c = Char.ofNat 0x212A) ∧
    (∀ version : ReleaseVersion, version.Valid →
      version.channel.toList ≠ [] ∧ ∀ c ∈ version.channel.toList, 'a' ≤ c ∧ c ≤ 'z') ∧
    (∀ before s after : String, isAllBlank before.toList = true → isAllBlank after.toList = true →
      channelTag (before ++ s ++ after) = channelTag s) ∧
    ∀ s t : String, s.toList.map Char.toLower = t.toList.map Char.toLower → channelTag s = channelTag t :=
  ⟨fun _ _ => tagged_iff.symm,fun _ => agreesWithLetter_iff,fun _ valid => valid.channel_between,
    fun _ s _ blank blank' => channelTag_around blank blank' s,fun _ _ => channelTag_of_toLower_eq⟩

/-- Capitals, a long s and a Kelvin sign behind the last of some hyphens; letters that a dot without digits
follows; a version whose build names its channel. -/
theorem channelTag_lastHyphen_kelvin :
    let version : ReleaseVersion := ⟨"1.0.0-x+y-RC.1"⟩
    Tagged "1.0-x-\u017Fta\u212Ae.07".toList "\u017Ftake" ∧
    channelTag "\t1.0-X-\u017FTA\u212AE.07 " = "\u017Ftake" ∧
    Tagged "1.0-beta.".toList "latest" ∧
    AgreesWithLetter '\u212A' ∧
    version.Valid ∧ ∀ c ∈ version.channel.toList, 'a' ≤ c ∧ c ≤ 'z' := by
  intro version
  obtain ⟨tagged,letters,word,around,either⟩ := channelTag_lastHyphen
  have valid : version.Valid := ⟨"1.0.0-x+y-RC.1",by decide +kernel⟩
  have small : channelTag "1.0-x-\u017Fta\u212Ae.07" = "\u017Ftake" := by decide +kernel
  have capital := either "1.0-X-\u017FTA\u212AE.07" "1.0-x-\u017Fta\u212Ae.07" (by decide +kernel)
  refine ⟨(tagged ..).mp small,?_,(tagged "1.0-beta." _).mp (by decide +kernel),
    (letters _).mpr (.inr (.inr rfl)),valid,(word version valid).2⟩
  exact (around "\t" _ " " (by decide +kernel) (by decide +kernel)).trans (capital.trans small)

end ReleaseInstaller
