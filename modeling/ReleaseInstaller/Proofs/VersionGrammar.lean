import Mathlib.Computability.Language
import ReleaseInstaller.Proofs.Numeral
import ReleaseInstaller.Proofs.ReleasePage
import ReleaseInstaller.Proofs.Trim
import ReleaseInstaller.Proofs.UpdateVersion

/-! The grammar of version texts. What is read as a version is what the grammar of semantic versions
generates, nothing is lost between a version and its text, and a download URL tells which version it is
for. -/
namespace ReleaseInstaller

namespace SemanticVersion

open Text
open scoped Computability

variable {s : List Char} {v : SemanticVersion} {c mark : Char} {pieces : List (List Char)}

def numeral : Language Char := Set.range (Nat.toDigits 10)

/-- Numbers that fit in a word of 64 bits. -/
def wordNumeral : Language Char := Nat.toDigits 10 '' Set.Iio (2 ^ 64)

def identifier : Language Char := {s | s ≠ [] ∧ ∀ c ∈ s, isIdentifierChar c = true}

/-- Identifiers that are no numbers. -/
def nameIdentifier : Language Char := {s | s ∈ identifier ∧ ∃ c ∈ s, isDigit c = false}

/-- One or more pieces with dots between them. -/
def series (piece : Language Char) : Language Char := piece * ({['.']} * piece)∗

def grammar : Language Char :=
  wordNumeral * {['.']} * wordNumeral * {['.']} * wordNumeral *
    (1 + {['-']} * series (numeral + nameIdentifier)) * (1 + {['+']} * series identifier)

theorem isNumber_iff : isNumber s = true ↔ s ∈ wordNumeral := by
  simp only [isNumber,Bool.and_eq_true,Bool.not_eq_true',List.isEmpty_eq_false_iff,List.all_eq_true,
    decide_eq_true_eq]
  constructor
  · rintro ⟨⟨⟨some,digits⟩,plain⟩,below⟩
    exact ⟨digitsValue s,below,toDigits_digitsValue some digits plain⟩
  · rintro ⟨n,below,rfl⟩
    refine ⟨⟨⟨Nat.toDigits_ne_nil,fun _ => isDigit_of_mem_toDigits⟩,hasLeadingZero_toDigits n⟩,?_⟩
    rw [digitsValue_toDigits]
    exact below

theorem isBuildIdentifier_iff : isBuildIdentifier s = true ↔ s ∈ identifier := by
  simp only [isBuildIdentifier,Bool.and_eq_true,Bool.not_eq_true',List.isEmpty_eq_false_iff,
    List.all_eq_true]
  rfl

theorem isPreReleaseIdentifier_iff :
    isPreReleaseIdentifier s = true ↔ s ∈ numeral + nameIdentifier := by
  rw [isPreReleaseIdentifier,Bool.and_eq_true,isBuildIdentifier_iff,Language.mem_add,Bool.not_eq_true',
    Bool.and_eq_false_iff]
  constructor
  · rintro ⟨inside,apart⟩
    by_cases digits : ∀ c ∈ s, isDigit c = true
    · have plain : hasLeadingZero s = false := apart.resolve_left (by simpa using digits)
      exact .inl ⟨_,toDigits_digitsValue inside.1 digits plain⟩
    · push Not at digits
      exact .inr ⟨inside,by simpa using digits⟩
  · rintro (⟨n,rfl⟩ | ⟨inside,c,member,other⟩)
    · refine ⟨⟨Nat.toDigits_ne_nil,fun c member => ?_⟩,.inr (hasLeadingZero_toDigits n)⟩
      simp [isIdentifierChar,isDigit_of_mem_toDigits member]
    · exact ⟨inside,.inl (List.all_eq_false.mpr ⟨c,member,by simp [other]⟩)⟩

theorem dotted_cons (first : List Char) (rest : List (List Char)) :
    dotted (first :: rest) = first ++ (rest.map ('.' :: ·)).flatten := by
  induction rest generalizing first with
  | nil => simp [dotted,List.intercalate]
  | cons next rest ih =>
    have front : dotted (first :: next :: rest) = first ++ '.' :: dotted (next :: rest) := by
      simp [dotted,List.intercalate,List.intersperse]
    rw [front,ih next]
    simp

theorem mem_series {piece : Language Char} :
    s ∈ series piece ↔ ∃ pieces, pieces ≠ [] ∧ (∀ p ∈ pieces, p ∈ piece) ∧ s = dotted pieces := by
  simp only [series,Language.mem_mul,Language.mem_kstar]
  constructor
  · rintro ⟨first,isFirst,_,⟨parts,rfl,each⟩,rfl⟩
    have pieces : ∃ rest : List (List Char), parts = rest.map ('.' :: ·) ∧ ∀ p ∈ rest, p ∈ piece := by
      induction parts with
      | nil => exact ⟨[],rfl,by simp⟩
      | cons part parts ih =>
        obtain ⟨rest,rfl,all⟩ := ih fun y member => each y (List.mem_cons_of_mem _ member)
        obtain ⟨_,rfl,p,isPiece,rfl⟩ := each part List.mem_cons_self
        exact ⟨p :: rest,rfl,List.forall_mem_cons.mpr ⟨isPiece,all⟩⟩
    obtain ⟨rest,rfl,all⟩ := pieces
    exact ⟨first :: rest,by simp,List.forall_mem_cons.mpr ⟨isFirst,all⟩,(dotted_cons ..).symm⟩
  · rintro ⟨pieces,some,all,rfl⟩
    obtain ⟨first,rest,rfl⟩ := List.exists_cons_of_ne_nil some
    obtain ⟨isFirst,all⟩ := List.forall_mem_cons.mp all
    refine ⟨first,isFirst,_,⟨rest.map ('.' :: ·),rfl,fun y member => ?_⟩,(dotted_cons ..).symm⟩
    obtain ⟨p,inside,rfl⟩ := List.mem_map.mp member
    exact ⟨['.'],rfl,p,all p inside,rfl⟩

theorem mem_tail {piece : Language Char} :
    s ∈ 1 + {[mark]} * series piece ↔ ∃ pieces, (∀ p ∈ pieces, p ∈ piece) ∧ s = tail mark pieces := by
  rw [Language.mem_add,Language.mem_one,Language.mem_mul]
  constructor
  · rintro (rfl | ⟨_,rfl,t,more,rfl⟩)
    · exact ⟨[],by simp,rfl⟩
    · obtain ⟨pieces,some,all,rfl⟩ := mem_series.mp more
      obtain ⟨first,rest,rfl⟩ := List.exists_cons_of_ne_nil some
      exact ⟨_,all,rfl⟩
  · rintro ⟨pieces,all,rfl⟩
    cases pieces with
    | nil => exact .inl rfl
    | cons first rest => exact .inr ⟨_,rfl,_,mem_series.mpr ⟨_,by simp,all,rfl⟩,rfl⟩

theorem mem_grammar : s ∈ grammar ↔ ∃ v : SemanticVersion, v.WellFormed ∧ s = v.text := by
  simp only [grammar,Language.mem_mul,mem_tail]
  constructor
  · rintro ⟨_,⟨_,⟨_,⟨_,⟨_,⟨major,isMajor,_,rfl,rfl⟩,minor,isMinor,rfl⟩,_,rfl,rfl⟩,patch,isPatch,rfl⟩,
      _,⟨preRelease,allPre,rfl⟩,rfl⟩,_,⟨build,allBuild,rfl⟩,rfl⟩
    refine ⟨⟨major,minor,patch,preRelease,build⟩,⟨isNumber_iff.mpr isMajor,isNumber_iff.mpr isMinor,
      isNumber_iff.mpr isPatch,?_,?_⟩,by simp [text]⟩
    · exact List.all_eq_true.mpr fun p member => isPreReleaseIdentifier_iff.mpr (allPre p member)
    · exact List.all_eq_true.mpr fun p member => isBuildIdentifier_iff.mpr (allBuild p member)
  · rintro ⟨v,formed,rfl⟩
    have pre : ∀ p ∈ v.preRelease, p ∈ numeral + nameIdentifier := fun p member =>
      isPreReleaseIdentifier_iff.mp (List.all_eq_true.mp formed.preRelease p member)
    have build : ∀ p ∈ v.build, p ∈ identifier := fun p member =>
      isBuildIdentifier_iff.mp (List.all_eq_true.mp formed.build p member)
    exact ⟨_,⟨_,⟨_,⟨_,⟨_,⟨_,isNumber_iff.mp formed.major,_,rfl,rfl⟩,_,isNumber_iff.mp formed.minor,rfl⟩,
      _,rfl,rfl⟩,_,isNumber_iff.mp formed.patch,rfl⟩,_,⟨_,pre,rfl⟩,rfl⟩,_,⟨_,build,rfl⟩,by simp [text]⟩

theorem marks_of_identifier (inside : isBuildIdentifier s = true) : '.' ∉ s ∧ '+' ∉ s := by
  simp only [isBuildIdentifier,Bool.and_eq_true,List.all_eq_true] at inside
  exact ⟨fun dot => absurd (inside.2 '.' dot) (by decide),
    fun plus => absurd (inside.2 '+' plus) (by decide)⟩

theorem not_mem_tail (other : c ≠ mark) (dotless : c ≠ '.') (free : ∀ p ∈ pieces, c ∉ p) :
    c ∉ tail mark pieces := fun member => by
  cases pieces with
  | nil => simp [tail] at member
  | cons first rest =>
    rcases mem_intercalate ((List.mem_cons.mp member).resolve_left other) with same | ⟨p,inside,here⟩
    · exact dotless same
    · exact free p inside here

/-- What is cut off at its mark is read as the identifiers that were written there. -/
theorem cutAt_tail {front : List Char} (free : mark ∉ front) (dotless : ∀ p ∈ pieces, '.' ∉ p) :
    ∃ rest?, cutAt mark (front ++ tail mark pieces) = (front,rest?) ∧
      ∀ accept, pieces.all accept = true → identifiers? accept rest? = some pieces := by
  cases pieces with
  | nil => exact ⟨none,by simpa [tail] using cutAt_of_not_mem free,fun _ _ => rfl⟩
  | cons first rest =>
    refine ⟨some (dotted (first :: rest)),cutAt_append free _,fun accept all => ?_⟩
    have split : splitAt '.' (dotted (first :: rest)) = first :: rest :=
      splitAt_intercalate (by simp) dotless
    rw [identifiers?,split,if_pos all]

theorem WellFormed.parse?_text (formed : v.WellFormed) : parse? v.text = some v := by
  have pre : ∀ p ∈ v.preRelease, '.' ∉ p ∧ '+' ∉ p := fun p member => by
    have accepted := List.all_eq_true.mp formed.preRelease p member
    rw [isPreReleaseIdentifier,Bool.and_eq_true] at accepted
    exact marks_of_identifier accepted.1
  have build : ∀ p ∈ v.build, '.' ∉ p := fun p member =>
    (marks_of_identifier (List.all_eq_true.mp formed.build p member)).1
  have plusless : '+' ∉ v.core ++ tail '-' v.preRelease := fun member =>
    (List.mem_append.mp member).elim (fun here => absurd (formed.of_mem_core here) (by decide))
      (not_mem_tail (by decide) (by decide) fun p inside => (pre p inside).2)
  obtain ⟨build?,cut,readBuild⟩ := cutAt_tail plusless build
  obtain ⟨pre?,cut',readPre⟩ := cutAt_tail formed.hyphen_not_mem_core fun p inside => (pre p inside).1
  have numbers : numbers? v.core = some (v.major,v.minor,v.patch) := by
    simp [numbers?,formed.splitAt_core,formed.major,formed.minor,formed.patch]
  simp only [parse?,text_eq,cut,cut',numbers,readPre _ formed.preRelease,readBuild _ formed.build]
  rfl

theorem isSome_parse? : (parse? s).isSome = true ↔ s ∈ grammar := by
  rw [mem_grammar,Option.isSome_iff_exists]
  constructor
  · rintro ⟨v,parsed⟩
    exact ⟨v,text_of_parse? parsed⟩
  · rintro ⟨v,formed,rfl⟩
    exact ⟨v,formed.parse?_text⟩

end SemanticVersion

namespace ReleaseVersion

open Text SemanticVersion

variable {version : ReleaseVersion}

/-- What can be done with a version without losing it: it is read again from its text, blanks around and a
letter v in front or not, it is recorded in a manifest, and its text stands as one segment of a link. -/
structure Canonical (version : ReleaseVersion) : Prop where
  plain : ∀ before after : String, isAllBlank before.toList = true → isAllBlank after.toList = true →
    parse (before ++ version.text ++ after) = .ok version
  marked : ∀ before after : String, isAllBlank before.toList = true → isAllBlank after.toList = true →
    parse (before ++ "v" ++ version.text ++ after) = .ok version
  recorded : ∀ (manifest : Manifest) members, manifest.root = .object members →
    ∃ revised, manifest.setVersion version = .ok revised ∧ revised.version = .ok (some version)
  chars : ∀ c ∈ version.text.toList, isDigit c = true ∨ isLetter c = true ∨ c = '.' ∨ c = '+' ∨ c = '-'
  first : ∃ c ∈ version.text.toList.head?, isDigit c = true
  segment : ∀ (settings : Settings) (platform : Platform),
    splitAt '/' (settings.downloadUrl version platform).toList =
      splitAt '/' (settings.releaseHost ++ "/" ++ settings.repository ++ "/releases/download").toList ++
        ['v' :: version.text.toList,(settings.artifactName platform).toList]

/-- One text is left of another without the blanks around and without one letter v in front. -/
def Leaves (value bare : List Char) : Prop :=
  ∃ before marked after, value = before ++ (marked ++ after) ∧ (∀ c ∈ before, isBlank c = true) ∧
    (∀ c ∈ after, isBlank c = true) ∧ Trimmed marked ∧
      (marked = 'v' :: bare ∨ marked = bare ∧ bare.head? ≠ some 'v')

theorem leaves_iff {value : String} {bare : List Char} :
    Leaves value.toList bare ↔ bare = bareText value := by
  have marked : trim value.toList = 'v' :: bareText value ∨
      trim value.toList = bareText value ∧ (bareText value).head? ≠ some 'v' := by
    unfold bareText
    split
    · next rest starts => exact .inl starts
    · next plain =>
      refine .inr ⟨rfl,fun first => ?_⟩
      obtain ⟨rest,starts⟩ := List.head?_eq_some_iff.mp first
      exact plain rest starts
  constructor
  · rintro ⟨before,_,after,whole,blank,blank',trimmed,spelled⟩
    rw [whole,trim_around blank blank',trimmed.trim] at marked
    rcases spelled with rfl | ⟨rfl,first⟩
    · rcases marked with same | ⟨same,first⟩
      · exact (List.cons.inj same).2
      · simp [← same] at first
    · rcases marked with same | ⟨same,-⟩
      · simp [same] at first
      · exact same
  · rintro rfl
    obtain ⟨before,after,whole,blank,blank'⟩ := exists_trim value.toList
    exact ⟨before,_,after,whole,blank,blank',trimmed_trim _,marked⟩

theorem parse_eq_ok {value : String} :
    parse value = .ok version ↔
      Leaves value.toList version.text.toList ∧ version.text.toList ∈ grammar := by
  rw [leaves_iff,parse]
  split
  · next read =>
    rw [Except.ok.injEq]
    constructor
    · rintro rfl
      simpa using isSome_parse?.mp read
    · rintro ⟨same,-⟩
      simp [← same]
  · next unread =>
    constructor
    · rintro ⟨⟩
    · rintro ⟨same,generated⟩
      rw [← same] at unread
      exact absurd (isSome_parse?.mpr generated) unread

theorem parse_eq_error {value : String} {error : InstallError} :
    parse value = .error error ↔
      ∃ bare : String, Leaves value.toList bare.toList ∧ bare.toList ∉ grammar ∧
        error = .invalidVersion bare := by
  simp only [leaves_iff,parse]
  split
  · next read =>
    constructor
    · rintro ⟨⟩
    · rintro ⟨bare,same,other,-⟩
      rw [← same] at read
      exact absurd (isSome_parse?.mp read) other
  · next unread =>
    rw [Except.error.injEq]
    constructor
    · rintro rfl
      refine ⟨String.ofList (bareText value),by simp,?_,rfl⟩
      simpa using isSome_parse?.not.mp unread
    · rintro ⟨bare,same,-,rfl⟩
      simp [← same]

theorem Valid.unblank_marked (valid : version.Valid) :
    ∀ c ∈ 'v' :: version.text.toList, isBlank c = false :=
  List.forall_mem_cons.mpr ⟨by decide,valid.unblank⟩

theorem Valid.parse_around (valid : version.Valid) {before after : String} {s : String}
    (spelled : s.toList = version.text.toList ∨ s.toList = 'v' :: version.text.toList)
    (blank : isAllBlank before.toList = true) (blank' : isAllBlank after.toList = true) :
    parse (before ++ s ++ after) = .ok version := by
  have unblank : ∀ c ∈ s.toList, isBlank c = false := by
    rcases spelled with same | same <;> rw [same]
    · exact valid.unblank
    · exact valid.unblank_marked
  have trimmed : trim (before ++ s ++ after).toList = s.toList := by
    rw [trim_toList_around blank blank',trim_of_unblank unblank]
  exact valid.parse_of_trim (trimmed ▸ spelled)

/-- The version is the last but one segment of its download URL. -/
theorem Valid.splitAt_downloadUrl (valid : version.Valid) (settings : Settings) (platform : Platform) :
    splitAt '/' (settings.downloadUrl version platform).toList =
      splitAt '/' (settings.releaseHost ++ "/" ++ settings.repository ++ "/releases/download").toList ++
        ['v' :: version.text.toList,(settings.artifactName platform).toList] := by
  have slashless : '/' ∉ 'v' :: version.text.toList := by
    rw [List.mem_cons,not_or]
    refine ⟨by decide,fun member => ?_⟩
    simpa [Listing.isSegmentChar] using valid.isSegmentChar member
  have whole : (settings.downloadUrl version platform).toList =
      (settings.releaseHost ++ "/" ++ settings.repository ++ "/releases/download").toList ++
        '/' :: (('v' :: version.text.toList) ++ '/' :: (settings.artifactName platform).toList) := by
    have marks : "/releases/download/".toList = "/releases/download".toList ++ ['/'] ∧ "v".toList = ['v'] ∧
        "/".toList = ['/'] := ⟨rfl,rfl,rfl⟩
    simp only [Settings.downloadUrl,Settings.downloadDirectory,String.toList_append,marks,List.append_assoc,
      List.cons_append,List.nil_append]
  rw [whole,splitAt_append,splitAt_append,splitAt_of_not_mem slashless,
    splitAt_of_not_mem (settings.artifactName_slashless platform)]
  rfl

theorem Valid.canonical (valid : version.Valid) : version.Canonical where
  plain before after := valid.parse_around (.inl rfl)
  marked before after blank blank' := by
    have whole : before ++ "v" ++ version.text ++ after = before ++ ("v" ++ version.text) ++ after := by
      simp only [String.append_assoc]
    rw [whole]
    exact valid.parse_around (.inr (by simp)) blank blank'
  recorded manifest members object := by
    rcases manifest.setVersion_cases version with ⟨_,-,set⟩ | ⟨other,-⟩
    · exact ⟨_,set,Manifest.version_of_records _ rfl Manifest.lookup_revised valid⟩
    · exact absurd object (other members)
  chars c member := by
    have inside := valid.isVersionChar member
    simp only [SemanticVersion.isVersionChar,isIdentifierChar,Bool.or_eq_true,decide_eq_true_eq] at inside
    tauto
  first := by
    obtain ⟨v,parsed⟩ := valid.exists_parse?
    obtain ⟨formed,text⟩ := text_of_parse? parsed
    obtain ⟨c,rest,shape,digit⟩ := formed.exists_digit
    exact ⟨c,by simp [text,shape],digit⟩
  segment := valid.splitAt_downloadUrl

/-- A download URL is that of one version only, whatever is configured. -/
theorem Valid.eq_of_downloadUrl {other : ReleaseVersion} (valid : version.Valid) (valid' : other.Valid)
    {settings settings' : Settings} {platform platform' : Platform}
    (same : settings.downloadUrl version platform = settings'.downloadUrl other platform') :
    version = other := by
  have pieces := congrArg (fun url : String => splitAt '/' url.toList) same
  simp only [valid.splitAt_downloadUrl,valid'.splitAt_downloadUrl] at pieces
  obtain ⟨-,ends⟩ := List.append_inj' pieces rfl
  obtain ⟨text,-⟩ := List.cons.inj ends
  cases version
  cases other
  exact congrArg ReleaseVersion.mk (String.toList_inj.mp (List.cons.inj text).2)

/-- A text is read exactly if the grammar generates what is left of it without the blanks around and a letter
v in front, and that is the version's text. Every version that is read is canonical, and different ones have
different download URLs. -/
theorem parse_grammar :
    (∀ value (version : ReleaseVersion), parse value = .ok version ↔
      Leaves value.toList version.text.toList ∧ version.text.toList ∈ grammar) ∧
    (∀ value error, parse value = .error error ↔ ∃ bare : String, Leaves value.toList bare.toList ∧
      bare.toList ∉ grammar ∧ error = .invalidVersion bare) ∧
    (∀ version : ReleaseVersion, version.Valid → version.Canonical) ∧
    ∀ version other : ReleaseVersion, version.Valid → other.Valid → version ≠ other →
      ∀ (settings settings' : Settings) (platform platform' : Platform),
        settings.downloadUrl version platform ≠ settings'.downloadUrl other platform' :=
  ⟨fun _ _ => parse_eq_ok,fun _ _ => parse_eq_error,fun _ valid => valid.canonical,
    fun _ _ valid valid' different _ _ _ _ same => different (valid.eq_of_downloadUrl valid' same)⟩

theorem parse_grammar_zeros :
    let version : ReleaseVersion := ⟨"4.2.0-rc.1+007"⟩
    let settings := Settings.ofHome (.ofString "/home")
    parse "\tv4.2.0-rc.1+007\n" = .ok version ∧
      parse "4.2.0-rc.01" = .error (.invalidVersion "4.2.0-rc.01") ∧
      version.Canonical ∧
      settings.downloadUrl version ⟨.linux,.arm⟩ ≠ settings.downloadUrl ⟨"4.2.0-rc.1"⟩ ⟨.linux,.arm⟩ := by
  obtain ⟨reads,refuses,canonical,apart⟩ := parse_grammar
  have valid : (⟨"4.2.0-rc.1+007"⟩ : ReleaseVersion).Valid := ⟨"4.2.0-rc.1+007",by decide +kernel⟩
  have valid' : (⟨"4.2.0-rc.1"⟩ : ReleaseVersion).Valid := ⟨"4.2.0-rc.1",by decide +kernel⟩
  refine ⟨(reads ..).mpr ⟨leaves_iff.mpr (by decide +kernel),isSome_parse?.mp (by decide +kernel)⟩,
    (refuses ..).mpr ⟨"4.2.0-rc.01",leaves_iff.mpr (by decide +kernel),?_,rfl⟩,canonical _ valid,
    apart _ _ valid valid' (by decide) _ _ _ _⟩
  exact isSome_parse?.not.mp (by decide +kernel)

end ReleaseVersion
end ReleaseInstaller
