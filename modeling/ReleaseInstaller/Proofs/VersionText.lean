import Mathlib.Data.List.TakeWhile
import ReleaseInstaller.Listing
import ReleaseInstaller.Proofs.Path
import ReleaseInstaller.Proofs.Trim
import ReleaseInstaller.Version.Release

/-! Texts of versions. What is read as a version is the text of one, so it is made of a few
characters only, starts with a digit, and is read again as the version it is. -/
namespace ReleaseInstaller

namespace Text

variable {mark c : Char} {s before rest : List Char} {after : Option (List Char)}

section Run

variable {p : Char → Bool} (inside : ∀ c ∈ s, p c = true) (stops : ∀ c ∈ rest.head?, p c = false)

include inside stops

/-- A run of characters is taken up to where it stops. -/
theorem takeWhile_run : (s ++ rest).takeWhile p = s := by
  rw [List.takeWhile_append_of_pos inside]
  cases rest with
  | nil => simp
  | cons c rest => simp [stops c rfl]

theorem dropWhile_run : (s ++ rest).dropWhile p = rest := by
  rw [List.dropWhile_append_of_pos inside]
  cases rest with
  | nil => simp
  | cons c rest => simp [stops c rfl]

end Run

theorem eq_of_cutAt (cut : cutAt mark s = (before,after)) :
    mark ∉ before ∧ s = before ++ after.elim [] (mark :: ·) := by
  have whole := List.takeWhile_append_dropWhile (p := (· ≠ mark)) (l := s)
  have free : mark ∉ s.takeWhile (· ≠ mark) := fun member => by
    simpa using List.mem_takeWhile_imp member
  unfold cutAt at cut
  split at cut
  · next none =>
    cases cut
    rw [none,List.append_nil] at whole
    exact ⟨whole ▸ free,by simp⟩
  · next first rest found =>
    cases cut
    have same : first = mark := by
      have stops := List.head?_dropWhile_not (· ≠ mark) s
      rw [found] at stops
      simpa using stops
    refine ⟨free,?_⟩
    rw [found,same] at whole
    exact whole.symm

theorem cutAt_of_not_mem (free : mark ∉ s) : cutAt mark s = (s,none) := by
  have all : s.dropWhile (· ≠ mark) = [] := by
    rw [List.dropWhile_eq_nil_iff]
    intro c member
    have other : c ≠ mark := fun same => free (same ▸ member)
    simpa using other
  rw [cutAt,all]

theorem cutAt_append (free : mark ∉ before) (rest : List Char) :
    cutAt mark (before ++ mark :: rest) = (before,some rest) := by
  have inside : ∀ c ∈ before, decide (c ≠ mark) = true := fun c member => by
    have other : c ≠ mark := fun same => free (same ▸ member)
    simpa using other
  have stops : ∀ c ∈ (mark :: rest).head?, decide (c ≠ mark) = false := by simp
  rw [cutAt,dropWhile_run inside stops,takeWhile_run inside stops]

theorem trim_of_unblank (unblank : ∀ c ∈ s, isBlank c = false) : trim s = s :=
  Trimmed.trim ⟨fun c first => unblank c (List.mem_of_head? first),
    fun c last => unblank c (List.mem_of_getLast? last)⟩

theorem mem_intercalate {pieces : List (List Char)} (member : c ∈ List.intercalate [mark] pieces) :
    c = mark ∨ ∃ piece ∈ pieces, c ∈ piece := by
  induction pieces with
  | nil => simp [List.intercalate] at member
  | cons piece pieces ih =>
    cases pieces with
    | nil => exact .inr ⟨piece,by simp,by simpa [List.intercalate] using member⟩
    | cons next rest =>
      rw [show piece :: next :: rest = [piece] ++ next :: rest from rfl,
        intercalate_append mark (by simp) (by simp)] at member
      rcases List.mem_append.mp member with first | member
      · exact .inr ⟨piece,by simp,by simpa [List.intercalate] using first⟩
      rcases List.mem_cons.mp member with same | member
      · exact .inl same
      · exact (ih member).imp id fun ⟨p,inside,here⟩ => ⟨p,List.mem_cons_of_mem _ inside,here⟩

end Text

namespace SemanticVersion

open Text

variable {s : List Char} {v : SemanticVersion} {c : Char}

/-- The characters that version texts are made of. -/
def isVersionChar (c : Char) : Bool := isIdentifierChar c || c = '.' || c = '+'

theorem isVersionChar_of_isDigit (digit : isDigit c = true) : isVersionChar c = true := by
  simp [isVersionChar,isIdentifierChar,digit]

theorem toNat_of_isVersionChar (inside : isVersionChar c = true) : 0x2B ≤ c.toNat ∧ c.toNat ≤ 0x7A := by
  simp only [isVersionChar,isIdentifierChar,isDigit,isLetter,Bool.or_eq_true,Bool.and_eq_true,
    decide_eq_true_eq] at inside
  have between {low high : Char} (range : low ≤ c ∧ c ≤ high) :
      low.toNat ≤ c.toNat ∧ c.toNat ≤ high.toNat := range
  have digits : '0'.toNat = 0x30 ∧ '9'.toNat = 0x39 := ⟨rfl,rfl⟩
  have small : 'a'.toNat = 0x61 ∧ 'z'.toNat = 0x7A := ⟨rfl,rfl⟩
  have large : 'A'.toNat = 0x41 ∧ 'Z'.toNat = 0x5A := ⟨rfl,rfl⟩
  rcases inside with (((range | range | range) | rfl) | rfl) | rfl
  · have := between range
    omega
  · have := between range
    omega
  · have := between range
    omega
  all_goals decide

/-- A version is a single segment of a link: it holds no slash, no quote and no blank. -/
theorem isSegmentChar_of_isVersionChar (inside : isVersionChar c = true) :
    Listing.isSegmentChar c = true := by
  have range := toNat_of_isVersionChar inside
  have unblank : isBlank c = false := by
    rw [← Bool.not_eq_true,isBlank,inRanges_iff]
    rintro ⟨blanks,member,low,high⟩
    simp only [blankRanges,List.mem_cons,List.not_mem_nil,or_false] at member
    rcases member with rfl | rfl | rfl | rfl | rfl | rfl | rfl | rfl | rfl | rfl <;>
      simp only at low high <;> omega
  have slashless : c ≠ '/' := by
    rintro rfl
    simp [isVersionChar,isIdentifierChar,isDigit,isLetter] at inside
  have quotes : c ≠ '"' ∧ c ≠ '\'' := by
    constructor <;> rintro rfl <;> exact absurd range (by decide)
  simp [Listing.isSegmentChar,unblank,slashless,quotes]

theorem identifiers?_eq_some {accept : List Char → Bool} {text? : Option (List Char)}
    {identifiers : List (List Char)} (read : identifiers? accept text? = some identifiers)
    (mark : Char) :
    identifiers.all accept = true ∧ text?.elim [] (mark :: ·) = tail mark identifiers := by
  cases text? with
  | none =>
    cases read
    exact ⟨rfl,rfl⟩
  | some text =>
    simp only [identifiers?] at read
    split at read
    · next all =>
      cases read
      refine ⟨all,?_⟩
      obtain ⟨first,rest,pieces⟩ := List.exists_cons_of_ne_nil (splitAt_ne_nil '.' text)
      have joined := intercalate_splitAt '.' text
      simp only [Option.elim_some,tail,dotted,pieces] at joined ⊢
      rw [joined]
    · cases read

theorem numbers?_eq_some {major minor patch : List Char}
    (read : numbers? s = some (major,minor,patch)) :
    isNumber major = true ∧ isNumber minor = true ∧ isNumber patch = true ∧
      s = major ++ '.' :: minor ++ '.' :: patch := by
  unfold numbers? at read
  split at read
  · next a b c pieces =>
    split at read
    · next all =>
      cases read
      simp only [Bool.and_eq_true] at all
      have joined := intercalate_splitAt '.' s
      rw [pieces] at joined
      exact ⟨all.1.1,all.1.2,all.2,by simpa [List.intercalate] using joined.symm⟩
    · cases read
  · cases read

/-- A text that is read as a version is the text of that version. -/
theorem text_of_parse? (parsed : parse? s = some v) : v.WellFormed ∧ s = v.text := by
  rcases cut : cutAt '+' s with ⟨front,build?⟩
  rcases cut' : cutAt '-' front with ⟨core,preRelease?⟩
  simp only [parse?,cut,cut',Option.bind_eq_bind,Option.bind_eq_some_iff] at parsed
  obtain ⟨⟨major,minor,patch⟩,numbers,preRelease,readPre,build,readBuild,same⟩ := parsed
  cases same
  obtain ⟨isMajor,isMinor,isPatch,coreText⟩ := numbers?_eq_some numbers
  obtain ⟨allPre,preText⟩ := identifiers?_eq_some readPre '-'
  obtain ⟨allBuild,buildText⟩ := identifiers?_eq_some readBuild '+'
  refine ⟨⟨isMajor,isMinor,isPatch,allPre,allBuild⟩,?_⟩
  rw [(eq_of_cutAt cut).2,(eq_of_cutAt cut').2,preText,buildText,coreText]
  rfl

theorem digits_of_isNumber {digits : List Char} (number : isNumber digits = true) :
    digits ≠ [] ∧ ∀ c ∈ digits, isDigit c = true := by
  simp only [isNumber,Bool.and_eq_true,Bool.not_eq_true',List.isEmpty_eq_false_iff,
    List.all_eq_true] at number
  exact ⟨number.1.1.1,number.1.1.2⟩

def core (v : SemanticVersion) : List Char := v.major ++ '.' :: v.minor ++ '.' :: v.patch

theorem text_eq (v : SemanticVersion) :
    v.text = v.core ++ tail '-' v.preRelease ++ tail '+' v.build := by
  simp [text,core]

theorem WellFormed.of_mem_core (formed : v.WellFormed) (member : c ∈ v.core) :
    isDigit c = true ∨ c = '.' := by
  have number {digits : List Char} (number : isNumber digits = true) (here : c ∈ digits) :=
    (digits_of_isNumber number).2 c here
  simp only [core,List.mem_append,List.mem_cons] at member
  rcases member with (here | dot | here) | dot | here
  · exact .inl (number formed.major here)
  · exact .inr dot
  · exact .inl (number formed.minor here)
  · exact .inr dot
  · exact .inl (number formed.patch here)

theorem WellFormed.hyphen_not_mem_core (formed : v.WellFormed) : '-' ∉ v.core := fun member =>
  absurd (formed.of_mem_core member) (by decide)

theorem WellFormed.splitAt_core (formed : v.WellFormed) :
    splitAt '.' v.core = [v.major,v.minor,v.patch] := by
  have dotless {digits : List Char} (number : isNumber digits = true) : '.' ∉ digits := fun dot =>
    absurd ((digits_of_isNumber number).2 '.' dot) (by decide)
  rw [core,splitAt_append,splitAt_append,splitAt_of_not_mem (dotless formed.major),
    splitAt_of_not_mem (dotless formed.minor),splitAt_of_not_mem (dotless formed.patch)]
  rfl

theorem isVersionChar_of_mem_tail {mark : Char} {identifiers : List (List Char)}
    (marks : isVersionChar mark = true) (all : ∀ piece ∈ identifiers, isBuildIdentifier piece = true)
    (member : c ∈ tail mark identifiers) : isVersionChar c = true := by
  cases identifiers with
  | nil => simp [tail] at member
  | cons first rest =>
    rcases List.mem_cons.mp member with rfl | member
    · exact marks
    rcases mem_intercalate member with rfl | ⟨piece,inside,here⟩
    · decide
    · have accepted := all piece inside
      simp only [isBuildIdentifier,Bool.and_eq_true,List.all_eq_true] at accepted
      simp [isVersionChar,accepted.2 c here]

theorem WellFormed.isVersionChar (formed : v.WellFormed) (member : c ∈ v.text) :
    SemanticVersion.isVersionChar c = true := by
  have preRelease : ∀ piece ∈ v.preRelease, isBuildIdentifier piece = true := fun piece inside => by
    have accepted := List.all_eq_true.mp formed.preRelease piece inside
    simp only [isPreReleaseIdentifier,Bool.and_eq_true] at accepted
    exact accepted.1
  simp only [text_eq,List.mem_append] at member
  rcases member with (here | here) | here
  · rcases formed.of_mem_core here with digit | rfl
    · exact isVersionChar_of_isDigit digit
    · decide
  · exact isVersionChar_of_mem_tail (by decide) preRelease here
  · exact isVersionChar_of_mem_tail (by decide) (List.all_eq_true.mp formed.build) here

theorem WellFormed.exists_digit (formed : v.WellFormed) :
    ∃ c rest, v.text = c :: rest ∧ isDigit c = true := by
  obtain ⟨some,digits⟩ := digits_of_isNumber formed.major
  obtain ⟨c,rest,major⟩ := List.exists_cons_of_ne_nil some
  exact ⟨c,_,by rw [text,major]; rfl,digits c (by simp [major])⟩

def isStable (v : SemanticVersion) : Bool := v.preRelease.isEmpty && v.build.isEmpty

theorem WellFormed.isPlain_text (formed : v.WellFormed) (stable : v.isStable = true) :
    Listing.isPlain v.text = true := by
  have number {digits : List Char} (number : isNumber digits = true) :
      (!digits.isEmpty && digits.all isDigit) = true := by
    obtain ⟨some,digits⟩ := digits_of_isNumber number
    simpa [some] using digits
  simp only [isStable,Bool.and_eq_true,List.isEmpty_iff] at stable
  have plain : v.text = v.core := by simp [text_eq,stable,tail]
  simp only [Listing.isPlain,plain,formed.splitAt_core,List.all_cons,List.all_nil,number formed.major,
    number formed.minor,number formed.patch,Bool.and_self]

theorem chars_of_isPlain (plain : Listing.isPlain s = true) (member : c ∈ s) :
    isDigit c = true ∨ c = '.' := by
  unfold Listing.isPlain at plain
  split at plain
  · next major minor patch pieces =>
    rw [← intercalate_splitAt '.' s] at member
    rcases mem_intercalate member with dot | ⟨piece,inside,here⟩
    · exact .inr dot
    · rw [pieces] at inside
      have digits := List.all_eq_true.mp plain piece inside
      simp only [Bool.and_eq_true,List.all_eq_true] at digits
      exact .inl (digits.2 c here)
  · cases plain

/-- The plain versions of a listing are those without a pre-release and a build. -/
theorem isPlain_of_parse? (parsed : parse? s = some v) : Listing.isPlain s = v.isStable := by
  rw [Bool.eq_iff_iff]
  constructor
  case mpr =>
    intro stable
    obtain ⟨formed,rfl⟩ := text_of_parse? parsed
    exact formed.isPlain_text stable
  case mp =>
    intro plain
    -- digits and dots leave no place for a hyphen or a plus sign
    have free {mark : Char} (other : isDigit mark = false ∧ mark ≠ '.') : mark ∉ s := fun member => by
      rcases chars_of_isPlain plain member with digit | dot
      · simp [other.1] at digit
      · exact other.2 dot
    have plus : '+' ∉ s := free (by decide)
    have hyphen : '-' ∉ s := free (by decide)
    simp only [parse?,cutAt_of_not_mem plus,cutAt_of_not_mem hyphen,identifiers?,
      Option.bind_eq_bind,Option.bind_some,Option.bind_eq_some_iff] at parsed
    obtain ⟨numbers,-,same⟩ := parsed
    cases same
    rfl

end SemanticVersion

namespace ReleaseVersion

variable {value : String} {version : ReleaseVersion}

/-- The version is one that can be read. -/
def Valid (version : ReleaseVersion) : Prop := ∃ value, parse value = .ok version

theorem Valid.exists_parse? (valid : version.Valid) :
    ∃ v, SemanticVersion.parse? version.text.toList = some v := by
  obtain ⟨value,parsed⟩ := valid
  simp only [parse] at parsed
  split at parsed
  · next accepted =>
    cases parsed
    simpa using Option.isSome_iff_exists.mp accepted
  · cases parsed

theorem Valid.isVersionChar (valid : version.Valid) {c : Char} (member : c ∈ version.text.toList) :
    SemanticVersion.isVersionChar c = true := by
  obtain ⟨v,parsed⟩ := valid.exists_parse?
  obtain ⟨formed,text⟩ := SemanticVersion.text_of_parse? parsed
  exact formed.isVersionChar (text ▸ member)

theorem Valid.isSegmentChar (valid : version.Valid) {c : Char} (member : c ∈ version.text.toList) :
    Listing.isSegmentChar c = true :=
  SemanticVersion.isSegmentChar_of_isVersionChar (valid.isVersionChar member)

theorem Valid.ascii (valid : version.Valid) : ∀ c ∈ version.text.toList, c.toNat < 0x80 :=
  fun _ member => Nat.lt_of_le_of_lt (SemanticVersion.toNat_of_isVersionChar (valid.isVersionChar member)).2
    (by decide)

theorem Valid.unblank (valid : version.Valid) : ∀ c ∈ version.text.toList, Text.isBlank c = false :=
  fun c member => by
    have segment := valid.isSegmentChar member
    simp only [Listing.isSegmentChar,Bool.not_eq_true',Bool.or_eq_false_iff] at segment
    exact segment.2

theorem Valid.ne_nil (valid : version.Valid) : version.text.toList ≠ [] := by
  obtain ⟨v,parsed⟩ := valid.exists_parse?
  obtain ⟨formed,text⟩ := SemanticVersion.text_of_parse? parsed
  obtain ⟨c,rest,shape,-⟩ := formed.exists_digit
  simp [text,shape]

/-- A version is read from any text that is trimmed to its own one, or to that behind a letter v. -/
theorem Valid.parse_of_trim (valid : version.Valid) {value : String}
    (trimmed : Text.trim value.toList = version.text.toList ∨
      Text.trim value.toList = 'v' :: version.text.toList) : parse value = .ok version := by
  obtain ⟨v,parsed⟩ := valid.exists_parse?
  obtain ⟨formed,text⟩ := SemanticVersion.text_of_parse? parsed
  obtain ⟨c,rest,shape,digit⟩ := formed.exists_digit
  have bare : bareText value = version.text.toList := by
    unfold bareText
    split
    · next more starts =>
      rcases trimmed with same | same
      · obtain ⟨rfl,-⟩ : 'v' = c ∧ more = rest := by simpa [starts,text,shape] using same
        simp [Text.isDigit] at digit
      · exact (List.cons.inj (starts.symm.trans same)).2
    · next plain => exact trimmed.resolve_right (plain _)
  rw [parse,bare,parsed]
  simp

theorem Valid.parse_text (valid : version.Valid) : parse version.text = .ok version :=
  valid.parse_of_trim (.inl (Text.trim_of_unblank valid.unblank))

/-- Whether the version is no pre-release and has no build either. -/
def isStable (version : ReleaseVersion) : Bool :=
  (SemanticVersion.parse? version.text.toList).any SemanticVersion.isStable

theorem Valid.isPlain_eq (valid : version.Valid) :
    Listing.isPlain version.text.toList = version.isStable := by
  obtain ⟨v,parsed⟩ := valid.exists_parse?
  rw [SemanticVersion.isPlain_of_parse? parsed,isStable,parsed]
  rfl

end ReleaseVersion
end ReleaseInstaller
