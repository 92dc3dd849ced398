import Mathlib.Data.List.Infix
import ReleaseInstaller.Proofs.Listing
import ReleaseInstaller.Proofs.Utf8

/-! Release pages. A page posts releases, each by its download URL between quotes, with any text
around. The newest version that is read from a page is that of the first release posted for the
repository, so what settings link to is what a feed finds. -/
namespace ReleaseInstaller

namespace Settings

open Text

variable {s : Settings}

theorem projectName_slashless (s : Settings) : '/' ∉ s.projectName.toList := fun member => by
  simp only [projectName,String.toList_ofList,List.mem_reverse] at member
  simpa using List.mem_takeWhile_imp member

theorem artifactName_slashless (s : Settings) (platform : Platform) :
    '/' ∉ (s.artifactName platform).toList := by
  have suffix : '/' ∉ platform.artifactSuffix.toList := by
    rcases platform with ⟨os,arch⟩
    cases os <;> cases arch <;> decide
  have name : '/' ∉ (s.projectName ++ "-" ++ platform.artifactSuffix).toList := by
    simp [projectName_slashless,suffix]
  rw [artifactName,Os.executableName,Os.fileName]
  split
  · simpa using name
  · exact name

end Settings

namespace Listing

def IsRepository (repository : String) : Prop :=
  ∃ owner project, IsSegment owner ∧ IsSegment project ∧
    repository.toList = owner ++ '/' :: project

/-- A scheme and an authority, with nothing after them. -/
def IsHost (host : String) : Prop :=
  ∃ scheme authority, IsSegment scheme ∧ IsSegment authority ∧
    host.toList = scheme ++ ':' :: '/' :: '/' :: authority

/-- A release as a page posts it, and what stands before it. -/
structure Posting where
  filler : String
  opening : Char
  closing : Char
  repository : String
  version : ReleaseVersion
  platform : Platform

namespace Posting

structure Formed (p : Posting) : Prop where
  filler : ¬ path <:+: p.filler.toList
  opening : IsQuote p.opening
  closing : IsQuote p.closing
  repository : IsRepository p.repository
  version : p.version.Valid

def url (s : Settings) (p : Posting) : String :=
  { s with repository := p.repository }.downloadUrl p.version p.platform

def text (s : Settings) (p : Posting) : String :=
  p.filler ++ String.singleton p.opening ++ p.url s ++ String.singleton p.closing

def link (p : Posting) : Link where
  repository := p.repository.toList
  version := p.version.text.toList
  length := p.repository.toList.length + middle.length + p.version.text.toList.length + 2

def counts (includePrerelease : Bool) (p : Posting) : Bool :=
  includePrerelease || p.version.isStable

end Posting

/-- The postings of a page one after another, and the text after the last of them. -/
def page (s : Settings) (postings : List Posting) (ending : String) : String :=
  postings.foldr (fun p rest => p.text s ++ rest) ending

section

variable {s : Settings} {p : Posting} {postings : List Posting} {ending repository : String}

/-- What settings link to is an address of the repository and the version. -/
theorem Posting.Formed.address (formed : p.Formed) (host : IsHost s.releaseHost) :
    ∃ a : Address, a.Formed ∧ (p.url s).toList = a.url ∧
      p.repository.toList = a.owner ++ '/' :: a.project ∧ p.version.text.toList = a.version := by
  obtain ⟨scheme,authority,isScheme,isAuthority,host⟩ := host
  obtain ⟨owner,project,isOwner,isProject,parts⟩ := formed.repository
  let settings := { s with repository := p.repository }
  refine ⟨⟨scheme,authority,owner,project,p.version.text.toList,
    (settings.artifactName p.platform).toList⟩,⟨isScheme.slashless,isAuthority.slashless,isOwner,
      isProject,⟨formed.version.ne_nil,fun c => formed.version.isSegmentChar⟩,
      settings.artifactName_slashless p.platform⟩,?_,parts,rfl⟩
  have whole : (p.url s).toList = s.releaseHost.toList ++ '/' :: (p.repository.toList ++
      (path ++ 'v' :: (p.version.text.toList ++ '/' :: (settings.artifactName p.platform).toList))) := by
    have marks : "/releases/download/".toList = path ∧ "/".toList = ['/'] ∧ "v".toList = ['v'] :=
      ⟨rfl,rfl,rfl⟩
    simp only [Posting.url,Settings.downloadUrl,Settings.downloadDirectory,String.toList_append,
      marks,List.append_assoc,List.cons_append,List.nil_append,settings]
  rw [whole,host,parts]
  simp [Address.url,Address.front,Address.tail,middle_append]

theorem links_page (host : IsHost s.releaseHost) (formed : ∀ p ∈ postings, p.Formed)
    (free : ¬ path <:+: ending.toList) (includePrerelease : Bool) :
    links (page s postings ending) includePrerelease =
      (postings.filter (Posting.counts includePrerelease)).map Posting.link := by
  induction postings with
  | nil => exact linksAfter_ending free
  | cons p postings ih =>
    have here := formed p List.mem_cons_self
    have rest := ih fun p member => formed p (List.mem_cons_of_mem _ member)
    obtain ⟨a,address,url,repository,version⟩ := here.address host
    have whole : (page s (p :: postings) ending).toList = p.filler.toList ++ p.opening ::
        (a.url ++ p.closing :: (page s postings ending).toList) := by
      simp [page,Posting.text,url]
    have plain : isPlain a.version = p.version.isStable := version ▸ here.version.isPlain_eq
    have slashless : p.closing ≠ '/' := by
      rcases here.closing with same | same <;> rw [same] <;> decide
    rw [links,whole,linksAfter_filler here.opening here.filler,address.links here.closing,
      linksAfter,linkAt?_of_ne slashless,← links,rest,plain,List.filter_cons,Posting.counts]
    cases includePrerelease || p.version.isStable with
    | false => rfl
    | true => simp [Posting.link,repository,version]

theorem latestVersion?_page (host : IsHost s.releaseHost) (formed : ∀ p ∈ postings, p.Formed)
    (free : ¬ path <:+: ending.toList) (includePrerelease : Bool) (repository : String) :
    latestVersion? (page s postings ending) repository includePrerelease =
      (postings.find? fun p => p.counts includePrerelease && p.repository = repository).map
        (·.version.text) := by
  rw [latestVersion?,links_page host formed free,List.find?_map,List.find?_filter]
  simp [Function.comp_def,Posting.link,String.toList_inj]

end

end Listing

namespace Feed

open Listing

variable {s : Settings} {postings : List Posting} {ending : String}

/-- Over whole pages, what is found for a repository is the version of its first posting, or of
its first one without a pre-release and a build; and a feed that is answered with the page gives
that version, or says that there is none. -/
theorem newest_of_page (host : IsHost s.releaseHost) (formed : ∀ p ∈ postings, p.Formed)
    (free : ¬ path <:+: ending.toList) :
    (∀ repository, latestVersion? (page s postings ending) repository true =
      (postings.find? fun p => p.repository = repository).map (·.version.text)) ∧
    (∀ repository, latestVersion? (page s postings ending) repository false =
      (postings.find? fun p => p.version.isStable && p.repository = repository).map
        (·.version.text)) ∧
    ∀ (repository : String) (includePrerelease : Bool) (m : Machine) (response : Net.Response),
      let settings := { s with repository }
      Net.answerAfter m.network m.history settings.listingUrl = .ok response →
      response.isSuccess = true → Net.readText response.body = .ok (page s postings ending) →
      ((fromListing settings includePrerelease).run m).1 =
        (postings.find? fun p => p.counts includePrerelease && p.repository = repository).elim
          (.error (.versionNotFound settings.listingUrl)) (.ok ·.version) := by
  refine ⟨fun repository => ?_,fun repository => ?_,?_⟩
  · exact latestVersion?_page host formed free true repository
  · exact latestVersion?_page host formed free false repository
  intro repository includePrerelease m response settings answered success document
  rw [run_fromListing,answered]
  simp only [readListing,success,document,Bool.not_true,Bool.false_eq_true,if_false]
  rw [latestVersion?_page host formed free includePrerelease repository]
  cases found : postings.find? fun p => p.counts includePrerelease && p.repository = repository with
  | none => rfl
  | some p => exact (formed p (List.mem_of_find?_eq_some found)).version.parse_text

theorem readText_encode (text : String) :
    Net.readText ⟨[Text.Utf8.encode text.toList],.complete⟩ = .ok text := by
  have octets : (Net.Body.mk [Text.Utf8.encode text.toList] .complete).octets =
      Text.Utf8.encode text.toList := List.flatten_singleton ..
  simp only [Net.readText,Net.Ending.fault?,octets]
  rw [Text.Utf8.decodeLossy_of_decode? (Text.Utf8.decode?_encode _),String.ofList_toList]

def posted : List Posting := [
  ⟨"<a href=",'"','"',"other/tool",⟨"9.0.0"⟩,⟨.linux,.arm⟩⟩,
  ⟨">",'"','"',"my/tool",⟨"4.0.0-beta.2"⟩,⟨.windows,.x86⟩⟩,
  ⟨">",'\'','\'',"my/tool",⟨"3.5.1"⟩,⟨.darwin,.arm⟩⟩]

def hosted : Settings := { Settings.ofHome (.ofString "/home") with releaseHost := "https://host" }

theorem newest_of_page_posted :
    let document := page hosted posted "</a>"
    let response : Net.Response := ⟨200,none,none,⟨[Text.Utf8.encode document.toList],.complete⟩⟩
    latestVersion? document "other/tool" true = some "9.0.0" ∧
    latestVersion? document "my/tool" false = some "3.5.1" ∧
    ((fromListing { hosted with repository := "my/tool" } true).run
      (.fresh ⟨[],[]⟩ fun _ _ => .response response)).1 = .ok ⟨"4.0.0-beta.2"⟩ := by
  have host : IsHost hosted.releaseHost :=
    ⟨"https".toList,"host".toList,by decide +kernel,by decide +kernel,rfl⟩
  have other : IsRepository "other/tool" :=
    ⟨"other".toList,"tool".toList,by decide +kernel,by decide +kernel,rfl⟩
  have mine : IsRepository "my/tool" :=
    ⟨"my".toList,"tool".toList,by decide +kernel,by decide +kernel,rfl⟩
  have formed : ∀ p ∈ posted, p.Formed := by
    intro p member
    simp only [posted,List.mem_cons,List.not_mem_nil,or_false] at member
    rcases member with rfl | rfl | rfl
    · exact ⟨by decide +kernel,.inl rfl,.inl rfl,other,"9.0.0",rfl⟩
    · exact ⟨by decide +kernel,.inl rfl,.inl rfl,mine,"4.0.0-beta.2",rfl⟩
    · exact ⟨by decide +kernel,.inr rfl,.inr rfl,mine,"3.5.1",rfl⟩
  obtain ⟨any,plain,answered⟩ := @newest_of_page hosted posted "</a>" host formed (by decide +kernel)
  exact ⟨any "other/tool",plain "my/tool",
    answered "my/tool" true _ _ rfl rfl (readText_encode _)⟩

end Feed
end ReleaseInstaller
