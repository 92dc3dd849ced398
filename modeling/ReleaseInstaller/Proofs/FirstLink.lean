import ReleaseInstaller.Proofs.Listing

/-! Which link of a listing counts. Links are found from left to right and none inside another, of
whatever repository they are; the first that is found for a repository is the first that there is,
unless an earlier link of another repository reaches over its start. -/
namespace ReleaseInstaller.Listing

open Text

variable {s t rest repository version : List Char} {b : Bool} {link : Link} {skip : Nat}

def IsNumeral (s : List Char) : Prop := s ≠ [] ∧ ∀ c ∈ s, isDigit c = true

theorem IsNumeral.dotless (numeral : IsNumeral s) : '.' ∉ s := fun member =>
  absurd (numeral.2 '.' member) (by decide)

theorem isNumeral_iff : IsNumeral s ↔ (!s.isEmpty && s.all isDigit) = true := by
  simp [IsNumeral]

def IsTriple (version : List Char) : Prop := ∃ major minor patch, IsNumeral major ∧
  IsNumeral minor ∧ IsNumeral patch ∧ version = major ++ '.' :: (minor ++ '.' :: patch)

theorem isPlain_iff : isPlain version = true ↔ IsTriple version := by
  constructor
  · intro plain
    unfold isPlain at plain
    split at plain
    · next major minor patch pieces =>
      simp only [List.all_cons,List.all_nil,Bool.and_true,Bool.and_eq_true (_ && _),
        ← isNumeral_iff] at plain
      refine ⟨major,minor,patch,plain.1,plain.2.1,plain.2.2,?_⟩
      rw [← intercalate_splitAt '.' version,pieces]
      simp [List.intercalate,List.intersperse]
    · cases plain
  · rintro ⟨major,minor,patch,isMajor,isMinor,isPatch,rfl⟩
    have pieces : splitAt '.' (major ++ '.' :: (minor ++ '.' :: patch)) = [major,minor,patch] := by
      rw [splitAt_append,splitAt_append,splitAt_of_not_mem isMajor.dotless,
        splitAt_of_not_mem isMinor.dotless,splitAt_of_not_mem isPatch.dotless]
      rfl
    simp only [isPlain,pieces,List.all_cons,List.all_nil,isNumeral_iff.mp isMajor,
      isNumeral_iff.mp isMinor,isNumeral_iff.mp isPatch,Bool.and_self]

def IsSlug (repository : List Char) : Prop :=
  ∃ owner project, IsSegment owner ∧ IsSegment project ∧ repository = owner ++ '/' :: project

/-- What links to a version of a repository. -/
def linkText (repository version : List Char) : List Char :=
  '/' :: (repository ++ (middle ++ (version ++ ['/'])))

/-- A link to a version of a repository starts the text. Where pre-releases do not count, its version
is made of three numbers. -/
structure Links (includePrerelease : Bool) (repository version s : List Char) : Prop where
  slug : IsSlug repository
  segment : IsSegment version
  counts : includePrerelease = false → IsTriple version
  starts : linkText repository version <+: s

theorem linkAt?_eq_some : linkAt? b s = some link ↔ Links b link.repository link.version s ∧
    link.length = (linkText link.repository link.version).length := by
  have shape (owner project version rest : List Char) :
      '/' :: (owner ++ '/' :: (project ++ (middle ++ (version ++ '/' :: rest)))) =
        linkText (owner ++ '/' :: project) version ++ rest := by simp [linkText]
  have length (owner project version : List Char) :
      (owner ++ '/' :: project).length + middle.length + version.length + 2 =
        (linkText (owner ++ '/' :: project) version).length := by
    simp [linkText]
    omega
  constructor
  · intro found
    obtain ⟨owner,project,rest,isOwner,isProject,isVersion,rfl⟩ := parts_of_linkAt? found
    rw [linkAt?_of_parts isOwner isProject isVersion,length] at found
    split at found
    · next counts =>
      generalize link.version = version at found isVersion counts
      cases found
      refine ⟨⟨⟨owner,project,isOwner,isProject,rfl⟩,isVersion,fun stable => ?_,?_⟩,rfl⟩
      · exact isPlain_iff.mp (by simpa [stable] using counts)
      · exact ⟨rest,(shape owner project version rest).symm⟩
    · cases found
  · obtain ⟨repository,version,length'⟩ := link
    rintro ⟨⟨⟨owner,project,isOwner,isProject,slug⟩,isVersion,counts,rest,starts⟩,same⟩
    dsimp only at slug isVersion counts starts same
    subst slug starts same
    have plain : (b || isPlain version) = true := by
      cases b with
      | true => rfl
      | false => exact isPlain_iff.mpr (counts rfl)
    rw [← shape,linkAt?_of_parts isOwner isProject isVersion,if_pos plain,length]

theorem Links.found (links : Links b repository version s) :
    linkAt? b s = some ⟨repository,version,(linkText repository version).length⟩ :=
  linkAt?_eq_some.mpr ⟨links,rfl⟩

/-- A link for the repository starts the text. -/
def LinksFor (includePrerelease : Bool) (repository s : List Char) : Prop :=
  ∃ version, Links includePrerelease repository version s

theorem Links.unique (first : Links b repository version s) (second : Links b repository t s) :
    version = t := by
  cases first.found.symm.trans second.found
  rfl

theorem exists_of_mem_linksAfter (member : link ∈ linksAfter b skip s) :
    ∃ i, linkAt? b (s.drop i) = some link := by
  induction s generalizing skip with
  | nil => cases skip <;> cases member
  | cons c rest ih =>
    have later {skip} (member : link ∈ linksAfter b skip rest) :
        ∃ i, linkAt? b ((c :: rest).drop i) = some link :=
      let ⟨i,found⟩ := ih member
      ⟨i + 1,found⟩
    cases skip with
    | succ skip => exact later member
    | zero =>
      rw [linksAfter] at member
      split at member
      · exact later member
      · next found =>
        rcases List.mem_cons.mp member with rfl | member
        · exact ⟨0,found⟩
        · exact later member

/-- No link of another repository that starts earlier reaches over the start of a link for the
repository. -/
def Unspanned (includePrerelease : Bool) (repository s : List Char) : Prop :=
  ∀ i j other version, other ≠ repository → Links includePrerelease other version (s.drop i) →
    LinksFor includePrerelease repository (s.drop j) → i < j →
      i + (linkText other version).length ≤ j

/-- A link for the repository starts within so many characters, but not with the first. -/
def Covers (includePrerelease : Bool) (repository s : List Char) (length : Nat) : Prop :=
  ∃ j < length, 0 < j ∧ (linkAt? includePrerelease (s.drop j)).map (·.repository) = some repository

instance (includePrerelease : Bool) (repository s : List Char) (length : Nat) :
    Decidable (Covers includePrerelease repository s length) :=
  inferInstanceAs (Decidable (∃ j < length, 0 < j ∧
    (linkAt? includePrerelease (s.drop j)).map (·.repository) = some repository))

theorem unspanned_iff : Unspanned b repository s ↔
    ∀ i < s.length, ∀ link ∈ (linkAt? b (s.drop i)).toList, link.repository ≠ repository →
      ¬ Covers b repository (s.drop i) link.length := by
  simp only [Option.mem_toList]
  constructor
  · rintro unspanned i - link found differs ⟨j,inside,before,reached⟩
    obtain ⟨links,length⟩ := linkAt?_eq_some.mp found
    obtain ⟨wanted,found',rfl⟩ := Option.map_eq_some_iff.mp reached
    rw [List.drop_drop] at found'
    have reach := unspanned i (i + j) _ _ differs links ⟨_,(linkAt?_eq_some.mp found').1⟩ (by omega)
    omega
  · intro apart i j other version differs links ⟨version',wanted⟩ before
    have within : i < s.length := by
      by_contra outside
      rw [List.drop_eq_nil_of_le (by omega)] at links
      cases links.found
    by_contra inside
    refine apart i within _ links.found differs ⟨j - i,by dsimp only; omega,by omega,?_⟩
    rw [List.drop_drop,Nat.add_sub_cancel' before.le,wanted.found]
    rfl

instance (includePrerelease : Bool) (repository s : List Char) :
    Decidable (Unspanned includePrerelease repository s) :=
  decidable_of_iff' _ unspanned_iff

theorem Unspanned.tail {c : Char} (unspanned : Unspanned b repository (c :: rest)) :
    Unspanned b repository rest := by
  intro i j other version differs links wanted before
  have reach := unspanned (i + 1) (j + 1) other version differs links wanted (by omega)
  omega

def FirstAt (includePrerelease : Bool) (repository version s : List Char) (i : Nat) : Prop :=
  Links includePrerelease repository version (s.drop i) ∧
    ∀ j < i, ¬ LinksFor includePrerelease repository (s.drop j)

/-- The search for a repository's link finds none only if there is none, and else the first one. The
induction carries that no link for the repository starts in what is skipped: there the search is
inside a link of another one, which does not reach that far. -/
theorem find?_linksAfter (unspanned : Unspanned b repository s)
    (clear : ∀ i < skip, ¬ LinksFor b repository (s.drop i)) :
    ((linksAfter b skip s).find? (·.repository = repository) = none ∧
      ∀ i, ¬ LinksFor b repository (s.drop i)) ∨
    ∃ link i, (linksAfter b skip s).find? (·.repository = repository) = some link ∧
      FirstAt b repository link.version s i := by
  induction s generalizing skip with
  | nil =>
    refine .inl ⟨by cases skip <;> rfl,?_⟩
    rintro i ⟨version,links⟩
    rw [List.drop_nil] at links
    cases links.found
  | cons c rest ih =>
    -- whatever is found behind the first character, provided that no link for the repository is here
    have onward {skip' : Nat} (here : ¬ LinksFor b repository (c :: rest))
        (clear : ∀ i < skip', ¬ LinksFor b repository (rest.drop i)) :
        ((linksAfter b skip' rest).find? (·.repository = repository) = none ∧
          ∀ i, ¬ LinksFor b repository ((c :: rest).drop i)) ∨
        ∃ link i, (linksAfter b skip' rest).find? (·.repository = repository) = some link ∧
          FirstAt b repository link.version (c :: rest) i := by
      rcases ih unspanned.tail clear with ⟨none,absent⟩ | ⟨link,i,found,links,first⟩
      · refine .inl ⟨none,fun i => ?_⟩
        cases i with
        | zero => exact here
        | succ i => exact absent i
      · refine .inr ⟨link,i + 1,found,links,fun j before => ?_⟩
        cases j with
        | zero => exact here
        | succ j => exact first j (by omega)
    cases skip with
    | succ skip => exact onward (clear 0 (by omega)) fun i before => clear (i + 1) (by omega)
    | zero =>
      rw [linksAfter]
      cases found : linkAt? b (c :: rest) with
      | none =>
        refine onward ?_ (by simp)
        rintro ⟨version,links⟩
        cases found.symm.trans links.found
      | some link =>
        obtain ⟨links,length⟩ := linkAt?_eq_some.mp found
        by_cases same : link.repository = repository
        · refine .inr ⟨link,0,by simp [same],same ▸ links,by simp⟩
        · simp only [List.find?_cons,same,decide_false]
          refine onward ?_ fun i before wanted => ?_
          · rintro ⟨version,wanted⟩
            cases found.symm.trans wanted.found
            exact same rfl
          · have reach := unspanned 0 (i + 1) link.repository link.version same links wanted (by omega)
            omega

/-- Whatever is found for a repository is the version of one of its links. If none of its links
starts inside an earlier link of another repository, it is the version of the first one, and nothing
is found only where there is no link for the repository. -/
theorem latestVersion?_exact (document repository : String) (includePrerelease : Bool) :
    (∀ version, latestVersion? document repository includePrerelease = some version →
      ∃ i, Links includePrerelease repository.toList version.toList (document.toList.drop i)) ∧
    (Unspanned includePrerelease repository.toList document.toList →
      (∀ version, latestVersion? document repository includePrerelease = some version ↔
        ∃ i, FirstAt includePrerelease repository.toList version.toList document.toList i) ∧
      (latestVersion? document repository includePrerelease = none ↔
        ∀ i, ¬ LinksFor includePrerelease repository.toList (document.toList.drop i))) := by
  have first {version t i j} (here : FirstAt includePrerelease repository.toList version
      document.toList i) (there : FirstAt includePrerelease repository.toList t
      document.toList j) : version = t := by
    rcases Nat.lt_trichotomy i j with before | rfl | after
    · exact absurd ⟨_,here.1⟩ (there.2 i before)
    · exact here.1.unique there.1
    · exact absurd ⟨_,there.1⟩ (here.2 j after)
  refine ⟨fun version found => ?_,fun unspanned => ?_⟩
  · obtain ⟨link,search,rfl⟩ := Option.map_eq_some_iff.mp found
    obtain ⟨i,here⟩ := exists_of_mem_linksAfter (List.mem_of_find?_eq_some search)
    have same : link.repository = repository.toList := by simpa using List.find?_some search
    exact ⟨i,by simpa [same] using (linkAt?_eq_some.mp here).1⟩
  · have clear : ∀ i < 0, ¬ LinksFor includePrerelease repository.toList (document.toList.drop i) :=
      by simp
    rcases find?_linksAfter unspanned clear with ⟨none,absent⟩ | ⟨link,i,search,here⟩
    · have nothing : latestVersion? document repository includePrerelease = .none := by
        simp [latestVersion?,links,none]
      refine ⟨fun version => ?_,iff_of_true nothing absent⟩
      rw [nothing]
      exact iff_of_false (by simp) fun ⟨i,links,_⟩ => absent i ⟨_,links⟩
    · have found : latestVersion? document repository includePrerelease =
          some (String.ofList link.version) := by simp [latestVersion?,links,search]
      refine ⟨fun version => ?_,?_⟩
      · rw [found,Option.some_inj]
        constructor
        · rintro rfl
          exact ⟨i,by simpa using here⟩
        · rintro ⟨j,there⟩
          rw [first here there,String.ofList_toList]
      · rw [found]
        exact iff_of_false (by simp) fun absent => absent i ⟨_,here.1⟩

theorem latestVersion?_exact_second :
    Unspanned false "c/d".toList "/a/b/releases/download/v3.0.0/x /c/d/releases/download/v2.1.0/x".toList ∧
    latestVersion? "/a/b/releases/download/v3.0.0/x /c/d/releases/download/v2.1.0/x" "c/d" false =
      some "2.1.0" ∧
    ∃ i, FirstAt false "c/d".toList "2.1.0".toList
      "/a/b/releases/download/v3.0.0/x /c/d/releases/download/v2.1.0/x".toList i := by
  have unspanned : Unspanned false "c/d".toList
      "/a/b/releases/download/v3.0.0/x /c/d/releases/download/v2.1.0/x".toList := by decide +kernel
  have found : latestVersion? "/a/b/releases/download/v3.0.0/x /c/d/releases/download/v2.1.0/x" "c/d"
      false = some "2.1.0" := by decide +kernel
  exact ⟨unspanned,found,(((latestVersion?_exact _ _ _).2 unspanned).1 _).mp found⟩

example : latestVersion? "/a/b/releases/download/v3.0.0/c/d/releases/download/v2.1.0/x" "c/d" false =
    none := by decide +kernel

end ReleaseInstaller.Listing
