import Mathlib.Data.Option.Basic
import ReleaseInstaller.Proofs.Requests
import ReleaseInstaller.Proofs.VersionText

/-! Release listings that are made of download URLs. The URLs are those that settings give, each
between quotes, and a listing is searched for links that look like them: the two agree on which
versions a listing holds. -/
namespace ReleaseInstaller

namespace Listing

open Text

variable {s t rest owner project version run : List Char} {q c : Char} {b : Bool} {link : Link}

structure IsSegment (s : List Char) : Prop where
  some : s ≠ []
  chars : ∀ c ∈ s, isSegmentChar c = true

instance (s : List Char) : Decidable (IsSegment s) :=
  decidable_of_iff (s ≠ [] ∧ s.all isSegmentChar = true)
    ⟨fun ⟨nonempty,chars⟩ => ⟨nonempty,List.all_eq_true.mp chars⟩,
      fun segment => ⟨segment.some,List.all_eq_true.mpr segment.chars⟩⟩

def IsQuote (q : Char) : Prop := q = '"' ∨ q = '\''

instance (q : Char) : Decidable (IsQuote q) := inferInstanceAs (Decidable (q = '"' ∨ q = '\''))

theorem IsQuote.not_segment (quote : IsQuote q) : isSegmentChar q = false := by
  rcases quote with rfl | rfl <;> decide

theorem IsSegment.slashless (segment : IsSegment s) : '/' ∉ s := fun member =>
  absurd (segment.chars _ member) (by decide)

theorem IsSegment.unquoted (segment : IsSegment s) (quote : IsQuote q) : q ∉ s := fun member => by
  simpa [quote.not_segment] using segment.chars q member

theorem segment?_append (segment : IsSegment s) (stops : ∀ c ∈ rest.head?, isSegmentChar c = false) :
    segment? (s ++ rest) = some (s,rest) := by
  simp [segment?,takeWhile_run segment.chars stops,dropWhile_run segment.chars stops,segment.some]

theorem segment_of_segment? (read : segment? s = some (t,rest)) : IsSegment t ∧ s = t ++ rest := by
  simp only [segment?] at read
  split at read
  · cases read
  · next some =>
    cases read
    refine ⟨⟨by simpa using some,fun c member => List.mem_takeWhile_imp member⟩,?_⟩
    exact List.takeWhile_append_dropWhile.symm

/-- The part of a link that no other text of a listing holds. -/
def path : List Char := "/releases/download/".toList

theorem middle_append (s : List Char) : middle ++ s = path ++ 'v' :: s := by
  have whole : middle = path ++ ['v'] := by decide +kernel
  rw [whole,List.append_assoc,List.singleton_append]

theorem path_append (s : List Char) :
    path ++ s = '/' :: ("releases".toList ++ '/' :: ("download".toList ++ '/' :: s)) := rfl

/-- What a link looks like, and that it is one if its version may be any or is plain. -/
theorem linkAt?_of_parts (isOwner : IsSegment owner) (isProject : IsSegment project)
    (isVersion : IsSegment version) (b : Bool) (rest : List Char) :
    linkAt? b ('/' :: (owner ++ '/' :: (project ++ (middle ++ (version ++ '/' :: rest))))) =
      if b || isPlain version then
        some ⟨owner ++ '/' :: project,version,
          (owner ++ '/' :: project).length + middle.length + version.length + 2⟩
      else none := by
  have slash : isSegmentChar '/' = false := by decide
  have first : segment? (owner ++ '/' :: (project ++ (middle ++ (version ++ '/' :: rest)))) =
      some (owner,_) := segment?_append isOwner (by simp [slash])
  have second : segment? (project ++ (middle ++ (version ++ '/' :: rest))) = some (project,_) :=
    segment?_append isProject (by rw [middle_append,path_append]; simp [slash])
  have third : segment? (version ++ '/' :: rest) = some (version,_) :=
    segment?_append isVersion (by simp [slash])
  have marked : middle.isPrefixOf (middle ++ (version ++ '/' :: rest)) = true := by
    rw [List.isPrefixOf_iff_prefix]
    exact List.prefix_append _ _
  simp only [linkAt?,first,second,third,marked,Option.bind_eq_bind,Option.bind_some,if_true,
    List.drop_left]
  cases b || isPlain version <;> rfl

theorem linkAt?_of_ne (other : c ≠ '/') : linkAt? b (c :: s) = none := by
  unfold linkAt?
  split
  · next same =>
    cases same
    exact absurd rfl other
  · rfl

theorem parts_of_linkAt? (found : linkAt? b s = some link) :
    ∃ owner project rest, IsSegment owner ∧ IsSegment project ∧ IsSegment link.version ∧
      s = '/' :: (owner ++ '/' :: (project ++ (middle ++ (link.version ++ '/' :: rest)))) := by
  unfold linkAt? at found
  split at found
  case h_2 => cases found
  next s =>
  simp only [Option.bind_eq_bind,Option.bind_eq_some_iff] at found
  obtain ⟨⟨owner,s₁⟩,first,found⟩ := found
  split at found
  case h_2 => cases found
  next s₂ shape =>
  obtain rfl : s₁ = '/' :: s₂ := shape
  simp only [Option.bind_eq_some_iff] at found
  obtain ⟨⟨project,s₃⟩,second,found⟩ := found
  split at found
  case isFalse => cases found
  next marked =>
  rw [Option.bind_some] at found
  obtain ⟨⟨version,s₄⟩,third,found⟩ := Option.bind_eq_some_iff.mp found
  split at found
  case h_2 => cases found
  next rest shape =>
  obtain rfl : s₄ = '/' :: rest := shape
  obtain ⟨_,-,same⟩ := Option.bind_eq_some_iff.mp found
  cases same
  obtain ⟨isOwner,rfl⟩ := segment_of_segment? first
  obtain ⟨isProject,rfl⟩ := segment_of_segment? second
  obtain ⟨isVersion,left⟩ := segment_of_segment? third
  obtain ⟨after,rfl⟩ : middle <+: s₃ := List.isPrefixOf_iff_prefix.mp marked
  obtain rfl : after = version ++ '/' :: rest := by simpa only [List.drop_left] using left
  exact ⟨owner,project,rest,isOwner,isProject,isVersion,rfl⟩

theorem parts_before_quote (quote : IsQuote q)
    (found : linkAt? b ('/' :: (run ++ q :: rest)) = some link) :
    ∃ owner project more, owner ≠ [] ∧ '/' ∉ owner ∧ '/' ∉ project ∧ '/' ∉ link.version ∧
      run = owner ++ '/' :: (project ++ (middle ++ (link.version ++ '/' :: more))) := by
  obtain ⟨owner,project,after,isOwner,isProject,isVersion,same⟩ := parts_of_linkAt? found
  have plain : q ∉ middle ∧ q ≠ '/' := by rcases quote with rfl | rfl <;> decide
  have free : q ∉ owner ++ '/' :: (project ++ (middle ++ (link.version ++ ['/']))) := by
    simp [isOwner.unquoted quote,isProject.unquoted quote,isVersion.unquoted quote,plain]
  have same : run ++ q :: rest =
      (owner ++ '/' :: (project ++ (middle ++ (link.version ++ ['/'])))) ++ after := by
    simpa using same
  obtain ⟨more,shape⟩ : ∃ more, run =
      (owner ++ '/' :: (project ++ (middle ++ (link.version ++ ['/'])))) ++ more := by
    rcases List.append_eq_append_iff.mp same with ⟨more,longer,left⟩ | ⟨more,shape,-⟩
    · cases more with
      | nil => exact ⟨[],by simpa using longer.symm⟩
      | cons first more =>
        cases left
        exact absurd (longer ▸ by simp) free
    · exact ⟨more,shape⟩
  exact ⟨owner,project,more,isOwner.some,isOwner.slashless,isProject.slashless,
    isVersion.slashless,by simpa using shape⟩

theorem linksAfter_append (none : ∀ u, '/' :: u <:+ t → linkAt? b ('/' :: (u ++ rest)) = none) :
    linksAfter b 0 (t ++ rest) = linksAfter b 0 rest := by
  induction t with
  | nil => rfl
  | cons c t ih =>
    have here : linkAt? b (c :: (t ++ rest)) = .none := by
      by_cases slash : c = '/'
      · subst slash
        exact none t (List.suffix_refl _)
      · exact linkAt?_of_ne slash
    simp only [List.cons_append,linksAfter,here]
    exact ih fun u inside => none u (inside.trans (List.suffix_cons c t))

theorem linksAfter_length (b : Bool) (t rest : List Char) :
    linksAfter b t.length (t ++ rest) = linksAfter b 0 rest := by
  induction t with
  | nil => rfl
  | cons c t ih => simpa [linksAfter] using ih

/-- No link starts in a text without that part, nor does one reach over the quote after it. -/
theorem linksAfter_filler (quote : IsQuote q) (free : ¬ path <:+: t) :
    linksAfter b 0 (t ++ q :: rest) = linksAfter b 0 rest := by
  have passed : linksAfter b 0 ((t ++ [q]) ++ rest) = linksAfter b 0 rest := by
    apply linksAfter_append
    rintro u ⟨front,shape⟩
    cases found : linkAt? b ('/' :: (u ++ rest)) with
    | none => rfl
    | some link =>
      exfalso
      rcases List.eq_nil_or_concat u with rfl | ⟨run,last,rfl⟩
      · have same : q = '/' := (List.append_singleton_inj.mp shape).2.symm
        exact (by rcases quote with rfl | rfl <;> decide : q ≠ '/') same
      · rw [List.concat_eq_append,← List.cons_append,← List.append_assoc] at shape
        obtain ⟨rfl,rfl⟩ := List.append_singleton_inj.mp shape
        simp only [List.concat_eq_append,List.append_assoc,List.singleton_append] at found
        obtain ⟨owner,project,more,-,-,-,-,rfl⟩ := parts_before_quote quote found
        refine free ⟨front ++ '/' :: (owner ++ '/' :: project),'v' :: (link.version ++ '/' :: more),?_⟩
        simp [middle_append]
  simpa using passed

theorem linksAfter_ending (free : ¬ path <:+: t) : linksAfter b 0 t = [] := by
  have passed : linksAfter b 0 (t ++ []) = linksAfter b 0 [] := by
    apply linksAfter_append
    rintro u ⟨front,rfl⟩
    cases found : linkAt? b ('/' :: (u ++ [])) with
    | none => rfl
    | some link =>
      exfalso
      obtain ⟨owner,project,more,-,-,-,shape⟩ := parts_of_linkAt? found
      obtain rfl : u = owner ++ '/' :: (project ++ (middle ++ (link.version ++ '/' :: more))) := by
        simpa using shape
      refine free ⟨front ++ '/' :: (owner ++ '/' :: project),'v' :: (link.version ++ '/' :: more),?_⟩
      simp [middle_append]
  simpa [linksAfter] using passed

/-- A URL of a release artifact, by its parts between slashes. -/
structure Address where
  scheme : List Char
  authority : List Char
  owner : List Char
  project : List Char
  version : List Char
  file : List Char

namespace Address

/-- What follows the slash after the authority. -/
def tail (a : Address) : List Char :=
  a.owner ++ '/' :: (a.project ++ (middle ++ (a.version ++ '/' :: a.file)))

def front (a : Address) : List Char := a.scheme ++ ':' :: '/' :: '/' :: a.authority

def url (a : Address) : List Char := a.front ++ '/' :: a.tail

structure Formed (a : Address) : Prop where
  scheme : '/' ∉ a.scheme
  authority : '/' ∉ a.authority
  owner : IsSegment a.owner
  project : IsSegment a.project
  version : IsSegment a.version
  file : '/' ∉ a.file

variable {a : Address}

theorem splitAt_parts (isOwner : '/' ∉ owner) (isProject : '/' ∉ project) (isVersion : '/' ∉ version)
    (t : List Char) :
    splitAt '/' (owner ++ '/' :: (project ++ (middle ++ (version ++ '/' :: t)))) =
      owner :: project :: "releases".toList :: "download".toList :: ('v' :: version) ::
        splitAt '/' t := by
  have last : '/' ∉ 'v' :: version := by simp [isVersion]
  rw [middle_append,path_append,splitAt_append,splitAt_append,splitAt_append,splitAt_append,
    ← List.cons_append,splitAt_append,splitAt_of_not_mem isOwner,splitAt_of_not_mem isProject,
    splitAt_of_not_mem (by decide : '/' ∉ "releases".toList),
    splitAt_of_not_mem (by decide : '/' ∉ "download".toList),splitAt_of_not_mem last]
  rfl

theorem Formed.pieces (formed : a.Formed) : splitAt '/' a.url =
    [a.scheme ++ [':'],[],a.authority,a.owner,a.project,"releases".toList,"download".toList,
      'v' :: a.version,a.file] := by
  have shape : a.url = (a.scheme ++ [':']) ++ '/' :: ([] ++ '/' :: (a.authority ++ '/' :: a.tail)) := by
    simp [url,front]
  have scheme : '/' ∉ a.scheme ++ [':'] := by simp [formed.scheme]
  rw [shape,splitAt_append,splitAt_append,splitAt_append,splitAt_of_not_mem scheme,
    splitAt_of_not_mem (by simp),splitAt_of_not_mem formed.authority,tail,
    splitAt_parts formed.owner.slashless formed.project.slashless formed.version.slashless,
    splitAt_of_not_mem formed.file]
  rfl

/-- A URL before a quote holds one link at most, that of its repository: any other slash has too
few pieces after it, or the wrong ones. -/
theorem Formed.starts (formed : a.Formed) (quote : IsQuote q) (inside : '/' :: t <:+ a.url)
    (found : linkAt? b ('/' :: (t ++ q :: rest)) = some link) : t = a.tail := by
  obtain ⟨owner,project,more,some,isOwner,isProject,isVersion,rfl⟩ := parts_before_quote quote found
  obtain ⟨front,shape⟩ := inside
  have pieces := formed.pieces
  have tail := splitAt_parts formed.owner.slashless formed.project.slashless
    formed.version.slashless a.file
  rw [← shape,splitAt_append,splitAt_parts isOwner isProject isVersion] at pieces
  obtain ⟨first,others,front⟩ := List.exists_cons_of_ne_nil (splitAt_ne_nil '/' front)
  obtain ⟨last,lasts,more'⟩ := List.exists_cons_of_ne_nil (splitAt_ne_nil '/' more)
  rw [front,more'] at pieces
  rcases others with _ | ⟨second,_ | ⟨third,_ | ⟨fourth,others⟩⟩⟩
  · simp [some] at pieces
  · simp at pieces
  · have same : splitAt '/' (owner ++ '/' :: (project ++ (middle ++ (link.version ++ '/' :: more)))) =
        splitAt '/' a.tail := by
      rw [splitAt_parts isOwner isProject isVersion,Address.tail,tail,more',
        splitAt_of_not_mem formed.file]
      simp only [List.cons_append,List.nil_append,List.cons.injEq] at pieces ⊢
      exact pieces.2.2.2
    rw [← intercalate_splitAt '/' a.tail,← same,intercalate_splitAt]
  · have length := congrArg List.length pieces
    simp at length
    omega

theorem Formed.links_front (formed : a.Formed) (quote : IsQuote q) (b : Bool) (rest : List Char) :
    linksAfter b 0 (a.front ++ '/' :: (a.tail ++ q :: rest)) =
      linksAfter b 0 ('/' :: (a.tail ++ q :: rest)) := by
  apply linksAfter_append
  rintro u ⟨first,shape⟩
  cases found : linkAt? b ('/' :: (u ++ '/' :: (a.tail ++ q :: rest))) with
  | none => rfl
  | some link =>
    have same : u ++ '/' :: a.tail = a.tail := by
      refine formed.starts quote ⟨first,?_⟩ (by simpa using found)
      simp [url,← shape]
    have length := congrArg List.length same
    simp at length
    omega

theorem Formed.links_within (formed : a.Formed) (quote : IsQuote q) (inside : t <:+ a.tail)
    (b : Bool) (rest : List Char) :
    linksAfter b 0 (t ++ q :: rest) = linksAfter b 0 (q :: rest) := by
  apply linksAfter_append
  intro u within
  cases found : linkAt? b ('/' :: (u ++ q :: rest)) with
  | none => rfl
  | some link =>
    have within := within.trans inside
    have same := formed.starts quote (within.trans ⟨a.front ++ ['/'],by simp [url]⟩) found
    have length := within.length_le
    rw [same] at length
    exact absurd length (by simp)

/-- Between quotes a URL is one link, or none where its version does not count. -/
theorem Formed.links (formed : a.Formed) (quote : IsQuote q) (b : Bool) (rest : List Char) :
    linksAfter b 0 (a.url ++ q :: rest) =
      (if b || isPlain a.version then
        [⟨a.owner ++ '/' :: a.project,a.version,
          (a.owner ++ '/' :: a.project).length + middle.length + a.version.length + 2⟩]
      else []) ++ linksAfter b 0 (q :: rest) := by
  have here := linkAt?_of_parts formed.owner formed.project formed.version b (a.file ++ q :: rest)
  have shape : '/' :: (a.tail ++ q :: rest) = '/' :: (a.owner ++ '/' :: (a.project ++
      (middle ++ (a.version ++ '/' :: (a.file ++ q :: rest))))) := by simp [tail]
  rw [← shape] at here
  rw [url,List.append_assoc,List.cons_append,formed.links_front quote,linksAfter,here]
  cases b || isPlain a.version with
  | false => exact formed.links_within quote (List.suffix_refl _) b rest
  | true =>
    -- the search goes on after the slash that ends the version
    let link := a.owner ++ '/' :: (a.project ++ (middle ++ (a.version ++ ['/'])))
    have length : (a.owner ++ '/' :: a.project).length + middle.length + a.version.length + 2 - 1 =
        link.length := by
      simp [link]
      omega
    have split : a.tail ++ q :: rest = link ++ (a.file ++ q :: rest) := by simp [tail,link]
    simp only [if_true,length,List.singleton_append]
    rw [split,linksAfter_length,formed.links_within quote ⟨link,by simp [tail,link]⟩]

end Address
end Listing
end ReleaseInstaller
