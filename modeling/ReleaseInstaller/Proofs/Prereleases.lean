import ReleaseInstaller.Proofs.FirstLink

/-! Searching a listing with and without pre-releases. Every link that counts without them counts
with them, so a link is found with them as well, and no later; but for one case: the search that takes
pre-releases may be inside a link of another repository where the wanted link starts. -/
namespace ReleaseInstaller.Listing

variable {b : Bool} {s : List Char} {link : Link}
  {place skip i : Nat} {first second : Nat × Link}

/-- The links after `skip` characters, each with the place where it starts; the text itself starts
at `place`. -/
def placedAfter (includePrerelease : Bool) : (place skip : Nat) → List Char → List (Nat × Link)
  | _, _, [] => []
  | place, skip + 1, _ :: rest => placedAfter includePrerelease (place + 1) skip rest
  | place, 0, c :: rest => match linkAt? includePrerelease (c :: rest) with
    | none => placedAfter includePrerelease (place + 1) 0 rest
    | some link =>
      (place, link) :: placedAfter includePrerelease (place + 1) (link.length - 1) rest

def placed (document : String) (includePrerelease : Bool) : List (Nat × Link) :=
  placedAfter includePrerelease 0 0 document.toList

theorem map_placedAfter (b : Bool) (place skip : Nat) (s : List Char) :
    (placedAfter b place skip s).map Prod.snd = linksAfter b skip s := by
  induction s generalizing place skip with
  | nil => cases skip <;> rfl
  | cons c rest ih =>
    cases skip with
    | succ skip => exact ih (place + 1) skip
    | zero =>
      rw [placedAfter,linksAfter]
      cases linkAt? b (c :: rest) with
      | none => exact ih (place + 1) 0
      | some link => exact congrArg (link :: ·) (ih (place + 1) (link.length - 1))

theorem length_pos_of_linkAt? (found : linkAt? b s = some link) : 0 < link.length := by
  rw [(linkAt?_eq_some.mp found).2,linkText]
  exact Nat.succ_pos _

theorem exists_of_mem_placedAfter (member : first ∈ placedAfter b place skip s) :
    ∃ i, first.1 = place + i ∧ skip ≤ i ∧ linkAt? b (s.drop i) = some first.2 := by
  induction s generalizing place skip with
  | nil => cases skip <;> cases member
  | cons c rest ih =>
    have later {skip} (member : first ∈ placedAfter b (place + 1) skip rest) :
        ∃ i, first.1 = place + i ∧ skip + 1 ≤ i ∧ linkAt? b ((c :: rest).drop i) = some first.2 :=
      let ⟨i,start,beyond,found⟩ := ih member
      ⟨i + 1,by omega,by omega,found⟩
    cases skip with
    | succ skip => exact later member
    | zero =>
      rw [placedAfter] at member
      split at member
      · obtain ⟨i,start,-,found⟩ := later member
        exact ⟨i,start,Nat.zero_le i,found⟩
      · next link here =>
        rcases List.mem_cons.mp member with rfl | member
        · exact ⟨0,rfl,Nat.le_refl 0,here⟩
        · obtain ⟨i,start,-,found⟩ := later member
          exact ⟨i,start,Nat.zero_le i,found⟩

theorem pairwise_placedAfter (b : Bool) (place skip : Nat) (s : List Char) :
    (placedAfter b place skip s).Pairwise
      fun first second => first.1 + first.2.length ≤ second.1 := by
  induction s generalizing place skip with
  | nil => cases skip <;> exact List.Pairwise.nil
  | cons c rest ih =>
    cases skip with
    | succ skip => exact ih (place + 1) skip
    | zero =>
      rw [placedAfter]
      split
      · exact ih (place + 1) 0
      · next link here =>
        refine List.pairwise_cons.mpr ⟨fun second member => ?_,ih (place + 1) (link.length - 1)⟩
        obtain ⟨i,start,beyond,-⟩ := exists_of_mem_placedAfter member
        have some := length_pos_of_linkAt? here
        dsimp only
        omega

theorem ends_before (member : first ∈ placedAfter b place skip s)
    (member' : second ∈ placedAfter b place skip s) (before : first.1 < second.1) :
    first.1 + first.2.length ≤ second.1 := by
  have ordered := List.pairwise_iff_getElem.mp (pairwise_placedAfter b place skip s)
  obtain ⟨i,bound,rfl⟩ := List.mem_iff_getElem.mp member
  obtain ⟨j,bound',rfl⟩ := List.mem_iff_getElem.mp member'
  rcases Nat.lt_trichotomy i j with less | rfl | more
  · exact ordered i j bound bound' less
  · omega
  · have reach := ordered j i bound' bound more
    omega

/-- A link that is not read starts inside one that is. -/
theorem mem_or_inside (place : Nat) (beyond : skip ≤ i) (here : linkAt? b (s.drop i) = some link) :
    (place + i,link) ∈ placedAfter b place skip s ∨
      ∃ first ∈ placedAfter b place skip s,
        first.1 < place + i ∧ place + i < first.1 + first.2.length := by
  induction s generalizing place skip i with
  | nil => cases (List.drop_nil ▸ here : linkAt? b [] = some link)
  | cons c rest ih =>
    have later {skip i} (beyond : skip ≤ i) (here : linkAt? b (rest.drop i) = some link) :
        (place + (i + 1),link) ∈ placedAfter b (place + 1) skip rest ∨
          ∃ first ∈ placedAfter b (place + 1) skip rest,
            first.1 < place + (i + 1) ∧ place + (i + 1) < first.1 + first.2.length := by
      have next := ih (place + 1) beyond here
      rwa [show place + 1 + i = place + (i + 1) by omega] at next
    cases skip with
    | succ skip =>
      obtain ⟨i,rfl⟩ := Nat.exists_eq_add_one_of_ne_zero (Nat.ne_zero_of_lt beyond)
      exact later (Nat.le_of_succ_le_succ beyond) here
    | zero =>
      rw [placedAfter]
      cases i with
      | zero =>
        rw [List.drop_zero] at here
        rw [here]
        exact .inl List.mem_cons_self
      | succ i =>
        cases found : linkAt? b (c :: rest) with
        | none => exact later (Nat.zero_le i) here
        | some link =>
          by_cases inside : i + 1 < link.length
          · exact .inr ⟨(place,link),List.mem_cons_self,by dsimp only; omega,by dsimp only; omega⟩
          · rcases later (Nat.sub_le_iff_le_add.mpr (Nat.le_of_not_lt inside)) here with
              member | ⟨first,member,reach⟩
            · exact .inl (List.mem_cons_of_mem _ member)
            · exact .inr ⟨first,List.mem_cons_of_mem _ member,reach⟩

/-- The search for the repository's link finds this version, in a link that starts at this place. -/
def FindsAt (includePrerelease : Bool) (document repository version : String) (i : Nat) : Prop :=
  ∃ link, (placed document includePrerelease).find? (·.2.repository = repository.toList) =
    some (i,link) ∧ String.ofList link.version = version

variable {document : String}

theorem latestVersion?_eq_some {repository version : String} :
    latestVersion? document repository b = some version ↔
      ∃ i, FindsAt b document repository version i := by
  have search : (links document b).find? (·.repository = repository.toList) =
      ((placed document b).find? (·.2.repository = repository.toList)).map Prod.snd := by
    rw [links,← map_placedAfter b 0 0,List.find?_map]
    rfl
  simp only [latestVersion?,search,FindsAt,Option.map_map,Option.map_eq_some_iff,Prod.exists,
    Function.comp_apply]

theorem exists_findsAt {repository : String} (member : first ∈ placed document b)
    (wanted : first.2.repository = repository.toList) :
    ∃ version i, FindsAt b document repository version i ∧ i ≤ first.1 := by
  cases search : (placed document b).find? (·.2.repository = repository.toList) with
  | none => exact absurd wanted (by simpa using List.find?_eq_none.mp search first member)
  | some found =>
    refine ⟨_,found.1,⟨found.2,search,rfl⟩,?_⟩
    obtain ⟨-,before,after,shape,others⟩ := List.find?_eq_some_iff_append.mp search
    have ordered := pairwise_placedAfter b 0 0 document.toList
    rw [← placed,shape] at ordered
    rw [shape] at member
    rcases List.mem_append.mp member with earlier | member
    · exact absurd wanted (by simpa using others first earlier)
    rcases List.mem_cons.mp member with rfl | later
    · exact Nat.le_refl _
    · have reach := (List.pairwise_cons.mp (List.pairwise_append.mp ordered).2.1).1 first later
      omega

theorem linkAt?_prerelease (found : linkAt? false s = some link) : linkAt? true s = some link := by
  obtain ⟨links,length⟩ := linkAt?_eq_some.mp found
  exact linkAt?_eq_some.mpr ⟨⟨links.slug,links.segment,nofun,links.starts⟩,length⟩

/-- The search that takes pre-releases is inside a link of another repository at this place, and has
met no link for the repository before. -/
def Passed (document repository : String) (i : Nat) : Prop :=
  ∃ first ∈ placed document true, first.2.repository ≠ repository.toList ∧
    first.1 < i ∧ i < first.1 + first.2.length ∧
    ∀ second ∈ placed document true, second.2.repository = repository.toList → first.1 < second.1

theorem Unspanned.not_passed {repository : String}
    (unspanned : Unspanned true repository.toList document.toList)
    (here : linkAt? true (document.toList.drop i) = some link)
    (wanted : link.repository = repository.toList) : ¬Passed document repository i := by
  rintro ⟨first,member,differs,before,inside,-⟩
  obtain ⟨j,start,-,there⟩ := exists_of_mem_placedAfter member
  obtain rfl : j = first.1 := by omega
  obtain ⟨links,length⟩ := linkAt?_eq_some.mp there
  have reach := unspanned first.1 i _ _ differs links
    ⟨link.version,wanted ▸ (linkAt?_eq_some.mp here).1⟩ before
  omega

/-- Where a version is found without pre-releases, one is found with them too, in a link that starts no
later, exactly if the link is not passed; and no link is passed in a listing where none for the
repository starts inside an earlier link of another one. -/
theorem latestVersion?_prerelease {repository stable : String}
    (found : latestVersion? document repository false = some stable) :
    ∃ i, FindsAt false document repository stable i ∧
      ((∃ version j, latestVersion? document repository true = some version ∧
        FindsAt true document repository version j ∧ j ≤ i) ↔ ¬Passed document repository i) ∧
      (Unspanned true repository.toList document.toList → ¬Passed document repository i) := by
  obtain ⟨i,link,search,same⟩ := latestVersion?_eq_some.mp found
  have wanted : link.repository = repository.toList := by simpa using List.find?_some search
  obtain ⟨k,start,-,stable⟩ := exists_of_mem_placedAfter (List.mem_of_find?_eq_some search)
  obtain rfl : k = i := by simpa using start.symm
  have here := linkAt?_prerelease stable
  refine ⟨k,⟨link,search,same⟩,⟨?_,fun kept => ?_⟩,fun unspanned => unspanned.not_passed here wanted⟩
  case refine_1 =>
    rintro ⟨version,j,-,⟨earlier,search',-⟩,no_later⟩ ⟨first,member,differs,-,inside,none_before⟩
    have member' := List.mem_of_find?_eq_some search'
    have wanted' : earlier.repository = repository.toList := by simpa using List.find?_some search'
    -- the link that is found would start inside the one that passes
    have reach := ends_before member member' (none_before _ member' wanted')
    dsimp only at reach
    omega
  case refine_2 =>
    suffices read : ∃ first ∈ placed document true,
        first.2.repository = repository.toList ∧ first.1 ≤ k by
      obtain ⟨first,member,wanted',before⟩ := read
      obtain ⟨version,j,finds,no_later⟩ := exists_findsAt member wanted'
      exact ⟨version,j,latestVersion?_eq_some.mpr ⟨j,finds⟩,finds,no_later.trans before⟩
    rcases mem_or_inside 0 (Nat.zero_le k) here with member | ⟨first,member,before,inside⟩
    · exact ⟨_,member,wanted,(Nat.zero_add k).le⟩
    rw [Nat.zero_add] at before inside
    by_cases own : first.2.repository = repository.toList
    · exact ⟨first,member,own,before.le⟩
    · have earlier : ¬∀ second ∈ placed document true,
          second.2.repository = repository.toList → first.1 < second.1 := fun none_before =>
        kept ⟨first,member,own,before,inside,none_before⟩
      simp only [not_forall,not_lt] at earlier
      obtain ⟨second,member',wanted',no_later⟩ := earlier
      exact ⟨second,member',wanted',no_later.trans before.le⟩

theorem latestVersion?_prerelease_earlier :
    latestVersion? "/c/d/releases/download/v1.1.0-rc.1/x /c/d/releases/download/v1.0.0/x" "c/d" false =
      some "1.0.0" ∧
    ∃ i version j,
      FindsAt false "/c/d/releases/download/v1.1.0-rc.1/x /c/d/releases/download/v1.0.0/x" "c/d"
        "1.0.0" i ∧
      FindsAt true "/c/d/releases/download/v1.1.0-rc.1/x /c/d/releases/download/v1.0.0/x" "c/d"
        version j ∧ j ≤ i := by
  have found : latestVersion? "/c/d/releases/download/v1.1.0-rc.1/x /c/d/releases/download/v1.0.0/x"
      "c/d" false = some "1.0.0" := by decide +kernel
  have unspanned : Unspanned true "c/d".toList
      "/c/d/releases/download/v1.1.0-rc.1/x /c/d/releases/download/v1.0.0/x".toList := by decide +kernel
  obtain ⟨i,stable,exactly,clear⟩ := latestVersion?_prerelease found
  obtain ⟨version,j,-,finds,no_later⟩ := exactly.mpr (clear unspanned)
  exact ⟨found,i,version,j,stable,finds,no_later⟩

theorem latestVersion?_passed :
    latestVersion? "/a/b/releases/download/v2.0.0-rc.1/c/d/releases/download/v1.0.0/x" "c/d" false =
      some "1.0.0" ∧
    latestVersion? "/a/b/releases/download/v2.0.0-rc.1/c/d/releases/download/v1.0.0/x" "c/d" true =
      none := by decide +kernel

end ReleaseInstaller.Listing
