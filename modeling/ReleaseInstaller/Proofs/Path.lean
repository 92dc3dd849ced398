import ReleaseInstaller.Files.Path

/-! Paths as sequences of steps. A name put below a directory adds one step, and the parent of a
path spells a first part of its steps. -/
namespace ReleaseInstaller

namespace Text

variable [DecidableEq α] {mark : α} {s t : List α}

theorem splitAt_of_not_mem (free : mark ∉ s) : splitAt mark s = [s] := by
  induction s with
  | nil => rfl
  | cons c s ih =>
    obtain ⟨other,free⟩ := List.ne_and_not_mem_of_not_mem_cons free
    simp [splitAt,ih free,Ne.symm other]

theorem splitAt_append (mark : α) (s t : List α) :
    splitAt mark (s ++ mark :: t) = splitAt mark s ++ splitAt mark t := by
  induction s with
  | nil => simp [splitAt]
  | cons c s ih =>
    obtain ⟨piece,more,pieces⟩ := List.exists_cons_of_ne_nil (splitAt_ne_nil mark s)
    simp only [List.cons_append,splitAt,ih,pieces]
    split <;> rfl

theorem not_mem_of_mem_splitAt {piece : List α} (member : piece ∈ splitAt mark s) :
    mark ∉ piece := by
  induction s generalizing piece with
  | nil => simp_all [splitAt]
  | cons c s ih =>
    obtain ⟨first,more,pieces⟩ := List.exists_cons_of_ne_nil (splitAt_ne_nil mark s)
    simp only [pieces] at ih
    simp only [splitAt,pieces] at member
    split at member
    · rcases List.mem_cons.mp member with rfl | member
      · simp
      · exact ih member
    · next other =>
      rcases List.mem_cons.mp member with rfl | member
      · simpa [Ne.symm other] using ih List.mem_cons_self
      · exact ih (List.mem_cons_of_mem _ member)

omit [DecidableEq α] in
theorem intercalate_append (mark : α) {first second : List (List α)} (some : first ≠ [])
    (more : second ≠ []) : List.intercalate [mark] (first ++ second) =
      List.intercalate [mark] first ++ mark :: List.intercalate [mark] second := by
  induction first with
  | nil => contradiction
  | cons piece first ih =>
    cases first with
    | nil =>
      obtain ⟨next,rest,rfl⟩ := List.exists_cons_of_ne_nil more
      simp [List.intercalate,List.intersperse]
    | cons next rest => simpa [List.intercalate,List.intersperse] using ih (by simp)

theorem splitAt_intercalate {pieces : List (List α)} (some : pieces ≠ [])
    (free : ∀ piece ∈ pieces, mark ∉ piece) :
    splitAt mark (List.intercalate [mark] pieces) = pieces := by
  induction pieces with
  | nil => contradiction
  | cons piece rest ih =>
    have alone : splitAt mark piece = [piece] := splitAt_of_not_mem (free _ List.mem_cons_self)
    cases rest with
    | nil => simpa [List.intercalate,List.intersperse] using alone
    | cons next rest =>
      rw [show piece :: next :: rest = [piece] ++ (next :: rest) from rfl,
        intercalate_append mark (by simp) (by simp),splitAt_append,
        ih (by simp) fun p member => free p (List.mem_cons_of_mem _ member)]
      simp [List.intercalate,List.intersperse,alone]

/-- An octet of the ASCII range stands for nothing but its character. -/
theorem toNat_of_octet {c : Char} {octet : UInt8} (ascii : octet.toNat < 0x80)
    (member : octet ∈ String.utf8EncodeChar c) : c.toNat = octet.toNat := by
  simp only [String.utf8EncodeChar] at member
  split at member
  · next short =>
    obtain rfl : octet = UInt8.ofNat c.val.toNat := by simpa using member
    rw [UInt8.toNat_ofNat']
    exact (Nat.mod_eq_of_lt (Nat.lt_of_le_of_lt short (by decide))).symm
  -- all octets of a longer sequence are at least 0x80
  · split at member
    · simp only [List.mem_cons,List.not_mem_nil,or_false,← UInt8.toNat_inj,UInt8.toNat_ofNat'] at member
      omega
    · split at member
      all_goals
        simp only [List.mem_cons,List.not_mem_nil,or_false,← UInt8.toNat_inj,
          UInt8.toNat_ofNat'] at member
        omega

theorem eq_slash_of_octet {c : Char} (member : (0x2F : UInt8) ∈ String.utf8EncodeChar c) :
    c = '/' :=
  Char.toNat_inj.mp (toNat_of_octet (by decide) member)

end Text

namespace Path

variable {dir : Path} {name : String}

/-- The step that a text between slashes spells. -/
def step? (segment : Name) : Option Step :=
  if segment = [] then none
  else if segment = [dot] then some .here
  else if segment = [dot,dot] then some .up
  else some (.into segment)

theorem spelledSteps_eq (p : Path) : p.spelledSteps = p.segments.filterMap step? := rfl

theorem step?_of_ne_nil {segment : Name} (nonempty : segment ≠ []) :
    ∃ step, step? segment = some step := by
  simp only [step?,nonempty,if_false]
  split
  · exact ⟨_,rfl⟩
  · split <;> exact ⟨_,rfl⟩

theorem filterMap_splitAt_intercalate {pieces : List Name}
    (free : ∀ piece ∈ pieces, slash ∉ piece) :
    (Text.splitAt slash (List.intercalate [slash] pieces)).filterMap step? =
      pieces.filterMap step? := by
  by_cases none : pieces = []
  · subst none
    rfl
  · rw [Text.splitAt_intercalate none free]

theorem spelledSteps_slash (octets : List UInt8) :
    (Path.mk (slash :: octets)).spelledSteps = (Text.splitAt slash octets).filterMap step? := by
  simp [spelledSteps_eq,segments,Text.splitAt,step?]

theorem spelledSteps_dot (octets : List UInt8) :
    (Path.mk (dot :: slash :: octets)).spelledSteps =
      .here :: (Text.splitAt slash octets).filterMap step? := by
  simp [spelledSteps_eq,segments,Text.splitAt,step?,show dot ≠ slash from by decide]

theorem octets_of_dotted {p : Path} (dotted : p.segments.head? = some [dot]) :
    p.octets = [dot] ∨ ∃ rest, p.octets = dot :: slash :: rest := by
  obtain ⟨octets⟩ := p
  cases octets with
  | nil => simp [segments,Text.splitAt] at dotted
  | cons c rest =>
    obtain ⟨piece,more,pieces⟩ := List.exists_cons_of_ne_nil (Text.splitAt_ne_nil slash rest)
    simp only [segments,Text.splitAt,pieces] at dotted
    split at dotted
    · simp at dotted
    · obtain ⟨rfl,rfl⟩ : c = dot ∧ piece = [] := by simpa using dotted
      cases rest with
      | nil => exact .inl rfl
      | cons d rest =>
        simp only [Text.splitAt] at pieces
        split at pieces
        · next same => exact .inr ⟨rest,by rw [same]⟩
        · split at pieces <;> simp at pieces

/-- The pieces that a parent is spelled by, a first part of those of the path: what is left out
holds a step, and what is kept does not end in an idle piece. -/
theorem parent?_pieces {p q : Path} (up : p.parent? = some q) :
    (p.origin = [dot] ∧ q = ⟨[]⟩) ∨
      ∃ kept more, Text.splitAt slash (p.octets.drop p.origin.length) = kept ++ more ∧
        more.filterMap step? ≠ [] ∧ (∀ piece, kept.getLast? = some piece → isIdle piece = false) ∧
        q = ⟨p.origin ++ List.intercalate [slash] kept⟩ := by
  simp only [parent?] at up
  split at up
  · next busy before found =>
    cases up
    refine .inr ⟨(before.dropWhile isIdle).reverse,
      (before.takeWhile isIdle).reverse ++ busy :: (p.segmentsBackward.takeWhile isIdle).reverse,
      ?_,?_,?_,rfl⟩
    · have pieces : p.segmentsBackward.reverse =
          before.reverse ++ busy :: (p.segmentsBackward.takeWhile isIdle).reverse := by
        have parts : p.segmentsBackward.takeWhile isIdle ++ busy :: before = p.segmentsBackward :=
          found ▸ List.takeWhile_append_dropWhile
        exact (congrArg List.reverse parts.symm).trans (by simp)
      rw [segmentsBackward,List.reverse_reverse] at pieces
      rw [pieces,← List.append_assoc,← List.reverse_append,List.takeWhile_append_dropWhile]
      rfl
    · have nonempty : busy ≠ [] := by
        have := List.head_dropWhile_not isIdle (l := p.segmentsBackward) (by simp [found])
        rintro rfl
        simp [found,isIdle] at this
      obtain ⟨step,spelled⟩ := step?_of_ne_nil nonempty
      simp [List.filterMap_append,spelled]
    · intro piece last
      rw [List.getLast?_reverse] at last
      have some : before.dropWhile isIdle ≠ [] := by rintro none; simp [none] at last
      rw [List.head?_eq_some_head some,Option.some.injEq] at last
      exact last ▸ by simpa using List.head_dropWhile_not isIdle some
  · split at up
    · next dotted =>
      cases up
      exact .inl ⟨dotted,rfl⟩
    · cases up

/-- A path starts from the root, from the dot of the current directory, or plainly. -/
theorem origin_cases (p : Path) :
    (p.origin = [slash] ∧ ∃ rest, p = ⟨slash :: rest⟩) ∨
      (p.origin = [dot] ∧ (p = ⟨[dot]⟩ ∨ ∃ rest, p = ⟨dot :: slash :: rest⟩)) ∨
      (p.origin = [] ∧ p.isAbsolute = false) := by
  by_cases absolute : p.isAbsolute = true
  · have head : p.octets.head? = some slash := by simpa [isAbsolute] using absolute
    obtain ⟨rest,octets⟩ := List.head?_eq_some_iff.mp head
    exact .inl ⟨by simp [origin,absolute],rest,by rw [← octets]⟩
  by_cases dotted : p.segments.head? = some [dot]
  · refine .inr (.inl ⟨by simp [origin,absolute,dotted],?_⟩)
    rcases octets_of_dotted dotted with octets | ⟨rest,octets⟩
    · exact .inl (by rw [← octets])
    · exact .inr ⟨rest,by rw [← octets]⟩
  · exact .inr (.inr ⟨by simp [origin,absolute,dotted],by simpa using absolute⟩)

theorem parent?_spelled {p q : Path} (up : p.parent? = some q) :
    q.isAbsolute = p.isAbsolute ∧ ∃ more, more ≠ [] ∧ p.spelledSteps = q.spelledSteps ++ more := by
  have unmixed : dot ≠ slash := by decide
  rcases parent?_pieces up with ⟨dotted,rfl⟩ | ⟨kept,more,pieces,stepped,ending,rfl⟩
  · rcases p.origin_cases with ⟨rooted,-⟩ | ⟨-,rfl | ⟨rest,rfl⟩⟩ | ⟨plain,-⟩
    · simp [dotted,unmixed] at rooted
    · exact ⟨rfl,_,by decide,rfl⟩
    · exact ⟨rfl,_,by simp,rfl⟩
    · simp [dotted] at plain
  have free : ∀ piece ∈ kept, slash ∉ piece := fun piece member =>
    Text.not_mem_of_mem_splitAt (pieces ▸ List.mem_append_left more member)
  have joined := filterMap_splitAt_intercalate free
  rcases p.origin_cases with ⟨rooted,rest,rfl⟩ | ⟨dotted,rfl | ⟨rest,rfl⟩⟩ | ⟨plain,relative⟩
  · rw [rooted] at pieces ⊢
    refine ⟨rfl,more.filterMap step?,stepped,?_⟩
    simp only [List.length_singleton,List.drop_one,List.tail_cons] at pieces
    simp [spelledSteps_slash,pieces,joined]
  · rw [dotted] at pieces
    have idle : (kept ++ more).filterMap step? = [] := pieces ▸ rfl
    exact absurd (List.append_eq_nil_iff.mp (List.filterMap_append ▸ idle)).2 stepped
  · rw [dotted] at pieces ⊢
    refine ⟨rfl,more.filterMap step?,stepped,?_⟩
    simp only [List.length_singleton,List.drop_one,List.tail_cons,Text.splitAt,if_true] at pieces
    cases kept with
    | nil =>
      cases pieces
      rfl
    | cons first kept =>
      obtain ⟨rfl,rest⟩ : [] = first ∧ _ := List.cons_eq_cons.mp pieces
      have some : kept ≠ [] := by
        rintro rfl
        simpa [isIdle] using ending [] rfl
      have apart : List.intercalate [slash] ([] :: kept) = slash :: List.intercalate [slash] kept :=
        Text.intercalate_append slash (List.cons_ne_nil [] []) some
      have joined : (Text.splitAt slash (List.intercalate [slash] kept)).filterMap step? =
          kept.filterMap step? := filterMap_splitAt_intercalate fun piece member =>
        free piece (List.mem_cons_of_mem _ member)
      rw [apart]
      simp [spelledSteps_dot,rest,joined]
  · rw [plain] at pieces ⊢
    have spelled : p.spelledSteps = (kept ++ more).filterMap step? := by
      rw [← pieces]
      rfl
    refine ⟨?_,more.filterMap step?,stepped,?_⟩
    · rw [relative]
      by_cases none : kept = []
      · subst none
        rfl
      · have some : more ≠ [] := by
          rintro rfl
          exact stepped rfl
        have whole := Text.intercalate_splitAt slash p.octets
        rw [show Text.splitAt slash p.octets = kept ++ more from pieces,
          Text.intercalate_append slash none some] at whole
        simp only [isAbsolute,decide_eq_false_iff_not,List.nil_append,← whole] at relative ⊢
        intro absolute
        exact relative (by simp [absolute])
    · simpa [spelled,spelledSteps_eq,segments] using joined.symm

theorem parent?_prefix {p q : Path} (up : p.parent? = some q) : q.octets <+: p.octets := by
  rcases parent?_pieces up with ⟨-,rfl⟩ | ⟨kept,more,pieces,stepped,-,rfl⟩
  · exact List.nil_prefix
  have origin : p.origin ++ p.octets.drop p.origin.length = p.octets := by
    rcases p.origin_cases with ⟨rooted,rest,rfl⟩ | ⟨dotted,rfl | ⟨rest,rfl⟩⟩ | ⟨plain,-⟩
    · rw [rooted]
      rfl
    · rw [dotted]
      rfl
    · rw [dotted]
      rfl
    · rw [plain]
      rfl
  have whole := Text.intercalate_splitAt slash (p.octets.drop p.origin.length)
  rw [pieces] at whole
  have some : more ≠ [] := by
    rintro rfl
    exact stepped rfl
  by_cases none : kept = []
  · subst none
    exact ⟨_,by simpa [List.intercalate] using origin⟩
  · rw [Text.intercalate_append slash none some] at whole
    refine ⟨slash :: List.intercalate [slash] more,?_⟩
    rw [List.append_assoc,whole,origin]

/-- The path `q` is the parent of `p`, or the parent of one above `p`. -/
inductive Above : Path → Path → Prop where
  | parent : p.parent? = some q → Above q p
  | further : Above r p → r.parent? = some q → Above q p

theorem Above.trans {p q r : Path} (first : Above r q) (second : Above q p) : Above r p := by
  induction first with
  | parent up => exact .further second up
  | further _ up ih => exact .further (ih second) up

theorem Above.spelled {p q : Path} (above : q.Above p) :
    q.isAbsolute = p.isAbsolute ∧ ∃ more, more ≠ [] ∧ p.spelledSteps = q.spelledSteps ++ more := by
  induction above with
  | parent up => exact parent?_spelled up
  | further _ up ih =>
    obtain ⟨start,more,some,spelled⟩ := ih
    obtain ⟨start',more',_,spelled'⟩ := parent?_spelled up
    exact ⟨start'.trans start,more' ++ more,by simp [some],by simp [spelled,spelled']⟩

theorem above_of_mem_go {n : Nat} {p q : Path} (member : q ∈ ancestors.go n p) : q.Above p := by
  induction n generalizing p with
  | zero => simp [ancestors.go] at member
  | succ n ih =>
    simp only [ancestors.go] at member
    split at member
    · simp at member
    · next up parent =>
      rcases List.mem_cons.mp member with rfl | member
      · exact .parent parent
      · exact (ih member).trans (.parent parent)

theorem above_of_mem_ancestors {p q : Path} (member : q ∈ p.ancestors) : q = p ∨ q.Above p := by
  rcases List.mem_cons.mp member with rfl | member
  · exact .inl rfl
  · exact .inr (above_of_mem_go member)

/-- A name that can stand between slashes. -/
structure IsName (name : String) : Prop where
  some : name ≠ ""
  slashless : '/' ∉ name.toList

def nameOctets (name : String) : Name := Text.Utf8.encode name.toList

theorem IsName.slash_not_mem (h : IsName name) : slash ∉ nameOctets name := by
  intro member
  obtain ⟨c,inside,octet⟩ := List.mem_flatMap.mp member
  exact h.slashless (Text.eq_slash_of_octet octet ▸ inside)

theorem IsName.octets_ne_nil (h : IsName name) : nameOctets name ≠ [] := by
  intro none
  cases chars : name.toList with
  | nil => exact h.some (String.toList_eq_nil_iff.mp chars)
  | cons c rest =>
    rw [nameOctets,chars,Text.Utf8.encode_cons] at none
    exact String.utf8EncodeChar_ne_nil (List.append_eq_nil_iff.mp none).1

theorem IsName.isAbsolute_eq_false (h : IsName name) : (ofString name).isAbsolute = false := by
  simp only [isAbsolute,decide_eq_false_iff_not]
  intro first
  exact h.slash_not_mem (List.mem_of_mem_head? first)

theorem nameOctets_injective {first second : String} (same : nameOctets first = nameOctets second) :
    first = second := by
  have octets : (String.ofList first.toList).toByteArray = (String.ofList second.toList).toByteArray := by
    simp only [String.toByteArray_ofList,List.utf8Encode]
    exact congrArg List.toByteArray same
  simpa using String.toByteArray_inj.mp octets

@[simp] theorem nameOctets_append (first second : String) :
    nameOctets (first ++ second) = nameOctets first ++ nameOctets second := by
  simp [nameOctets]

theorem step?_of_long {segment : Name} (long : 2 < segment.length) :
    step? segment = some (.into segment) := by
  unfold step?
  rw [if_neg,if_neg,if_neg]
  all_goals
    rintro rfl
    simp at long

/-- A path that puts a name below the directory. -/
def Inside (dir p : Path) : Prop := ∃ name, IsName name ∧ p = dir.joinName name

/-- What stands before a name that is put below the directory. -/
def lead (dir : Path) : List UInt8 :=
  if dir.isEmpty || dir.endsInSlash then dir.octets else dir.octets ++ [slash]

theorem joinName_octets (dir : Path) (h : IsName name) :
    (dir.joinName name).octets = dir.lead ++ nameOctets name := by
  have octets : (ofString name).octets = nameOctets name := rfl
  simp only [joinName,join,h.isAbsolute_eq_false,Bool.false_or,lead,endsInSlash]
  by_cases none : dir.isEmpty = true
  · have empty : dir.octets = [] := by simpa [isEmpty] using none
    simp [none,octets,empty]
  · simp only [none,Bool.false_eq_true,if_false,Bool.false_or,decide_eq_true_eq]
    split <;> simp [octets]

theorem lead_cases (dir : Path) :
    (dir.octets = [] ∧ dir.lead = []) ∨
      (∃ before, dir.octets = before ++ [slash] ∧ dir.lead = before ++ [slash]) ∨
      dir.octets ≠ [] ∧ dir.lead = dir.octets ++ [slash] := by
  by_cases none : dir.octets = []
  · exact .inl ⟨none,by simp [lead,isEmpty,none]⟩
  by_cases ended : dir.octets.getLast? = some slash
  · obtain ⟨before,octets⟩ := List.getLast?_eq_some_iff.mp ended
    exact .inr (.inl ⟨before,octets,by simp [lead,endsInSlash,octets]⟩)
  · exact .inr (.inr ⟨none,by simp [lead,isEmpty,endsInSlash,none,ended]⟩)

theorem joinName_injective {first second : String} (h : IsName first) (h' : IsName second)
    (same : dir.joinName first = dir.joinName second) : first = second := by
  have octets := congrArg Path.octets same
  rw [joinName_octets dir h,joinName_octets dir h',List.append_cancel_left_eq] at octets
  exact nameOctets_injective octets

theorem joinName_isAbsolute (h : IsName name) :
    (dir.joinName name).isAbsolute = dir.isAbsolute := by
  have relative := h.isAbsolute_eq_false
  rw [isAbsolute,joinName_octets dir h]
  rcases dir.lead_cases with ⟨none,lead⟩ | ⟨before,ended,lead⟩ | ⟨some,lead⟩
  · simp only [isAbsolute,none,lead] at relative ⊢
    exact relative
  · cases before <;> simp [isAbsolute,lead,ended]
  · obtain ⟨first,rest,shape⟩ := List.exists_cons_of_ne_nil some
    simp [isAbsolute,lead,shape]

theorem joinName_endsInSlash (h : IsName name) : (dir.joinName name).endsInSlash = false := by
  obtain ⟨front,last,name⟩ := (List.eq_nil_or_concat (nameOctets name)).resolve_left h.octets_ne_nil
  have other : last ≠ slash := by
    rintro rfl
    exact h.slash_not_mem (by simp [name])
  simp [endsInSlash,joinName_octets dir h,name,← List.append_assoc,other]

theorem joinName_spelledSteps (h : IsName name) :
    (dir.joinName name).spelledSteps = dir.spelledSteps ++ (step? (nameOctets name)).toList := by
  have alone : (Text.splitAt slash (nameOctets name)).filterMap step? =
      (step? (nameOctets name)).toList := by
    rw [Text.splitAt_of_not_mem h.slash_not_mem]
    cases step : step? (nameOctets name) <;> simp [step]
  simp only [spelledSteps_eq,segments,joinName_octets dir h]
  rcases dir.lead_cases with ⟨none,lead⟩ | ⟨before,ended,lead⟩ | ⟨some,lead⟩
  · simp [lead,none,alone,Text.splitAt,step?]
  · simp [lead,ended,alone,Text.splitAt_append,Text.splitAt,step?]
  · simp [lead,alone,Text.splitAt_append]

end Path
end ReleaseInstaller
