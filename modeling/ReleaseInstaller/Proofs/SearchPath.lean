import Mathlib.Data.List.Perm.Basic
import Mathlib.Logic.Relation
import ReleaseInstaller.Proofs.Lowercase
import ReleaseInstaller.Proofs.Path
import ReleaseInstaller.Proofs.Trim
import ReleaseInstaller.SearchPath

/-! Spellings of a directory. Whether a search path lists a directory depends neither on how the directory
and the entries are spelled nor on how the entries are arranged; and where nothing is left to spelling but
slashes at the end, an entry lists a directory only if it equals it up to those. -/
namespace ReleaseInstaller.SearchPath

open Text

variable {os : Os} {s t more : List Char} {entries entries' : List (List Char)}

/-- The text without the slashes that it ends in. -/
def stem (s : List Char) : List Char := dropTrailing (· = '/') s

theorem dropTrailingSlashes_eq (s : List Char) :
    dropTrailingSlashes s = if stem s = [] ∧ s ≠ [] then ['/'] else stem s := by
  unfold dropTrailingSlashes
  split
  · next rest empty => rw [if_pos ⟨empty,by simp⟩]
  · next other =>
    rw [stem]
    split
    · next slashes =>
      -- a text of slashes alone starts with one
      obtain ⟨empty,some⟩ := slashes
      obtain ⟨c,rest,rfl⟩ := List.exists_cons_of_ne_nil some
      obtain ⟨dropped,parts,all⟩ := exists_dropTrailing (· = '/') (c :: rest)
      rw [empty,List.nil_append] at parts
      obtain rfl : c = '/' := by simpa using all c (parts ▸ List.mem_cons_self)
      exact absurd empty (other rest rfl)
    · rfl

theorem dropTrailingSlashes_eq_iff (some : s ≠ []) (some' : t ≠ []) :
    dropTrailingSlashes s = dropTrailingSlashes t ↔ stem s = stem t := by
  have slash (s : List Char) : stem s ≠ ['/'] := fun same => by
    have last : ∀ c ∈ (stem s).getLast?, decide (c = '/') = false := getLast?_dropTrailing
    rw [same] at last
    simpa using last '/' rfl
  simp only [dropTrailingSlashes_eq,some,some',ne_eq,not_false_eq_true,and_true]
  split <;> split <;> grind

theorem stem_append (slashes : ∀ c ∈ more, c = '/') (s : List Char) : stem (s ++ more) = stem s :=
  dropTrailing_append_of_all (by simpa using slashes) s

theorem dropDrive_append (some : s ≠ []) (colon : ∀ c ∈ more.head?, c ≠ ':') :
    dropDrive (s ++ more) = dropDrive s ++ more := by
  match s with
  | [letter] =>
    cases more with
    | nil => rfl
    | cons c more => simp [dropDrive,colon c rfl]
  | letter :: c :: rest =>
    by_cases drive : c = ':'
    · subst drive
      simp only [List.cons_append,dropDrive]
      split <;> rfl
    · simp [dropDrive,drive]

theorem dropDrive_ne_nil (some : s ≠ []) (bare : ¬ ∃ letter, isLetter letter = true ∧ s = [letter,':']) :
    dropDrive s ≠ [] := by
  unfold dropDrive
  split
  · next letter rest =>
    split
    · next isLetter =>
      rintro rfl
      exact bare ⟨letter,isLetter,rfl⟩
    · simp
  · exact some

theorem forwardSlash_eq {c : Char} (separator : c = '/' ∨ c = '\\') : forwardSlash c = '/' := by
  rcases separator with rfl | rfl <;> decide

/-- What does not tell the two slashes apart does not tell a character from its normal form. -/
theorem forwardSlash_kept {α : Type} {see : Char → α} (both : see '/' = see '\\') (c : Char) :
    see (forwardSlash c) = see c := by
  unfold forwardSlash
  split
  · next same => rw [same,both]
  · rfl

theorem isBlank_forwardSlash (c : Char) : isBlank (forwardSlash c) = isBlank c :=
  forwardSlash_kept (by decide) c

theorem isLetter_forwardSlash (c : Char) : isLetter (forwardSlash c) = isLetter c :=
  forwardSlash_kept (by decide) c

theorem forwardSlash_eq_colon (c : Char) : forwardSlash c = ':' ↔ c = ':' :=
  Eq.to_iff (@forwardSlash_kept Prop (· = ':') (by decide) c)

section Map

variable {g : Char → Char} (letter : ∀ c, isLetter (g c) = isLetter c) (colon : ∀ c, g c = ':' ↔ c = ':')
  (slash : ∀ c, g c = '/' ↔ c = '/')

include letter colon in
theorem dropDrive_map (s : List Char) : dropDrive (s.map g) = (dropDrive s).map g := by
  match s with
  | [] | [_] => simp [dropDrive]
  | first :: c :: rest =>
    by_cases drive : c = ':'
    · subst drive
      simp only [List.map_cons,(colon ':').mpr rfl,dropDrive,letter]
      split <;> simp [(colon ':').mpr rfl]
    · simp [dropDrive,drive,colon]

include slash in
theorem dropTrailingSlashes_map (s : List Char) :
    dropTrailingSlashes (s.map g) = (dropTrailingSlashes s).map g := by
  have same : (fun c => decide (c = '/')) ∘ g = fun c => decide (c = '/') :=
    funext fun c => by simp [slash]
  have shortened : stem (s.map g) = (stem s).map g := by rw [stem,dropTrailing_map,same,stem]
  simp only [dropTrailingSlashes_eq,shortened,List.map_eq_nil_iff,ne_eq]
  split
  · simp [(slash '/').mpr rfl]
  · rfl

end Map

theorem normalChars_map_forwardSlash (os : Os) (s : List Char) :
    normalChars os (s.map forwardSlash) = normalChars os s := by
  have twice : forwardSlash ∘ forwardSlash = forwardSlash := funext fun c => by
    by_cases same : c = '\\' <;> simp [forwardSlash,same]
  simp only [normalChars,trim_map isBlank_forwardSlash,List.map_map,twice]

theorem normalChars_map_toLower (s : List Char) :
    normalChars .windows (s.map Char.toLower) = normalChars .windows s := by
  have swap : forwardSlash ∘ Char.toLower = Char.toLower ∘ forwardSlash := funext fun c => by
    by_cases same : c = '\\'
    · subst same
      decide
    · have other : c.toLower ≠ '\\' := fun lower =>
        same ((toLower_eq_iff (by decide)).mp lower)
      simp [forwardSlash,same,other]
  have colon (c : Char) : c.toLower = ':' ↔ c = ':' := toLower_eq_iff (by decide)
  have slash (c : Char) : c.toLower = '/' ↔ c = '/' := toLower_eq_iff (by decide)
  have pushed : dropTrailingSlashes (dropDrive ((trim (s.map Char.toLower)).map forwardSlash)) =
      (dropTrailingSlashes (dropDrive ((trim s).map forwardSlash))).map Char.toLower := by
    rw [trim_map isBlank_toLower,List.map_map,swap,← List.map_map,dropDrive_map isLetter_toLower colon,
      dropTrailingSlashes_map slash]
  rw [normalChars,normalChars,pushed,if_pos (by decide),if_pos (by decide),lower_map_toLower]

def IsBareDrive (s : List Char) : Prop := ∃ letter, isLetter letter = true ∧ s = [letter,':']

/-- One text is turned into the other by a change of spelling: blanks are put around it, a backslash
becomes a slash, separators are put behind a trimmed text that is neither empty nor a bare drive, the drive
letter becomes another, or on Windows a letter changes its case. -/
inductive Respells (os : Os) : List Char → List Char → Prop where
  | blanks (s before after : List Char) : (∀ c ∈ before, isBlank c = true) →
      (∀ c ∈ after, isBlank c = true) → Respells os s (before ++ (s ++ after))
  | slash (before after : List Char) : Respells os (before ++ '\\' :: after) (before ++ '/' :: after)
  | separators (s more : List Char) : Trimmed s → s ≠ [] → ¬ IsBareDrive s →
      (∀ c ∈ more, c = '/' ∨ c = '\\') → Respells os s (s ++ more)
  | drive (letter other : Char) (rest : List Char) : isLetter letter = true → isLetter other = true →
      Respells os (letter :: ':' :: rest) (other :: ':' :: rest)
  | letterCase (c d : Char) (before after : List Char) : os = .windows → c.toLower = d.toLower →
      Respells os (before ++ c :: after) (before ++ d :: after)

theorem dropTrailingSlashes_separators (some : s ≠ []) (bare : ¬ IsBareDrive s)
    (separators : ∀ c ∈ more, c = '/' ∨ c = '\\') :
    dropTrailingSlashes (dropDrive ((s ++ more).map forwardSlash)) =
      dropTrailingSlashes (dropDrive (s.map forwardSlash)) := by
  have slashes : ∀ c ∈ more.map forwardSlash, c = '/' := by
    simpa using fun c member => forwardSlash_eq (separators c member)
  have colon : ∀ c ∈ (more.map forwardSlash).head?, c ≠ ':' := fun c first => by
    rw [slashes c (List.mem_of_mem_head? first)]
    decide
  have kept : dropDrive (s.map forwardSlash) ≠ [] := by
    rw [dropDrive_map isLetter_forwardSlash forwardSlash_eq_colon]
    simpa using dropDrive_ne_nil some bare
  rw [List.map_append,dropDrive_append (by simpa using some) colon,
    dropTrailingSlashes_eq_iff (by simp [kept]) kept,stem_append slashes]

theorem dropDrive_trim {letter : Char} (isLetter : isLetter letter = true) (rest : List Char) :
    dropDrive ((trim (letter :: ':' :: rest)).map forwardSlash) =
      (dropTrailing isBlank rest).map forwardSlash := by
  have trimmed : trim (letter :: ':' :: rest) = letter :: ':' :: dropTrailing isBlank rest := by
    rw [trim,List.dropWhile_cons_of_neg (by simp [unblank_of_isLetter isLetter])]
    exact dropTrailing_append_cons (by decide) [letter] rest
  rw [trimmed,dropDrive_map isLetter_forwardSlash forwardSlash_eq_colon,dropDrive,if_pos isLetter]

theorem Respells.normalChars (respells : Respells os s t) :
    SearchPath.normalChars os s = SearchPath.normalChars os t ∧ isAllBlank s = isAllBlank t := by
  cases respells with
  | blanks _ before after blank blank' =>
    simp only [SearchPath.normalChars,isAllBlank_eq,trim_around blank blank',and_self]
  | slash before after =>
    have same : (before ++ '\\' :: after).map forwardSlash = (before ++ '/' :: after).map forwardSlash := by
      simp [forwardSlash]
    refine ⟨?_,?_⟩
    · rw [← normalChars_map_forwardSlash,same,normalChars_map_forwardSlash]
    · rw [← isAllBlank_map isBlank_forwardSlash,same,isAllBlank_map isBlank_forwardSlash]
  | separators _ more trimmed some bare separators =>
    have unblank : ∀ c ∈ more, isBlank c = false := fun c added => by
      rcases separators c added with rfl | rfl <;> decide
    have trimmed' := trimmed.append some unblank
    refine ⟨?_,?_⟩
    · simp only [SearchPath.normalChars,trimmed.trim,trimmed'.trim,
        dropTrailingSlashes_separators some bare separators]
    · rw [isAllBlank_eq,isAllBlank_eq,trimmed.trim,trimmed'.trim,List.isEmpty_eq_false_iff.mpr some,
        List.isEmpty_eq_false_iff.mpr (by simp [some])]
  | drive letter other rest isLetter isLetter' =>
    refine ⟨?_,?_⟩
    · simp only [SearchPath.normalChars,dropDrive_trim isLetter,dropDrive_trim isLetter']
    · simp [isAllBlank,show isBlank ':' = false by decide]
  | letterCase c d before after windows lower =>
    subst windows
    have same : (before ++ c :: after).map Char.toLower = (before ++ d :: after).map Char.toLower := by
      simp [lower]
    refine ⟨?_,?_⟩
    · rw [← normalChars_map_toLower,same,normalChars_map_toLower]
    · rw [← isAllBlank_map isBlank_toLower,same,isAllBlank_map isBlank_toLower]

/-- What every step leaves alone is left alone by any number of steps, taken forwards or backwards. -/
theorem kept_of_eqvGen {α β : Type} {step : α → α → Prop} {see : α → β} {a b : α}
    (kept : ∀ a b, step a b → see a = see b) (steps : Relation.EqvGen step a b) : see a = see b := by
  induction steps with
  | rel a b taken => exact kept a b taken
  | refl => rfl
  | symm _ _ _ ih => exact ih.symm
  | trans _ _ _ _ _ ih ih' => exact ih.trans ih'

def ofEntries (os : Os) (entries : List (List Char)) : String :=
  String.ofList (List.intercalate [os.pathSeparator] entries)

theorem exists_ofEntries (os : Os) (path : String) :
    ∃ entries, (∀ entry ∈ entries, os.pathSeparator ∉ entry) ∧ ofEntries os entries = path :=
  ⟨splitAt os.pathSeparator path.toList,fun _ => not_mem_of_mem_splitAt,
    by rw [ofEntries,intercalate_splitAt,String.ofList_toList]⟩

/-- The entry lists a directory that is spelled so. -/
def matchesEntry (os : Os) (directory entry : List Char) : Bool :=
  !isAllBlank entry && normalChars os entry = normalChars os directory

theorem lists_ofEntries (free : ∀ entry ∈ entries, os.pathSeparator ∉ entry) (directory : Path) :
    lists (ofEntries os entries) directory os =
      entries.any (matchesEntry os directory.display.toList) := by
  by_cases none : entries = []
  · subst none
    rfl
  · rw [lists,SearchPath.entries,ofEntries,String.toList_ofList,splitAt_intercalate none free,List.any_filter]
    rfl

/-- The entries are put in another order, or one of them is repeated, a blank one is added, or one of them is
respelled. -/
inductive Rearranges (os : Os) : List (List Char) → List (List Char) → Prop where
  | permuted (entries entries' : List (List Char)) : entries.Perm entries' → Rearranges os entries entries'
  | repeated (entry : List Char) (entries : List (List Char)) : entry ∈ entries →
      Rearranges os entries (entry :: entries)
  | blank (entry : List Char) (entries : List (List Char)) : isAllBlank entry = true →
      Rearranges os entries (entry :: entries)
  | respelled (entry entry' : List Char) (entries : List (List Char)) : Respells os entry entry' →
      Rearranges os (entry :: entries) (entry' :: entries)

theorem Rearranges.any (rearranges : Rearranges os entries entries') (directory : List Char) :
    entries.any (matchesEntry os directory) = entries'.any (matchesEntry os directory) := by
  cases rearranges with
  | permuted _ _ same => exact same.any_eq
  | repeated entry _ member =>
    rw [List.any_cons,Bool.eq_iff_iff,Bool.or_eq_true,or_iff_right_of_imp]
    exact fun found => List.any_eq_true.mpr ⟨entry,member,found⟩
  | blank entry _ blank => simp [matchesEntry,blank]
  | respelled entry entry' entries respells =>
    obtain ⟨same,blank⟩ := respells.normalChars
    simp [matchesEntry,same,blank]

/-- A text whose spelling leaves nothing open but the slashes at its end. -/
structure Plain (s : List Char) : Prop where
  some : isAllBlank s = false
  trimmed : Trimmed s
  forward : '\\' ∉ s
  driveless : ¬ ∃ letter rest, isLetter letter = true ∧ s = letter :: ':' :: rest

/-- The texts differ in nothing but how many slashes they end in. -/
def SameButSlashes (s t : List Char) : Prop :=
  ∃ base m n, s = base ++ List.replicate m '/' ∧ t = base ++ List.replicate n '/'

theorem stem_eq_iff : stem s = stem t ↔ SameButSlashes s t := by
  constructor
  · intro same
    obtain ⟨more,parts,slashes⟩ := exists_dropTrailing (· = '/') s
    obtain ⟨more',parts',slashes'⟩ := exists_dropTrailing (· = '/') t
    refine ⟨stem s,more.length,more'.length,?_,?_⟩
    · rw [← List.eq_replicate_of_mem (by simpa using slashes),stem,← parts]
    · rw [same,← List.eq_replicate_of_mem (by simpa using slashes'),stem,← parts']
  · rintro ⟨base,m,n,rfl,rfl⟩
    rw [stem_append fun _ => List.eq_of_mem_replicate,stem_append fun _ => List.eq_of_mem_replicate]

theorem Plain.normalChars (plain : Plain s) (other : os ≠ .windows) :
    SearchPath.normalChars os s = dropTrailingSlashes s := by
  have forward : s.map forwardSlash = s := by
    refine (List.map_congr_left fun c member => ?_).trans (List.map_id s)
    exact if_neg fun (same : c = '\\') => plain.forward (same ▸ member)
  have driveless : dropDrive s = s := by
    unfold dropDrive
    split
    · next letter rest => exact if_neg fun isLetter => plain.driveless ⟨letter,rest,isLetter,rfl⟩
    · rfl
  have caseKept : ¬ os.isWindows = true := by simpa [Os.isWindows] using other
  rw [SearchPath.normalChars,plain.trimmed.trim,forward,driveless,if_neg caseKept]

theorem Plain.matchesEntry_iff (plain : Plain s) (plain' : Plain t) (other : os ≠ .windows) :
    matchesEntry os t s = true ↔ SameButSlashes s t := by
  have some {s : List Char} (plain : Plain s) : s ≠ [] := by
    rintro rfl
    simpa [isAllBlank] using plain.some
  simp only [matchesEntry,plain.some,plain.normalChars other,plain'.normalChars other,Bool.not_false,
    Bool.true_and,decide_eq_true_eq]
  rw [dropTrailingSlashes_eq_iff (some plain) (some plain'),stem_eq_iff]

/-- A search path lists a directory however its entries are arranged, and however they and the directory are
spelled. Off Windows, among plain texts, it lists a directory exactly if one of its entries is the directory
up to slashes at the end. Every search path is made of such entries. -/
theorem lists_spelled (free : ∀ entry ∈ entries, os.pathSeparator ∉ entry) (directory : Path) :
    (∀ entries' other, (∀ entry ∈ entries', os.pathSeparator ∉ entry) →
      Relation.EqvGen (Rearranges os) entries entries' →
      Relation.EqvGen (Respells os) directory.display.toList other.display.toList →
      lists (ofEntries os entries') other os = lists (ofEntries os entries) directory os) ∧
    (os ≠ .windows → Plain directory.display.toList → (∀ entry ∈ entries, Plain entry) →
      (lists (ofEntries os entries) directory os = true ↔
        ∃ entry ∈ entries, SameButSlashes entry directory.display.toList)) ∧
    ∀ path, ∃ parts, (∀ entry ∈ parts, os.pathSeparator ∉ entry) ∧ ofEntries os parts = path := by
  rw [lists_ofEntries free]
  refine ⟨fun entries' other free' rearranged respelled => ?_,fun unix plain plains => ?_,
    exists_ofEntries os⟩
  · have same : normalChars os directory.display.toList = normalChars os other.display.toList :=
      kept_of_eqvGen (fun _ _ respells => respells.normalChars.1) respelled
    have alike : matchesEntry os other.display.toList = matchesEntry os directory.display.toList :=
      funext fun entry => by rw [matchesEntry,matchesEntry,same]
    rw [lists_ofEntries free',alike]
    exact (kept_of_eqvGen (fun _ _ rearranges => rearranges.any _) rearranged).symm
  · rw [List.any_eq_true]
    exact exists_congr fun entry => and_congr_right fun member =>
      (plains entry member).matchesEntry_iff plain unix

theorem lists_spelled_tools :
    lists (ofEntries .windows [" ".toList,"D:/Tools\\".toList,"C:\\Windows".toList])
      (.ofString "d:\\tools") .windows = true ∧
    lists (ofEntries .linux ["/bin".toList,"/opt/Tools//".toList]) (.ofString "/opt/Tools") .linux = true := by
  let windows := "C:\\Windows".toList
  have rearranged : Relation.EqvGen (Rearranges .windows) [windows,"c:/Tools".toList]
      [" ".toList,"D:/Tools\\".toList,windows] := by
    have swapped : Rearranges .windows [windows,"c:/Tools".toList] ["c:/Tools".toList,windows] :=
      .permuted _ _ (.swap ..)
    have moved : Rearranges .windows ["c:/Tools".toList,windows] ["D:/Tools".toList,windows] :=
      .respelled _ _ _ (.drive 'c' 'D' "/Tools".toList (by decide) (by decide))
    have ended : Rearranges .windows ["D:/Tools".toList,windows] ["D:/Tools\\".toList,windows] := by
      refine .respelled _ _ _ (.separators "D:/Tools".toList ['\\'] (by decide) (by decide) ?_ ?_)
      · rintro ⟨letter,-,same⟩
        cases same
      · simp
    have spaced : Rearranges .windows ["D:/Tools\\".toList,windows]
        [" ".toList,"D:/Tools\\".toList,windows] :=
      .blank _ _ (by decide)
    exact .trans _ _ _ (.rel _ _ swapped) (.trans _ _ _ (.rel _ _ moved) (.trans _ _ _ (.rel _ _ ended)
      (.rel _ _ spaced)))
  have respelled : Relation.EqvGen (Respells .windows) "c:/Tools".toList "d:\\tools".toList := by
    have moved : Respells .windows "c:/Tools".toList "d:/Tools".toList :=
      .drive 'c' 'd' "/Tools".toList (by decide) (by decide)
    have cased : Respells .windows "d:/Tools".toList "d:/tools".toList :=
      .letterCase 'T' 't' "d:/".toList "ools".toList rfl (by decide)
    have turned : Respells .windows "d:\\tools".toList "d:/tools".toList := .slash "d:".toList "tools".toList
    exact .trans _ _ _ (.rel _ _ moved) (.trans _ _ _ (.rel _ _ cased) (.symm _ _ (.rel _ _ turned)))
  have plain : ∀ entry ∈ ["/bin".toList,"/opt/Tools//".toList,"/opt/Tools".toList], Plain entry := by
    intro entry member
    simp only [List.mem_cons,List.not_mem_nil,or_false] at member
    rcases member with rfl | rfl | rfl <;>
      exact ⟨by decide,by decide,by decide,fun ⟨letter,rest,_,same⟩ => nomatch same⟩
  have free : ∀ entry ∈ ["/bin".toList,"/opt/Tools//".toList], Os.linux.pathSeparator ∉ entry := by decide
  have shown : (Path.ofString "/opt/Tools").display.toList = "/opt/Tools".toList := by decide +kernel
  have free' : ∀ entry ∈ [windows,"c:/Tools".toList], Os.windows.pathSeparator ∉ entry := by decide +kernel
  obtain ⟨alike,-⟩ := lists_spelled free' (.ofString "c:/Tools")
  obtain ⟨-,exact,-⟩ := lists_spelled free (.ofString "/opt/Tools")
  refine ⟨?_,?_⟩
  · exact (alike _ (.ofString "d:\\tools") (by decide +kernel) rearranged respelled).trans (by decide +kernel)
  · rw [shown] at exact
    refine (exact (by decide) (plain _ (by simp)) fun entry member => plain entry ?_).mpr
      ⟨"/opt/Tools//".toList,by simp,"/opt/Tools".toList,2,0,rfl,rfl⟩
    exact List.mem_append_left _ member

example : lists "/bin:/opt/Tools" (.ofString "/opt/tools") .linux = false ∧
    lists "/bin:/opt/Tools" (.ofString "/opt") .linux = false ∧
    lists "::" (.ofString "/") .linux = false := by
  decide +kernel

end ReleaseInstaller.SearchPath
