import ReleaseInstaller.Proofs.Folding
import ReleaseInstaller.Proofs.Words
import ReleaseInstaller.UpdateSignature

/-! The signature of an update, read word by word. The pattern that a command line has to contain is
met exactly when three of its words follow one another at any distance: one that holds a manager's
marker on its own, one that asks for an update, and the name of the package. -/
namespace ReleaseInstaller

open Text

namespace UpdateSignature

variable {package s front gap rest : List Char} {before : Option Char} {next : List Char → Bool}

/-- A manager's marker, letters of either case. -/
def IsMarker (found : List Char) : Prop := Agrees "npm".toList found ∨ Agrees "yarn".toList found

/-- The marker stands in the word with no word character directly before or after it. -/
def Marks (word : List Char) : Prop :=
  ∃ front found back, word = front ++ found ++ back ∧ IsMarker found ∧
    (∀ c, front.getLast? = some c → isWordChar c = false) ∧
    ∀ c, back.head? = some c → isWordChar c = false

def Asks (word : List Char) : Prop :=
  Agrees "up".toList word ∨ Agrees "update".toList word ∨ Agrees "upgrade".toList word

/-- Three words in this order, with any number of others between them. -/
def Shows (package : List Char) (words : List (List Char)) : Prop :=
  ∃ k i j : Nat, k < i ∧ i < j ∧ (∃ w, words[k]? = some w ∧ Marks w) ∧
    (∃ w, words[i]? = some w ∧ Asks w) ∧ ∃ w, words[j]? = some w ∧ Agrees package w

theorem unblank_of_word {w : List Char} (word : ∀ c ∈ w, isWordChar c = true) : Unblank w :=
  fun c member => isBlank_of_isWordChar (word c member)

theorem IsMarker.word {found : List Char} (marker : IsMarker found) :
    found ≠ [] ∧ Unblank found ∧ ∀ c ∈ found, isWordChar c = true := by
  rcases marker with agrees | agrees
  all_goals
    have word := agrees.word (by decide)
    exact ⟨agrees.ne_nil (by decide),unblank_of_word word,word⟩

theorem Asks.solid {word : List Char} (asks : Asks word) : word ≠ [] ∧ Unblank word := by
  rcases asks with agrees | agrees | agrees <;>
    exact ⟨agrees.ne_nil (by decide),unblank_of_word (agrees.word (by decide))⟩

theorem acrossGap_iff :
    acrossGap next s = true ↔
      ∃ gap b rest, s = gap ++ b :: rest ∧ '\n' ∉ gap ∧ isBlank b = true ∧ next rest = true := by
  induction s with
  | nil => simp [acrossGap]
  | cons c s ih =>
    simp only [acrossGap,Bool.or_eq_true,Bool.and_eq_true,bne_iff_ne,ih]
    constructor
    · rintro (⟨blank,accepted⟩ | ⟨inner,gap,b,rest,rfl,free,blank,accepted⟩)
      · exact ⟨[],c,s,rfl,List.not_mem_nil,blank,accepted⟩
      · exact ⟨c :: gap,b,rest,rfl,by simpa using ⟨Ne.symm inner,free⟩,blank,accepted⟩
    · rintro ⟨_ | ⟨d,gap⟩,b,rest,split,free,blank,accepted⟩
      · obtain ⟨rfl,rfl⟩ := List.cons.inj split
        exact .inl ⟨blank,accepted⟩
      · obtain ⟨rfl,rfl⟩ := List.cons.inj split
        obtain ⟨inner,free⟩ : '\n' ≠ c ∧ '\n' ∉ gap := by simpa using free
        exact .inr ⟨inner.symm,gap,b,rest,rfl,free,blank,accepted⟩

theorem namesPackage_iff :
    namesPackage package s = true ↔
      ∃ named rest, s = named ++ rest ∧ Agrees package named ∧ Breaks rest := by
  constructor
  · intro accepted
    unfold namesPackage at accepted
    split at accepted
    · next found =>
      obtain ⟨split,agrees⟩ := splitFolded?_eq_some.mp found
      exact ⟨_,[],split,agrees,breaks_nil⟩
    · next found =>
      obtain ⟨split,agrees⟩ := splitFolded?_eq_some.mp found
      exact ⟨_,_,split,agrees,breaks_cons.mpr accepted⟩
    · cases accepted
  · rintro ⟨named,rest,split,agrees,breaks⟩
    rw [namesPackage,splitFolded?_eq_some.mpr ⟨split,agrees⟩]
    cases rest with
    | nil => rfl
    | cons c rest => exact breaks_cons.mp breaks

theorem asksWith_iff (word : String) :
    asksWith package word s = true ↔
      ∃ asking b rest, s = asking ++ b :: rest ∧ Agrees word.toList asking ∧ isBlank b = true ∧
        afterUpdateWord package rest = true := by
  constructor
  · intro accepted
    unfold asksWith at accepted
    split at accepted
    · next found =>
      obtain ⟨split,agrees⟩ := splitFolded?_eq_some.mp found
      obtain ⟨blank,accepted⟩ := Bool.and_eq_true_iff.mp accepted
      exact ⟨_,_,_,split,agrees,blank,accepted⟩
    · cases accepted
  · rintro ⟨asking,b,rest,split,agrees,blank,accepted⟩
    rw [asksWith,splitFolded?_eq_some.mpr ⟨split,agrees⟩]
    exact Bool.and_eq_true_iff.mpr ⟨blank,accepted⟩

theorem asksForUpdate_iff :
    asksForUpdate package s = true ↔
      ∃ asking b rest, s = asking ++ b :: rest ∧ Asks asking ∧ isBlank b = true ∧
        afterUpdateWord package rest = true := by
  have listed : updateWords = ["up","update","upgrade"] := by decide
  simp only [asksForUpdate,listed,List.any_cons,List.any_nil,Bool.or_false,Bool.or_eq_true,
    asksWith_iff,Asks,or_and_right,and_or_left,exists_or]

theorem isWordBoundary_before {after : Option Char} (word : after.any isWordChar = true) :
    isWordBoundary before after = true ↔ ∀ c, before = some c → isWordChar c = false := by
  cases before <;> simp [isWordBoundary,word]

theorem isWordBoundary_after {after : Option Char} (word : before.any isWordChar = true) :
    isWordBoundary before after = true ↔ ∀ c, after = some c → isWordChar c = false := by
  cases after <;> simp [isWordBoundary,word]

theorem IsMarker.starts {found : List Char} (marker : IsMarker found) (rest : List Char) :
    isWordBoundary before (found ++ rest).head? = true ↔
      ∀ c, before = some c → isWordChar c = false := by
  obtain ⟨nonempty,-,word⟩ := marker.word
  obtain ⟨c,found,rfl⟩ := List.exists_cons_of_ne_nil nonempty
  refine isWordBoundary_before ?_
  simpa using word c List.mem_cons_self

theorem IsMarker.ends {found : List Char} (marker : IsMarker found) {after : Option Char} :
    isWordBoundary found.getLast? after = true ↔ ∀ c, after = some c → isWordChar c = false := by
  obtain ⟨nonempty,-,word⟩ := marker.word
  refine isWordBoundary_after ?_
  rw [List.getLast?_eq_some_getLast nonempty]
  exact word _ (List.getLast_mem nonempty)

theorem marksUpdate_iff (literal : String)
    (marker : ∀ {found}, Agrees literal.toList found → IsMarker found) :
    marksUpdate package literal s = true ↔
      ∃ found rest, s = found ++ rest ∧ Agrees literal.toList found ∧
        (∀ c, rest.head? = some c → isWordChar c = false) ∧
        acrossGap (asksForUpdate package) rest = true := by
  constructor
  · intro accepted
    unfold marksUpdate at accepted
    split at accepted
    · next found =>
      obtain ⟨split,agrees⟩ := splitFolded?_eq_some.mp found
      obtain ⟨ends,accepted⟩ := Bool.and_eq_true_iff.mp accepted
      exact ⟨_,_,split,agrees,(marker agrees).ends.mp ends,accepted⟩
    · cases accepted
  · rintro ⟨found,rest,split,agrees,ends,accepted⟩
    rw [marksUpdate,splitFolded?_eq_some.mpr ⟨split,agrees⟩]
    exact Bool.and_eq_true_iff.mpr ⟨(marker agrees).ends.mpr ends,accepted⟩

theorem startsAt_iff :
    startsAt package before s = true ↔
      ∃ found rest, s = found ++ rest ∧ IsMarker found ∧
        (∀ c, before = some c → isWordChar c = false) ∧
        (∀ c, rest.head? = some c → isWordChar c = false) ∧
        acrossGap (asksForUpdate package) rest = true := by
  simp only [startsAt,PackageManager.all,List.any_cons,List.any_nil,Bool.or_false,
    Bool.and_eq_true,Bool.or_eq_true]
  refine (and_congr_right' (or_congr (marksUpdate_iff "npm" .inl) (marksUpdate_iff "yarn" .inr))).trans ?_
  constructor
  · rintro ⟨starts,⟨found,rest,rfl,agrees,ends,accepted⟩ | ⟨found,rest,rfl,agrees,ends,accepted⟩⟩
    · have marker : IsMarker found := .inl agrees
      exact ⟨found,rest,rfl,marker,(marker.starts rest).mp starts,ends,accepted⟩
    · have marker : IsMarker found := .inr agrees
      exact ⟨found,rest,rfl,marker,(marker.starts rest).mp starts,ends,accepted⟩
  · rintro ⟨found,rest,rfl,marker,starts,ends,accepted⟩
    refine ⟨(marker.starts rest).mpr starts,?_⟩
    rcases marker with agrees | agrees
    · exact .inl ⟨found,rest,rfl,agrees,ends,accepted⟩
    · exact .inr ⟨found,rest,rfl,agrees,ends,accepted⟩

theorem occursAfter_iff :
    occursAfter package before s = true ↔
      ∃ front rest, s = front ++ rest ∧ startsAt package (front.getLast?.or before) rest = true := by
  induction s generalizing before with
  | nil => simp [occursAfter]
  | cons c s ih =>
    simp only [occursAfter,Bool.or_eq_true,ih]
    constructor
    · rintro (here | ⟨front,rest,rfl,later⟩)
      · exact ⟨[],c :: s,rfl,here⟩
      · refine ⟨c :: front,rest,rfl,?_⟩
        cases ending : front.getLast? <;> simpa [List.getLast?_cons,ending] using later
    · rintro ⟨_ | ⟨d,front⟩,rest,split,accepted⟩
      · rw [List.nil_append] at split
        exact .inl (split ▸ accepted)
      · obtain ⟨rfl,rfl⟩ := List.cons.inj split
        refine .inr ⟨front,rest,rfl,?_⟩
        cases ending : front.getLast? <;> simpa [List.getLast?_cons,ending] using accepted

variable {asking named : List Char} {middle after : List (List Char)}

theorem words_of_afterUpdateWord (solid : Unblank package) (nonempty : package ≠ [])
    (accepted : afterUpdateWord package s = true) :
    ∃ middle named after, words s = middle ++ named :: after ∧ Agrees package named := by
  have first {s : List Char} (accepted : namesPackage package s = true) :
      ∃ named after, words s = named :: after ∧ Agrees package named := by
    obtain ⟨named,rest,rfl,agrees,breaks⟩ := namesPackage_iff.mp accepted
    exact ⟨named,words rest,
      words_append_of_breaks (agrees.unblank solid) (agrees.ne_nil nonempty) breaks,agrees⟩
  rcases (Bool.or_eq_true ..).mp accepted with accepted | accepted
  · obtain ⟨named,after,found,agrees⟩ := first accepted
    exact ⟨[],named,after,found,agrees⟩
  · obtain ⟨gap,b,rest,rfl,-,blank,accepted⟩ := acrossGap_iff.mp accepted
    obtain ⟨named,after,found,agrees⟩ := first accepted
    exact ⟨words gap,named,after,by rw [words_append_blank blank,found],agrees⟩

theorem words_of_asksForUpdate (solid : Unblank package) (nonempty : package ≠ [])
    (accepted : asksForUpdate package s = true) :
    ∃ asking middle named after, words s = asking :: middle ++ named :: after ∧ Asks asking ∧
      Agrees package named := by
  obtain ⟨asking,b,rest,rfl,asks,blank,accepted⟩ := asksForUpdate_iff.mp accepted
  obtain ⟨middle,named,after,found,agrees⟩ := words_of_afterUpdateWord solid nonempty accepted
  refine ⟨asking,middle,named,after,?_,asks,agrees⟩
  rw [words_append_blank blank,words_of_unblank asks.solid.2,if_neg asks.solid.1,found]
  rfl

/-- A text before a word that does not start with it ends in a blank. -/
theorem concat_of_broken (broken : Broken front) (nonempty : front ≠ []) :
    ∃ gap b, front = gap ++ [b] ∧ isBlank b = true := by
  obtain ⟨gap,b,rfl⟩ := List.eq_nil_or_concat front |>.resolve_left nonempty
  exact ⟨gap,b,by simp,by simpa using broken⟩

theorem afterUpdateWord_of_words (found : words s = middle ++ named :: after)
    (agrees : Agrees package named) (line : '\n' ∉ s) : afterUpdateWord package s = true := by
  obtain ⟨front,rest,rfl,-,-,broken,breaks,-⟩ := exists_of_words found
  have accepted : namesPackage package (named ++ rest) = true :=
    namesPackage_iff.mpr ⟨named,rest,rfl,agrees,breaks⟩
  refine (Bool.or_eq_true ..).mpr ?_
  by_cases empty : front = []
  · subst empty
    exact .inl accepted
  · obtain ⟨gap,b,rfl,blank⟩ := concat_of_broken broken empty
    refine .inr (acrossGap_iff.mpr ⟨gap,b,named ++ rest,by simp,?_,blank,accepted⟩)
    simp only [List.mem_append,not_or] at line
    exact line.1.1.1

theorem acrossGap_of_words (around : words s = middle ++ asking :: after) (breaks : Breaks s)
    (asks : Asks asking) (line : '\n' ∉ s)
    (later : ∃ between named rest, after = between ++ named :: rest ∧ Agrees package named) :
    acrossGap (asksForUpdate package) s = true := by
  obtain ⟨front,rest,rfl,-,rfl,broken,ends,word,nonempty⟩ := exists_of_words around
  obtain ⟨between,named,tail,found,agrees⟩ := later
  have moved : front ≠ [] := by
    rintro rfl
    obtain ⟨c,asking,rfl⟩ := List.exists_cons_of_ne_nil nonempty
    have solid := word c List.mem_cons_self
    rw [breaks c rfl] at solid
    cases solid
  obtain ⟨gap,b,rfl,blank⟩ := concat_of_broken broken moved
  cases rest with
  | nil => simp at found
  | cons c rest =>
    have separate : words (c :: rest) = words rest := words_append_blank (breaks_cons.mp ends) [] rest
    simp only [List.mem_append,List.mem_cons,not_or] at line
    obtain ⟨⟨⟨free,-⟩,-⟩,-,free'⟩ := line
    have accepted := afterUpdateWord_of_words (separate.symm.trans found) agrees free'
    exact acrossGap_iff.mpr ⟨gap,b,asking ++ c :: rest,by simp,free,blank,
      asksForUpdate_iff.mpr ⟨asking,c,rest,rfl,asks,breaks_cons.mp ends,accepted⟩⟩

theorem acrossGap_append (free : '\n' ∉ front) (accepted : acrossGap next s = true) :
    acrossGap next (front ++ s) = true := by
  obtain ⟨gap,b,rest,rfl,line,blank,accepted⟩ := acrossGap_iff.mp accepted
  exact acrossGap_iff.mpr ⟨front ++ gap,b,rest,by simp,by simpa using ⟨free,line⟩,blank,accepted⟩

theorem split_of_getElem? {ws : List (List Char)} {k : Nat} {w : List Char} (here : ws[k]? = some w) :
    ∃ front rest, ws = front ++ w :: rest ∧ front.length = k := by
  obtain ⟨inside,rfl⟩ := List.getElem?_eq_some_iff.mp here
  refine ⟨ws.take k,ws.drop (k + 1),?_,List.length_take_of_le (by omega)⟩
  rw [← List.drop_eq_getElem_cons inside,List.take_append_drop]

theorem getElem?_behind (front rest : List (List Char)) (w : List Char) (n : Nat) :
    (front ++ w :: rest)[front.length + (n + 1)]? = rest[n]? := by
  rw [List.getElem?_append_right (by omega),Nat.add_sub_cancel_left,List.getElem?_cons_succ]

theorem shows_iff {ws : List (List Char)} :
    Shows package ws ↔
      ∃ before marked between asking middle named after,
        ws = before ++ marked :: (between ++ asking :: (middle ++ named :: after)) ∧
          Marks marked ∧ Asks asking ∧ Agrees package named := by
  constructor
  · rintro ⟨k,i,j,first,second,⟨marked,atK,marks⟩,⟨asking,atI,asks⟩,named,atJ,agrees⟩
    obtain ⟨before,rest,rfl,rfl⟩ := split_of_getElem? atK
    obtain ⟨n,rfl⟩ := Nat.exists_eq_add_of_lt first
    rw [Nat.add_assoc,getElem?_behind] at atI
    obtain ⟨between,rest,rfl,rfl⟩ := split_of_getElem? atI
    obtain ⟨n,rfl⟩ : ∃ n, j = before.length + (between.length + (n + 1) + 1) :=
      ⟨j - (before.length + between.length + 2),by omega⟩
    rw [getElem?_behind,getElem?_behind] at atJ
    obtain ⟨middle,after,rfl,-⟩ := split_of_getElem? atJ
    exact ⟨before,marked,between,asking,middle,named,after,rfl,marks,asks,agrees⟩
  · rintro ⟨before,marked,between,asking,middle,named,after,rfl,marks,asks,agrees⟩
    refine ⟨before.length,before.length + (between.length + 1),
      before.length + (between.length + (middle.length + 1) + 1),by omega,by omega,
      ⟨marked,by simp,marks⟩,⟨asking,?_,asks⟩,named,?_,agrees⟩
    · rw [getElem?_behind]
      simp
    · rw [getElem?_behind,getElem?_behind]
      simp

/-- A place where the signature starts lies in a word that holds the marker. -/
theorem shows_of_occursAfter (solid : Unblank package) (nonempty : package ≠ [])
    (accepted : occursAfter package none s = true) : Shows package (words s) := by
  obtain ⟨front,start,rfl,begins⟩ := occursAfter_iff.mp accepted
  obtain ⟨found,rest,rfl,marker,starts,ends,across⟩ := startsAt_iff.mp begins
  obtain ⟨gap,b,tail,rfl,-,blank,asked⟩ := acrossGap_iff.mp across
  obtain ⟨asking,middle,named,after,later,asks,agrees⟩ := words_of_asksForUpdate solid nonempty asked
  obtain ⟨before,f,g,between,around,last,head⟩ :=
    words_around marker.word.2.1 marker.word.1 front gap
  refine shows_iff.mpr ⟨before,f ++ found ++ g,between,asking,middle,named,after,?_,
    ⟨f,found,g,rfl,marker,?_,?_⟩,asks,agrees⟩
  · rw [← List.append_assoc,← List.append_assoc,words_append_blank blank,later,around]
    simp
  · intro c ending
    refine starts c ?_
    obtain ⟨front,rfl⟩ := last
    simp [List.getLast?_append,ending]
  · intro c first
    refine ends c ?_
    obtain ⟨gap,rfl⟩ := head
    simp [List.head?_append,first]

/-- The signature starts at the marker. A word that begins or ends with it has a blank, or an end of
the text, on that side. -/
theorem occursAfter_of_shows (line : '\n' ∉ s) (shows : Shows package (words s)) :
    occursAfter package none s = true := by
  obtain ⟨before,marked,between,asking,middle,named,after,around,⟨f,found,g,rfl,marker,starts,ends⟩,
    asks,agrees⟩ := shows_iff.mp shows
  obtain ⟨front,rest,rfl,-,later,broken,breaks,-⟩ := exists_of_words around
  simp only [List.mem_append,not_or] at line
  obtain ⟨⟨-,⟨-,-⟩,free⟩,free'⟩ := line
  have across := acrossGap_append free
    (acrossGap_of_words later breaks asks free' ⟨middle,named,after,rfl,agrees⟩)
  refine occursAfter_iff.mpr ⟨front ++ f,found ++ (g ++ rest),by simp,
    startsAt_iff.mpr ⟨found,g ++ rest,rfl,marker,?_,?_,across⟩⟩
  · intro c ending
    cases last : f.getLast? with
    | some d =>
      obtain rfl : d = c := by simpa [List.getLast?_append,last] using ending
      exact starts d last
    | none =>
      refine not_isWordChar_of_isBlank (broken c ?_)
      simpa [List.getLast?_append,last] using ending
  · intro c first
    cases head : g.head? with
    | some d =>
      obtain rfl : d = c := by simpa [List.head?_append,head] using first
      exact ends d head
    | none =>
      refine not_isWordChar_of_isBlank (breaks c ?_)
      simpa [List.head?_append,head] using first

theorem occursIn_iff {packageName commandLine : String} (nonempty : packageName.toList ≠ [])
    (solid : Unblank packageName.toList) (line : '\n' ∉ commandLine.toList) :
    occursIn packageName commandLine = true ↔
      Shows packageName.toList (words commandLine.toList) :=
  ⟨shows_of_occursAfter solid nonempty,occursAfter_of_shows line⟩

end UpdateSignature

open UpdateSignature

/-- An update is automated exactly when the words of the second of two ancestors show it: a manager's
marker on its own in one, an update word later, and the package's name after that. -/
theorem isAutomatedUpdate_iff {package : String} {ancestors : List RunningProcess}
    (nonempty : package ≠ "") (solid : ∀ c ∈ package.toList, isBlank c = false)
    (line : ∀ parent grandparent, ancestors = [parent,grandparent] →
      '\n' ∉ grandparent.commandLine.toList) :
    isAutomatedUpdate package ancestors = true ↔
      ∃ parent grandparent, ancestors = [parent,grandparent] ∧
        Shows package.toList (words grandparent.commandLine.toList) := by
  have named : package.toList ≠ [] := fun empty => nonempty (String.toList_eq_nil_iff.mp empty)
  constructor
  · intro automated
    unfold isAutomatedUpdate at automated
    split at automated
    · next parent grandparent =>
      exact ⟨parent,grandparent,rfl,
        (occursIn_iff named solid (line parent grandparent rfl)).mp automated⟩
    · cases automated
  · rintro ⟨parent,grandparent,rfl,shows⟩
    exact (occursIn_iff named solid (line parent grandparent rfl)).mpr shows

theorem isAutomatedUpdate_upgraded :
    ∃ parent grandparent : RunningProcess,
      [⟨7,some 6,"sh -c postinstall"⟩,⟨6,none,"node /opt/Yarn.js global UPGRADE a+b --silent a+b"⟩] =
          [parent,grandparent] ∧
        Shows "a+b".toList (words grandparent.commandLine.toList) :=
  (isAutomatedUpdate_iff (by decide) (by simp [isBlank,inRanges,blankRanges,CodeRange.contains]) (by
    rintro parent grandparent same
    cases same
    decide +kernel)).mp (by decide +kernel)

example :
    UpdateSignature.occursIn "devspace" "pnpm update devspace" = false ∧
      UpdateSignature.occursIn "devspace" "npm update devspace-cli" = false := by
  decide +kernel

end ReleaseInstaller
