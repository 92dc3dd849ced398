import ReleaseInstaller.Proofs.ScriptPath
import ReleaseInstaller.Proofs.VersionText

/-! The line that a Windows script is run by. What was joined from words is split into the same words, so
the script's arguments always come back; the script itself is not quoted and comes back where its path
needs no quotes. -/
namespace ReleaseInstaller

open Text

variable {s t : List Char} {words more : List (List Char)} {c : Char}

namespace ShellWords

/-- At the end of a line or before a space the text is read as these words, and what follows the space is
read as a line of its own. -/
structure Reads (s : List Char) (words : List (List Char)) : Prop where
  alone : split? s = some words
  before : ∀ rest, split? (s ++ ' ' :: rest) = (split? rest).map (words ++ ·)

theorem Reads.append (first : Reads s words) (second : Reads t more) :
    Reads (s ++ ' ' :: t) (words ++ more) := by
  constructor
  · rw [first.before,second.alone,Option.map_some]
  · intro rest
    rw [List.append_assoc,List.cons_append,first.before,second.before,Option.map_map]
    simp [Function.comp_def]

theorem reads_of_opens {word : List Char}
    (opens : ∀ rest, splitFrom .between [] (s ++ rest) = splitFrom .word word.reverse rest) :
    Reads s [word] := by
  constructor
  · rw [split?,← List.append_nil s,opens]
    simp [splitFrom]
  · intro rest
    rw [split?,opens,splitFrom,if_pos (by decide),List.reverse_reverse]
    rfl

theorem splitFrom_quoteInner (word inner rest : List Char) :
    splitFrom .single word (quoteInner inner ++ '\'' :: rest) =
      splitFrom .word (inner.reverse ++ word) rest := by
  induction inner generalizing word with
  | nil => simp [quoteInner,splitFrom]
  | cons c inner ih =>
    rw [quoteInner]
    split
    · next quote =>
      subst quote
      -- the quotes are closed, the escaped one is read, and they are opened again
      simpa [splitFrom,isGap] using ih ('\'' :: word)
    · next other => simpa [splitFrom,other] using ih (c :: word)

/-- What a bare word cannot hold: it would end there, or the character would not be read as itself. -/
def isBreak (c : Char) : Bool := isGap c || c = '\\' || c = '\'' || c = '"'

/-- A word that is read as it stands. -/
structure Bare (s : List Char) : Prop where
  some : s ≠ []
  chars : ∀ c ∈ s, isBreak c = false
  first : s.head? ≠ .some '#'

theorem splitFrom_bare (word : List Char) (chars : ∀ c ∈ s, isBreak c = false) (rest : List Char) :
    splitFrom .word word (s ++ rest) = splitFrom .word (s.reverse ++ word) rest := by
  induction s generalizing word with
  | nil => rfl
  | cons c s ih =>
    obtain ⟨plain,chars⟩ := List.forall_mem_cons.mp chars
    simp only [isBreak,Bool.or_eq_false_iff,decide_eq_false_iff_not] at plain
    simpa [splitFrom,plain] using ih (c :: word) chars

theorem Bare.reads (bare : Bare s) : Reads s [s] := by
  refine reads_of_opens fun rest => ?_
  obtain ⟨c,s,rfl⟩ := List.exists_cons_of_ne_nil bare.some
  obtain ⟨plain,chars⟩ := List.forall_mem_cons.mp bare.chars
  have number : c ≠ '#' := by simpa using bare.first
  simp only [isBreak,Bool.or_eq_false_iff,decide_eq_false_iff_not] at plain
  simpa [splitFrom,plain,number] using splitFrom_bare [c] chars rest

theorem isSpecial_of_isBreak (breaks : isBreak c = true) : isSpecial c = true := by
  simp only [isBreak,isGap,Bool.or_eq_true,decide_eq_true_eq] at breaks
  rcases breaks with ((((rfl | rfl) | rfl) | rfl) | rfl) | rfl <;> decide

theorem reads_quote (word : List Char) : Reads (quote word) [word] := by
  rw [quote]
  split
  · next empty =>
    obtain rfl : word = [] := List.isEmpty_iff.mp empty
    exact reads_of_opens fun rest => by simp [splitFrom,isGap]
  split
  · refine reads_of_opens fun rest => ?_
    simpa [splitFrom,isGap] using splitFrom_quoteInner [] word rest
  · next some plain =>
    have plain : ∀ c ∈ word, isSpecial c = false := by simpa using plain
    refine Bare.reads ⟨by simpa using some,fun c member => ?_,fun first => ?_⟩
    · cases breaks : isBreak c with
      | false => rfl
      | true => simpa [plain c member] using isSpecial_of_isBreak breaks
    · exact absurd (plain '#' (List.mem_of_mem_head? first)) (by decide)

theorem reads_join (some : words ≠ []) : Reads (join words) words := by
  induction words with
  | nil => exact absurd rfl some
  | cons word more ih =>
    cases more with
    | nil => simpa [join,List.intercalate] using reads_quote word
    | cons next more =>
      have shape : join (word :: next :: more) = quote word ++ ' ' :: join (next :: more) := by
        simp [join,List.intercalate]
      rw [shape]
      exact (reads_quote word).append (ih (by simp))

/-- The word is quoted, or ends in something else than a blank. -/
def EndsFirmly (word : List Char) : Prop :=
  word.any isSpecial = true ∨ ∀ c ∈ word.getLast?, isBlank c = false

theorem EndsFirmly.quote {word : List Char} (firm : EndsFirmly word) :
    ∃ front c, quote word = front ++ [c] ∧ isBlank c = false := by
  have mark : isBlank '\'' = false := by decide
  rw [ShellWords.quote]
  split
  · exact ⟨['\''],'\'',rfl,mark⟩
  split
  · exact ⟨'\'' :: quoteInner word,'\'',rfl,mark⟩
  · next some plain =>
    obtain ⟨front,c,rfl⟩ := (List.eq_nil_or_concat word).resolve_left (by simpa using some)
    rw [List.concat_eq_append] at firm plain ⊢
    exact ⟨front,c,rfl,firm.resolve_left plain c (by simp)⟩

theorem join_concat (front : List (List Char)) (word : List Char) :
    ∃ before, join (front ++ [word]) = before ++ quote word := by
  cases front with
  | nil => exact ⟨[],by simp [join,List.intercalate]⟩
  | cons first front =>
    refine ⟨join (first :: front) ++ [' '],?_⟩
    rw [join,List.map_append,intercalate_append ' ' (by simp) (by simp)]
    simp [join,List.intercalate]

theorem mem_quoteInner {word : List Char} (member : c ∈ quoteInner word) :
    c = '\'' ∨ c = '\\' ∨ c ∈ word := by
  induction word with
  | nil => cases member
  | cons d word ih =>
    rw [quoteInner] at member
    split at member <;> simp only [List.mem_cons] at member ⊢ <;> grind

theorem mem_join (member : c ∈ join words) :
    c = ' ' ∨ c = '\'' ∨ c = '\\' ∨ ∃ word ∈ words, c ∈ word := by
  rcases mem_intercalate member with space | ⟨quoted,inside,here⟩
  · exact .inl space
  obtain ⟨word,listed,rfl⟩ := List.mem_map.mp inside
  have parts : c = '\'' ∨ c = '\\' ∨ c ∈ word := by
    rw [quote] at here
    split at here
    · exact .inl (by simpa using here)
    split at here
    · rcases List.mem_append.mp here with front | mark
      · rcases List.mem_cons.mp front with mark | inner
        · exact .inl mark
        · exact mem_quoteInner inner
      · exact .inl (List.mem_singleton.mp mark)
    · exact .inr (.inr here)
  exact .inr (parts.imp_right (.imp_right fun inside => ⟨word,listed,inside⟩))

end ShellWords

namespace Text

structure Solid (s : List Char) : Prop where
  first : ∃ c rest, s = c :: rest ∧ isBlank c = false
  last : ∃ front c, s = front ++ [c] ∧ isBlank c = false

theorem Solid.trimmed (solid : Solid s) : Trimmed s := by
  obtain ⟨c,rest,starts,first⟩ := solid.first
  obtain ⟨front,d,ends,last⟩ := solid.last
  exact ⟨by simp [starts,first],by simp [ends,last]⟩

theorem Solid.trim_append (solid : Solid s) (blank : ∀ c ∈ t, isBlank c = true) : trim (s ++ t) = s := by
  rw [← List.nil_append (s ++ t),trim_around (by simp) blank,solid.trimmed.trim]

end Text

namespace Command

open ShellWords

variable {script : Path} {arguments : List String} {text : List Char}

theorem solid_of_isWindowsScript (windows : isWindowsScript script = true)
    (spelled : script.octets = Utf8.encode text) (starts : ∀ c ∈ text.head?, isBlank c = false) :
    Solid text := by
  have some := ne_nil_of_isWindowsScript windows spelled
  obtain ⟨front,last,ends⟩ := (List.eq_nil_or_concat text).resolve_left some
  rw [List.concat_eq_append] at ends
  obtain ⟨c,rest,rfl⟩ := List.exists_cons_of_ne_nil some
  exact ⟨⟨c,rest,rfl,starts c rfl⟩,⟨front,last,ends,last_of_isWindowsScript windows (ends ▸ spelled)⟩⟩

theorem display_of_spelled (spelled : script.octets = Utf8.encode text) : script.display.toList = text := by
  rw [Path.display,OsText.toStringLossy,spelled,Utf8.decodeLossy_of_decode? (Utf8.decode?_encode text),
    String.toList_ofList]

/-- Nothing is trimmed but the space behind a script without arguments. -/
theorem toList_scriptLine (spelled : script.octets = Utf8.encode text) (solid : Solid text)
    (firm : ∀ word ∈ arguments.getLast?, EndsFirmly word.toList) :
    (scriptLine script arguments).toList =
      if arguments = [] then text else text ++ ' ' :: join (arguments.map String.toList) := by
  rw [scriptLine,String.toList_ofList,display_of_spelled spelled]
  rcases List.eq_nil_or_concat arguments with rfl | ⟨front,word,rfl⟩
  · exact solid.trim_append (by simp [join,List.intercalate]; decide)
  · rw [List.concat_eq_append] at firm ⊢
    obtain ⟨before,shape⟩ := join_concat (front.map String.toList) word.toList
    obtain ⟨inner,d,ends,last⟩ := (firm word (by simp)).quote
    obtain ⟨c,rest,starts,first⟩ := solid.first
    rw [if_neg (by simp),List.map_append,List.map_singleton,shape,ends]
    have whole : Solid (text ++ ' ' :: (before ++ (inner ++ [d]))) :=
      ⟨⟨c,_,by rw [starts]; rfl,first⟩,⟨text ++ ' ' :: (before ++ inner),d,by simp,last⟩⟩
    simpa using whole.trim_append (t := []) (by simp)

theorem holdsNul_eq_false {word : String} : holdsNul word = false ↔ Char.ofNat 0 ∉ word.toList := by
  simp [holdsNul]

theorem shownWord_scriptLine (spelled : script.octets = Utf8.encode text) (solid : Solid text)
    (firm : ∀ word ∈ arguments.getLast?, EndsFirmly word.toList)
    (nulFree : ∀ word ∈ String.ofList text :: arguments, holdsNul word = false) :
    shownWord (scriptLine script arguments) = scriptLine script arguments := by
  simp only [holdsNul_eq_false,List.forall_mem_cons,String.toList_ofList] at nulFree
  obtain ⟨scriptFree,free⟩ := nulFree
  have lineFree : Char.ofNat 0 ∉ text ++ ' ' :: join (arguments.map String.toList) := fun member => by
    rcases List.mem_append.mp member with here | behind
    · exact scriptFree here
    rcases List.mem_cons.mp behind with space | joined
    · exact absurd space (by decide)
    rcases mem_join joined with space | mark | escape | ⟨word,listed,here⟩
    · exact absurd space (by decide)
    · exact absurd mark (by decide)
    · exact absurd escape (by decide)
    · obtain ⟨argument,given,rfl⟩ := List.mem_map.mp listed
      exact free argument given here
  have shown : holdsNul (scriptLine script arguments) = false := by
    rw [holdsNul_eq_false,toList_scriptLine spelled solid firm]
    split
    · exact scriptFree
    · exact lineFree
  rw [shownWord,if_neg (by simp [shown])]

/-- Whatever words a Windows script's path is read as, its arguments are read behind them, each as it was
given; a path that needs no quotes is one word. -/
theorem words_of_script {files : Files} {searchPath? : Option OsText} {name : String}
    (windows : isWindowsScript (resolve files searchPath? name) = true)
    (spelled : (resolve files searchPath? name).octets = Utf8.encode text)
    (starts : ∀ c ∈ text.head?, isBlank c = false)
    (firm : ∀ word ∈ arguments.getLast?, EndsFirmly word.toList)
    (nulFree : ∀ word ∈ String.ofList text :: arguments, holdsNul word = false) :
    ∃ line, ofWords? files searchPath? (name :: arguments) =
        some ⟨(find? files searchPath? "pwsh").getD (.ofString "powershell"),["-Command",line]⟩ ∧
      (∀ words, Reads text words → split? line.toList = some (words ++ arguments.map String.toList)) ∧
      (Bare text → split? line.toList = some (text :: arguments.map String.toList)) := by
  have solid : Solid text := solid_of_isWindowsScript windows spelled starts
  have splits : ∀ words, Reads text words →
      split? (scriptLine (resolve files searchPath? name) arguments).toList =
        some (words ++ arguments.map String.toList) := by
    intro words reads
    rw [toList_scriptLine spelled solid firm]
    split
    · next none => simpa [none] using reads.alone
    · next given =>
      have behind : Reads (join (arguments.map String.toList)) (arguments.map String.toList) :=
        reads_join (by simpa using given)
      exact (reads.append behind).alone
  refine ⟨_,?_,splits,fun bare => splits [text] bare.reads⟩
  simp only [ofWords?,windows,if_true,shownWord_scriptLine spelled solid firm nulFree]

theorem words_of_script_quoted :
    ∃ line, ofWords? ⟨[],[]⟩ none ["./tools/npm.CMD","a b","it's","","$x"] =
        some ⟨.ofString "powershell",["-Command",line]⟩ ∧
      split? line.toList = some ["./tools/npm.CMD".toList,"a b".toList,"it's".toList,[],"$x".toList] := by
  have windows : isWindowsScript (resolve ⟨[],[]⟩ none "./tools/npm.CMD") = true := by decide +kernel
  have starts : ∀ c ∈ "./tools/npm.CMD".toList.head?, isBlank c = false := by
    rintro c same
    cases same
    decide
  have firm : ∀ word ∈ ["a b","it's","","$x"].getLast?, EndsFirmly word.toList := by
    rintro word same
    cases same
    exact .inl (by decide)
  obtain ⟨line,command,-,splits⟩ := words_of_script windows rfl starts firm (by decide)
  have plain : ("./tools/npm.CMD".toList.all fun c => ! isBreak c) = true := by decide
  exact ⟨line,command,splits ⟨by decide,by simpa using plain,by decide⟩⟩

/-- The path of a script that is found on the search path falls into two words at a space, and a last
argument without quotes loses the no-break space that it ends in. -/
theorem words_of_script_lost :
    let files : Files := ⟨[([Path.nameOctets "my tools"],.directory),
      ([Path.nameOctets "my tools",Path.nameOctets "npm.cmd"],.file (.data []) 0o755)],[]⟩
    resolve files (some (.ofString "/my tools")) "npm.cmd" = .ofString "/my tools/npm.cmd" ∧
    (ofWords? files (some (.ofString "/my tools")) ["npm.cmd","bin","-g"]).map (·.arguments) =
      some ["-Command","/my tools/npm.cmd bin -g"] ∧
    split? "/my tools/npm.cmd bin -g".toList =
      some ["/my".toList,"tools/npm.cmd".toList,"bin".toList,"-g".toList] ∧
    (ofWords? ⟨[],[]⟩ none ["./npm.cmd","a\u00a0"]).map (·.arguments) =
      some ["-Command","./npm.cmd a"] := by decide +kernel

end Command
end ReleaseInstaller
