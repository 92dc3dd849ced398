import ReleaseInstaller.Json.Comments
import ReleaseInstaller.Proofs.JsonCanonical

/-! A value that is written is read again. Nothing in the written text is taken for a comment, each
part of it is read up to where the next one starts, and members come back in the order they had. -/
namespace ReleaseInstaller.Json

open Text (isDigit isAsciiBlank)

variable {c : Char} {s t rest : List Char} {v : Value} {items : List Value}
  {members : List (List Char × Value)} {depth level : Nat}

/-- No number in the value has a fraction or is out of range. -/
inductive Integral : Value → Prop
  | null : Integral .null
  | bool (value : Bool) : Integral (.bool value)
  | integer (n : Int) : Integral (.number (.integer n))
  | string (text : List Char) : Integral (.string text)
  | array (items : List Value) : (∀ item ∈ items, Integral item) → Integral (.array items)
  | object (members : List (List Char × Value)) :
      (∀ member ∈ members, Integral member.2) → Integral (.object members)

def isOpening (c : Char) : Bool :=
  c = 'n' || c = 't' || c = 'f' || c = '"' || c = '[' || c = '{' || c = '-' || isDigit c

/-- The text opens a value. -/
def Opens (t : List Char) : Prop := ∃ c more, t = c :: more ∧ isOpening c = true

theorem isOpening_of_number (first : c = '-' ∨ isDigit c = true) : isOpening c = true := by
  rcases first with rfl | digit
  · rfl
  · simp [isOpening,digit]

theorem intText_opens (n : Int) : ∃ c more, intText n = c :: more ∧ (c = '-' ∨ isDigit c = true) := by
  unfold intText
  split
  · exact ⟨'-',_,rfl,.inl rfl⟩
  · obtain ⟨d,more,digits⟩ := exists_cons_natText n.natAbs
    exact ⟨d,more,digits,.inr (isDigit_of_mem_natText (digits ▸ List.mem_cons_self))⟩

theorem textAt_opens (integral : Integral v) (level : Nat) :
    Opens (v.textAt level) := by
  cases integral with
  | null => exact ⟨'n',_,rfl,rfl⟩
  | bool value => cases value <;> exact ⟨_,_,rfl,rfl⟩
  | integer n =>
    obtain ⟨c,more,text,first⟩ := intText_opens n
    exact ⟨c,more,text,isOpening_of_number first⟩
  | string text => exact ⟨'"',_,rfl,rfl⟩
  | array items => cases items <;> exact ⟨'[',_,rfl,rfl⟩
  | object members =>
    cases members with
    | nil => exact ⟨'{',_,rfl,rfl⟩
    | cons member members => exact ⟨'{',_,rfl,rfl⟩

theorem not_between (opening : isOpening c = true) :
    isJsonBlank c = false ∧ isAsciiBlank c = false ∧ isClosing c = false ∧ c ≠ '/' ∧ c ≠ '#' ∧
      c ≠ ',' ∧ c ≠ ']' ∧ c ≠ '}' := by
  have apart : ∀ d ∈ [' ','\n','\r','\t','\x0c','}',']','/','#',','], isOpening d = false := by
    simp [isOpening,isDigit]
  have other : c ∉ [' ','\n','\r','\t','\x0c','}',']','/','#',','] := fun member =>
    absurd opening (by simp [apart c member])
  simp only [List.mem_cons,List.not_mem_nil,or_false,not_or] at other
  simp [isJsonBlank,isAsciiBlank,isClosing,other]

theorem escape_plain (quote : c ≠ '"') (backslash : c ≠ '\\') (settled : Bool) (s : List Char) :
    blankFrom .string settled (c :: s) = (c :: ·) <$> blankFrom .string false s := by
  simp [blankFrom,quote,backslash]

/-- In a string an escaped character is passed over as it is. -/
theorem blankFrom_escape (c : Char) (settled : Bool) (s : List Char) :
    blankFrom .string settled (escape c ++ s) = (escape c ++ ·) <$> blankFrom .string false s := by
  have pair (d : Char) : blankFrom .string settled ('\\' :: d :: s) =
      ('\\' :: d :: ·) <$> blankFrom .string false s := by
    simp [blankFrom,Function.comp_def]
  unfold escape
  split
  · exact pair '"'
  split
  · exact pair '\\'
  split
  · exact pair 'b'
  split
  · exact pair 'f'
  split
  · exact pair 'n'
  split
  · exact pair 'r'
  split
  · exact pair 't'
  split
  · next control =>
    have digits : ∀ n : Fin 32, hexDigit (n / 16) ≠ '"' ∧ hexDigit (n / 16) ≠ '\\' ∧
        hexDigit (n % 16) ≠ '"' ∧ hexDigit (n % 16) ≠ '\\' := by decide
    obtain ⟨quote,backslash,quote',backslash'⟩ := digits ⟨c.toNat,control⟩
    simp only at quote backslash quote' backslash'
    simp [blankFrom,quote,backslash,quote',backslash',Function.comp_def]
  · next quote backslash _ _ _ _ _ _ => exact escape_plain quote backslash settled s

/-- A text that stays as it is, be a comma before it settled or not, and that settles none after
it. -/
def Stays (t : List Char) : Prop := ∀ settled rest,
  blankFrom .top settled (t ++ rest) = (t ++ ·) <$> blankFrom .top false rest

/-- A text that stays as it is where no comma before it is settled. -/
def Continues (t : List Char) : Prop := ∀ rest,
  blankFrom .top false (t ++ rest) = (t ++ ·) <$> blankFrom .top false rest

theorem Stays.continues (stays : Stays t) : Continues t := stays false

theorem Continues.append (first : Continues s) (second : Continues t) : Continues (s ++ t) := by
  intro rest
  rw [List.append_assoc,first,second]
  simp [Function.comp_def]

theorem Stays.append (first : Stays s) (second : Continues t) : Stays (s ++ t) := by
  intro settled rest
  rw [List.append_assoc,first,second]
  simp [Function.comp_def]

theorem continues_nil : Continues [] := by
  intro rest
  simp

theorem stays_plain (plain : c ≠ '"' ∧ c ≠ '/' ∧ c ≠ '#' ∧ isAsciiBlank c = false ∧ c ≠ ',') :
    Stays [c] := by
  intro settled rest
  simp [blankFrom,plain]

theorem stays_of_plain (t : List Char) (some : t ≠ [])
    (plain : ∀ c ∈ t, c ≠ '"' ∧ c ≠ '/' ∧ c ≠ '#' ∧ isAsciiBlank c = false ∧ c ≠ ',') : Stays t := by
  induction t with
  | nil => exact absurd rfl some
  | cons c t ih =>
    obtain ⟨first,plain⟩ := List.forall_mem_cons.mp plain
    cases t with
    | nil => exact stays_plain first
    | cons d t => exact (stays_plain first).append (ih (by simp) plain).continues

theorem stays_quoted (text : List Char) : Stays (quoted text) := by
  have inside (settled : Bool) (rest : List Char) :
      blankFrom .string settled (text.flatMap escape ++ '"' :: rest) =
        (text.flatMap escape ++ '"' :: ·) <$> blankFrom .top false rest := by
    induction text generalizing settled with
    | nil => simp [blankFrom]
    | cons c text ih =>
      rw [List.flatMap_cons,List.append_assoc,blankFrom_escape,ih]
      simp [Function.comp_def]
  intro settled rest
  simp only [quoted,List.cons_append,List.append_assoc,List.nil_append,blankFrom,if_true,inside]
  simp [Function.comp_def]

theorem blankFrom_newline (level : Nat) (settled : Bool) (s : List Char) :
    blankFrom .top settled (newline level ++ s) = (newline level ++ ·) <$> blankFrom .top settled s := by
  have spaces (n : Nat) : blankFrom .top settled (List.replicate n ' ' ++ s) =
      (List.replicate n ' ' ++ ·) <$> blankFrom .top settled s := by
    induction n with
    | zero => simp
    | succ n ih => simp [List.replicate_succ,blankFrom,isAsciiBlank,ih,Function.comp_def]
  simp only [newline,List.cons_append]
  simp [blankFrom,isAsciiBlank,spaces,Function.comp_def]

theorem Stays.newline (stays : Stays t) (level : Nat) : Stays (newline level ++ t) := by
  intro settled rest
  rw [List.append_assoc,blankFrom_newline,stays]
  simp [Function.comp_def]

theorem closingNext?_newline (level : Nat) (s : List Char) :
    closingNext? .top (newline level ++ s) = closingNext? .top s := by
  have spaces (n : Nat) : closingNext? .top (List.replicate n ' ' ++ s) = closingNext? .top s := by
    induction n with
    | zero => simp
    | succ n ih => simp [List.replicate_succ,closingNext?,isAsciiBlank,ih]
  simp [newline,closingNext?,isAsciiBlank,spaces]

theorem Stays.comma (stays : Stays t) (level : Nat) (opens : Opens t) :
    Continues (',' :: Json.newline level ++ t) := by
  obtain ⟨c,more,rfl,opening⟩ := opens
  intro rest
  have next : closingNext? .top (Json.newline level ++ (c :: (more ++ rest))) = some false := by
    rw [closingNext?_newline]
    simp [closingNext?,not_between opening]
  have line := stays.newline level true rest
  simp only [List.append_assoc,List.cons_append] at line ⊢
  simp [blankFrom,isAsciiBlank,next,line,Function.comp_def]

theorem stays_keyed (key : List Char) (stays : Stays t) : Stays (quoted key ++ ':' :: ' ' :: t) := by
  refine (stays_quoted key).append ?_
  refine Continues.append (s := [':']) (stays_plain (by decide)).continues fun rest => ?_
  simp [blankFrom,isAsciiBlank,stays false rest,Function.comp_def]

theorem continues_items (level : Nat) (stays : ∀ item ∈ items, Stays (item.textAt level))
    (integral : ∀ item ∈ items, Integral item) : Continues (itemsText level items) := by
  induction items with
  | nil => exact continues_nil
  | cons item items ih =>
    obtain ⟨first,stays⟩ := List.forall_mem_cons.mp stays
    obtain ⟨whole,integral⟩ := List.forall_mem_cons.mp integral
    exact (first.comma level (textAt_opens whole level)).append (ih stays integral)

theorem continues_members (level : Nat)
    (stays : ∀ member ∈ members, Stays (member.2.textAt level)) :
    Continues (membersText level members) := by
  induction members with
  | nil => exact continues_nil
  | cons member members ih =>
    obtain ⟨first,stays⟩ := List.forall_mem_cons.mp stays
    have keyed := (stays_keyed member.1 first).comma level ⟨'"',_,rfl,rfl⟩
    simpa [membersText] using keyed.append (ih stays)

/-- A digit, a sign, a bracket or a letter is no comment and no blank. -/
theorem plain_of_opening (opening : isOpening c = true) (quote : c ≠ '"') :
    c ≠ '"' ∧ c ≠ '/' ∧ c ≠ '#' ∧ isAsciiBlank c = false ∧ c ≠ ',' := by
  obtain ⟨-,blank,-,slash,sign,comma,-⟩ := not_between opening
  exact ⟨quote,slash,sign,blank,comma⟩

theorem stays_intText (n : Int) : Stays (intText n) := by
  have digits (m : Nat) : Stays (natText m) := by
    refine stays_of_plain _ Nat.toDigits_ne_nil fun c member => ?_
    have digit : isDigit c = true := isDigit_of_mem_natText member
    exact plain_of_opening (isOpening_of_number (.inr digit))
      (by rintro rfl; exact absurd digit (by decide))
  unfold intText
  split
  · exact Stays.append (s := ['-']) (stays_plain (by decide)) (digits _).continues
  · exact digits _

theorem Stays.bracketed {u : List Char} (first : Stays t) (more : Continues u) (level : Nat)
    {opening closing : Char} (open' : opening = '[' ∨ opening = '{')
    (close : closing = ']' ∨ closing = '}') :
    Stays (opening :: Json.newline (level + 1) ++ t ++ u ++ Json.newline level ++ [closing]) := by
  have opens : Stays [opening] := stays_plain (by rcases open' with rfl | rfl <;> decide)
  have closes : Stays [closing] := stays_plain (by rcases close with rfl | rfl <;> decide)
  have lines := opens.append (((first.newline (level + 1)).append more).append
    (closes.newline level).continues).continues
  simpa using lines

/-- Nothing in a written value is blanked. -/
theorem stays_textAt (integral : Integral v) (level : Nat) : Stays (v.textAt level) := by
  induction integral generalizing level with
  | null => exact stays_of_plain "null".toList (by decide) (by simp [isAsciiBlank])
  | bool value =>
    cases value with
    | false => exact stays_of_plain "false".toList (by decide) (by simp [isAsciiBlank])
    | true => exact stays_of_plain "true".toList (by decide) (by simp [isAsciiBlank])
  | integer n => exact stays_intText n
  | string text => exact stays_quoted text
  | array items whole ih =>
    cases items with
    | nil => exact stays_of_plain ['[',']'] (by decide) (by simp [isAsciiBlank])
    | cons item items =>
      obtain ⟨first,ih⟩ := List.forall_mem_cons.mp ih
      have more := continues_items (level + 1) (fun item member => ih item member (level + 1))
        (List.forall_mem_cons.mp whole).2
      exact (first (level + 1)).bracketed more level (.inl rfl) (.inl rfl)
  | object members whole ih =>
    cases members with
    | nil => exact stays_of_plain ['{','}'] (by decide) (by simp [isAsciiBlank])
    | cons member members =>
      obtain ⟨first,ih⟩ := List.forall_mem_cons.mp ih
      have more := continues_members (level + 1) fun member inside => ih member inside (level + 1)
      have keyed := (stays_keyed member.1 (first (level + 1))).bracketed more level (.inr rfl)
        (.inr rfl)
      simpa [Value.textAt] using keyed

theorem withoutComments?_text (integral : Integral v) : withoutComments? v.text = some v.text := by
  have stays := stays_textAt integral 0 false []
  simpa [blankFrom,withoutComments?,Value.text] using stays

theorem skipBlanks_newline (level : Nat) (s : List Char) :
    skipBlanks (newline level ++ s) = skipBlanks s := by
  have spaces (n : Nat) : skipBlanks (List.replicate n ' ' ++ s) = skipBlanks s := by
    induction n with
    | zero => simp
    | succ n ih => simpa [List.replicate_succ,skipBlanks,isJsonBlank] using ih
  have line := spaces (2 * level)
  simpa [newline,skipBlanks,isJsonBlank] using line

theorem skipBlanks_cons (solid : isJsonBlank c = false) (s : List Char) :
    skipBlanks (c :: s) = c :: s := by
  simp [skipBlanks,solid]

theorem readOne?_congr (same : skipBlanks s = skipBlanks t)
    (item : List Char → Option (Value × List Char)) : readOne? item s = readOne? item t := by
  simp only [readOne?,same]

theorem readValue?_congr (same : skipBlanks s = skipBlanks t) (depth : Nat) :
    readValue? depth s = readValue? depth t := by
  cases depth with
  | zero =>
    have nesting : opensNesting s = opensNesting t := by simp only [opensNesting,same]
    rw [readValue?,readValue?,nesting,readOne?_congr same]
  | succ depth => exact readOne?_congr same _

theorem readValue?_newline (depth level : Nat) (s : List Char) :
    readValue? depth (newline level ++ s) = readValue? depth s :=
  readValue?_congr (skipBlanks_newline level s) depth

theorem readValue?_space (depth : Nat) (s : List Char) :
    readValue? depth (' ' :: s) = readValue? depth s :=
  readValue?_congr (by simp [skipBlanks,isJsonBlank]) depth

/-- The reader gives back the value that was written, whatever may follow it. -/
def Reads (depth level : Nat) (v : Value) : Prop :=
  ∀ rest, Closes rest → readValue? depth (v.textAt level ++ rest) = some (v,rest)

theorem closes_comma (s : List Char) : Closes (',' :: s) := by simp [Closes]
theorem closes_newline (level : Nat) (s : List Char) : Closes (newline level ++ s) := by
  simp [Closes,newline]

theorem length_itemsText (level : Nat) (items : List Value) :
    items.length ≤ (itemsText level items).length := by
  induction items with
  | nil => exact Nat.zero_le _
  | cons item items ih =>
    simp only [itemsText,List.length_cons,List.length_append]
    omega

theorem length_membersText (level : Nat) (members : List (List Char × Value)) :
    members.length ≤ (membersText level members).length := by
  induction members with
  | nil => exact Nat.zero_le _
  | cons member members ih =>
    simp only [membersText,List.length_cons,List.length_append]
    omega

/-- Items are read one after another, as long as the fuel lasts. -/
theorem readItems?_text {item : Value} {fuel : Nat} (level below : Nat) (rest : List Char)
    (reads : ∀ v ∈ item :: items, Reads depth level v) (enough : items.length < fuel) :
    readItems? (readValue? depth) fuel (newline level ++ (item.textAt level ++
        (itemsText level items ++ (newline below ++ ']' :: rest)))) = some (item :: items,rest) := by
  induction items generalizing item fuel with
  | nil =>
    obtain ⟨fuel,rfl⟩ := Nat.exists_eq_add_one_of_ne_zero (Nat.ne_zero_of_lt enough)
    have first := reads item List.mem_cons_self
    simp only [readItems?,readValue?_newline,itemsText,List.nil_append,
      first _ (closes_newline below _),Option.bind_eq_bind,Option.bind_some,skipBlanks_newline,
      skipBlanks_cons (c := ']') rfl]
  | cons next items ih =>
    obtain ⟨fuel,rfl⟩ := Nat.exists_eq_add_one_of_ne_zero (Nat.ne_zero_of_lt enough)
    obtain ⟨first,reads⟩ := List.forall_mem_cons.mp reads
    have others := ih reads (Nat.lt_of_succ_lt_succ enough)
    simp only [itemsText,List.cons_append,List.append_assoc] at others ⊢
    rw [readItems?]
    simp only [readValue?_newline,first _ (closes_comma _),skipBlanks_cons (c := ',') rfl,
      Option.bind_eq_bind,Option.bind_some,others]

theorem readMembers?_text {key : List Char} {v : Value} {fuel : Nat} (level below : Nat)
    (rest : List Char) (reads : ∀ member ∈ (key,v) :: members, Reads depth level member.2)
    (enough : members.length < fuel) :
    readMembers? (readValue? depth) fuel (newline level ++ (quoted key ++ ':' :: ' ' ::
        (v.textAt level ++ (membersText level members ++ (newline below ++ '}' :: rest))))) =
      some ((key,v) :: members,rest) := by
  induction members generalizing key v fuel with
  | nil =>
    obtain ⟨fuel,rfl⟩ := Nat.exists_eq_add_one_of_ne_zero (Nat.ne_zero_of_lt enough)
    have first : Reads depth level v := reads (key,v) List.mem_cons_self
    simp only [readMembers?,skipBlanks_newline,quoted,List.cons_append,List.append_assoc,
      List.nil_append,skipBlanks_cons (c := '"') rfl,readString?_quoted,membersText,
      Option.bind_eq_bind,Option.bind_some,skipBlanks_cons (c := ':') rfl,readValue?_space,
      first _ (closes_newline below _),skipBlanks_cons (c := '}') rfl]
  | cons next members ih =>
    obtain ⟨fuel,rfl⟩ := Nat.exists_eq_add_one_of_ne_zero (Nat.ne_zero_of_lt enough)
    obtain ⟨first,reads⟩ := List.forall_mem_cons.mp reads
    have others := ih reads (Nat.lt_of_succ_lt_succ enough)
    simp only [membersText,List.cons_append,List.append_assoc] at others ⊢
    rw [readMembers?]
    simp only [skipBlanks_newline,quoted,List.cons_append,List.append_assoc,List.nil_append,
      skipBlanks_cons (c := '"') rfl,readString?_quoted,Option.bind_eq_bind,Option.bind_some,
      skipBlanks_cons (c := ':') rfl,readValue?_space,first _ (closes_comma _),
      skipBlanks_cons (c := ',') rfl]
    simp only [quoted,List.cons_append,List.append_assoc,List.nil_append] at others
    simp only [others,Option.bind_some]

section One

variable {r : Option (Value × List Char)} {item : List Char → Option (Value × List Char)}

theorem readValue?_scalar (nests : opensNesting s = false) (one : ∀ item, readOne? item s = r)
    (depth : Nat) : readValue? depth s = r := by
  cases depth with
  | zero => simp only [readValue?,nests,Bool.false_eq_true,if_false,one]
  | succ depth => exact one _

theorem readOne?_string (text rest : List Char) :
    readOne? item (quoted text ++ rest) = some (.string text,rest) := by
  simp only [readOne?,quoted,List.cons_append,List.append_assoc,List.nil_append,
    skipBlanks_cons (c := '"') rfl,readString?_quoted,Option.map_some]

theorem readOne?_number (first : c = '-' ∨ isDigit c = true) (s : List Char) :
    readOne? item (c :: s) =
      (readNumber? (c :: s)).map fun (n,rest) => (.number n,rest) := by
  have other : ∀ d ∈ ['"','[','{','n','t','f'], c ≠ d := by
    rintro d member rfl
    have none : ∀ d ∈ ['"','[','{','n','t','f'], d ≠ '-' ∧ isDigit d = false := by
      simp [isDigit]
    obtain ⟨sign,digit⟩ := none c member
    rcases first with same | found
    · exact sign same
    · simp [digit] at found
  rw [readOne?,skipBlanks_cons (not_between (isOpening_of_number first)).1]
  split
  · next none => cases none
  all_goals first | rfl | (next same => cases same; exact absurd rfl (other _ (by decide)))

end One

theorem opensNesting_number (first : c = '-' ∨ isDigit c = true) (s : List Char) :
    opensNesting (c :: s) = false := by
  rw [opensNesting,skipBlanks_cons (not_between (isOpening_of_number first)).1]
  split
  · next same =>
    cases same
    exact absurd first (by decide)
  · next same =>
    cases same
    exact absurd first (by decide)
  · rfl

theorem reads_intText {n : Int} (range : InRange n) (depth level : Nat) :
    Reads depth level (.number (.integer n)) := by
  intro rest closes
  have found := readNumber?_intText range closes
  obtain ⟨c,more,text,first⟩ := intText_opens n
  change readValue? depth (intText n ++ rest) = _
  rw [text,List.cons_append] at found ⊢
  refine readValue?_scalar (opensNesting_number first _) (fun item => ?_) depth
  rw [readOne?_number first,found]
  rfl

theorem readOne?_array {item : List Char → Option (Value × List Char)}
    (found : readItems? item s.length s = some (items,rest))
    (more : ∀ after, skipBlanks s ≠ ']' :: after) :
    readOne? item ('[' :: s) = some (.array items,rest) := by
  simp only [readOne?,skipBlanks_cons (c := '[') rfl,found,Option.map_some]

theorem readOne?_object {item : List Char → Option (Value × List Char)}
    (found : readMembers? item s.length s = some (members,rest))
    (more : ∀ after, skipBlanks s ≠ '}' :: after) :
    readOne? item ('{' :: s) = some (.object (collect members),rest) := by
  simp only [readOne?,skipBlanks_cons (c := '{') rfl,found,Option.map_some]

theorem skipBlanks_line (opens : Opens t) (level : Nat) (s after : List Char) :
    skipBlanks (newline level ++ (t ++ s)) ≠ ']' :: after ∧
      skipBlanks (newline level ++ (t ++ s)) ≠ '}' :: after := by
  obtain ⟨c,more,rfl,opening⟩ := opens
  obtain ⟨solid,-,-,-,-,-,square,curly⟩ := not_between opening
  rw [skipBlanks_newline,List.cons_append,skipBlanks_cons solid]
  exact ⟨fun same => square (List.cons.inj same).1,fun same => curly (List.cons.inj same).1⟩

/-- Every value that can be read and holds no fraction is read from its text. -/
theorem reads_textAt (canonical : Canonical depth v) (integral : Integral v) (level : Nat) :
    Reads depth level v := by
  induction canonical generalizing level with
  | null depth =>
    intro rest _
    exact readValue?_scalar rfl (fun _ => rfl) depth
  | bool depth value =>
    intro rest _
    cases value <;> exact readValue?_scalar rfl (fun _ => rfl) depth
  | integer depth n range => exact reads_intText range depth level
  | fraction => cases integral
  | string depth text =>
    intro rest _
    exact readValue?_scalar rfl (fun _ => readOne?_string text rest) depth
  | array depth items _ ih =>
    cases integral with | array _ whole =>
    intro rest _
    cases items with
    | nil => rfl
    | cons item items =>
      have each : ∀ v ∈ item :: items, Reads depth (level + 1) v := fun v member =>
        ih v member (whole v member) (level + 1)
      have opens := textAt_opens (whole item List.mem_cons_self) (level + 1)
      have enough := length_itemsText (level + 1) items
      simp only [Value.textAt,List.cons_append,List.append_assoc,List.nil_append]
      refine readOne?_array (readItems?_text (level + 1) level rest each ?_) fun after =>
        (skipBlanks_line opens _ _ after).1
      simp only [newline,List.length_append,List.length_cons]
      omega
  | object depth members ordered _ ih =>
    cases integral with | object _ whole =>
    intro rest _
    cases members with
    | nil => rfl
    | cons member members =>
      have each : ∀ m ∈ member :: members, Reads depth (level + 1) m.2 := fun m inside =>
        ih m inside (whole m inside) (level + 1)
      have enough := length_membersText (level + 1) members
      have found := readOne?_object (readMembers?_text (level + 1) level rest each ?_) fun after =>
        (skipBlanks_line ⟨'"',_,rfl,rfl⟩ _ _ after).2
      · rw [collect_of_ordered ordered] at found
        simpa only [Value.textAt,readValue?,List.cons_append,List.append_assoc,List.nil_append] using found
      · simp only [newline,List.length_append,List.length_cons]
        omega

theorem read?_text (canonical : Canonical depthLimit v) (integral : Integral v) :
    read? v.text = some v := by
  have found := reads_textAt canonical integral 0 [] (by simp [Closes])
  rw [List.append_nil] at found
  rw [read?,Value.text,found]
  rfl

end ReleaseInstaller.Json
