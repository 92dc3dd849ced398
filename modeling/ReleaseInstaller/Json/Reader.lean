import ReleaseInstaller.Json.Number

/-! Reading JSON texts. Readers take what belongs to them from the start of a text and give the
rest. Arrays and objects may be nested to a limit. -/
namespace ReleaseInstaller.Json

def isJsonBlank (c : Char) : Bool := c = ' ' || c = '\n' || c = '\r' || c = '\t'

def skipBlanks (s : List Char) : List Char := s.dropWhile isJsonBlank

def hexValue? (c : Char) : Option Nat :=
  if '0' ≤ c && c ≤ '9' then some (c.toNat - '0'.toNat)
  else if 'a' ≤ c && c ≤ 'f' then some (c.toNat - 'a'.toNat + 10)
  else if 'A' ≤ c && c ≤ 'F' then some (c.toNat - 'A'.toNat + 10)
  else none

def unit16? (a b c d : Char) : Option Nat := do
  return (((← hexValue? a) * 16 + (← hexValue? b)) * 16 + (← hexValue? c)) * 16 + (← hexValue? d)

def isHighSurrogate (unit : Nat) : Bool := 0xD800 ≤ unit && unit < 0xDC00
def isLowSurrogate (unit : Nat) : Bool := 0xDC00 ≤ unit && unit < 0xE000

def unescape? : Char → Option Char
  | '"' => some '"'
  | '\\' => some '\\'
  | '/' => some '/'
  | 'b' => some '\x08'
  | 'f' => some '\x0c'
  | 'n' => some '\n'
  | 'r' => some '\r'
  | 't' => some '\t'
  | _ => none

/-- Reads on in a string. A high surrogate is `pending` until the low one after it. -/
def readString? (pending : Option Nat) : List Char → Option (List Char × List Char)
  | [] => none
  | '\\' :: 'u' :: a :: b :: c :: d :: rest =>
    match unit16? a b c d, pending with
    | none, _ => none
    | some unit, some high =>
      if isLowSurrogate unit then
        (readString? none rest).map fun (text, rest) =>
          (Char.ofNat (0x10000 + (high - 0xD800) * 0x400 + (unit - 0xDC00)) :: text, rest)
      else none
    | some unit, none =>
      if isHighSurrogate unit then readString? (some unit) rest
      else if isLowSurrogate unit then none
      else (readString? none rest).map fun (text, rest) => (Char.ofNat unit :: text, rest)
  | '\\' :: c :: rest =>
    match unescape? c, pending with
    | some c, none => (readString? none rest).map fun (text, rest) => (c :: text, rest)
    | _, _ => none
  | c :: rest =>
    if pending.isSome then none
    else if c = '"' then some ([], rest)
    else if c = '\\' || c.toNat < 0x20 then none
    else (readString? none rest).map fun (text, rest) => (c :: text, rest)

def readWord? (word : List Char) (value : Value) (s : List Char) :
    Option (Value × List Char) :=
  if word.isPrefixOf s then some (value, s.drop word.length) else none

/-- Items of an array up to its bracket. Each takes at least one character, so that the length
of the text is fuel enough. -/
def readItems? (item : List Char → Option (Value × List Char)) :
    (fuel : Nat) → List Char → Option (List Value × List Char)
  | 0, _ => none
  | fuel + 1, s => do
    let (value, s) ← item s
    match skipBlanks s with
    | ']' :: rest => some ([value], rest)
    | ',' :: rest =>
      let (values, rest) ← readItems? item fuel rest
      some (value :: values, rest)
    | _ => none

/-- Of two members with one key the later counts. -/
def readMembers? (item : List Char → Option (Value × List Char)) :
    (fuel : Nat) → List Char → Option (List (List Char × Value) × List Char)
  | 0, _ => none
  | fuel + 1, s => do
    let '"' :: s := skipBlanks s | none
    let (key, s) ← readString? none s
    let ':' :: s := skipBlanks s | none
    let (value, s) ← item s
    match skipBlanks s with
    | '}' :: rest => some ([(key, value)], rest)
    | ',' :: rest =>
      let (members, rest) ← readMembers? item fuel rest
      some ((key, value) :: members, rest)
    | _ => none

def collect (members : List (List Char × Value)) : List (List Char × Value) :=
  members.foldl (fun known (key, value) => setMember key value known) []

/-- A value whose items are read by `item`. -/
def readOne? (item : List Char → Option (Value × List Char)) (s : List Char) :
    Option (Value × List Char) :=
  match skipBlanks s with
  | [] => none
  | '"' :: rest => (readString? none rest).map fun (text, rest) => (.string text, rest)
  | '[' :: rest =>
    match skipBlanks rest with
    | ']' :: after => some (.array [], after)
    | _ => (readItems? item rest.length rest).map fun (items, rest) => (.array items, rest)
  | '{' :: rest =>
    match skipBlanks rest with
    | '}' :: after => some (.object [], after)
    | _ => (readMembers? item rest.length rest).map fun (members, rest) =>
        (.object (collect members), rest)
  | 'n' :: rest => readWord? "null".toList .null ('n' :: rest)
  | 't' :: rest => readWord? "true".toList (.bool true) ('t' :: rest)
  | 'f' :: rest => readWord? "false".toList (.bool false) ('f' :: rest)
  | s => (readNumber? s).map fun (number, rest) => (.number number, rest)

def depthLimit : Nat := 127

def opensNesting (s : List Char) : Bool :=
  match skipBlanks s with
  | '[' :: _ | '{' :: _ => true
  | _ => false

def readValue? : (depth : Nat) → List Char → Option (Value × List Char)
  | 0, s => if opensNesting s then none else readOne? (fun _ => none) s
  | depth + 1, s => readOne? (readValue? depth) s

def read? (s : List Char) : Option Value := do
  let (value, rest) ← readValue? depthLimit s
  if (skipBlanks rest).isEmpty then some value else none

end ReleaseInstaller.Json
