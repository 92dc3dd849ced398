/-! Text as octets. Reading splits octets into units: a well-formed sequence is a character,
and the longest start of one that cannot be completed is a single ill-formed unit. -/
namespace ReleaseInstaller.Text.Utf8

def encode (s : List Char) : List UInt8 := s.flatMap String.utf8EncodeChar

/-- What the first octet of a longer sequence says: its own payload, the bounds of the second
octet, and how many octets follow. The bounds exclude overlong forms, surrogates and numbers
beyond the last code point. -/
structure Lead where
  payload : Nat
  low : UInt8
  high : UInt8
  following : Nat

def lead? (first : UInt8) : Option Lead :=
  if first < 0xC2 then none
  else if first < 0xE0 then some ⟨first.toNat - 0xC0, 0x80, 0xBF, 1⟩
  else if first = 0xE0 then some ⟨0, 0xA0, 0xBF, 2⟩
  else if first = 0xED then some ⟨0xD, 0x80, 0x9F, 2⟩
  else if first < 0xF0 then some ⟨first.toNat - 0xE0, 0x80, 0xBF, 2⟩
  else if first = 0xF0 then some ⟨0, 0x90, 0xBF, 3⟩
  else if first < 0xF4 then some ⟨first.toNat - 0xF0, 0x80, 0xBF, 3⟩
  else if first = 0xF4 then some ⟨4, 0x80, 0x8F, 3⟩
  else none

/-- Reads `following` octets, the next one between `low` and `high`; says how many belong to
the unit. -/
def complete (payload : Nat) (low high : UInt8) :
    (following : Nat) → (taken : Nat) → List UInt8 → Option Char × Nat
  | 0, taken, _ => (some (Char.ofNat payload), taken)
  | _ + 1, taken, [] => (none, taken)
  | following + 1, taken, next :: rest =>
    if low ≤ next && next ≤ high then
      complete (payload * 64 + (next.toNat - 0x80)) 0x80 0xBF following (taken + 1) rest
    else
      (none, taken)

/-- The unit that starts with `first`, and how many octets of `rest` belong to it. -/
def unit (first : UInt8) (rest : List UInt8) : Option Char × Nat :=
  if first < 0x80 then (some (Char.ofNat first.toNat), 0)
  else match lead? first with
    | none => (none, 0)
    | some lead => complete lead.payload lead.low lead.high lead.following 0 rest

def unitsAfter : (skip : Nat) → List UInt8 → List (Option Char)
  | _, [] => []
  | skip + 1, _ :: rest => unitsAfter skip rest
  | 0, first :: rest =>
    let (character, more) := unit first rest
    character :: unitsAfter more rest

def units (octets : List UInt8) : List (Option Char) := unitsAfter 0 octets

def decode? (octets : List UInt8) : Option (List Char) := (units octets).mapM id

def replacement : Char := Char.ofNat 0xFFFD

/-- Every ill-formed unit is shown as one replacement character. -/
def decodeLossy (octets : List UInt8) : List Char :=
  (units octets).map fun character => character.getD replacement

@[simp] theorem encode_nil : encode [] = [] := rfl

@[simp] theorem encode_cons (c : Char) (s : List Char) :
    encode (c :: s) = String.utf8EncodeChar c ++ encode s := rfl

@[simp] theorem encode_append (s t : List Char) : encode (s ++ t) = encode s ++ encode t := by
  simp [encode]

theorem decodeLossy_of_decode? {octets : List UInt8} {s : List Char}
    (h : decode? octets = some s) : decodeLossy octets = s := by
  simp only [decode?, decodeLossy] at *
  generalize units octets = us at *
  induction us generalizing s with
  | nil => simp_all
  | cons u us ih =>
    cases u with
    | none => simp [List.mapM_cons] at h
    | some c =>
      cases hr : us.mapM id with
      | none => simp [List.mapM_cons, hr] at h
      | some r => simp [List.mapM_cons, hr] at h; simp [← h, ih hr]

end ReleaseInstaller.Text.Utf8
