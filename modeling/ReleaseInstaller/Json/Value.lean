import ReleaseInstaller.Decimal.Binary64

/-! JSON values. Members of an object are kept in the order of their keys, and no key occurs
twice. -/
namespace ReleaseInstaller.Json

inductive Number where
  /-- From `-2 ^ 63` up to `2 ^ 64 - 1`. -/
  | integer (value : Int)
  | fraction (negative : Bool) (magnitude : Binary64)
  deriving DecidableEq

inductive Value where
  | null
  | bool (value : Bool)
  | number (value : Number)
  | string (text : List Char)
  | array (items : List Value)
  | object (members : List (List Char × Value))

/-- The order of keys: code point by code point, which is also the order of their octets. -/
def keyBefore : List Char → List Char → Bool
  | _, [] => false
  | [], _ :: _ => true
  | a :: s, b :: t => a < b || (a = b && keyBefore s t)

def setMember (key : List Char) (value : Value) :
    List (List Char × Value) → List (List Char × Value)
  | [] => [(key, value)]
  | (k, v) :: rest =>
    if k = key then (key, value) :: rest
    else if keyBefore key k then (key, value) :: (k, v) :: rest
    else (k, v) :: setMember key value rest

def Value.member? (key : List Char) : Value → Option Value
  | object members => members.lookup key
  | _ => none

theorem lookup_cons_eq (k name : List Char) (value : Value)
    (members : List (List Char × Value)) :
    ((name, value) :: members).lookup k = if k = name then some value else members.lookup k := by
  by_cases h : k = name
  · simp [h]
  · have unequal : (k == name) = false := by simpa using h
    simp [List.lookup_cons, unequal, h]

theorem lookup_setMember (key : List Char) (value : Value)
    (members : List (List Char × Value)) (k : List Char) :
    (setMember key value members).lookup k = if k = key then some value else members.lookup k := by
  induction members with
  | nil => simp [setMember, lookup_cons_eq]
  | cons member rest ih =>
    obtain ⟨name, known⟩ := member
    simp only [setMember]
    split
    · next same => subst same; simp only [lookup_cons_eq]; split <;> rfl
    · split
      · simp only [lookup_cons_eq]
      · next different _ =>
        simp only [lookup_cons_eq, ih]
        split
        · next same => subst same; simp [different]
        · rfl

end ReleaseInstaller.Json
