import ReleaseInstaller.Files.Path

/-! A file tree. Every entry lies at a location, the list of names that leads to it from the
root, and `at?` is what the tree holds there. The root is a directory and no entry. -/
namespace ReleaseInstaller

structure Program where
  output : List UInt8
  exitCode : Nat
  /-- Whether it prints its arguments, in brackets, after the output. -/
  printsArguments : Bool
  deriving DecidableEq

inductive Content where
  | data (octets : List UInt8)
  | program (program : Program)
  deriving DecidableEq

inductive Node where
  | directory
  | file (content : Content) (mode : Nat)
  | link (target : Path)
  /-- A device on which every write fails. -/
  | fullDevice
  deriving DecidableEq

abbrev Location := List Name

structure Files where
  entries : List (Location × Node)
  /-- Where relative paths start. -/
  current : Location

namespace Files

def at? (f : Files) (l : Location) : Option Node :=
  if l = [] then some .directory else f.entries.lookup l

/-- Forgets the entries at the locations that `gone` holds of. -/
def drop (f : Files) (gone : Location → Bool) : Files :=
  { f with entries := f.entries.filter fun entry => ! gone entry.1 }

def erase (f : Files) (l : Location) : Files := f.drop (· = l)

def eraseTree (f : Files) (l : Location) : Files := f.drop (l.isPrefixOf ·)

def put (f : Files) (l : Location) (node : Node) : Files :=
  { f with entries := (l, node) :: (f.erase l).entries }

def hasBelow (f : Files) (l : Location) : Bool :=
  f.entries.any fun entry => l.isPrefixOf entry.1 && entry.1 ≠ l

/-- Gives the entry at one location, and everything below it, a new location. -/
def moveTree (f : Files) (source target : Location) : Files :=
  let moved := f.entries.filter fun entry => source.isPrefixOf entry.1
  let rest := ((f.eraseTree source).eraseTree target).entries
  { f with
    entries := moved.map (fun (l, node) => (target ++ l.drop source.length, node)) ++ rest }

theorem lookup_filter_of_ne {gone : Location → Bool} (entries : List (Location × Node))
    {l : Location} (kept : gone l = false) :
    (entries.filter fun entry => ! gone entry.1).lookup l = entries.lookup l := by
  induction entries with
  | nil => rfl
  | cons entry entries ih =>
    obtain ⟨k, node⟩ := entry
    by_cases same : l = k
    · subst same
      simp [kept]
    · have different : (l == k) = false := by simpa using same
      by_cases dropped : gone k = true
      · simp [List.lookup_cons, different, dropped, ih]
      · simp [List.lookup_cons, different, dropped, ih]

theorem lookup_filter_of_gone {gone : Location → Bool} (entries : List (Location × Node))
    {l : Location} (dropped : gone l = true) :
    (entries.filter fun entry => ! gone entry.1).lookup l = none := by
  induction entries with
  | nil => rfl
  | cons entry entries ih =>
    obtain ⟨k, node⟩ := entry
    by_cases keep : gone k = true
    · simp [keep, ih]
    · have different : (l == k) = false := by
        simp only [beq_eq_false_iff_ne, ne_eq]
        rintro rfl
        exact keep dropped
      simp [List.lookup_cons, different, keep, ih]

@[simp] theorem at?_root (f : Files) : f.at? [] = some .directory := rfl

theorem at?_drop (f : Files) (gone : Location → Bool) (l : Location) (h : l ≠ []) :
    (f.drop gone).at? l = if gone l then none else f.at? l := by
  simp only [at?, h, if_false, drop]
  by_cases hg : gone l = true
  · simp [hg, lookup_filter_of_gone f.entries hg]
  · simp only [hg, Bool.false_eq_true, if_false]
    exact lookup_filter_of_ne f.entries (by simpa using hg)

theorem at?_erase (f : Files) (l k : Location) (h : k ≠ []) :
    (f.erase l).at? k = if k = l then none else f.at? k := by
  simp [erase, at?_drop _ _ _ h]

theorem at?_eraseTree (f : Files) (l k : Location) (h : k ≠ []) :
    (f.eraseTree l).at? k = if l.isPrefixOf k then none else f.at? k :=
  at?_drop f _ k h

theorem at?_put (f : Files) (l k : Location) (node : Node) (h : k ≠ []) :
    (f.put l node).at? k = if k = l then some node else f.at? k := by
  by_cases same : k = l
  · subst same
    simp [put, at?, h]
  · have different : (k == l) = false := by simpa using same
    have := at?_erase f l k h
    simp only [at?, h, if_false] at this
    simp [put, at?, h, List.lookup_cons, different, this, same]

@[simp] theorem current_put (f : Files) (l : Location) (node : Node) :
    (f.put l node).current = f.current := rfl

@[simp] theorem current_drop (f : Files) (gone : Location → Bool) :
    (f.drop gone).current = f.current := rfl

end Files
end ReleaseInstaller
