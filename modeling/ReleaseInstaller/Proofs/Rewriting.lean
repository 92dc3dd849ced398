import ReleaseInstaller.Proofs.Part

/-! Writing to a file that is there. A path that leads to a file stays good for writing: no directory
has to be made for it, and opening it goes where reading does. Afterwards it leads to the same place,
which holds what was written. -/
namespace ReleaseInstaller.Files

open Procedure

variable {f g : Files} {p q : Path} {l k : Location} {links more : Nat} {here there : Location}
  {steps : List Path.Step} {content : Content} {mode : Nat} {m : Machine}

theorem walk_more (fewer : links ≤ more) (walked : f.walk links here steps = .ok there) :
    f.walk more here steps = .ok there := by
  induction links, here, steps using walk_induction f generalizing more with
  | nil _ _ => simpa using walked
  | here _ _ _ ih => simpa using ih fewer (by simpa using walked)
  | up _ _ _ ih =>
    rw [walk_up] at walked ⊢
    exact ih fewer walked
  | long _ _ _ _ long => rwa [walk_long long] at walked ⊢
  | missing _ _ _ _ meets => rwa [walk_missing meets] at walked ⊢
  | stuck _ _ _ _ _ meets off => rwa [walk_stuck meets off] at walked ⊢
  | on _ _ _ _ meets ih =>
    rw [walk_on meets] at walked ⊢
    exact ih fewer walked
  | lastLink _ _ _ _ meets =>
    rw [walk_last_link meets] at walked
    cases walked
  | link _ _ _ _ _ meets ih =>
    obtain ⟨more,rfl⟩ := Nat.exists_eq_add_one_of_ne_zero (Nat.ne_zero_of_lt fewer)
    rw [walk_link meets] at walked ⊢
    exact ih (Nat.le_of_succ_le_succ fewer) walked

theorem walk_bareEnd (walked : f.walk links here (steps ++ [.here]) = .ok there) :
    f.walk links here steps = .ok there := by
  induction links, here, steps using walk_induction f with
  | nil _ _ => simpa using walked
  | here _ _ _ ih => simpa using ih (by simpa using walked)
  | up _ _ _ ih =>
    rw [walk_up]
    exact ih (by simpa using walked)
  | long _ _ _ _ long => simp [walk_long long] at walked
  | missing _ _ _ _ meets => simp [walk_missing meets] at walked
  | stuck _ _ _ _ _ meets off => simp [walk_stuck meets off] at walked
  | on _ _ _ _ meets ih =>
    rw [walk_on meets]
    exact ih (by simpa [walk_on meets] using walked)
  | lastLink _ _ _ _ meets => simp [walk_last_link meets] at walked
  | link _ _ _ _ _ meets ih =>
    rw [walk_link meets]
    exact ih (by simpa [walk_link meets] using walked)

/-- A path leads to a file. -/
structure Leads (f : Files) (p : Path) (l : Location) (content : Content) (mode : Nat) : Prop where
  followed : f.follow? p = .ok l
  file : f.at? l = some (.file content mode)

theorem check_eq_ok : check p = .ok () ↔
    p.octets ≠ [] ∧ 0 ∉ p.octets ∧ p.octets.length < pathLimit := by
  unfold check
  split
  · next empty => simp [show p.octets = [] by simpa [Path.isEmpty] using empty]
  next some =>
  split
  · next zero => simp [show 0 ∈ p.octets by simpa using zero]
  next free =>
  split
  · next long => simp [Nat.not_lt_of_le long]
  · next short =>
    simp only [Path.isEmpty,List.isEmpty_iff] at some
    exact iff_of_true rfl ⟨some,by simpa using free,Nat.lt_of_not_le short⟩

theorem check_front (checked : check p = .ok ()) (front : q.octets <+: p.octets)
    (some : q.isEmpty = false) : check q = .ok () := by
  obtain ⟨-,free,short⟩ := check_eq_ok.mp checked
  refine check_eq_ok.mpr ⟨by simpa [Path.isEmpty] using some,fun member => ?_,?_⟩
  · exact free (front.subset member)
  · exact Nat.lt_of_le_of_lt front.length_le short

/-- What lies behind a file's path is no directory, so its last step is a name. -/
theorem walk_file (whole : f.WellFormed) (from? : f.at? here = some .directory)
    (walked : f.walk links here p.steps = .ok l) (file : f.at? l = some (.file content mode)) :
    p.endsInSlash = false ∧ ∃ before name there left, p.spelledSteps = before ++ [.into name] ∧
      left ≤ links ∧ f.walk links here (before ++ [.here]) = .ok there ∧
      f.at? there = some .directory ∧ f.walk left there [.into name] = .ok l := by
  have other {k : Location} (directory : f.at? k = some .directory) : k ≠ l := by
    rintro rfl
    simp [file] at directory
  cases slash : p.endsInSlash with
  | true =>
    rw [Path.steps,slash,if_pos rfl] at walked
    exact absurd rfl (other (whole.walk_directory from? walked))
  | false =>
    refine ⟨rfl,?_⟩
    simp only [Path.steps,slash,Bool.false_eq_true,if_false,List.append_nil] at walked
    rcases List.eq_nil_or_concat p.spelledSteps with none | ⟨before,step,spelled⟩
    · rw [none,walk_nil] at walked
      cases walked
      exact absurd rfl (other from?)
    rw [spelled,List.concat_eq_append] at walked
    rcases walk_append_within f links here before with ⟨fault,stuck⟩ | ⟨there,left,fewer,goes⟩
    · rw [stuck _ (by simp)] at walked
      cases walked
    have arrived : f.walk links here (before ++ [.here]) = .ok there := by
      rw [goes _ (by simp),walk_here,walk_nil]
    have inside := whole.walk_directory from? arrived
    rw [goes _ (by simp)] at walked
    cases step with
    | here =>
      rw [walk_here,walk_nil] at walked
      cases walked
      exact absurd rfl (other inside)
    | up =>
      rw [walk_up,walk_nil] at walked
      cases walked
      exact absurd rfl (other (whole.up inside))
    | into name =>
      exact ⟨before,name,there,left,by rw [spelled,List.concat_eq_append],fewer,arrived,inside,walked⟩

theorem checkFilePath_ok (whole : f.WellFormed) (bounded : links ≤ linkLimit)
    (from? : f.at? here = some .directory) (walked : f.walk links here p.steps = .ok l)
    (file : f.at? l = some (.file content mode)) (fuel : Nat) :
    f.checkFilePath fuel here p = .ok () := by
  induction fuel generalizing links here p with
  | zero => rfl
  | succ fuel ih =>
    obtain ⟨slash,before,name,there,left,spelled,fewer,arrived,inside,last⟩ :=
      walk_file whole from? walked file
    have around := walk_more bounded arrived
    have named : f.lastStep? here p = .ok (some (there,name)) := by
      simp [lastStep?,spelled,around,inside,bind,Except.bind]
    simp only [checkFilePath,named,slash,bind,Except.bind,Bool.false_eq_true,if_false]
    split
    · next target link =>
      by_cases long : nameLimit < name.length
      · simp [walk_long long] at last
      have meets : f.Meets there name (some (.link target)) := ⟨long,link⟩
      cases left with
      | zero => simp [walk_last_link meets] at last
      | succ left =>
        rw [walk_link meets,List.append_nil] at last
        refine ih (Nat.le_trans (Nat.le_of_succ_le fewer) bounded) ?_ last
        split
        · rfl
        · exact inside
    · rfl

theorem truncate_of_leads (whole : f.WellFormed) (leads : f.Leads p l content mode) :
    truncate p f = .ok (l,f.put l (.file (.data []) mode)) := by
  obtain ⟨checked,walked⟩ := follow?_eq_ok.mp leads.followed
  have looks := checkFilePath_ok whole (Nat.le_refl _) (whole.start p) walked leads.file linkLimit
  simp [truncate,checked,looks,leads.followed,leads.file,bind,Except.bind]

theorem Leads.read {octets : List UInt8} (leads : f.Leads p l (.data octets) mode) :
    read p f = .ok octets := by
  simp [Files.read,leads.followed,leads.file,bind,Except.bind]

theorem Leads.parent (leads : f.Leads p l content mode) (whole : f.WellFormed)
    (up : p.parent? = some q) : q.isEmpty = true ∨ f.holds q = true := by
  obtain ⟨checked,walked⟩ := follow?_eq_ok.mp leads.followed
  obtain ⟨absolute,more,some,spelled⟩ := Path.parent?_spelled up
  have starts : f.start q = f.start p := by simp [Files.start,absolute]
  rw [Path.steps,spelled,List.append_assoc] at walked
  rcases walk_append f linkLimit (f.start p) q.spelledSteps with ⟨fault,stuck⟩ | ⟨there,left,goes⟩
  · rw [stuck _ (by simp [some])] at walked
    cases walked
  have seat : f.seat? q = .ok there := by
    rw [seat?,starts,goes _ (by simp),walk_here,walk_nil]
  cases empty : q.isEmpty with
  | true => exact .inl rfl
  | false =>
    have arrived : f.walk linkLimit (f.start q) q.steps = .ok there := by
      rw [Path.steps]
      split
      · exact seat
      · rw [List.append_nil]
        exact walk_bareEnd seat
    have followed := follow?_eq_ok.mpr ⟨check_front checked (Path.parent?_prefix up) empty,arrived⟩
    exact .inr (by simp [holds,find?,followed,whole.seat seat])

theorem Leads.run_makeParent (leads : m.files.Leads p l content mode) (whole : m.files.WellFormed) :
    (makeParent p).run m = (.ok (),m) := by
  unfold makeParent
  split
  · rfl
  · next parent up =>
    have there := leads.parent whole up
    simp only [makeDirectories,run_bind,run_look]
    rw [if_pos (by simpa using there)]
    rfl

/-- The tree after a file was emptied and written to. -/
def rewritten (f : Files) (l : Location) (octets : List UInt8) (mode : Nat) : Files :=
  (f.put l (.file (.data []) mode)).put l (.file (.data octets) mode)

theorem at?_rewritten (entry : l ≠ []) (octets : List UInt8) (k : Location) :
    (f.rewritten l octets mode).at? k = if k = l then some (.file (.data octets) mode) else f.at? k := by
  obtain ⟨d,n,rfl⟩ := List.eq_nil_or_concat l |>.resolve_left entry
  simp only [rewritten,List.concat_eq_append,at?_put_entry]
  split <;> rfl

theorem Leads.entry (leads : f.Leads p l content mode) : l ≠ [] := by
  rintro rfl
  cases leads.file

/-- The next write is stored in full. -/
def Stores (disk : List (Option Nat)) : Prop := ∀ verdict ∈ disk.head?, verdict = none

theorem stores_nil : Stores [] := by simp [Stores]

theorem stores_iff : Stores m.disk ↔ m.verdict? = none := by
  unfold Stores Machine.verdict?
  cases m.disk <;> simp

theorem run_store {old : List UInt8} (present : m.files.at? l = some (.file (.data old) mode))
    (octets : List UInt8) :
    (Stores m.disk → ((store l octets).run m).1 = .ok () ∧
      ((store l octets).run m).2.files = m.files.put l (.file (.data (old ++ octets)) mode)) ∧
    (((store l octets).run m).1 = .ok () → Stores m.disk) := by
  have appended (octets : List UInt8) := append_data present octets
  rw [run_store_eq,stores_iff]
  cases m.verdict? with
  | none =>
    refine ⟨fun _ => ?_,fun _ => rfl⟩
    simp [storeAs,run_change,appended,Machine.withFiles]
  | some n =>
    refine ⟨nofun,fun stored => ?_⟩
    simp [storeAs,run_bind,run_change,appended] at stored

/-- Writing to a file that is there rewrites it, exactly if the write is stored in full. -/
theorem Leads.run_write (leads : m.files.Leads p l content mode) (whole : m.files.WellFormed)
    (octets : List UInt8) :
    (Stores m.disk → ((write p octets).run m).1 = .ok () ∧
      ((write p octets).run m).2.files = m.files.rewritten l octets mode) ∧
    (((write p octets).run m).1 = .ok () → Stores m.disk) := by
  have opened := run_openEmpty p m
  rw [truncate_of_leads whole leads] at opened
  have empty : (m.withFiles (m.files.put l (.file (.data []) mode))).files.at? l =
      some (.file (.data []) mode) := by
    rw [Machine.withFiles,at?_put _ _ _ _ leads.entry,if_pos rfl]
  obtain ⟨stored,only⟩ := run_store empty octets
  simp only [write,run_bind,leads.run_makeParent whole,run_failing,opened]
  rcases ran : (store l octets).run (m.withFiles (m.files.put l (.file (.data []) mode))) with
    ⟨result,after⟩
  rw [ran] at stored only
  refine ⟨fun stores => ?_,fun written => only ?_⟩
  · obtain ⟨rfl,files⟩ := stored stores
    exact ⟨rfl,files⟩
  · cases result with
    | error fault => cases written
    | ok u => rfl

/-- The second tree differs from the first in what its files hold and in nothing else. -/
structure Refilled (f g : Files) : Prop where
  current : g.current = f.current
  nodes : ∀ l, g.at? l = f.at? l ∨ ∃ content mode content' mode',
    f.at? l = some (.file content mode) ∧ g.at? l = some (.file content' mode')

theorem Leads.refilled (leads : f.Leads p l content mode) (octets : List UInt8) :
    Refilled f (f.rewritten l octets mode) := by
  refine ⟨rfl,fun k => ?_⟩
  rw [at?_rewritten leads.entry]
  split
  · next same => exact .inr ⟨content,mode,.data octets,mode,same ▸ leads.file,rfl⟩
  · exact .inl rfl

theorem Refilled.at?_eq (refilled : Refilled f g) {l : Location}
    (on : ∀ node, f.at? l = some node → node.leadsOn = true) : g.at? l = f.at? l := by
  rcases refilled.nodes l with same | ⟨_,_,_,_,was,-⟩
  · exact same
  · cases on _ was

theorem Refilled.stuck (refilled : Refilled f g) {l : Location} {node : Node}
    (present : f.at? l = some node) (off : node.leadsOn = false) :
    ∃ node', g.at? l = some node' ∧ node'.leadsOn = false := by
  rcases refilled.nodes l with same | ⟨_,_,_,_,-,is⟩
  · exact ⟨node,same.trans present,off⟩
  · exact ⟨_,is,rfl⟩

theorem Refilled.walk_eq (refilled : Refilled f g) (links : Nat) (here : Location)
    (steps : List Path.Step) : g.walk links here steps = f.walk links here steps := by
  have meets' {here name met} (meets : f.Meets here name met)
      (on : ∀ node, met = some node → node.leadsOn = true) : g.Meets here name met :=
    ⟨meets.short,(refilled.at?_eq (meets.found ▸ on)).trans meets.found⟩
  induction links, here, steps using walk_induction f with
  | nil _ _ => simp
  | here _ _ _ ih => simpa using ih
  | up _ _ _ ih => simpa using ih
  | long _ _ _ _ long => rw [walk_long long,walk_long long]
  | missing _ here _ _ meets =>
    have directory : g.at? here = some .directory ↔ f.at? here = some .directory := by
      rcases refilled.nodes here with same | ⟨_,_,_,_,was,is⟩
      · rw [same]
      · simp [was,is]
    rw [walk_missing meets,walk_missing (meets' meets (by simp))]
    simp only [directory]
  | stuck _ _ _ _ _ meets off =>
    obtain ⟨node',present,off'⟩ := refilled.stuck meets.found off
    rw [walk_stuck meets off,walk_stuck ⟨meets.short,present⟩ off']
  | on _ _ _ _ meets ih => rw [walk_on meets,walk_on (meets' meets (by simp [Node.leadsOn])),ih]
  | lastLink _ _ _ _ meets =>
    rw [walk_last_link meets,walk_last_link (meets' meets (by simp [Node.leadsOn]))]
  | link _ _ _ _ _ meets ih =>
    rw [walk_link meets,walk_link (meets' meets (by simp [Node.leadsOn])),ih]

theorem Refilled.follow?_eq (refilled : Refilled f g) (p : Path) : g.follow? p = f.follow? p := by
  have starts : g.start p = f.start p := by simp [Files.start,refilled.current]
  simp only [follow?,starts,refilled.walk_eq]

theorem Refilled.wellFormed (refilled : Refilled f g) (whole : f.WellFormed) : g.WellFormed := by
  have directory {l : Location} (here : f.at? l = some .directory) : g.at? l = some .directory := by
    rw [refilled.at?_eq (by simp [here,Node.leadsOn]),here]
  refine ⟨fun l name present => directory (whole.around l name ?_),?_⟩
  · rcases refilled.nodes (l ++ [name]) with same | ⟨_,_,_,_,was,-⟩
    · rwa [← same]
    · simp [was]
  · rw [refilled.current]
    exact directory whole.current

theorem Leads.rewritten (leads : f.Leads p l content mode) (octets : List UInt8) :
    (f.rewritten l octets mode).Leads p l (.data octets) mode :=
  ⟨by rw [(leads.refilled octets).follow?_eq,leads.followed],by rw [at?_rewritten leads.entry,if_pos rfl]⟩

theorem Leads.read_rewritten (leads : f.Leads p l content mode) (octets : List UInt8) :
    Files.read p (f.rewritten l octets mode) = .ok octets :=
  (leads.rewritten octets).read

/-- What is read to be something lies in a file. -/
theorem leads_of_read {octets : List UInt8} (found : Files.read p f = .ok octets) (some : octets ≠ []) :
    ∃ l mode, f.Leads p l (.data octets) mode := by
  simp only [Files.read,bind,Except.bind] at found
  cases followed : f.follow? p with
  | error fault => simp [followed] at found
  | ok l =>
    simp only [followed] at found
    refine ⟨l,?_⟩
    split at found
    · next mode file =>
      cases found
      exact ⟨mode,followed,file⟩
    all_goals cases found
    all_goals exact absurd rfl some

end ReleaseInstaller.Files
