import ReleaseInstaller.Proofs.Placing

/-! Where installs start: targets that are made for a system, the trees that they find there, and
the site at which such an install works. -/
namespace ReleaseInstaller

open Files Procedure

variable {dir : Path} {name exe : String} {os : Os} {f g : Files} {p q : Path} {paths : List Path}
  {t : Target}

namespace Path

theorem IsName.append (isName : IsName name) {ending : String} (slashless : '/' ∉ ending.toList) :
    IsName (name ++ ending) :=
  ⟨by simp [isName.some],by simpa [slashless] using isName.slashless⟩

theorem isName_devspace : IsName "devspace" := ⟨by decide,by decide⟩

theorem joinName_ne_of_length (isName : IsName name) (isName' : IsName exe)
    (differ : name.length ≠ exe.length) : dir.joinName name ≠ dir.joinName exe :=
  fun same => differ (congrArg String.length (joinName_injective isName isName' same))

theorem joinName_ne (isName : IsName name) (isName' : IsName exe) (differ : name ≠ exe) :
    dir.joinName name ≠ dir.joinName exe :=
  fun same => differ (joinName_injective isName isName' same)

end Path

theorem Os.executableName_windows (bare : ¬ "exe".toList <:+ name.toList) :
    Os.windows.executableName name = name ++ "." ++ "exe" := by
  have ending : "exe".toList.isSuffixOf name.toList = false := by
    rw [← Bool.not_eq_true,List.isSuffixOf_iff_suffix]
    exact bare
  simp only [executableName,fileName,ending]
  rfl

theorem Os.executableName_isName (isName : Path.IsName name) :
    Path.IsName (os.executableName name) := by
  unfold executableName fileName
  split
  · exact (isName.append (by decide)).append (by decide)
  · exact isName

namespace Target

theorem make_named (dir : Path) (os : Os) (isName : Path.IsName name) :
    (make dir name os).Named (os.executableName name) :=
  ⟨os.executableName_isName isName,rfl,rfl,rfl⟩

theorem companions_subset (all : Bool) (member : p ∈ t.companions name os all) :
    p ∈ t.companions name os true := by
  unfold companions at member ⊢
  split at member
  · next windows =>
    rw [if_pos windows]
    cases all with
    | true => exact member
    | false => exact List.mem_append_left _ (by simpa using member)
  · contradiction

theorem mem_companions (member : p ∈ t.companions name os true) : os = .windows ∧
    (p = t.directory.joinName name ∨ p = t.directory.joinName (name ++ ".ps1") ∨
      p = t.directory.joinName (name ++ ".cmd")) := by
  unfold companions at member
  split at member
  · next windows => exact ⟨by simpa [Os.isWindows] using windows,by simpa [or_assoc] using member⟩
  · contradiction

theorem companions_inside (isName : Path.IsName name) (member : p ∈ t.companions name os true) :
    Path.Inside t.directory p := by
  obtain ⟨-,rfl | rfl | rfl⟩ := mem_companions member
  · exact ⟨_,isName,rfl⟩
  · exact ⟨_,isName.append (by decide),rfl⟩
  · exact ⟨_,isName.append (by decide),rfl⟩

theorem companions_nodup (isName : Path.IsName name) (all : Bool) :
    (t.companions name os all).Nodup := by
  have script : Path.IsName (name ++ ".ps1") := isName.append (by decide)
  have batch : Path.IsName (name ++ ".cmd") := isName.append (by decide)
  have four : ".ps1".length = 4 ∧ ".cmd".length = 4 := ⟨rfl,rfl⟩
  have first : t.directory.joinName name ≠ t.directory.joinName (name ++ ".ps1") :=
    Path.joinName_ne_of_length isName script (by rw [String.length_append]; omega)
  have second : t.directory.joinName name ≠ t.directory.joinName (name ++ ".cmd") :=
    Path.joinName_ne_of_length isName batch (by rw [String.length_append]; omega)
  have third : t.directory.joinName (name ++ ".ps1") ≠ t.directory.joinName (name ++ ".cmd") :=
    Path.joinName_ne script batch (by simp)
  unfold companions
  split
  · cases all <;> simp [first,second,third]
  · exact .nil

/-- The scripts are none of the target's own files, unless the name looks like a binary's. -/
theorem companions_apart (isName : Path.IsName name)
    (bare : os = .windows → ¬ "exe".toList <:+ name.toList)
    (member : p ∈ (make dir name os).companions name os true) :
    p ≠ (make dir name os).temporary ∧ p ≠ (make dir name os).final ∧
      p ≠ (make dir name os).legacy := by
  have named := make_named dir os isName
  obtain ⟨rfl,member⟩ := mem_companions member
  rw [Os.executableName_windows (bare rfl)] at named
  rw [named.temporary,named.final,named.legacy]
  have lengths : ".ps1".length = 4 ∧ ".cmd".length = 4 ∧ ".".length = 1 ∧ "exe".length = 3 ∧
    ".dl".length = 3 ∧ ".old".length = 4 := ⟨rfl,rfl,rfl,rfl,rfl,rfl⟩
  have apart {first second : String} (isName : Path.IsName first) (isName' : Path.IsName second)
      (differ : first.length ≠ second.length) : dir.joinName first ≠ dir.joinName second :=
    Path.joinName_ne_of_length isName isName' differ
  have script : Path.IsName (name ++ ".ps1") := isName.append (by decide)
  have batch : Path.IsName (name ++ ".cmd") := isName.append (by decide)
  rcases member with rfl | rfl | rfl
  · exact ⟨apart isName named.temporary_isName (by simp only [String.length_append]; omega),
      apart isName named.isName (by simp only [String.length_append]; omega),
      apart isName named.legacy_isName (by simp only [String.length_append]; omega)⟩
  · exact ⟨apart script named.temporary_isName (by simp only [String.length_append]; omega),
      Path.joinName_ne script named.isName (by rw [String.append_assoc]; simp),
      apart script named.legacy_isName (by simp only [String.length_append]; omega)⟩
  · exact ⟨apart batch named.temporary_isName (by simp only [String.length_append]; omega),
      Path.joinName_ne batch named.isName (by rw [String.append_assoc]; simp),
      apart batch named.legacy_isName (by simp only [String.length_append]; omega)⟩

def removable (t : Target) (name : String) (os : Os) : List Path :=
  t.legacy :: t.companions name os true

theorem scope_removable (dir : Path) (os : Os) (isName : Path.IsName name)
    (served : List UInt8 → Prop) :
    (make dir name os).Scope (os.executableName name)
      ((make dir name os).final :: (make dir name os).removable name os)
      ((make dir name os).removable name os) served := by
  have named := make_named dir os isName
  refine ⟨named,?_,fun _ member => List.mem_cons_of_mem _ member,fun _ _ => List.mem_cons_self⟩
  exact List.forall_mem_cons.mpr ⟨named.final_inside,List.forall_mem_cons.mpr
    ⟨named.legacy_inside,fun _ member => companions_inside isName member⟩⟩

theorem removable_apart (isName : Path.IsName name)
    (bare : os = .windows → ¬ "exe".toList <:+ name.toList)
    (member : p ∈ (make dir name os).removable name os) :
    Path.Apart dir p (make dir name os).final := by
  have named := make_named dir os isName
  rcases List.mem_cons.mp member with rfl | member
  · exact named.legacy_final
  · exact Path.apart_of_ne (companions_inside isName member) named.final_inside
      (companions_apart isName bare member).2.1

end Target

namespace Files

/-- The directory is reached without any link that one of the paths names. -/
def Beside (f : Files) (dir : Path) (paths : List Path) : Prop :=
  ∀ d, f.seat? dir = .ok d → ∃ way, Keeps way f ∧ way.seat? dir = .ok d ∧
    ∀ p ∈ paths, ∀ l target, f.entry? p = .ok (some l) → way.at? l ≠ some (.link target)

theorem beside_of_plain (plain : ∀ p ∈ paths, Plain (f.node? p)) : f.Beside dir paths :=
  fun _ seat => ⟨f,.refl f,seat,fun p member _ target entry =>
    node?_of_entry entry ▸ (plain p member).not_link target⟩

theorem Beside.cons (beside : f.Beside dir paths) (plain : Plain (f.node? p)) :
    f.Beside dir (p :: paths) := by
  intro d seat
  obtain ⟨way,kept,arrives,off⟩ := beside d seat
  refine ⟨way,kept,arrives,List.forall_mem_cons.mpr ⟨fun l target entry present => ?_,off⟩⟩
  have link := kept.nodes l _ present rfl
  exact plain.not_link target (node?_of_entry entry ▸ link)

/-- A tree in which an install can work on a directory and remove some of the paths: where the
directory lies does not change by what the install makes or removes. The directory of a target that
`Directory.resolve` gives is direct, and where no link is removed none can be missed. -/
structure Ready (f : Files) (dir : Path) (paths : List Path) : Prop where
  whole : f.WellFormed
  direct : f.Direct dir
  beside : f.Beside dir paths

end Files

namespace Target

theorem Fit.start (ready : f.Ready t.directory paths) (plain : Plain (f.node? t.temporary)) :
    t.Fit paths f := by
  cases seat : f.seat? t.directory with
  | error fault => exact .away ready.whole ready.direct (by simp [seat])
  | ok d =>
    obtain ⟨way,kept,arrives,off⟩ := ready.beside d seat
    exact .there way d ready.whole kept arrives off plain

theorem Fit.beside {more : List Path} (fit : t.Fit paths f) (beside : f.Beside t.directory more) :
    t.Fit more f := by
  cases fit with
  | away whole direct missing => exact .away whole direct missing
  | there _ d whole kept seat _ plain =>
    obtain ⟨way,kept',arrives,off⟩ := beside d (kept.seat? seat)
    exact .there way d whole kept' arrives off plain

end Target

namespace Install

variable {i : Install}

/-- The install aims at the binary of its settings, as the system of its platform names it. A name
that looks like a binary's already is left out: it would be its own companion. -/
structure Aims (i : Install) (dir : Path) : Prop where
  target : i.target = Target.make dir i.settings.binaryName i.platform.os
  isName : Path.IsName i.settings.binaryName
  bare : i.platform.os = .windows → ¬ "exe".toList <:+ i.settings.binaryName.toList

theorem Aims.named (aims : i.Aims dir) :
    i.target.Named (i.platform.os.executableName i.settings.binaryName) := by
  rw [aims.target]
  exact Target.make_named dir _ aims.isName

theorem Aims.apart (aims : i.Aims dir) (member : p ∈ i.companions true) :
    p ≠ i.target.temporary ∧ p ≠ i.target.final ∧ p ≠ i.target.legacy := by
  rw [companions,aims.target] at member
  rw [aims.target]
  exact Target.companions_apart aims.isName aims.bare member

/-- The site of an install: it may remove the legacy binary and the companions, and may put over
the binary what was served. -/
def Aims.site (aims : i.Aims dir) (network : Net.Network) : Site where
  target := i.target
  exe := i.platform.os.executableName i.settings.binaryName
  touched := i.target.final :: i.target.removable i.settings.binaryName i.platform.os
  others := i.target.removable i.settings.binaryName i.platform.os
  served past octets := ∃ url, Download.Served network past url octets
  network
  scope past := by
    rw [aims.target]
    exact Target.scope_removable dir _ aims.isName _
  grows _ more _ := fun ⟨url,served⟩ => ⟨url,served.append more⟩

theorem Aims.worksAt (aims : i.Aims dir) (network : Net.Network) :
    i.WorksAt (aims.site network) where
  aimed := rfl
  legacy := List.mem_cons_self
  companions all _ member := List.mem_cons_of_mem _ (Target.companions_subset all member)
  unique all := Target.companions_nodup aims.isName all
  apart all _ member := aims.apart (Target.companions_subset all member)
  serves _ url _ served := ⟨url,served⟩

end Install

/-- While a download is fetched nothing is removed or moved but the download itself. -/
def Site.fetching (named : t.Named exe) (inside : ∀ p ∈ paths, Path.Inside t.directory p)
    (network : Net.Network) : Site where
  target := t
  exe
  touched := paths
  others := []
  served _ _ := False
  network
  scope _ := ⟨named,inside,by simp,fun _ => False.elim⟩
  grows _ _ _ := False.elim

namespace Files

variable {entries : List (Location × Node)}

theorem wellFormed_of_around
    (around : ∀ entry ∈ entries, (Files.mk entries []).at? entry.1.dropLast = some .directory) :
    (Files.mk entries []).WellFormed := by
  refine ⟨fun l name present => ?_,rfl⟩
  rw [at?,if_neg (by simp)] at present
  obtain ⟨node,found⟩ := Option.ne_none_iff_exists'.mp present
  obtain ⟨first,rest,rfl,-⟩ := List.lookup_eq_some_iff.mp found
  have there := around (l ++ [name],node) (by simp)
  rwa [List.dropLast_concat] at there

theorem wellFormed_of_flat (flat : ∀ entry ∈ entries, entry.1.length = 1) :
    (Files.mk entries []).WellFormed := by
  apply wellFormed_of_around
  intro entry member
  have top : entry.1.dropLast.length = 0 := by rw [List.length_dropLast,flat entry member]
  rw [List.eq_nil_of_length_eq_zero top]
  rfl

/-- A tree with one directory in the root, and with these entries in it. -/
def withDirectory (name : String) (entries : List (String × Node)) : Files :=
  ⟨([Path.nameOctets name],.directory) ::
    entries.map fun (entry,node) => ([Path.nameOctets name,Path.nameOctets entry],node),[]⟩

theorem wellFormed_withDirectory (name : String) (entries : List (String × Node)) :
    (withDirectory name entries).WellFormed := by
  apply wellFormed_of_around
  refine List.forall_mem_cons.mpr ⟨rfl,fun entry member => ?_⟩
  obtain ⟨_,-,rfl⟩ := List.mem_map.mp member
  simp [at?]

theorem direct_root (f : Files) : f.Direct ⟨[Path.slash]⟩ := .of_forward (by decide)

end Files

/-- A spelling of `/bin` that does not lead there before `/missing` is made. -/
def Path.roundabout : Path := .ofString "/missing/../bin"

namespace Install

def intoRoot (os : Os) : Install where
  settings := .ofHome ⟨[Path.slash]⟩
  feed := .listing
  platform := ⟨os,.amd64⟩
  target := .make ⟨[Path.slash]⟩ "devspace" os
  shows := false

def into (dir : Path) (os : Os) : Install := { intoRoot os with target := .make dir "devspace" os }

theorem aims_into (dir : Path) (os : Os) : (into dir os).Aims dir :=
  ⟨rfl,Path.isName_devspace,fun _ => show ¬ "exe".toList <:+ "devspace".toList by decide⟩

end Install

def Net.Network.serving (octets : List UInt8) : Net.Network :=
  fun _ _ => .response ⟨200,none,some octets.length,⟨[octets],.complete⟩⟩

end ReleaseInstaller
