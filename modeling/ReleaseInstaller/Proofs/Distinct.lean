import ReleaseInstaller.Proofs.Confined
import ReleaseInstaller.Proofs.Same
import ReleaseInstaller.Proofs.Success

/-! The paths of an install are told apart by their names, except on Windows for a name that ends as a
binary's does: there the binary is taken for one of its own scripts. Where they are apart, what an
install puts in place is still there when it ends. -/
namespace ReleaseInstaller

open Files

variable {dir p q : Path} {name first second : String} {os : Os}

namespace Path

theorem eq_of_same_joinName (isName : IsName first) (proper : IsProper second)
    (same : (dir.joinName first).same (dir.joinName second) = true) : first = second := by
  obtain ⟨-,moves⟩ := moves_of_same same
  rw [moves_joinName proper,Path.moves,joinName_spelledSteps isName,List.filter_append,
    ← Path.moves,List.append_cancel_left_eq] at moves
  have spelled : step? (nameOctets first) = some (.into (nameOctets second)) := by
    obtain ⟨found,step⟩ := step?_of_ne_nil isName.octets_ne_nil
    rw [step] at moves ⊢
    by_cases idle : found = .here
    · simp [idle] at moves
    · simpa [idle] using moves
  apply nameOctets_injective
  unfold step? at spelled
  grind

theorem IsName.proper_append (isName : IsName name) {ending : String}
    (slashless : '/' ∉ ending.toList) (long : 2 ≤ (nameOctets ending).length) :
    IsProper (name ++ ending) := by
  refine ⟨isName.append slashless,step?_of_long ?_⟩
  have some : 0 < (nameOctets name).length := List.length_pos_iff.mpr isName.octets_ne_nil
  rw [nameOctets_append,List.length_append]
  omega

end Path

namespace Target

/-- All paths that an install or an uninstall of the name may touch in the directory. -/
def paths (t : Target) (name : String) (os : Os) : List Path :=
  t.temporary :: t.final :: t.legacy :: t.companions name os true

/-- Whether the file name of a binary is its plain name as well, on a system with scripts beside it. -/
def Doubles (name : String) (os : Os) : Prop := os = .windows ∧ "exe".toList <:+ name.toList

theorem executableName_cases (name : String) (os : Os) :
    os.executableName name = name ∨ os.executableName name = name ++ ".exe" := by
  unfold Os.executableName Os.fileName
  split
  · exact .inr (String.append_assoc ..)
  · exact .inl rfl

theorem executableName_of_doubles (doubles : Doubles name os) : os.executableName name = name := by
  obtain ⟨rfl,ending⟩ := doubles
  have ending : "exe".toList.isSuffixOf name.toList = true := List.isSuffixOf_iff_suffix.mpr ending
  simp only [Os.executableName,Os.fileName,ending]
  rfl

theorem nodup_paths (isName : Path.IsName name) (apart : ¬ Doubles name os) :
    ((make dir name os).paths name os).Nodup := by
  have named := make_named dir os isName
  have bare : os = .windows → ¬ "exe".toList <:+ name.toList := fun windows ending =>
    apart ⟨windows,ending⟩
  have beside {p} (member : p ∈ (make dir name os).companions name os true) :=
    companions_apart isName bare member
  simp only [paths,List.nodup_cons,List.mem_cons,not_or]
  exact ⟨⟨named.temporary_final.ne,named.legacy_temporary.ne.symm,fun member =>
      (beside member).1 rfl⟩,⟨named.legacy_final.ne.symm,fun member => (beside member).2.1 rfl⟩,
    fun member => (beside member).2.2 rfl,companions_nodup isName true⟩

theorem mem_paths (isName : Path.IsName name) (member : p ∈ (make dir name os).paths name os) :
    p = dir.joinName name ∨ ∃ other, Path.IsProper other ∧ p = dir.joinName other := by
  have named := make_named dir os isName
  simp only [paths,List.mem_cons] at member
  rcases member with rfl | rfl | rfl | member
  · exact .inr ⟨_,named.isName.proper_append (by decide) (by decide),named.temporary⟩
  · rcases executableName_cases name os with plain | suffixed
    · exact .inl (by rw [named.final,plain]; rfl)
    · refine .inr ⟨_,?_,named.final⟩
      rw [suffixed]
      exact isName.proper_append (by decide) (by decide)
  · refine .inr ⟨_,?_,named.legacy⟩
    have dotted : Path.IsName ("." ++ os.executableName name) :=
      ⟨by simp,by simpa using named.isName.slashless⟩
    exact dotted.proper_append (by decide) (by decide)
  · obtain ⟨-,rfl | rfl | rfl⟩ := mem_companions member
    · exact .inl rfl
    · exact .inr ⟨_,isName.proper_append (by decide) (by decide),rfl⟩
    · exact .inr ⟨_,isName.proper_append (by decide) (by decide),rfl⟩

theorem same_of_mem_paths (isName : Path.IsName name) (member : p ∈ (make dir name os).paths name os)
    (member' : q ∈ (make dir name os).paths name os) (same : p.same q = true) : p = q := by
  have back : q.same p = true := by
    simpa [Path.same,eq_comm] using same
  rcases mem_paths isName member with rfl | ⟨first,proper,rfl⟩ <;>
    rcases mem_paths isName member' with rfl | ⟨second,proper',rfl⟩
  · rfl
  · rw [Path.eq_of_same_joinName isName proper' same]
  · rw [Path.eq_of_same_joinName isName proper back]
  · rw [Path.eq_of_same_joinName proper.toIsName proper' same]

/-- No two of the paths are the same, unless the name doubles. -/
theorem paths_apart_iff (dir : Path) (isName : Path.IsName name) :
    ((make dir name os).paths name os).Pairwise (fun p q => p.same q = false) ↔
      ¬ Doubles name os := by
  constructor
  · intro apart doubles
    have twice : (make dir name os).final ∈ (make dir name os).companions name os true := by
      rw [(make_named dir os isName).final,executableName_of_doubles doubles]
      obtain ⟨rfl,-⟩ := doubles
      exact List.mem_cons_self
    have apart := List.rel_of_pairwise_cons (List.pairwise_cons.mp apart).2
      (List.mem_cons_of_mem _ twice)
    simp [Path.same] at apart
  · intro apart
    refine (nodup_paths isName apart).imp_of_mem fun member member' differ => ?_
    rw [← Bool.not_eq_true]
    exact mt (same_of_mem_paths isName member member') differ

end Target

namespace Install

variable {i : Install} {f : Files} {m after : Machine} {network : Net.Network}
  {disk : List (Option Nat)} {explicit : Option ReleaseVersion} {installed : Installed}

theorem delivered_of_aims (aims : i.Aims dir)
    (ready : f.Ready i.target.directory
      (i.target.temporary :: i.target.final :: i.target.legacy :: i.companions true))
    (firm : ¬ f.Dangles i.target.temporary)
    (ran : (i.run explicit).run ⟨f,network,disk,[]⟩ = (.ok installed,after)) :
    Delivered (aims.site network) installed after := by
  have runs : Procedure.Does (aims.site network).Step ((aims.site network).Settled f)
      (fun _ => True) (i.run explicit) (Delivered (aims.site network)) :=
    (Site.fetches_ready rfl ready firm).run_delivers (aims.worksAt network) (fun _ => .inr) explicit
  obtain ⟨-,-,post⟩ := runs ⟨f,network,disk,[]⟩ (.inl ⟨rfl,rfl⟩) trivial
  rw [ran] at post
  exact post installed rfl

/-- The paths of a name are no two the same, and so the binary stays where a successful install puts
it: this holds exactly for the names that are not their own scripts on Windows. The directory is one
that the install does not remove a link to, and no link at the download's place leads to nothing. -/
theorem paths_apart (dir : Path) (os : Os) (isName : Path.IsName name) :
    (((Target.make dir name os).paths name os).Pairwise (fun p q => p.same q = false) ↔
      ¬ Target.Doubles name os) ∧
    (¬ Target.Doubles name os → ∀ (i : Install) f network disk explicit installed after,
      i.target = Target.make dir name os → i.settings.binaryName = name → i.platform.os = os →
      f.Ready dir (i.target.paths name os) → ¬ f.Dangles i.target.temporary →
      (i.run explicit).run ⟨f,network,disk,[]⟩ = (.ok installed,after) →
        installed.binary = i.target.final ∧ ∃ octets,
          after.files.node? i.target.final = some (.file (.data octets) 0o755) ∧
          installed.download.written = octets.length ∧
          Download.Served network after.history installed.download.url octets) := by
  refine ⟨Target.paths_apart_iff dir isName,?_⟩
  rintro apart i f network disk explicit installed after aimed rfl rfl ready firm ran
  have aims : i.Aims dir := ⟨aimed,isName,fun windows ending => apart ⟨windows,ending⟩⟩
  have directory : i.target.directory = dir := by rw [aimed]; rfl
  have delivered := delivered_of_aims aims (directory ▸ ready) firm ran
  exact ⟨delivered.binary,delivered.file⟩

theorem paths_apart_outdated : ∃ installed after,
    ((intoRoot .windows).run (some ⟨"1"⟩)).run ⟨outdated,.serving [1],[],[]⟩ =
      (.ok installed,after) ∧
    ¬ Target.Doubles "devspace" .windows ∧
    ((Target.make ⟨[Path.slash]⟩ "devspace" .windows).paths "devspace" .windows).Pairwise
      (fun p q => p.same q = false) ∧
    ∃ octets, after.files.node? (intoRoot .windows).target.final =
      some (.file (.data octets) 0o755) := by
  have succeeds : (((intoRoot .windows).run (some ⟨"1"⟩)).run
      ⟨outdated,.serving [1],[],[]⟩).1.isOk = true := by decide +kernel
  obtain ⟨installed,after,ran⟩ := Procedure.exists_of_isOk succeeds
  have apart : ¬ Target.Doubles "devspace" .windows := fun doubles =>
    absurd doubles.2 (by decide)
  have plain : ∀ p ∈ (intoRoot .windows).target.paths "devspace" .windows,
      Plain (outdated.node? p) := by decide +kernel
  have ready : outdated.Ready ⟨[Path.slash]⟩ ((intoRoot .windows).target.paths "devspace" .windows) :=
    ⟨wellFormed_of_flat (by decide),direct_root _,beside_of_plain plain⟩
  have firm : ¬ outdated.Dangles (intoRoot .windows).target.temporary := by
    rintro ⟨target,-,link,-⟩
    exact (plain _ List.mem_cons_self).not_link target link
  obtain ⟨distinct,delivers⟩ := paths_apart ⟨[Path.slash]⟩ .windows Path.isName_devspace
  obtain ⟨-,octets,file,-⟩ := delivers apart _ _ _ _ _ _ _ rfl rfl rfl ready firm ran
  exact ⟨installed,after,ran,apart,distinct.mpr apart,octets,file⟩

def doubled : Install := { intoRoot .windows with
  settings := { (intoRoot .windows).settings with binaryName := "aexe" }
  target := .make ⟨[Path.slash]⟩ "aexe" .windows }

/-- A binary whose name ends as that of a program does is one of the scripts beside it, and removed
as such by an install that succeeds. -/
theorem binary_removed_of_run :
    let ran := (doubled.run (some ⟨"1"⟩)).run ⟨⟨[],[]⟩,.serving [1],[],[]⟩
    Target.Doubles "aexe" .windows ∧
    doubled.target.final ∈ doubled.companions true ∧
    ran.1.toOption.map (fun installed => (installed.binary,installed.removed)) =
      some (doubled.target.final,[doubled.target.final]) ∧
    ran.2.files.at? [Path.nameOctets "aexe"] = none :=
  ⟨⟨rfl,by decide⟩,by decide +kernel⟩

end Install
end ReleaseInstaller
