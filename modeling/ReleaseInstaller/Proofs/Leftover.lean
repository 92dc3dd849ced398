import ReleaseInstaller.Proofs.Uninstall

/-! What an uninstall leaves behind. An artifact is looked for where its path leads, so a link that
leads to nothing is passed over and stays; every other artifact is gone afterwards or reported. -/
namespace ReleaseInstaller

open Files Procedure

variable {ε : Type} {m : Machine} {f g : Files} {p : Path} {ps : List Path} {l : Location}
  {node : Node} {target : Path}

namespace Files

def present? (f : Files) (p : Path) : Option Node :=
  match f.locate? p with
  | .ok l => f.at? l
  | .error _ => none

/-- A link lies at the path, and nothing lies where the path leads. -/
def LeadsNowhere (f : Files) (p : Path) : Prop :=
  (∃ target, f.present? p = some (.link target)) ∧ f.holds p = false

theorem present?_eq_some :
    f.present? p = some node ↔ ∃ l, f.locate? p = .ok l ∧ f.at? l = some node := by
  unfold present?
  cases f.locate? p <;> simp

/-- A path locates the entry that it names, or where it leads if it names none or ends in a slash. -/
theorem locate?_eq_ok : f.locate? p = .ok l ↔ f.entry? p = .ok (some l) ∧ p.endsInSlash = false ∨
    (∃ named, f.entry? p = .ok named ∧ (named = none ∨ p.endsInSlash = true)) ∧
      f.follow? p = .ok l := by
  simp only [locate?,bind,Except.bind]
  rcases f.entry? p with fault | _ | k <;> cases p.endsInSlash <;> simp

theorem Keeps.entry?_none (kept : Keeps f g) (unnamed : f.entry? p = .ok none) :
    g.entry? p = .ok none := by
  unfold Files.entry? lastStep? at unnamed ⊢
  cases checked : check p with
  | error fault => simp [checked,bind,Except.bind] at unnamed
  | ok =>
    rcases steps : p.spelledSteps.reverse with _ | ⟨step,before⟩
    · rfl
    simp only [checked,steps,bind,Except.bind] at unnamed ⊢
    cases walked : f.walk linkLimit (f.start p) (before.reverse ++ [.here]) with
    | error fault => simp [walked] at unnamed
    | ok d =>
      rw [kept.start,kept.walk walked]
      cases step with
      | here | up => rfl
      | into name =>
        simp only [walked] at unnamed
        generalize f.at? d = inside at unnamed
        rcases inside with _ | _ | _ | _ | _
        case some.directory =>
          dsimp only at unnamed
          split at unnamed <;> cases unnamed
        all_goals cases unnamed

theorem follow?_of_entry (entry : f.entry? p = .ok (some l)) (slash : p.endsInSlash = false)
    (present : f.at? l = some node) (other : node.leadsOn = false) : f.follow? p = .ok l := by
  obtain ⟨checked,before,name,d,spelled,walked,-,short,rfl⟩ := entry?_eq_some.mp entry
  rcases walk_append f linkLimit (f.start p) before with ⟨fault,stuck⟩ | ⟨there,left,goes⟩
  · rw [stuck _ (by simp)] at walked
    cases walked
  rw [goes _ (by simp)] at walked
  obtain rfl : there = d := by simpa using walked
  refine follow?_eq_ok.mpr ⟨checked,?_⟩
  simp [Path.steps,spelled,slash,goes _ (List.cons_ne_nil _ _),walk_stuck ⟨short,present⟩ other]

/-- Whatever lies at a path is found there, except for a link that leads nowhere. -/
theorem holds_or_leadsNowhere (present : f.present? p = some node) :
    f.holds p = true ∨ f.LeadsNowhere p := by
  obtain ⟨l,located,here⟩ := present?_eq_some.mp present
  have found (followed : f.follow? p = .ok l) : f.holds p = true := by
    simp [holds,find?,followed,here]
  rcases locate?_eq_ok.mp located with ⟨entry,slash⟩ | ⟨-,followed⟩
  · cases node with
    | directory => exact .inl (found (follow?_of_directory entry here))
    | file | fullDevice => exact .inl (found (follow?_of_entry entry slash here rfl))
    | link target =>
      cases held : f.holds p with
      | true => exact .inl rfl
      | false => exact .inr ⟨⟨target,present⟩,held⟩
  · exact .inl (found followed)

theorem Part.present? (part : Part f g) (present : g.present? p = some node) :
    f.present? p = some node := by
  obtain ⟨l,located,here⟩ := present?_eq_some.mp present
  refine present?_eq_some.mpr ⟨l,locate?_eq_ok.mpr ?_,part.nodes l node here⟩
  rcases locate?_eq_ok.mp located with ⟨entry,slash⟩ | ⟨⟨named,entry,unnamed⟩,followed⟩
  · exact .inl ⟨part.keeps.entry? entry,slash⟩
  · refine .inr ⟨⟨named,?_,unnamed⟩,part.follow? followed here⟩
    cases named with
    | none => exact part.keeps.entry?_none entry
    | some k => exact part.keeps.entry? entry

theorem LeadsNowhere.part (nowhere : f.LeadsNowhere p) (part : Part f g)
    (present : g.present? p = some node) : g.LeadsNowhere p := by
  obtain ⟨⟨target,link⟩,absent⟩ := nowhere
  refine ⟨⟨target,?_⟩,?_⟩
  · rw [present,← link,part.present? present]
  · rw [← Bool.not_eq_true] at absent ⊢
    exact mt part.holds absent

theorem present?_of_removed (removed : removeFile p f = .ok g) : g.present? p = none := by
  obtain ⟨-,-,-,-,-,slash⟩ := removeFile_isOk.mp (by rw [removed]; rfl)
  obtain ⟨l,_,entry,-,-,rfl⟩ := removeFile_ok removed
  obtain ⟨-,-,name,d,-,-,-,-,rfl⟩ := entry?_eq_some.mp entry
  have part := part_erase f (d ++ [name])
  rw [Option.eq_none_iff_forall_ne_some]
  intro node present
  obtain ⟨k,located,here⟩ := present?_eq_some.mp present
  rcases locate?_eq_ok.mp located with ⟨entry',-⟩ | ⟨⟨named,entry',unnamed⟩,-⟩
  · cases entry.symm.trans (part.keeps.entry? entry')
    rw [at?_erase_entry,if_pos rfl] at here
    cases here
  · rcases unnamed with rfl | ends
    · cases entry.symm.trans (part.keeps.entry?_none entry')
    · simp [slash] at ends

end Files

namespace Uninstall

variable {u : Uninstall} {target? : Option Target}

theorem part_swept_of_turn (member : (p,g) ∈ turns ps m) : Part g (swept ps m).files := by
  induction ps generalizing m with
  | nil => cases member
  | cons q rest ih =>
    rcases List.mem_cons.mp member with same | member
    · cases same
      exact (prunes_swept (p :: rest) m).less.part
    · exact ih member

theorem present?_swept (member : (p,g) ∈ turns ps m) (gone : goes (p,g) = true) :
    (swept ps m).files.present? p = none := by
  induction ps generalizing m with
  | nil => cases member
  | cons q rest ih =>
    rcases List.mem_cons.mp member with same | member
    · cases same
      simp only [goes,Bool.and_eq_true] at gone
      have absent : (Install.cleared p m).files.present? p = none := by
        rw [Install.cleared,run_discard,gone.1]
        cases removed : removeFile p m.files with
        | error fault => simp [removed,Except.isOk,Except.toBool] at gone
        | ok g => exact present?_of_removed removed
      rw [Option.eq_none_iff_forall_ne_some] at absent ⊢
      exact fun node present => absent node
        ((prunes_swept rest (Install.cleared p m)).less.part.present? present)
    · exact ih member

theorem stays_of_present (member : (p,g) ∈ turns ps m)
    (present : (swept ps m).files.present? p = some node) :
    stays (p,g) = true ∨ g.LeadsNowhere p := by
  rcases holds_or_leadsNowhere ((part_swept_of_turn member).present? present) with held | nowhere
  · refine .inl ?_
    cases removable : (removeFile p g).isOk with
    | false => simp [stays,held,removable]
    | true =>
      have gone : goes (p,g) = true := by simp [goes,held,removable]
      rw [present?_swept member gone] at present
      cases present
  · exact .inr nowhere

/-- An uninstall always ends with a report. Each artifact is gone then, or reported as failed, unless
it was a link that led nowhere when its turn came; and whatever is left without a report is such a
link. -/
theorem run_leaves (u : Uninstall) (target? : Option Target) (m : Machine) : ∃ report after,
    (u.run target? : Procedure ε UninstallReport).run m = (.ok report,after) ∧
    ∀ p ∈ artifacts u.settings u.os target?,
      ((∀ g, (p,g) ∈ turns (artifacts u.settings u.os target?) m → ¬ g.LeadsNowhere p) →
        after.files.present? p = none ∨ p ∈ report.failed) ∧
      (after.files.present? p = none ∨ p ∈ report.failed ∨ after.files.LeadsNowhere p) := by
  obtain ⟨config,after,ran,prunes,-,-⟩ :=
    removeConfig_does (ε := ε) u (swept (artifacts u.settings u.os target?) m)
  refine ⟨_,after,run_run u target? m ran,fun p artifact => ?_⟩
  have part : Part (swept (artifacts u.settings u.os target?) m).files after.files := by
    simpa using prunes.less.part
  rw [← turns_fst (artifacts u.settings u.os target?) m] at artifact
  obtain ⟨⟨p,g⟩,member,rfl⟩ := List.mem_map.mp artifact
  cases present : after.files.present? p with
  | none => exact ⟨fun _ => .inl rfl,.inl rfl⟩
  | some node =>
    have before := part.present? present
    have reported (stuck : stays (p,g) = true) := List.mem_append_left
      (if config = .failed then [u.settings.configDirectory] else [])
      (List.mem_map_of_mem (f := Prod.fst) (List.mem_filter.mpr ⟨member,stuck⟩))
    rcases stays_of_present member before with stuck | nowhere
    · exact ⟨fun _ => .inr (reported stuck),.inr (.inl (reported stuck))⟩
    · refine ⟨fun firm => absurd nowhere (firm g member),.inr (.inr ?_)⟩
      exact nowhere.part ((part_swept_of_turn member).trans part) present

def linked : Files := ⟨[([Path.nameOctets "bin"],.directory),
  ([Path.nameOctets "bin",Path.nameOctets "devspace"],.link (.ofString "../lib/devspace")),
  ([Path.nameOctets "bin",Path.nameOctets ".devspace.old"],.link (.ofString "/old")),
  ([Path.nameOctets "old"],.file (.data [0]) 0o755)],[]⟩

/-- The link to the binary leads to nothing any more, so it is neither removed nor reported; the
other link leads to a file and is removed. -/
theorem link_left_of_run :
    let target := Target.make (.ofString "/bin") "devspace" .linux
    let ran := ((⟨.ofHome (.ofString "/home"),.linux,⟨false,false⟩,fun _ => .unavailable,""⟩ :
      Uninstall).run (some target) : Procedure InstallError UninstallReport).run
        (.fresh linked Net.Network.offline)
    linked.LeadsNowhere target.final ∧
    target.final ∈ artifacts (.ofHome (.ofString "/home")) .linux (some target) ∧
    ran.1.toOption.map (fun report => (report.removed,report.failed)) = some ([target.legacy],[]) ∧
    ran.2.files.present? target.final = some (.link (.ofString "../lib/devspace")) :=
  ⟨⟨⟨_,rfl⟩,by decide +kernel⟩,by decide +kernel⟩

end Uninstall
end ReleaseInstaller
