import ReleaseInstaller.Proofs.Failure
import ReleaseInstaller.Proofs.Part
import ReleaseInstaller.Uninstall

/-! Uninstalling. A run removes artifacts, each when its turn comes, and then perhaps the
configuration; all else stays as it is, and the report tells what became of each. -/
namespace ReleaseInstaller

open Files Procedure

variable {ε : Type} {allowed allowed' : Location → Prop} {m middle after : Machine} {f g h : Files}
  {p : Path} {ps : List Path} {l : Location}

namespace Files

def Drops (allowed : Location → Prop) (f g : Files) : Prop :=
  ∃ gone, g = f.drop gone ∧ ∀ l, gone l = true → allowed l

/-- A part of a tree that lacks nothing but entries at such locations. -/
structure Less (allowed : Location → Prop) (f g : Files) : Prop where
  part : Part f g
  rest : ∀ l, g.at? l = f.at? l ∨ g.at? l = none ∧ allowed l

theorem Drops.erase (here : allowed l) : Drops allowed f (f.erase l) :=
  ⟨_,rfl,fun k same => by simpa [of_decide_eq_true same] using here⟩

theorem Less.refl (f : Files) : Less allowed f f := ⟨.refl f,fun _ => .inl rfl⟩

theorem Less.trans (first : Less allowed f g) (second : Less allowed g h) : Less allowed f h := by
  refine ⟨first.part.trans second.part,fun l => ?_⟩
  rcases second.rest l with same | removed
  · exact same ▸ first.rest l
  · exact .inr removed

theorem Drops.less (drops : Drops allowed f g) : Less allowed f g := by
  obtain ⟨gone,rfl,within⟩ := drops
  exact ⟨part_drop f gone,fun l => (at?_drop_cases f gone l).imp id fun ⟨absent,dropped⟩ =>
    ⟨absent,within l dropped⟩⟩

end Files

/-- From one machine to the other entries at such locations are removed, and nothing else is done. -/
inductive Machine.Prunes (m : Machine) (allowed : Location → Prop) : Machine → Prop where
  | done : Prunes m allowed m
  | more {middle : Machine} {g : Files} : Prunes m allowed middle →
      Drops allowed middle.files g → Prunes m allowed (middle.withFiles g)

namespace Machine.Prunes

theorem single (drops : Drops allowed m.files g) : m.Prunes allowed (m.withFiles g) :=
  .more .done drops

theorem trans (first : m.Prunes allowed middle) (second : middle.Prunes allowed after) :
    m.Prunes allowed after := by
  induction second with
  | done => exact first
  | more _ drops ih => exact .more ih drops

theorem mono (weaker : ∀ l, allowed l → allowed' l) (prunes : m.Prunes allowed after) :
    m.Prunes allowed' after := by
  induction prunes with
  | done => exact .done
  | more _ drops ih =>
    obtain ⟨gone,same,within⟩ := drops
    exact .more ih ⟨gone,same,fun l dropped => weaker l (within l dropped)⟩

theorem throughout (prunes : m.Prunes allowed after) : ∃ trees : List Files,
    after.history = m.history ++ trees.map .changed ∧
      ∀ g ∈ after.files :: trees, Less allowed m.files g := by
  induction prunes with
  | done => exact ⟨[],by simp,by simpa using Less.refl m.files⟩
  | @more middle g _ drops ih =>
    obtain ⟨trees,history,less⟩ := ih
    have last : Less allowed m.files g := (less _ List.mem_cons_self).trans drops.less
    refine ⟨trees ++ [g],by simp [withFiles,history],fun k member => ?_⟩
    rcases List.mem_cons.mp member with rfl | member
    · exact last
    rcases List.mem_append.mp member with member | member
    · exact less k (List.mem_cons_of_mem _ member)
    · exact List.mem_singleton.mp member ▸ last

theorem less (prunes : m.Prunes allowed after) : Less allowed m.files after.files :=
  let ⟨_,_,less⟩ := prunes.throughout
  less _ List.mem_cons_self

end Machine.Prunes

namespace Files

theorem prunes_change {operation : Files → Except Fault Files}
    (drops : ∀ g, operation m.files = .ok g → Drops allowed m.files g) :
    m.Prunes allowed ((change operation).run m).2 := by
  rw [run_change]
  split
  · next g changed => exact .single (drops g changed)
  · exact .done

theorem drops_removeFile (removed : removeFile p f = .ok g) :
    Drops (fun l => f.entry? p = .ok (some l)) f g := by
  obtain ⟨l,_,entry,-,-,rfl⟩ := removeFile_ok removed
  exact .erase entry

theorem examine_cases (p : Path) (m : Machine) :
    (∃ fault, (examine p).run m = (.error fault,m)) ∨
    ∃ l node, m.files.locate? p = .ok l ∧ m.files.at? l = some node ∧
      (examine p).run m = (.ok node,m) := by
  simp only [examine,run_bind,run_get]
  cases located : m.files.locate? p with
  | error fault => exact .inl ⟨fault,rfl⟩
  | ok l =>
    cases present : m.files.at? l with
    | none => exact .inl ⟨.notFound,by simp [present]⟩
    | some node => exact .inr ⟨l,node,rfl,present,by simp [present]⟩

theorem drops_clear (found : f.follow? p = .ok l) (cleared : clear p f = .ok g) :
    Drops (l <+: ·) f g := by
  obtain ⟨k,found',-,rfl⟩ := clear_ok cleared
  cases found.symm.trans found'
  refine ⟨_,rfl,fun k dropped => ?_⟩
  simp only [Bool.and_eq_true] at dropped
  exact List.isPrefixOf_iff_prefix.mp dropped.1

theorem drops_removeDirectory (found : f.follow? p = .ok l) (part : Part f g)
    (removed : removeDirectory p g = .ok h) : Drops (l <+: ·) g h := by
  obtain ⟨k,entry,directory,rfl⟩ := removeDirectory_ok removed
  have same := follow?_of_directory (part.keeps.entry? entry) (part.nodes k _ directory)
  cases found.symm.trans same
  exact .erase (List.prefix_refl l)

theorem prunes_removeTree (p : Path) (m : Machine) :
    m.Prunes (fun l => ∃ k, m.files.locate? p = .ok k ∧ k <+: l) ((removeTree p).run m).2 := by
  rcases examine_cases p m with ⟨fault,failed⟩ | ⟨k,node,located,present,seen⟩
  · simp only [removeTree,run_bind,failed]
    exact .done
  have within (l : Location) (below : k <+: l) : ∃ k, m.files.locate? p = .ok k ∧ k <+: l :=
    ⟨k,located,below⟩
  simp only [removeTree,run_bind,seen]
  cases node with
  | file | fullDevice => exact .done
  | link target =>
    apply prunes_change
    intro g removed
    obtain ⟨-,-,-,-,-,slash⟩ := removeFile_isOk.mp (by rw [removed]; rfl)
    obtain ⟨l,_,entry,-,-,rfl⟩ := removeFile_ok removed
    exact .erase ⟨l,locate?_of_entry entry slash,List.prefix_refl l⟩
  | directory =>
    have found := follow?_of_locate? located present
    simp only [run_bind,run_change]
    cases cleared : clear p m.files with
    | error fault => exact .done
    | ok g =>
      have drops := drops_clear found cleared
      have inside : m.Prunes (k <+: ·) (m.withFiles g) := .single drops
      refine .mono within (inside.trans ?_)
      simp only [run_outcome,run_change]
      cases removed : removeDirectory p g with
      | error fault =>
        simp only [Machine.withFiles,removed]
        cases fault <;> exact .done
      | ok h =>
        simp only [Machine.withFiles,removed]
        exact .single (drops_removeDirectory found drops.less.part removed)

theorem prunes_discardTree (p : Path) (m : Machine) :
    m.Prunes (fun l => ∃ k, m.files.locate? p = .ok k ∧ k <+: l) ((discardTree p).run m).2 := by
  simp only [discardTree,run_bind,run_look]
  split
  · rw [run_failing]
    exact prunes_removeTree p m
  · exact .done

end Files

namespace Uninstall

variable {u : Uninstall} {target? : Option Target}

def swept (ps : List Path) (m : Machine) : Machine := ps.foldl (fun m p => Install.cleared p m) m

/-- The paths, each with the tree that its turn finds. -/
def turns : List Path → Machine → List (Path × Files)
  | [], _ => []
  | p :: rest, m => (p,m.files) :: turns rest (Install.cleared p m)

/-- Something lies there and goes. -/
def goes (turn : Path × Files) : Bool := turn.2.holds turn.1 && (removeFile turn.1 turn.2).isOk

/-- Something lies there and stays. -/
def stays (turn : Path × Files) : Bool := turn.2.holds turn.1 && !(removeFile turn.1 turn.2).isOk

theorem turns_fst (ps : List Path) (m : Machine) : (turns ps m).map Prod.fst = ps := by
  induction ps generalizing m with
  | nil => rfl
  | cons p rest ih => simp [turns,ih]

/-- Each path is reported by what its turn finds. -/
theorem run_removeEach (ps : List Path) (m : Machine) :
    (removeEach ps : Procedure ε (List Path × List Path)).run m =
      (.ok (((turns ps m).filter goes).map Prod.fst,((turns ps m).filter stays).map Prod.fst),
        swept ps m) := by
  induction ps generalizing m with
  | nil => rfl
  | cons p rest ih =>
    have discards := run_discard (ε := ε) p m
    have clears : Install.cleared p m = _ := congrArg Prod.snd (run_discard (ε := InstallError) p m)
    have next : swept (p :: rest) m = swept rest (Install.cleared p m) := rfl
    by_cases held : m.files.holds p = true
    case neg =>
      simp only [held] at clears
      simp [removeEach,run_bind,next,turns,goes,stays,held,clears,ih]
    simp only [held] at clears discards
    rcases removed : removeFile p m.files with fault | g
    all_goals
      simp only [removed] at clears discards
      simp only [removeEach,run_bind,run_look,held,if_true,discards,ih]
      simp [next,turns,goes,stays,held,removed,clears,Except.isOk,Except.toBool]

theorem prunes_cleared (p : Path) (m : Machine) :
    m.Prunes (fun l => m.files.entry? p = .ok (some l)) (Install.cleared p m) := by
  rcases Install.cleared_cases p m with same | ⟨g,removed,same⟩
  · rw [same]
    exact .done
  · rw [same]
    exact .single (drops_removeFile removed)

theorem prunes_swept (ps : List Path) (m : Machine) :
    m.Prunes (fun l => ∃ p ∈ ps, m.files.entry? p = .ok (some l)) (swept ps m) := by
  induction ps generalizing m with
  | nil => exact .done
  | cons p rest ih =>
    have first := prunes_cleared p m
    refine (first.mono fun l entry => ⟨p,List.mem_cons_self,entry⟩).trans
      ((ih (Install.cleared p m)).mono ?_)
    rintro l ⟨q,member,entry⟩
    exact ⟨q,List.mem_cons_of_mem _ member,first.less.part.keeps.entry? entry⟩

theorem part_of_turn (member : (p,g) ∈ turns ps m) : Part m.files g := by
  induction ps generalizing m with
  | nil => cases member
  | cons q rest ih =>
    rcases List.mem_cons.mp member with same | member
    · cases same
      exact .refl _
    · exact (prunes_cleared q m).less.part.trans (ih member)

theorem holds_of_goes_cleared (gone : goes (p,m.files) = true) :
    (Install.cleared p m).files.holds p = false := by
  simp only [goes,Bool.and_eq_true] at gone
  obtain ⟨held,removable⟩ := gone
  rw [Install.cleared,run_discard,held]
  cases removed : removeFile p m.files with
  | error fault => simp [removed,Except.isOk,Except.toBool] at removable
  | ok g => exact holds_of_removed removed

theorem holds_swept (member : (p,g) ∈ turns ps m) (gone : goes (p,g) = true) :
    (swept ps m).files.holds p = false := by
  induction ps generalizing m with
  | nil => cases member
  | cons q rest ih =>
    rcases List.mem_cons.mp member with same | member
    · cases same
      rw [← Bool.not_eq_true]
      intro held
      have before := (prunes_swept rest (Install.cleared p m)).less.part.holds held
      simp [holds_of_goes_cleared gone] at before
    · exact ih member

theorem goes_not_stays (member : (p,g) ∈ turns ps m) (gone : goes (p,g) = true)
    (member' : (p,h) ∈ turns ps m) : stays (p,h) = false := by
  rw [← Bool.not_eq_true]
  intro stuck
  have held : h.holds p = true := by
    simp only [stays,Bool.and_eq_true] at stuck
    exact stuck.1
  induction ps generalizing m with
  | nil => cases member
  | cons q rest ih =>
    rcases List.mem_cons.mp member with same | member <;>
      rcases List.mem_cons.mp member' with same' | member'
    · cases same
      cases same'
      simp only [goes,stays,Bool.and_eq_true,Bool.not_eq_true'] at gone stuck
      simp [gone.2] at stuck
    · cases same
      have before := (part_of_turn member').holds held
      simp [holds_of_goes_cleared gone] at before
    · cases same'
      have part := (prunes_cleared p m).less.part.trans (part_of_turn member)
      simp only [goes,stays,Bool.and_eq_true,Bool.not_eq_true'] at gone stuck
      simp [part.removeFile gone.2] at stuck
    · exact ih member member'

def Asks (u : Uninstall) (f : Files) : Prop :=
  f.holds u.settings.configDirectory = true ∧ u.context.automated = false ∧
    u.context.interactive = true

instance (u : Uninstall) (f : Files) : Decidable (u.Asks f) := inferInstanceAs (Decidable (_ ∧ _))

/-- Nobody is asked, or the answer is not yes, or the configuration is removed as far as it can be. -/
theorem removeConfig_cases (u : Uninstall) (m : Machine) :
    (¬ u.Asks m.files ∧ ∃ config, config ≠ .removed ∧ config ≠ .failed ∧
      (u.removeConfig : Procedure ε ConfigRemoval).run m = (.ok config,m)) ∨
    u.Asks m.files ∧ u.prompt u.question ≠ .yes ∧
      (u.removeConfig : Procedure ε ConfigRemoval).run m =
        (.ok .declined,m.record (.askedUser u.question)) ∨
    u.Asks m.files ∧ u.prompt u.question = .yes ∧ ∃ result after,
      (discardTree u.settings.configDirectory).run (m.record (.askedUser u.question)) =
        (result,after) ∧
      (u.removeConfig : Procedure ε ConfigRemoval).run m =
        (.ok (if result.isOk then .removed else .failed),after) := by
  have first : (u.removeConfig : Procedure ε ConfigRemoval).run m = _ := run_bind _ _ m
  by_cases held : m.files.holds u.settings.configDirectory = true
  case neg => exact .inl ⟨fun asks => held asks.1,.missing,by simp,by simp,by simp [first,held]⟩
  by_cases automated : u.context.automated = true
  · exact .inl ⟨fun asks => by simp [asks.2.1] at automated,.skippedAutomated,by simp,by simp,
      by simp [first,held,automated]⟩
  by_cases interactive : u.context.interactive = true
  case neg =>
    exact .inl ⟨fun asks => interactive asks.2.2,.skippedNonInteractive,by simp,by simp,
      by simp [first,held,automated,interactive]⟩
  have asks : u.Asks m.files := ⟨held,by simpa using automated,interactive⟩
  by_cases agreed : u.prompt u.question = .yes
  case neg =>
    refine .inr (.inl ⟨asks,agreed,?_⟩)
    simp [first,held,automated,interactive,run_bind,agreed,-bind_pure_comp]
  rcases removes : (discardTree u.settings.configDirectory).run
    (m.record (.askedUser u.question)) with ⟨result,after⟩
  refine .inr (.inr ⟨asks,agreed,result,after,rfl,?_⟩)
  simp [first,held,automated,interactive,run_bind,agreed,removes,-bind_pure_comp]

def Agreed (u : Uninstall) (f : Files) (l : Location) : Prop :=
  u.context.automated = false ∧ u.context.interactive = true ∧ u.prompt u.question = .yes ∧
    ∃ k, f.locate? u.settings.configDirectory = .ok k ∧ k <+: l

/-- The question is put at most once, and whatever is removed after it has been agreed to. -/
theorem removeConfig_does (u : Uninstall) (m : Machine) : ∃ config after,
    (u.removeConfig : Procedure ε ConfigRemoval).run m = (.ok config,after) ∧
    (m.noting (if u.Asks m.files then [.askedUser u.question] else [])).Prunes (u.Agreed m.files)
      after ∧
    (config = .removed → (discardTree u.settings.configDirectory).run
      (m.record (.askedUser u.question)) = (.ok (),after)) ∧
    (config = .failed → u.Asks m.files ∧ ∃ failure, (discardTree u.settings.configDirectory).run
      (m.record (.askedUser u.question)) = (.error failure,after)) := by
  rcases removeConfig_cases (ε := ε) u m with
    ⟨unasked,config,other,other',ran⟩ | ⟨asks,-,ran⟩ | ⟨asks,agreed,result,after,removes,ran⟩
  · refine ⟨config,m,ran,?_,fun same => absurd same other,fun same => absurd same other'⟩
    rw [if_neg unasked,Machine.noting_nil]
    exact .done
  · refine ⟨.declined,_,ran,?_,by simp,by simp⟩
    rw [if_pos asks]
    exact .done
  · refine ⟨_,after,ran,?_,?_⟩
    · have prunes := prunes_discardTree u.settings.configDirectory
        (m.record (.askedUser u.question))
      rw [removes] at prunes
      rw [if_pos asks]
      exact prunes.mono fun l below => ⟨asks.2.1,asks.2.2,agreed,below⟩
    · cases result with
      | ok => exact ⟨fun _ => removes,by simp [Except.isOk,Except.toBool]⟩
      | error failure =>
        exact ⟨by simp [Except.isOk,Except.toBool],fun _ => ⟨asks,failure,removes⟩⟩

theorem run_run {config : ConfigRemoval} (u : Uninstall) (target? : Option Target) (m : Machine)
    (configures : (u.removeConfig : Procedure ε ConfigRemoval).run
      (swept (artifacts u.settings u.os target?) m) = (.ok config,after)) :
    (u.run target? : Procedure ε UninstallReport).run m =
      let turns := turns (artifacts u.settings u.os target?) m
      (.ok {
        removed := (turns.filter goes).map Prod.fst
        failed := (turns.filter stays).map Prod.fst ++
          if config = .failed then [u.settings.configDirectory] else []
        config },after) := by
  simp only [run,run_bind,run_removeEach,configures,run_pure]
  split <;> simp

structure Sound (u : Uninstall) (target? : Option Target) (m : Machine) (report : UninstallReport)
    (after : Machine) : Prop where
  /-- In no tree of the run anything differs from the first but that entries are gone: those that
  the artifacts name and, if the user agreed, the configuration with all below it. -/
  frame : ∃ events, after.history = m.history ++ events ∧
    ∀ g ∈ after.files :: events.filterMap Event.files?, ∀ l, g.at? l = m.files.at? l ∨
      g.at? l = none ∧ ((∃ p ∈ artifacts u.settings u.os target?, m.files.entry? p = .ok (some l)) ∨
        u.Agreed (swept (artifacts u.settings u.os target?) m).files l)
  questions : after.questions = m.questions ++
    if u.Asks (swept (artifacts u.settings u.os target?) m).files then [u.question] else []
  /-- Every artifact has its turn, whatever became of those before it. -/
  each : (turns (artifacts u.settings u.os target?) m).map Prod.fst =
    artifacts u.settings u.os target?
  removed : report.removed =
    ((turns (artifacts u.settings u.os target?) m).filter goes).map Prod.fst
  failed : report.failed =
    ((turns (artifacts u.settings u.os target?) m).filter stays).map Prod.fst ++
      if report.config = .failed then [u.settings.configDirectory] else []
  apart : ∀ p ∈ report.removed, p ∉ report.failed
  configRemoved : report.config = .removed →
    (discardTree u.settings.configDirectory).run
      ((swept (artifacts u.settings u.os target?) m).record (.askedUser u.question)) = (.ok (),after)
  configFailed : report.config = .failed → ∃ failure,
    (discardTree u.settings.configDirectory).run
      ((swept (artifacts u.settings u.os target?) m).record (.askedUser u.question)) =
        (.error failure,after)

theorem filterMap_changed (trees : List Files) :
    (trees.map Event.changed).filterMap Event.files? = trees := by
  induction trees with
  | nil => rfl
  | cons g trees ih => exact congrArg (g :: ·) ih

/-- First entries of one kind go, then something is noted, then entries of another kind go. -/
theorem frame_of_prunes {asked : List Event} (silent : asked.filterMap Event.files? = [])
    (first : m.Prunes allowed middle) (second : (middle.noting asked).Prunes allowed' after) :
    ∃ events, after.history = m.history ++ events ∧
      ∀ g ∈ after.files :: events.filterMap Event.files?, ∀ l, g.at? l = m.files.at? l ∨
        g.at? l = none ∧ (allowed l ∨ allowed' l) := by
  obtain ⟨trees,history,less⟩ := first.throughout
  obtain ⟨trees',history',less'⟩ := second.throughout
  refine ⟨trees.map .changed ++ (asked ++ trees'.map .changed),by simp [history,history'],?_⟩
  intro g member l
  simp only [List.filterMap_append,filterMap_changed,silent,List.nil_append] at member
  have between : g ∈ trees ∨ g ∈ after.files :: trees' := by
    rcases List.mem_cons.mp member with rfl | member
    · exact .inr List.mem_cons_self
    · exact (List.mem_append.mp member).imp id (List.mem_cons_of_mem _)
  rcases between with member | member
  · exact ((less g (List.mem_cons_of_mem _ member)).rest l).imp id (And.imp_right .inl)
  rcases (less' g member).rest l with same | ⟨absent,gone⟩
  · rw [same]
    exact (first.less.rest l).imp id (And.imp_right .inl)
  · exact .inr ⟨absent,.inr gone⟩

theorem questions_of_prunes (prunes : m.Prunes allowed after) : after.questions = m.questions := by
  obtain ⟨trees,history,-⟩ := prunes.throughout
  simp [Machine.questions,history,Event.question?]

theorem removed_not_failed {config : Path} {failed : Prop} [Decidable failed]
    (found : failed → (swept ps m).files.holds config = true)
    (gone : p ∈ ((turns ps m).filter goes).map Prod.fst) :
    p ∉ ((turns ps m).filter stays).map Prod.fst ++ if failed then [config] else [] := by
  intro stuck
  obtain ⟨⟨p,g⟩,inside,rfl⟩ := List.mem_map.mp gone
  obtain ⟨member,gone⟩ := List.mem_filter.mp inside
  rcases List.mem_append.mp stuck with stuck | last
  · obtain ⟨⟨q,h⟩,inside',rfl⟩ := List.mem_map.mp stuck
    obtain ⟨member',stayed⟩ := List.mem_filter.mp inside'
    simp [goes_not_stays member gone member'] at stayed
  · split at last
    · next stuck =>
      have absent := holds_swept member gone
      rw [show p = config by simpa using last,found stuck] at absent
      cases absent
    · cases last

/-- An uninstall always ends with a report. It removes nothing that it was not allowed to remove,
asks at most once, and accounts for every artifact that it came across. -/
theorem run_sound (u : Uninstall) (target? : Option Target) (m : Machine) : ∃ report after,
    (u.run target? : Procedure ε UninstallReport).run m = (.ok report,after) ∧
      u.Sound target? m report after := by
  let paths := artifacts u.settings u.os target?
  obtain ⟨config,after,ran,prunes,removed,failed⟩ := removeConfig_does (ε := ε) u (swept paths m)
  have silent : (if u.Asks (swept paths m).files then [Event.askedUser u.question]
      else []).filterMap Event.files? = [] := by
    split <;> rfl
  refine ⟨_,after,run_run u target? m ran,?_⟩
  constructor
  case frame => exact frame_of_prunes silent (prunes_swept paths m) prunes
  case questions =>
    rw [questions_of_prunes prunes,Machine.questions,Machine.noting_history,List.filterMap_append,
      ← Machine.questions,questions_of_prunes (prunes_swept paths m)]
    exact congrArg (m.questions ++ ·) (by split <;> rfl)
  case each => exact turns_fst paths m
  case removed => rfl
  case failed => rfl
  case apart => exact fun p gone => removed_not_failed (fun same => (failed same).1.1) gone
  case configRemoved => exact removed
  case configFailed => exact fun same => (failed same).2

end Uninstall
end ReleaseInstaller
