import ReleaseInstaller.Proofs.Requests

/-! Runs as traces of changes. A trace tells which trees a run goes through, one step at a time and
each after what happened before; a triple says that a procedure only takes such steps. -/
namespace ReleaseInstaller

/-- The trees that events lead through after a past, each change being a step. -/
inductive Trace (step : List Event → Files → Files → Prop) :
    List Event → Files → List Event → Files → Prop where
  | done : Trace step past f [] f
  | changed : step past f g → Trace step (past ++ [.changed g]) g events h →
      Trace step past f (.changed g :: events) h
  | noted : event.files? = none → Trace step (past ++ [event]) f events h →
      Trace step past f (event :: events) h

namespace Trace

variable {step step' : List Event → Files → Files → Prop} {past first second events : List Event}
  {f g h : Files}

theorem append (start : Trace step past f first g)
    (rest : Trace step (past ++ first) g second h) : Trace step past f (first ++ second) h := by
  induction start with
  | done => simpa using rest
  | changed taken _ ih => exact .changed taken (ih (by simpa using rest))
  | noted silent _ ih => exact .noted silent (ih (by simpa using rest))

theorem cut (whole : Trace step past f (first ++ second) h) :
    ∃ g, Trace step past f first g ∧ Trace step (past ++ first) g second h := by
  induction first generalizing past f with
  | nil => exact ⟨f,.done,by simpa using whole⟩
  | cons event first ih =>
    cases whole with
    | changed taken rest =>
      obtain ⟨g,before,after⟩ := ih rest
      exact ⟨g,.changed taken before,by simpa using after⟩
    | noted silent rest =>
      obtain ⟨g,before,after⟩ := ih rest
      exact ⟨g,.noted silent before,by simpa using after⟩

theorem mono (weaker : ∀ past f g, step past f g → step' past f g)
    (trace : Trace step past f events g) : Trace step' past f events g := by
  induction trace with
  | done => exact .done
  | changed taken _ ih => exact .changed (weaker _ _ _ taken) ih
  | noted silent _ ih => exact .noted silent ih

theorem preserves {P : Files → Prop} (kept : ∀ past f g, P f → step past f g → P g)
    (trace : Trace step past f events g) (start : P f) : P g := by
  induction trace with
  | done => exact start
  | changed taken _ ih => exact ih (kept _ _ _ start taken)
  | noted _ _ ih => exact ih start

/-- What every step preserves, and more of a past does not undo, holds all the way. -/
theorem throughout {P : List Event → Files → Prop}
    (grows : ∀ past more f, P past f → P (past ++ more) f)
    (kept : ∀ past f g, P past f → step past f g → P past g)
    (trace : Trace step past f events g) (start : P past f) :
    ∀ k ∈ f :: events.filterMap Event.files?, P (past ++ events) k := by
  induction trace with
  | done => simpa using start
  | changed taken _ ih =>
    refine List.forall_mem_cons.mpr ⟨grows _ _ _ start,?_⟩
    simpa [Event.files?] using ih (grows _ _ _ (kept _ _ _ start taken))
  | noted silent _ ih => simpa [List.filterMap_cons,silent] using ih (grows _ _ _ start)

/-- What relates the trees around every step relates each tree to all that come later. -/
theorem pairwise {P : Files → Prop} {R : Files → Files → Prop}
    (trans : ∀ {f g h}, R f g → R g h → R f h)
    (kept : ∀ past f g, P f → step past f g → P g ∧ R f g)
    (trace : Trace step past f events g) (start : P f) :
    (f :: events.filterMap Event.files?).Pairwise R := by
  induction trace with
  | done => simp
  | changed taken _ ih =>
    obtain ⟨next,linked⟩ := kept _ _ _ start taken
    have later := ih next
    rw [List.filterMap_cons,show Event.files? (.changed _) = some _ from rfl]
    refine List.pairwise_cons.mpr ⟨List.forall_mem_cons.mpr ⟨linked,fun k member => ?_⟩,later⟩
    exact trans linked (List.rel_of_pairwise_cons later member)
  | noted silent _ ih => simpa [List.filterMap_cons,silent] using ih start

theorem of_silent (silent : ∀ event ∈ events, event.files? = none) :
    Trace step past f events f := by
  induction events generalizing past with
  | nil => exact .done
  | cons event events ih =>
    exact .noted (silent event List.mem_cons_self)
      (ih fun event member => silent event (List.mem_cons_of_mem _ member))

end Trace

/-- From one machine to the other the tree is changed step by step. -/
structure Machine.Goes (step : List Event → Files → Files → Prop) (m after : Machine) : Prop where
  network : after.network = m.network
  trace : ∃ events, after.history = m.history ++ events ∧
    Trace step m.history m.files events after.files

namespace Machine

variable {step step' : List Event → Files → Files → Prop} {m middle after : Machine}

theorem Goes.refl (m : Machine) : m.Goes step m := ⟨rfl,[],by simp,.done⟩

theorem Goes.trans (first : m.Goes step middle) (second : middle.Goes step after) :
    m.Goes step after := by
  obtain ⟨network,events,history,trace⟩ := first
  obtain ⟨network',events',history',trace'⟩ := second
  refine ⟨network'.trans network,events ++ events',by simp [history,history'],?_⟩
  exact trace.append (history ▸ trace')

theorem Goes.mono (weaker : ∀ past f g, step past f g → step' past f g)
    (goes : m.Goes step after) : m.Goes step' after :=
  let ⟨network,events,history,trace⟩ := goes
  ⟨network,events,history,trace.mono weaker⟩

theorem goes_withFiles {files : Files} (taken : step m.history m.files files) :
    m.Goes step (m.withFiles files) := ⟨rfl,_,rfl,.changed taken .done⟩

theorem goes_noting {events : List Event} (silent : ∀ event ∈ events, event.files? = none) :
    m.Goes step (m.noting events) := ⟨rfl,_,rfl,.of_silent silent⟩

end Machine

namespace Procedure

variable {ε ε' α β : Type} {step step' : List Event → Files → Files → Prop}
  {inv pre : Machine → Prop} {post mid : α → Machine → Prop}

/-- Started where the precondition holds, the procedure takes only such steps and keeps the
invariant, whether it succeeds or not; if it does, the postcondition holds of its result. -/
def Does (step : List Event → Files → Files → Prop) (inv pre : Machine → Prop)
    (p : Procedure ε α) (post : α → Machine → Prop) : Prop :=
  ∀ m, inv m → pre m →
    m.Goes step (run p m).2 ∧ inv (run p m).2 ∧ ∀ a, (run p m).1 = .ok a → post a (run p m).2

theorem Does.pure {a : α} (holds : ∀ m, pre m → post a m) :
    Does step inv pre (pure a : Procedure ε α) post := by
  intro m kept start
  refine ⟨.refl m,kept,?_⟩
  intro b same
  cases same
  exact holds m start

theorem Does.throw (e : ε) : Does step inv pre (throw e : Procedure ε α) post :=
  fun m kept _ => ⟨.refl m,kept,fun _ same => nomatch same⟩

theorem Does.look (see : Files → α) :
    Does step inv pre (look see : Procedure ε α) fun a m => a = see m.files ∧ pre m := by
  intro m kept start
  refine ⟨.refl m,kept,?_⟩
  intro a same
  cases same
  exact ⟨rfl,start⟩

theorem Does.bind {p : Procedure ε α} {next : α → Procedure ε β} {post : β → Machine → Prop}
    (first : Does step inv pre p mid) (second : ∀ a, Does step inv (mid a) (next a) post) :
    Does step inv pre (p >>= next) post := by
  intro m kept start
  have before := first m kept start
  rw [run_bind]
  revert before
  rcases run p m with ⟨e | a,middle⟩ <;> rintro ⟨goes,kept,post⟩
  · exact ⟨goes,kept,fun _ same => nomatch same⟩
  · obtain ⟨goes',kept,post⟩ := second a middle kept (post a rfl)
    exact ⟨goes.trans goes',kept,post⟩

theorem Does.failing {p : Procedure ε α} (does : Does step inv pre p post) (asError : ε → ε') :
    Does step inv pre (failing asError p) post := by
  intro m kept start
  have before := does m kept start
  rw [run_failing]
  revert before
  rcases run p m with ⟨e | a,after⟩ <;> rintro ⟨goes,kept,post⟩
  · exact ⟨goes,kept,fun _ same => nomatch same⟩
  · refine ⟨goes,kept,?_⟩
    intro b same
    cases same
    exact post a rfl

theorem Does.outcome {p : Procedure ε α} (does : Does step inv pre p post) :
    Does step inv pre (outcome p : Procedure ε' (Except ε α)) fun result m =>
      ∀ a, result = .ok a → post a m := by
  intro m kept start
  obtain ⟨goes,kept,post⟩ := does m kept start
  refine ⟨goes,kept,?_⟩
  intro result same
  cases same
  exact post

theorem Does.change {operation : Files → Except Fault Files} {post : Unit → Machine → Prop}
    (allowed : ∀ m files, inv m → pre m → operation m.files = .ok files →
      step m.history m.files files ∧ inv (m.withFiles files) ∧ post () (m.withFiles files)) :
    Does step inv pre (change operation) post := by
  intro m kept start
  rw [run_change]
  cases changed : operation m.files with
  | error fault => exact ⟨.refl m,kept,fun _ same => nomatch same⟩
  | ok files =>
    obtain ⟨taken,kept,post⟩ := allowed m files kept start changed
    exact ⟨Machine.goes_withFiles taken,kept,fun _ _ => post⟩

theorem Does.weaken {pre' : Machine → Prop} {post' : α → Machine → Prop} {p : Procedure ε α}
    (does : Does step inv pre p post) (before : ∀ m, inv m → pre' m → pre m)
    (after : ∀ a m, inv m → post a m → post' a m) : Does step inv pre' p post' := by
  intro m kept start
  obtain ⟨goes,kept,post⟩ := does m kept (before m kept start)
  exact ⟨goes,kept,fun a same => after a _ kept (post a same)⟩

theorem Does.start {pre' : Machine → Prop} {p : Procedure ε α} (does : Does step inv pre p post)
    (before : ∀ m, inv m → pre' m → pre m) : Does step inv pre' p post :=
  does.weaken before fun _ _ _ post => post

theorem Does.each {p : Procedure ε α}
    (does : ∀ m, inv m → pre m → Does step inv (fun start => start = m) p post) :
    Does step inv pre p post :=
  fun m kept start => does m kept start m kept rfl

theorem Does.either {pre' : Machine → Prop} {p : Procedure ε α} (first : Does step inv pre p post)
    (second : Does step inv pre' p post) : Does step inv (fun m => pre m ∨ pre' m) p post :=
  fun m kept start => start.elim (first m kept) (second m kept)

/-- Among procedures that keep a weaker invariant, one that keeps a stronger one can tell so. -/
theorem Does.under {inv' : Machine → Prop} {p : Procedure ε α} (does : Does step inv pre p post)
    (weaker : ∀ m, inv m → inv' m) :
    Does step inv' (fun m => inv m ∧ pre m) p fun a m => inv m ∧ post a m := by
  rintro m - ⟨kept,start⟩
  obtain ⟨goes,kept,post⟩ := does m kept start
  exact ⟨goes,weaker _ kept,fun a same => ⟨kept,post a same⟩⟩

theorem Does.noting {p : Procedure ε α} {result : Machine → Except ε α}
    {events : Machine → List Event} (ran : ∀ m, run p m = (result m,m.noting (events m)))
    (silent : ∀ m, ∀ event ∈ events m, event.files? = none)
    (noted : ∀ m events, inv m → inv (m.noting events)) :
    Does step inv pre p fun _ _ => True := by
  intro m kept _
  rw [ran]
  exact ⟨Machine.goes_noting (silent m),noted m _ kept,fun _ _ => trivial⟩

theorem Does.record {event : Event} (silent : event.files? = none)
    (noted : ∀ m events, inv m → inv (m.noting events)) :
    Does step inv pre (record event : Procedure ε Unit) fun _ _ => True :=
  fun m kept _ => ⟨Machine.goes_noting (by simpa using silent),noted m [event] kept,
    fun _ _ => trivial⟩

/-- What is known of the past stays known. -/
theorem Does.keeping {P : List Event → Prop} {p : Procedure ε α}
    (grows : ∀ past more, P past → P (past ++ more)) (does : Does step inv pre p post) :
    Does step inv (fun m => P m.history ∧ pre m) p fun a m => P m.history ∧ post a m := by
  rintro m kept ⟨known,start⟩
  obtain ⟨goes,kept,post⟩ := does m kept start
  refine ⟨goes,kept,fun a same => ⟨?_,post a same⟩⟩
  obtain ⟨-,events,history,-⟩ := goes
  exact history ▸ grows _ _ known

end Procedure
end ReleaseInstaller
