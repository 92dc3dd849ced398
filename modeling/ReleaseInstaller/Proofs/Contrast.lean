import Mathlib.Data.List.Forall2
import ReleaseInstaller.Proofs.Entry
import ReleaseInstaller.Proofs.Requests
import ReleaseInstaller.Proofs.Twins

/-! Two runs side by side. A contrast says how the trees of the two may differ at a time; procedures run
in lockstep when from one such pair of machines they come to another, with the same result. -/
namespace ReleaseInstaller

open Files

/-- How two trees may differ without a run along the paths noticing, as long as the first of them is
clear. -/
structure Contrast where
  alike : Files → Files → Prop
  clear : Files → Prop
  paths : List Path
  /-- Where the trees hold the same. -/
  shown : Location → Prop
  at? : alike f g → shown l → g.at? l = f.at? l
  looks : alike f g → clear f → p ∈ paths → LeadsTo q p →
    g.holds q = f.holds q ∧ g.isDirectory q = f.isDirectory q
  makeDirectory : alike f g → clear f → p ∈ paths → LeadsTo q p →
    Parallel alike (makeDirectory q f) (makeDirectory q g)
  removeFile : alike f g → clear f → p ∈ paths → Parallel alike (removeFile p f) (removeFile p g)
  rename : alike f g → clear f → p ∈ paths → q ∈ paths →
    Parallel alike (rename p q f) (rename p q g)
  setMode : ∀ mode, alike f g → clear f → p ∈ paths →
    Parallel alike (setMode p mode f) (setMode p mode g)
  truncate : alike f g → clear f → p ∈ paths →
    Parallel (fun opened opened' => opened'.1 = opened.1 ∧ shown opened.1 ∧ alike opened.2 opened'.2)
      (truncate p f) (truncate p g)
  append : ∀ octets, alike f g → shown l → Parallel alike (append l octets f) (append l octets g)

theorem Parallel.refl {ε α : Type} {alike : α → α → Prop} (same : ∀ a, alike a a) (r : Except ε α) :
    Parallel alike r r := by
  cases r with
  | error e => exact .error
  | ok a => exact .ok (same a)

namespace Contrast

def equal (paths : List Path) : Contrast where
  alike := Eq
  clear _ := True
  paths
  shown _ := True
  at? same _ := by rw [same]
  looks same _ _ _ := by simp [same]
  makeDirectory same _ _ _ := same ▸ .refl (fun _ => rfl) _
  removeFile same _ _ := same ▸ .refl (fun _ => rfl) _
  rename same _ _ _ := same ▸ .refl (fun _ => rfl) _
  setMode _ same _ _ := same ▸ .refl (fun _ => rfl) _
  truncate same _ _ := same ▸ .refl (fun _ => ⟨rfl,trivial,rfl⟩) _
  append _ same _ := same ▸ .refl (fun _ => rfl) _

/-- Trees that differ in hidden places, which the paths spare. -/
def apart (hidden : Location → Prop) (first second : Files) (paths : List Path) : Contrast where
  alike := Twins hidden first second
  clear f := ∀ p ∈ paths, f.Spares hidden p
  paths
  shown l := ¬ hidden l
  at? twins shown := twins.shown _ shown
  looks twins clear member leads :=
    let agree := twins.agree ((clear _ member).unread.of_leadsTo leads)
    ⟨agree.holds,agree.isDirectory⟩
  makeDirectory twins clear member leads :=
    twins.parallel_makeDirectory ((clear _ member).unread.of_leadsTo leads)
  removeFile twins clear member := twins.parallel_removeFile (clear _ member).unread
  rename twins clear member member' := twins.parallel_rename (clear _ member) (clear _ member')
  setMode mode twins clear member := twins.parallel_setMode (clear _ member).unread mode
  truncate twins clear member := twins.parallel_truncate (clear _ member).unread
  append octets twins shown := twins.parallel_append shown octets

variable (c : Contrast)

/-- Two machines whose trees differ by a contrast, now and after every change, and nothing else that
the runs to come depend on. -/
structure Pair (m n : Machine) : Prop where
  alike : c.alike m.files n.files
  clear : c.clear m.files
  network : n.network = m.network
  disk : n.disk = m.disk
  requests : n.requests = m.requests
  feedCalls : n.feedCalls = m.feedCalls
  changes : List.Forall₂ c.alike (m.history.filterMap Event.files?)
    (n.history.filterMap Event.files?)

/-- Every tree that a run came to is clear. -/
def Fair (m : Machine) : Prop := ∀ f, .changed f ∈ m.history → c.clear f

/-- Two runs end with the same result, and their machines are a pair again. -/
structure Ends {ε α : Type} (post : α → Prop) (x y : Except ε α × Machine) : Prop where
  result : y.1 = x.1
  pair : c.Pair x.2 y.2
  post : ∀ a, x.1 = .ok a → post a

/-- From a pair of machines the procedures go on side by side, if all that the first one comes to is
clear. -/
structure Lockstep {ε α : Type} (pre : Prop) (p q : Procedure ε α) (post : α → Prop) : Prop where
  grows : ∀ m, m.history <+: (p.run m).2.history
  ends : pre → ∀ m n, c.Pair m n → c.Fair (p.run m).2 → c.Ends post (p.run m) (q.run n)

abbrev Steady {ε α : Type} (pre : Prop) (p : Procedure ε α) (post : α → Prop) : Prop :=
  c.Lockstep pre p p post

variable {c : Contrast} {m n : Machine}

theorem Fair.of_prefix (fair : c.Fair n) (grown : m.history <+: n.history) : c.Fair m :=
  fun f member => fair f (grown.subset member)

theorem Pair.noting {events events' : List Event} (pair : c.Pair m n)
    (requests : events'.filterMap Event.request? = events.filterMap Event.request?)
    (feedCalls : events'.filterMap Event.feedCall? = events.filterMap Event.feedCall?)
    (silent : events.filterMap Event.files? = []) (silent' : events'.filterMap Event.files? = []) :
    c.Pair (m.noting events) (n.noting events') where
  alike := pair.alike
  clear := pair.clear
  network := pair.network
  disk := pair.disk
  requests := by
    have same := pair.requests
    simp only [Machine.requests] at same
    simp only [Machine.requests,Machine.noting_history,List.filterMap_append,same,requests]
  feedCalls := by
    have same := pair.feedCalls
    simp only [Machine.feedCalls] at same
    simp only [Machine.feedCalls,Machine.noting_history,List.filterMap_append,same,feedCalls]
  changes := by simpa [silent,silent'] using pair.changes

theorem Pair.withFiles {f g : Files} (pair : c.Pair m n) (alike : c.alike f g) (clear : c.clear f) :
    c.Pair (m.withFiles f) (n.withFiles g) where
  alike
  clear
  network := pair.network
  disk := pair.disk
  requests := by
    simpa [Machine.requests,Machine.withFiles,List.filterMap_cons,Event.request?] using pair.requests
  feedCalls := by
    simpa [Machine.feedCalls,Machine.withFiles,List.filterMap_cons,Event.feedCall?] using
      pair.feedCalls
  changes := by
    simpa [Machine.withFiles,List.filterMap_cons,Event.files?] using
      List.rel_append pair.changes (.cons alike .nil)

theorem Pair.judged (pair : c.Pair m n) : c.Pair m.judged n.judged :=
  ⟨pair.alike,pair.clear,pair.network,congrArg List.tail pair.disk,pair.requests,pair.feedCalls,pair.changes⟩

theorem Pair.verdict?_eq (pair : c.Pair m n) : n.verdict? = m.verdict? := by
  rw [Machine.verdict?,pair.disk,Machine.verdict?]

namespace Lockstep

variable {ε ε' α β : Type} {pre : Prop} {p q : Procedure ε α} {post mid : α → Prop}

theorem pure {a : α} (holds : pre → post a) : c.Steady pre (pure a : Procedure ε α) post := by
  refine ⟨fun m => List.prefix_rfl,fun start m n pair _ => ⟨rfl,pair,?_⟩⟩
  intro b same
  cases same
  exact holds start

theorem throw (e : ε) : c.Steady pre (throw e : Procedure ε α) post :=
  ⟨fun _ => List.prefix_rfl,fun _ _ _ pair _ => ⟨rfl,pair,fun _ same => nomatch same⟩⟩

theorem look {see : Files → α} (same : ∀ f g, c.alike f g → c.clear f → see g = see f) :
    c.Steady pre (Procedure.look see : Procedure ε α) fun _ => True :=
  ⟨fun _ => List.prefix_rfl,fun _ _ _ pair _ =>
    ⟨congrArg Except.ok (same _ _ pair.alike pair.clear),pair,fun _ _ => trivial⟩⟩

theorem bind {next next' : α → Procedure ε β} {post : β → Prop} (first : c.Lockstep pre p q mid)
    (second : ∀ a, c.Lockstep (mid a) (next a) (next' a) post) :
    c.Lockstep pre (p >>= next) (q >>= next') post := by
  constructor
  · intro m
    have grown := first.grows m
    rw [Procedure.run_bind]
    revert grown
    rcases p.run m with ⟨e | a,middle⟩ <;> intro grown
    · exact grown
    · exact grown.trans ((second a).grows middle)
  · intro start m n pair fair
    have before := first.ends start m n pair
    rw [Procedure.run_bind] at fair ⊢
    rw [Procedure.run_bind]
    revert fair before
    rcases p.run m with ⟨e | a,middle⟩ <;> rcases q.run n with ⟨result,middle'⟩ <;>
      intro fair before
    · obtain ⟨same,pair,-⟩ := before fair
      obtain rfl : result = .error e := same
      exact ⟨rfl,pair,fun _ same => nomatch same⟩
    · obtain ⟨same,pair,holds⟩ := before (fair.of_prefix ((second a).grows middle))
      obtain rfl : result = .ok a := same
      exact (second a).ends (holds a rfl) middle middle' pair fair

theorem failing (lockstep : c.Lockstep pre p q post) (asError : ε → ε') :
    c.Lockstep pre (Procedure.failing asError p) (Procedure.failing asError q) post := by
  refine ⟨lockstep.grows,fun start m n pair fair => ?_⟩
  obtain ⟨same,pair,holds⟩ := lockstep.ends start m n pair fair
  rw [Procedure.run_failing,Procedure.run_failing,same]
  refine ⟨rfl,pair,fun a ok => ?_⟩
  revert ok holds
  cases (p.run m).1 with
  | error e => rintro - ⟨⟩
  | ok b =>
    rintro holds ⟨⟩
    exact holds a rfl

theorem outcome (lockstep : c.Lockstep pre p q post) :
    c.Lockstep pre (Procedure.outcome p : Procedure ε' (Except ε α)) (Procedure.outcome q)
      fun _ => True := by
  refine ⟨lockstep.grows,fun start m n pair fair => ?_⟩
  obtain ⟨same,pair,-⟩ := lockstep.ends start m n pair fair
  exact ⟨congrArg Except.ok same,pair,fun _ _ => trivial⟩

theorem succeeds (lockstep : c.Lockstep pre p q post) :
    c.Lockstep pre (Procedure.succeeds p : Procedure ε' Bool) (Procedure.succeeds q)
      fun _ => True :=
  .bind lockstep.outcome fun _ => .pure fun _ => trivial

theorem record {event : Event} (silent : event.files? = none) :
    c.Steady pre (Procedure.record event : Procedure ε Unit) fun _ => True :=
  ⟨fun _ => List.prefix_append ..,fun _ _ _ pair _ =>
    ⟨rfl,pair.noting rfl rfl (by simp [silent]) (by simp [silent]),fun _ _ => trivial⟩⟩

theorem change {operation : Files → Except Fault Files}
    (parallel : ∀ f g, c.alike f g → c.clear f → pre →
      Parallel c.alike (operation f) (operation g)) :
    c.Steady pre (Procedure.change operation) fun _ => True := by
  constructor
  · intro m
    rw [Procedure.run_change]
    split
    · exact List.prefix_append ..
    · exact List.prefix_rfl
  · intro start m n pair
    have both := parallel _ _ pair.alike pair.clear start
    rw [Procedure.run_change,Procedure.run_change]
    revert both
    generalize operation m.files = r, operation n.files = r'
    intro both
    cases both with
    | error => exact fun _ => ⟨rfl,pair,fun _ _ => trivial⟩
    | ok alike =>
      intro fair
      exact ⟨rfl,pair.withFiles alike (fair _ (List.mem_append_right _ (List.mem_singleton_self _))),
        fun _ _ => trivial⟩

theorem weaken {pre' : Prop} {post' : α → Prop} (lockstep : c.Lockstep pre p q post)
    (before : pre' → pre) (after : ∀ a, post a → post' a) : c.Lockstep pre' p q post' := by
  refine ⟨lockstep.grows,fun start m n pair fair => ?_⟩
  obtain ⟨same,pair,holds⟩ := lockstep.ends (before start) m n pair fair
  exact ⟨same,pair,fun a ok => after a (holds a ok)⟩

/-- What is known at the start may be used throughout. -/
theorem assuming (grows : ∀ m, m.history <+: (p.run m).2.history)
    (lockstep : pre → c.Lockstep True p q post) : c.Lockstep pre p q post :=
  ⟨grows,fun start => (lockstep start).ends trivial⟩

theorem keep (lockstep : c.Lockstep pre p q post) : c.Lockstep pre p q fun a => pre ∧ post a := by
  refine ⟨lockstep.grows,fun start m n pair fair => ?_⟩
  obtain ⟨same,pair,holds⟩ := lockstep.ends start m n pair fair
  exact ⟨same,pair,fun a ok => ⟨start,holds a ok⟩⟩

/-- Only one of the runs, or each of them, may note an event that nothing depends on. -/
theorem showing (lockstep : c.Lockstep pre p q post) {event : Event}
    (request : event.request? = none) (feedCall : event.feedCall? = none)
    (silent : event.files? = none) (shows shows' : Bool) :
    c.Lockstep pre (if shows then Procedure.record event >>= fun _ => p else p)
      (if shows' then Procedure.record event >>= fun _ => q else q) post := by
  have run (shows : Bool) (p : Procedure ε α) (m : Machine) :
      (if shows then Procedure.record event >>= fun _ => p else p).run m =
        p.run (m.noting (if shows then [event] else [])) := by
    cases shows <;> simp [Procedure.run_bind,Machine.record_eq_noting]
  have unseen {β : Type} {see : Event → Option β} (blind : see event = none) (shows : Bool) :
      (if shows then [event] else []).filterMap see = [] := by
    cases shows <;> simp [blind]
  constructor
  · intro m
    rw [run]
    have grown := lockstep.grows (m.noting (if shows then [event] else []))
    exact (List.prefix_append ..).trans grown
  · intro start m n pair fair
    rw [run] at fair ⊢
    rw [run]
    refine lockstep.ends start _ _ (pair.noting ?_ ?_ (unseen silent _) (unseen silent _)) fair
    · rw [unseen request,unseen request]
    · rw [unseen feedCall,unseen feedCall]

end Lockstep

variable {ε : Type} {pre : Prop} {p q : Path} {l : Location}

theorem steady_makeDirectory (member : p ∈ c.paths) (leads : LeadsTo q p) :
    c.Steady pre (Procedure.change (Files.makeDirectory q)) fun _ => True :=
  .change fun _ _ alike clear _ => c.makeDirectory alike clear member leads

theorem steady_unlessDirectory (member : p ∈ c.paths) (leads : LeadsTo q p) (fault : Fault) :
    c.Steady pre (unlessDirectory q fault) fun _ => True := by
  refine .bind (.look fun f g alike clear => (c.looks alike clear member leads).2) ?_
  intro found
  cases found
  · exact .throw fault
  · exact .pure fun _ => trivial

theorem steady_makeUpward (member : p ∈ c.paths) (upward : List Path)
    (leads : ∀ q ∈ upward, LeadsTo q p) : c.Steady pre (makeUpward upward) fun _ => True := by
  induction upward generalizing pre with
  | nil => exact .throw _
  | cons q up ih =>
    obtain ⟨here,rest⟩ := List.forall_mem_cons.mp leads
    unfold makeUpward
    split
    · exact .pure fun _ => trivial
    · refine .bind (steady_makeDirectory member here).outcome ?_
      intro result
      split
      · exact .pure fun _ => trivial
      · refine .bind (ih rest) fun _ => .bind (steady_makeDirectory member here).outcome ?_
        intro result
        split
        · exact .pure fun _ => trivial
        · exact steady_unlessDirectory member here _
      · exact steady_unlessDirectory member here _

theorem steady_makeDirectories (member : p ∈ c.paths) (leads : ∀ r ∈ q.ancestors, LeadsTo r p) :
    c.Steady pre (makeDirectories q) fun _ => True := by
  refine .bind (.look fun f g alike clear =>
    (c.looks alike clear member (leads q List.mem_cons_self)).1) ?_
  intro found
  split
  · exact .pure fun _ => trivial
  · exact .failing (steady_makeUpward member _ leads) _

theorem steady_makeParent (member : p ∈ c.paths) :
    c.Steady pre (makeParent p) fun _ => True := by
  unfold makeParent
  split
  · exact .pure fun _ => trivial
  next parent up =>
  refine steady_makeDirectories member fun q above => ?_
  refine .of_above ?_
  rcases Path.above_of_mem_ancestors above with rfl | above
  · exact .parent up
  · exact above.trans (.parent up)

theorem steady_openEmpty (member : p ∈ c.paths) : c.Steady pre (openEmpty p) c.shown := by
  constructor
  · intro m
    rw [run_openEmpty]
    split
    · exact List.prefix_append ..
    · exact List.prefix_rfl
  · intro _ m n pair
    have both := c.truncate pair.alike pair.clear member
    rw [run_openEmpty,run_openEmpty]
    revert both
    generalize Files.truncate p m.files = r, Files.truncate p n.files = r'
    intro both
    cases both with
    | error => exact fun _ => ⟨rfl,pair,fun _ same => nomatch same⟩
    | @ok opened opened' both =>
      obtain ⟨same,shown,alike⟩ := both
      intro fair
      have clear := fair opened.2 (List.mem_append_right _ (List.mem_singleton_self _))
      refine ⟨congrArg Except.ok same,pair.withFiles alike clear,?_⟩
      rintro _ ⟨⟩
      exact shown

theorem steady_create (member : p ∈ c.paths) : c.Steady pre (create p) c.shown :=
  .bind (steady_makeParent member) fun _ => .failing (steady_openEmpty member) _

theorem steady_storeAs (octets : List UInt8) (verdict : Option Nat) :
    c.Steady (c.shown l) (storeAs l octets verdict) fun _ => True := by
  have append (octets : List UInt8) : c.Steady (c.shown l) (Procedure.change (Files.append l octets))
      fun _ => True := .change fun _ _ alike _ shown => c.append octets alike shown
  cases verdict with
  | none => exact append octets
  | some n => exact .bind (append _) fun _ => .throw _

theorem steady_store (octets : List UInt8) :
    c.Steady (c.shown l) (store l octets) fun _ => True := by
  have stored (verdict : Option Nat) :
      c.Steady (c.shown l) (storeAs l octets verdict) fun _ => True := steady_storeAs octets verdict
  constructor
  · intro m
    rw [run_store_eq]
    exact (stored m.verdict?).grows m.judged
  · intro shown m n pair
    rw [run_store_eq,run_store_eq,pair.verdict?_eq]
    exact (stored m.verdict?).ends shown _ _ pair.judged

theorem steady_flush : c.Steady (c.shown l) (flush l) fun _ => True := by
  constructor
  · intro m
    rw [run_flush]
    split
    · exact List.prefix_rfl
    · split <;> exact List.prefix_rfl
  · intro shown m n pair _
    simp only [run_flush,pair.verdict?_eq,c.at? pair.alike shown]
    split
    · exact ⟨rfl,pair,fun _ _ => trivial⟩
    · split <;> exact ⟨rfl,pair.judged,fun _ _ => trivial⟩

theorem steady_discard (member : p ∈ c.paths) :
    c.Steady pre (discard p : Procedure ε Bool) fun _ => True := by
  refine .bind (.look fun f g alike clear => (c.looks alike clear member (.refl p)).1) ?_
  intro found
  cases found
  · exact .pure fun _ => trivial
  · exact .succeeds (.change fun _ _ alike clear _ => c.removeFile alike clear member)

theorem steady_discardEach (paths : List Path) (within : ∀ p ∈ paths, p ∈ c.paths) :
    c.Steady pre (Install.discardEach paths : Procedure ε (List Path)) fun _ => True := by
  induction paths generalizing pre with
  | nil => exact .pure fun _ => trivial
  | cons p rest ih =>
    obtain ⟨member,within⟩ := List.forall_mem_cons.mp within
    refine .bind (.look fun f g alike clear => (c.looks alike clear member (.refl p)).1) ?_
    intro found
    cases found
    · have skipped : c.Steady True (pure false : Procedure ε Bool) fun _ => True :=
        .pure fun _ => trivial
      exact .bind skipped fun _ => .bind (ih within) fun _ => .pure fun _ => trivial
    · exact .bind (steady_discard member) fun _ => .bind (ih within) fun _ =>
        .pure fun _ => trivial

theorem steady_replacement (member : p ∈ c.paths) (member' : q ∈ c.paths) :
    c.Steady pre (Replacement.run p q) fun _ => True := by
  have mode : c.Steady pre (updateMode p Replacement.executableMode) fun _ => True :=
    .failing (.change fun _ _ alike clear _ => c.setMode _ alike clear member) _
  exact .failing (.bind mode fun _ => .bind (steady_makeParent member') fun _ =>
    .failing (.change fun _ _ alike clear _ => c.rename alike clear member member') _) _

end Contrast
end ReleaseInstaller
