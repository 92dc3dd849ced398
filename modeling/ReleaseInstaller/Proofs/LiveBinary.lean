import ReleaseInstaller.Proofs.Start

/-! The binary that users run, over whole sessions: installs follow one another on a target, each
is perhaps killed on its way, and the binary is the old one or a whole download at every moment. -/
namespace ReleaseInstaller

open Files Procedure

inductive Host where
  | platform (platform : Platform)
  | reported (os arch : String)

def Host.platform? : Host → Except PlatformError Platform
  | platform p => .ok p
  | reported os arch => Platform.ofHost os arch

/-- An install as it is called for, with the answers that it is going to get: from its feed, from
the network and from the disk. -/
structure Call where
  settings : Settings
  feed : Feed
  host : Host
  shows : Bool
  explicit : Option ReleaseVersion
  network : Net.Network
  disk : List (Option Nat)

namespace Call

def install (c : Call) (t : Target) (p : Platform) : Install :=
  ⟨c.settings,c.feed,p,t,c.shows⟩

def procedure (c : Call) (t : Target) : Procedure InstallError Installed :=
  match c.host with
  | .platform p => (c.install t p).run c.explicit
  | .reported os arch => Install.runForHost c.settings c.feed os arch t c.shows c.explicit

def machine (c : Call) (f : Files) : Machine := ⟨f,c.network,c.disk,[]⟩

def history (c : Call) (t : Target) (f : Files) : List Event :=
  ((c.procedure t).run (c.machine f)).2.history

/-- The call is for a binary of this name, on a platform of this system. -/
structure For (c : Call) (name : String) (os : Os) : Prop where
  binary : c.settings.binaryName = name
  system : ∀ p, c.host.platform? = .ok p → p.os = os

end Call

/-- Calls in order, each with what it did before it ended or was killed. -/
abbrev Log := List (Call × List Event)

def Log.trees (f : Files) (log : Log) : List Files :=
  f :: log.flatMap fun (_,past) => past.filterMap Event.files?

/-- Installs of one target that follow one another on a tree. Each finds the tree that is left by
the one before, and may be killed after any part of what it would do. -/
inductive Session (t : Target) (name : String) (os : Os) (f : Files) : Log → Files → Prop where
  | start : Session t name os f [] f
  | call : Session t name os f log g → c.For name os → past <+: c.history t g →
      Session t name os f (log ++ [(c,past)]) ((past.filterMap Event.files?).getLast?.getD g)

namespace Session

variable {t : Target} {name : String} {os : Os} {dir : Path} {f g h : Files} {log : Log} {c : Call}
  {past : List Event}

/-- The binary shows the whole body of an artifact that was served to the call. -/
def Delivered (t : Target) (network : Net.Network) (past : List Event) (h : Files) : Prop :=
  ∃ url octets, Download.Served network past url octets ∧
    h.node? t.final = some (.file (.data octets) Replacement.executableMode)

/-- The binary is what it was in the first tree, or what one of the calls delivered. -/
def Live (t : Target) (f : Files) (log : Log) (h : Files) : Prop :=
  h.node? t.final = f.node? t.final ∨ ∃ entry ∈ log, Delivered t entry.1.network entry.2 h

def Stays (t : Target) (g h : Files) : Prop :=
  (g.node? t.final).isSome = true → (h.node? t.final).isSome = true

theorem Stays.trans (first : Stays t f g) (second : Stays t g h) : Stays t f h := second ∘ first

theorem Delivered.append {network : Net.Network} (delivered : Delivered t network past h)
    (more : List Event) : Delivered t network (past ++ more) h :=
  let ⟨url,octets,served,node⟩ := delivered
  ⟨url,octets,served.append more,node⟩

theorem Delivered.of_same {network : Net.Network} (delivered : Delivered t network past g)
    (same : h.node? t.final = g.node? t.final) : Delivered t network past h :=
  let ⟨url,octets,served,node⟩ := delivered
  ⟨url,octets,served,same.trans node⟩

theorem Live.append (live : Live t f log h) (more : Log) : Live t f (log ++ more) h :=
  live.imp id fun ⟨entry,member,delivered⟩ => ⟨entry,List.mem_append_left more member,delivered⟩

theorem Live.of_same (live : Live t f log g) (same : h.node? t.final = g.node? t.final) :
    Live t f log h :=
  live.imp same.trans fun ⟨entry,member,delivered⟩ => ⟨entry,member,delivered.of_same same⟩

def Step (t : Target) (name : String) (os : Os) (c : Call) (past : List Event) :
    Files → Files → Prop :=
  t.Change (t.removable name os) fun octets => ∃ url, Download.Served c.network past url octets

theorem goes_of_call (isName : Path.IsName name)
    (bare : os = .windows → ¬ "exe".toList <:+ name.toList) (asked : c.For name os)
    (fit : (Target.make dir name os).Fit ((Target.make dir name os).final ::
      (Target.make dir name os).removable name os) g) :
    (c.machine g).Goes (Step (.make dir name os) name os c)
      ((c.procedure (.make dir name os)).run (c.machine g)).2 := by
  obtain ⟨rfl,system⟩ := asked
  have runs (p : Platform) (same : p.os = os) :
      (c.machine g).Goes (Step (.make dir c.settings.binaryName os) c.settings.binaryName os c)
        (((c.install (.make dir c.settings.binaryName os) p).run c.explicit).run
          (c.machine g)).2 := by
    subst same
    have aims : (c.install (.make dir c.settings.binaryName p.os) p).Aims dir := ⟨rfl,isName,bare⟩
    exact (Install.does_run (aims.worksAt c.network) c.explicit (c.machine g) ⟨rfl,fit⟩ trivial).1
  unfold Call.procedure
  cases host : c.host with
  | platform p => exact runs p (system p (by rw [host]; rfl))
  | reported os' arch =>
    simp only [Install.runForHost]
    cases found : Platform.ofHost os' arch with
    | ok p => exact runs p (system p (by rw [host]; exact found))
    | error cause =>
      have silent : ∀ event ∈ [Event.entered .failed], event.files? = none := by simp [Event.files?]
      exact Machine.goes_noting silent

theorem trace_of_call (isName : Path.IsName name)
    (bare : os = .windows → ¬ "exe".toList <:+ name.toList) (asked : c.For name os)
    (fit : (Target.make dir name os).Fit ((Target.make dir name os).final ::
      (Target.make dir name os).removable name os) g)
    (cut : past <+: c.history (.make dir name os) g) :
    ∃ h, Trace (Step (.make dir name os) name os c) [] g past h := by
  obtain ⟨-,events,history,trace⟩ := goes_of_call isName bare asked fit
  obtain ⟨more,rest⟩ := cut
  rw [Call.history,history] at rest
  obtain rfl : past ++ more = events := rest
  obtain ⟨h,first,-⟩ := trace.cut
  exact ⟨h,first⟩

theorem call_live (isName : Path.IsName name)
    (bare : os = .windows → ¬ "exe".toList <:+ name.toList)
    (fit : (Target.make dir name os).Fit ((Target.make dir name os).final ::
      (Target.make dir name os).removable name os) g)
    (trace : Trace (Step (.make dir name os) name os c) [] g past h) :
    ∀ k ∈ g :: past.filterMap Event.files?, (Target.make dir name os).Fit
        ((Target.make dir name os).final :: (Target.make dir name os).removable name os) k ∧
      (k.node? (Target.make dir name os).final = g.node? (Target.make dir name os).final ∨
        Delivered (.make dir name os) c.network past k) := by
  refine trace.throughout (P := fun past k => Target.Fit (.make dir name os) _ k ∧
      (k.node? (Target.make dir name os).final = g.node? (Target.make dir name os).final ∨
        Delivered (.make dir name os) c.network past k)) ?_ ?_ ⟨fit,.inl rfl⟩
  · exact fun past more k ⟨fit,live⟩ => ⟨fit,live.imp id fun delivered => delivered.append more⟩
  · intro past k k' ⟨fit,live⟩ taken
    have scope := Target.scope_removable dir os isName
      fun octets => ∃ url, Download.Served c.network past url octets
    refine ⟨(taken.fit fit scope).1,?_⟩
    rcases taken.final fit scope fun p => Target.removable_apart isName bare with
      same | ⟨octets,⟨url,served⟩,node⟩
    · exact live.imp same.trans fun delivered => delivered.of_same same
    · exact .inr ⟨url,octets,served,node⟩

theorem call_stays (isName : Path.IsName name)
    (bare : os = .windows → ¬ "exe".toList <:+ name.toList)
    (fit : (Target.make dir name os).Fit ((Target.make dir name os).final ::
      (Target.make dir name os).removable name os) g)
    (trace : Trace (Step (.make dir name os) name os c) [] g past h) :
    (g :: past.filterMap Event.files?).Pairwise (Stays (.make dir name os)) := by
  refine trace.pairwise (P := Target.Fit (.make dir name os) _) Stays.trans ?_ fit
  intro past k k' fit taken
  have scope := Target.scope_removable dir os isName
    fun octets => ∃ url, Download.Served c.network past url octets
  refine ⟨(taken.fit fit scope).1,?_⟩
  intro there
  rcases taken.final fit scope fun p => Target.removable_apart isName bare with
    same | ⟨_,_,node⟩
  · rw [same,there]
  · rw [node]
    rfl

/-- What a session keeps: all trees fit, and the binary is live in all of them and stays. -/
structure Kept (t : Target) (touched : List Path) (f : Files) (log : Log) (g : Files) : Prop where
  reached : (log.trees f).getLast? = some g
  fit : ∀ h ∈ log.trees f, t.Fit touched h
  live : ∀ h ∈ log.trees f, Live t f log h
  stays : (log.trees f).Pairwise (Stays t)

theorem trees_append (f : Files) (log : Log) (c : Call) (past : List Event) :
    Log.trees f (log ++ [(c,past)]) = log.trees f ++ past.filterMap Event.files? := by
  simp [Log.trees]

theorem Kept.stays_to (kept : Kept t touched f log g) (member : h ∈ log.trees f) : Stays t h g := by
  obtain ⟨before,shape⟩ := List.getLast?_eq_some_iff.mp kept.reached
  have stays := kept.stays
  rw [shape] at stays member
  rcases List.mem_append.mp member with earlier | last
  · exact (List.pairwise_append.mp stays).2.2 h earlier g List.mem_cons_self
  · rw [List.mem_singleton.mp last]
    exact id

/-- One more call keeps it all, wherever it is killed. -/
theorem Kept.call (kept : Kept (.make dir name os) ((Target.make dir name os).final ::
      (Target.make dir name os).removable name os) f log g) (isName : Path.IsName name)
    (bare : os = .windows → ¬ "exe".toList <:+ name.toList) (asked : c.For name os)
    (cut : past <+: c.history (.make dir name os) g) :
    Kept (.make dir name os) ((Target.make dir name os).final ::
      (Target.make dir name os).removable name os) f (log ++ [(c,past)])
      ((past.filterMap Event.files?).getLast?.getD g) := by
  have found := List.mem_of_getLast? kept.reached
  have fit := kept.fit g found
  obtain ⟨h,trace⟩ := trace_of_call isName bare asked fit cut
  obtain ⟨-,here⟩ := List.forall_mem_cons.mp (call_live isName bare fit trace)
  obtain ⟨first,later⟩ := List.pairwise_cons.mp (call_stays isName bare fit trace)
  refine ⟨?_,?_,?_,?_⟩ <;> rw [trees_append]
  · rw [List.getLast?_append,kept.reached]
    cases (past.filterMap Event.files?).getLast? <;> rfl
  · exact List.forall_mem_append.mpr ⟨kept.fit,fun k new => (here k new).1⟩
  · refine List.forall_mem_append.mpr ⟨fun k old => (kept.live k old).append _,?_⟩
    intro k new
    rcases (here k new).2 with same | delivered
    · exact ((kept.live g found).of_same same).append _
    · exact .inr ⟨(c,past),by simp,delivered⟩
  · exact List.pairwise_append.mpr ⟨kept.stays,later,fun k old k' new =>
      Stays.trans (kept.stays_to old) (first k' new)⟩

/-- Over a whole session the binary of the target is at every moment what it was before, or a whole
download, made executable; and once it is there it is never missing again. The directory must be
`Ready`: spelled through nothing that is missing, and through no link that is removed as a script. -/
theorem binary_live (session : Session (.make dir "devspace" os) "devspace" os f log g)
    (ready : f.Ready dir ((Target.make dir "devspace" os).companions "devspace" os true))
    (temporary : Plain (f.node? (Target.make dir "devspace" os).temporary))
    (final : Plain (f.node? (Target.make dir "devspace" os).final))
    (legacy : Plain (f.node? (Target.make dir "devspace" os).legacy)) :
    (∀ h ∈ log.trees f, Live (.make dir "devspace" os) f log h) ∧
      (log.trees f).Pairwise (Stays (.make dir "devspace" os)) := by
  have isName : Path.IsName "devspace" := Path.isName_devspace
  have bare : os = .windows → ¬ "exe".toList <:+ "devspace".toList := fun _ => by decide
  have ready' : f.Ready dir _ := ⟨ready.whole,ready.direct,(ready.beside.cons legacy).cons final⟩
  have kept : Kept (.make dir "devspace" os) ((Target.make dir "devspace" os).final ::
      (Target.make dir "devspace" os).removable "devspace" os) f log g := by
    induction session with
    | start =>
      have fit := Target.Fit.start (t := .make dir "devspace" os) ready' temporary
      exact ⟨rfl,List.forall_mem_singleton.mpr fit,List.forall_mem_singleton.mpr (.inl rfl),
        List.pairwise_singleton _ _⟩
    | call _ asked cut ih => exact ih.call isName bare asked cut
  exact ⟨kept.live,kept.stays⟩

theorem of_call (asked : c.For name os) : Session t name os f [(c,c.history t f)]
    (((c.history t f).filterMap Event.files?).getLast?.getD f) :=
  .call .start asked (List.prefix_refl _)

theorem not_live {content : Content} {mode : Nat} (absent : f.node? t.final = none)
    (old : h.node? t.final = some (.file content mode)) (other : mode ≠ Replacement.executableMode) :
    ¬ Live t f log h := by
  rintro (same | ⟨_,-,_,_,-,new⟩)
  · rw [same,absent] at old
    cases old
  · rw [old] at new
    cases new
    exact other rfl

theorem not_stays (there : (f.node? t.final).isSome = true)
    (lost : ∃ h ∈ (log.trees f).tail, h.node? t.final = none) :
    ¬ (log.trees f).Pairwise (Stays t) := by
  obtain ⟨h,later,absent⟩ := lost
  intro stays
  have kept := (List.pairwise_cons.mp stays).1 h later there
  rw [absent] at kept
  cases kept

/-- Through `/missing` that is made an old binary comes to be seen that was not there before; and
with the link that is removed as a script the way to the binary is lost. -/
theorem not_live_of_roundabout_or_linked :
    let c (os : Os) : Call := ⟨.ofHome ⟨[Path.slash]⟩,.listing,.platform ⟨os,.amd64⟩,false,
      some ⟨"1"⟩,.serving [1],[]⟩
    let winding := Target.make .roundabout "devspace" .linux
    let f := withDirectory "bin" [("devspace",.file (.data [0]) 0o600)]
    let log : Log := [(c .linux,(c .linux).history winding f)]
    let linked := Target.make (.ofString "/x/devspace.ps1") "devspace" .windows
    let g := withDirectory "x" [("devspace.ps1",.link (.ofString "/x")),
      ("devspace.exe",.file (.data [0]) 0o755)]
    let log' : Log := [(c .windows,(c .windows).history linked g)]
    ((∃ end', Session winding "devspace" .linux f log end') ∧ f.WellFormed ∧
      (∀ p ∈ [winding.temporary,winding.final,winding.legacy], Plain (f.node? p)) ∧
      ∃ h ∈ log.trees f, ¬ Live winding f log h) ∧
    (∃ end', Session linked "devspace" .windows g log' end') ∧ g.WellFormed ∧
      (∀ p ∈ [linked.temporary,linked.final,linked.legacy], Plain (g.node? p)) ∧
      ¬ (log'.trees g).Pairwise (Stays linked) := by
  intro c winding f log linked g log'
  have asked (os : Os) : (c os).For "devspace" os := ⟨rfl,fun p same => by cases same; rfl⟩
  refine ⟨⟨⟨_,.of_call (asked .linux)⟩,wellFormed_withDirectory _ _,by decide +kernel,?_⟩,
    ⟨_,.of_call (asked .windows)⟩,wellFormed_withDirectory _ _,by decide +kernel,?_⟩
  · have appears : ∃ h ∈ log.trees f,
        h.node? winding.final = some (.file (.data [0]) 0o600) := by decide +kernel
    obtain ⟨h,gone,old⟩ := appears
    exact ⟨h,gone,not_live (by decide +kernel) old (by decide)⟩
  · exact not_stays (by decide +kernel) (by decide +kernel)

/-- An install into the root that is killed while it downloads, and one that is called again. -/
theorem binary_live_again :
    let t := Target.make ⟨[Path.slash]⟩ "devspace" .linux
    let c : Call := ⟨.ofHome ⟨[Path.slash]⟩,.listing,.platform ⟨.linux,.amd64⟩,false,some ⟨"1"⟩,
      .serving [1],[]⟩
    let f : Files := ⟨[],[]⟩
    let killed := (c.history t f).take 4
    let g := (killed.filterMap Event.files?).getLast?.getD f
    let log : Log := [(c,killed),(c,c.history t g)]
    ((∀ h ∈ log.trees f, Live t f log h) ∧ (log.trees f).Pairwise (Stays t)) ∧
      ((log.trees f).getLast?.bind (·.node? t.final)) = some (.file (.data [1]) 0o755) ∧
      g.node? t.temporary = some (.file (.data []) 0o644) := by
  intro t c f killed g log
  have asked : c.For "devspace" .linux := ⟨rfl,fun p same => by cases same; rfl⟩
  have first : Session t "devspace" .linux f [(c,killed)] g :=
    .call (.start : Session t "devspace" .linux f [] f) asked (List.take_prefix 4 _)
  have second : Session t "devspace" .linux f log _ := .call first asked (List.prefix_refl _)
  have ready : f.Ready ⟨[Path.slash]⟩ (t.companions "devspace" .linux true) :=
    ⟨wellFormed_of_flat (by simp),direct_root f,
      beside_of_plain (by simp [Target.companions,Os.isWindows])⟩
  exact ⟨binary_live second ready (by decide +kernel) (by decide +kernel) (by decide +kernel),
    by decide +kernel,by decide +kernel⟩

end Session
end ReleaseInstaller
