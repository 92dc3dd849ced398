import Mathlib.Data.List.Infix
import ReleaseInstaller.Proofs.Path
import ReleaseInstaller.Proofs.Protocol
import ReleaseInstaller.Proofs.Refill

/-! Bodies that arrive chunk by chunk. However a body is divided, the file comes to hold all of it, and
progress is reported once for each chunk that was stored. -/
namespace ReleaseInstaller

open Files Procedure

def Machine.reports (m : Machine) : List (Nat × Nat) := m.history.filterMap Event.progress?

namespace Download

variable {around : Files} {l : Location} {m after : Machine} {url : String} {file : Path} {shows : Bool}
  {total written : Nat} {old octets : List UInt8} {chunks : List (List UInt8)} {response : Net.Response}

/-- The reports for chunks that are stored one after another. -/
def tally (shows : Bool) (total written : Nat) (chunks : List (List UInt8)) : List (Nat × Nat) :=
  if shows then chunks.inits.tail.map fun front => (written + front.flatten.length,total) else []

@[simp] theorem tally_nil : tally shows total written [] = [] := by
  cases shows <;> rfl

theorem tally_cons (chunk : List UInt8) (chunks : List (List UInt8)) :
    tally shows total written (chunk :: chunks) =
      (if shows then [(written + chunk.length,total)] else []) ++
        tally shows total (written + chunk.length) chunks := by
  cases shows with
  | false => rfl
  | true =>
    obtain ⟨more,inits⟩ : ∃ more, chunks.inits = [] :: more := by cases chunks <;> simp
    simp [tally,inits,Nat.add_assoc]

structure Tallies (total : Nat) (chunks : List (List UInt8)) (calls : List (Nat × Nat)) : Prop where
  sums : calls = chunks.inits.tail.map fun front => (front.flatten.length,total)
  each : calls.length = chunks.length
  constant : ∀ call ∈ calls, call.2 = total
  grows : calls.Pairwise fun call later => call.1 ≤ later.1
  last : ∀ call ∈ calls.getLast?, call.1 = chunks.flatten.length

theorem pairwise_inits (chunks : List (List UInt8)) : chunks.inits.Pairwise (· <+: ·) := by
  induction chunks with
  | nil => simp
  | cons chunk chunks ih =>
    rw [List.inits_cons,List.pairwise_cons]
    refine ⟨fun front _ => List.nil_prefix,List.pairwise_map.mpr (ih.imp fun before => ?_)⟩
    exact List.cons_prefix_cons.mpr ⟨rfl,before⟩

theorem tallies (total : Nat) (chunks : List (List UInt8)) :
    Tallies total chunks (chunks.inits.tail.map fun front => (front.flatten.length,total)) where
  sums := rfl
  each := by simp
  constant call member := by
    obtain ⟨front,-,rfl⟩ := List.mem_map.mp member
    rfl
  grows := List.pairwise_map.mpr ((pairwise_inits chunks).tail.imp fun before =>
    (before.flatten).length_le)
  last call ends := by
    rcases List.eq_nil_or_concat chunks with rfl | ⟨front,chunk,rfl⟩
    · cases ends
    · obtain ⟨more,inits⟩ : ∃ more, front.inits = [] :: more := by cases front <;> simp
      simp [List.inits_append,inits] at ends
      simp [← ends]

/-- From `m` on, octets were added to those that an open file held. -/
structure Stored (around : Files) (l : Location) (old octets : List UInt8) (m after : Machine) : Prop where
  files : after.files = around.refill l (old ++ octets)
  device : around.at? l = some .fullDevice → octets = []
  disk : after.disk <:+ m.disk

/-- A write can only be refused by the disk or by the device. -/
def Refusable (around : Files) (l : Location) (m : Machine) : Prop :=
  (∀ verdict ∈ m.disk, verdict = none) → around.at? l = some .fullDevice

theorem refusable_of_verdict (given : m.verdict?.isSome = true) : Refusable around l m := by
  intro flawless
  cases disk : m.disk with
  | nil => simp [Machine.verdict?,disk] at given
  | cons verdict later =>
    have silent : verdict = none := flawless verdict (disk ▸ List.mem_cons_self)
    simp [Machine.verdict?,disk,silent] at given

theorem run_store_refill (openable : around.Openable l) (files : m.files = around.refill l old)
    (octets : List UInt8) :
    (∃ after, (store l octets).run m = (.ok (),after) ∧ Stored around l old octets m after ∧
      after.reports = m.reports) ∨
    ∃ fault after, (store l octets).run m = (.error fault,after) ∧ Refusable around l m := by
  rw [run_store_eq]
  cases verdict : m.verdict? with
  | none =>
    rw [storeAs,run_change,Machine.judged_files,files]
    rcases append_refill openable old octets with ⟨added,device⟩ | ⟨refused,device⟩
    · have noted : (m.judged.withFiles (around.refill l (old ++ octets))).reports = m.reports := by
        simp [Machine.reports,Machine.withFiles,Machine.judged,List.filterMap_cons,Event.progress?]
      rw [added]
      exact .inl ⟨_,rfl,⟨rfl,device,List.tail_suffix _⟩,noted⟩
    · rw [refused]
      exact .inr ⟨_,_,rfl,fun _ => device⟩
  | some n =>
    have refusable : Refusable around l m := refusable_of_verdict (by simp [verdict])
    rw [storeAs,run_bind]
    rcases (change (append l (octets.take n))).run m.judged with ⟨fault | _,after⟩
    · exact .inr ⟨_,_,rfl,refusable⟩
    · exact .inr ⟨_,_,rfl,refusable⟩

theorem Stored.append {middle : Machine} {more : List UInt8} (first : Stored around l old octets m middle)
    (second : Stored around l (old ++ octets) more middle after) :
    Stored around l old (octets ++ more) m after where
  files := by rw [second.files,List.append_assoc]
  device device := by rw [first.device device,second.device device,List.append_nil]
  disk := second.disk.trans first.disk

theorem Refusable.of_suffix {middle : Machine} (later : middle.disk <:+ m.disk)
    (refusable : Refusable around l middle) : Refusable around l m :=
  fun flawless => refusable fun verdict member => flawless verdict (later.subset member)

theorem run_receive (openable : around.Openable l) (chunks : List (List UInt8))
    (files : m.files = around.refill l old) (written : Nat) :
    (∃ after, (receive l shows total written chunks).run m = (.ok (written + chunks.flatten.length),after) ∧
      Stored around l old chunks.flatten m after ∧
      after.reports = m.reports ++ tally shows total written chunks) ∨
    ∃ fault after, (receive l shows total written chunks).run m = (.error fault,after) ∧
      Refusable around l m := by
  induction chunks generalizing m old written with
  | nil =>
    refine .inl ⟨m,rfl,⟨?_,fun _ => rfl,List.suffix_rfl⟩,?_⟩
    · rw [files,List.flatten_nil,List.append_nil]
    · rw [tally_nil,List.append_nil]
  | cons chunk rest ih =>
    rw [receive,run_bind]
    rcases run_store_refill openable files chunk with ⟨middle,ran,stored,quiet⟩ | ⟨fault,after,ran,refusable⟩
    case inr =>
      rw [ran]
      exact .inr ⟨fault,after,rfl,refusable⟩
    rw [ran]
    -- the machine from which the other chunks are received
    let noted := if shows then middle.record (.progressed (written + chunk.length) total) else middle
    have goes : ((do
          if shows then record (.progressed (written + chunk.length) total)
          receive l shows total (written + chunk.length) rest) : Procedure Fault Nat).run middle =
        (receive l shows total (written + chunk.length) rest).run noted := by
      cases shows <;> rfl
    have same : noted.files = middle.files ∧ noted.disk = middle.disk := by cases shows <;> exact ⟨rfl,rfl⟩
    have reports : noted.reports = m.reports ++
        if shows then [(written + chunk.length,total)] else [] := by
      cases shows with
      | false => simpa [noted] using quiet
      | true =>
        have recorded : noted.reports = middle.reports ++ [(written + chunk.length,total)] := by
          simp [noted,Machine.reports,Machine.record,Event.progress?]
        rw [recorded,quiet]
        rfl
    dsimp only
    rw [goes]
    rcases ih (m := noted) (same.1.trans stored.files) (written + chunk.length) with
      ⟨after,ran,stored',tallied⟩ | ⟨fault,after,ran,refusable⟩
    · refine .inl ⟨after,?_,?_,?_⟩
      · rw [ran,List.flatten_cons,List.length_append,Nat.add_assoc]
      · rw [List.flatten_cons]
        exact stored.append ⟨stored'.files,stored'.device,same.2 ▸ stored'.disk⟩
      · rw [tallied,reports,tally_cons,List.append_assoc]
    · exact .inr ⟨fault,after,ran,refusable.of_suffix (same.2 ▸ stored.disk)⟩

theorem run_flush_refill (openable : around.Openable l) (files : m.files = around.refill l old) :
    (∃ after, (flush l).run m = (.ok (),after) ∧ after.files = m.files ∧ after.reports = m.reports ∧
      around.at? l ≠ some .fullDevice) ∨
    ∃ fault after, (flush l).run m = (.error fault,after) ∧ Refusable around l m := by
  have device : m.files.at? l = some .fullDevice ↔ around.at? l = some .fullDevice :=
    files ▸ at?_refill_device openable old
  rw [run_flush]
  split
  · next refused => exact .inr ⟨_,_,rfl,fun _ => device.mp refused⟩
  · next regular =>
    split
    · next given => exact .inr ⟨_,_,rfl,refusable_of_verdict given⟩
    · exact .inl ⟨_,rfl,rfl,rfl,device.not.mp regular⟩

/-- What a body gives that was stored in full. -/
def delivered (url : String) (response : Net.Response) : Except InstallError Download :=
  match response.body.ending.fault? with
  | some fault => .error (transportError url fault)
  | none => .ok ⟨url,response.status,response.body.octets.length,.completed⟩

/-- What comes of saving a body in a file that could be opened. -/
inductive Saved (around : Files) (l : Location) (url : String) (file : Path) (shows : Bool)
    (response : Net.Response) (m : Machine) : Except InstallError Download × Machine → Prop where
  | refused {last : Machine} (refusable : Refusable around l m) :
      Saved around l url file shows response m (.error (.writeFailed file),last)
  | stored {last : Machine} (files : last.files = around.refill l response.body.octets)
      (device : around.at? l = some .fullDevice →
        response.body.octets = [] ∧ response.body.ending ≠ .complete)
      (reports : last.reports =
        m.reports ++ tally shows (response.length?.getD 0) 0 response.body.chunks) :
      Saved around l url file shows response m (delivered url response,last)

theorem saved_of_created {opened : Machine} (created : (create file).run m = (.ok l,opened))
    (disk : opened.disk = m.disk) (silent : opened.reports = m.reports) (openable : around.Openable l)
    (files : opened.files = around.refill l []) :
    Saved around l url file shows response m ((save url file shows response).run m) := by
  have begun : (save url file shows response).run m = ((do
      let written ← failing (fun _ => .writeFailed file)
        (receive l shows (response.length?.getD 0) 0 response.body.chunks)
      match response.body.ending.fault? with
      | some fault => throw (transportError url fault)
      | none =>
        failing (fun _ => .writeFailed file) (Files.flush l)
        return ⟨url,response.status,written,.completed⟩) : Procedure InstallError Download).run opened := by
    simp only [save,run_bind,run_failing,created]
    rfl
  have refused {machine : Machine} (later : machine.disk <:+ m.disk) {after : Machine}
      (refusable : Refusable around l machine) :
      Saved around l url file shows response m (.error (.writeFailed file),after) :=
    .refused (refusable.of_suffix later)
  rw [begun,run_bind,run_failing]
  rcases run_receive openable response.body.chunks files 0 with
    ⟨middle,ran,stored,tallied⟩ | ⟨fault,after,ran,refusable⟩
  case inr =>
    rw [ran]
    exact refused (disk ▸ List.suffix_rfl) refusable
  rw [ran]
  have whole : middle.files = around.refill l response.body.octets := stored.files
  have reports := tallied.trans (congrArg (· ++ _) silent)
  have delivers : delivered url response = match response.body.ending.fault? with
      | some fault => .error (transportError url fault)
      | none => .ok ⟨url,response.status,response.body.octets.length,.completed⟩ := rfl
  simp only [mapError_ok,Nat.zero_add]
  cases ending : response.body.ending.fault? with
  | some fault =>
    have incomplete : response.body.ending ≠ .complete := by
      intro complete
      simp [complete,Net.Ending.fault?] at ending
    have saved : Saved around l url file shows response m (delivered url response,middle) :=
      .stored whole (fun device => ⟨stored.device device,incomplete⟩) reports
    rwa [delivers,ending] at saved
  | none =>
    dsimp only
    rw [run_bind,run_failing]
    rcases run_flush_refill openable whole with ⟨after,ran,same,quiet,regular⟩ | ⟨fault,after,ran,refusable⟩
    · rw [ran]
      have saved : Saved around l url file shows response m (delivered url response,after) :=
        .stored (same.trans whole) (fun device => absurd device regular) (quiet.trans reports)
      rwa [delivers,ending] at saved
    · rw [ran]
      exact refused (disk ▸ stored.disk) refusable

theorem answered_same (url : String) (version : ReleaseVersion) (m : Machine) :
    (answered url version m).files = m.files ∧ (answered url version m).disk = m.disk ∧
      (answered url version m).reports = m.reports ∧
      (answered url version m).history.filterMap Event.files? = m.history.filterMap Event.files? := by
  refine ⟨rfl,rfl,?_,?_⟩
  all_goals
    simp only [answered,Machine.reports,Machine.noting_history,Machine.record,List.filterMap_append]
    rw [Net.filterMap_requested fun _ => rfl]
    simp [Event.progress?,Event.files?]

/-- Where a body is saved, and whether it can be at all, the tree decides that a download starts from. -/
theorem run_cases (file : Path) (f : Files) :
    (∃ path g, ∀ (m : Machine) url version shows response, m.files = f →
      Net.answerAfter m.network m.history url = .ok response → response.isSuccess = true →
        ∃ last, (run url version file shows).run m = (.error (.file .create path),last) ∧
          last.files = g ∧ ∀ l opened, (create file).run m ≠ (.ok l,opened)) ∨
    ∃ (around : Files) (l : Location), around.follow? file = .ok l ∧ around.Openable l ∧
      ∀ (m : Machine) url version shows response, m.files = f →
        Net.answerAfter m.network m.history url = .ok response → response.isSuccess = true →
          Saved around l url file shows response m ((run url version file shows).run m) ∧
          ∀ k opened, (create file).run m = (.ok k,opened) → opened.files = around.refill l [] := by
  have goes (m : Machine) (url : String) (version : ReleaseVersion) (shows : Bool) (response : Net.Response)
      (answers : Net.answerAfter m.network m.history url = .ok response)
      (success : response.isSuccess = true) : (run url version file shows).run m =
        (save url file shows response).run (answered url version m) := by
    have found : response.status ≠ 404 := by
      intro missing
      simp [Net.Response.isSuccess,missing] at success
    simp only [run_eq,answers,found,success,if_false,if_true]
  rcases create_cases file f with ⟨failure,trees,fails⟩ | ⟨around,l,trees,followed,openable,creates⟩
  · refine .inl ⟨failure.path,trees.getLast?.getD f,?_⟩
    intro m url version shows response same answers success
    have failed := fails (answered url version m) same
    have error : failure.toError = .file .create failure.path := by
      rw [FileFailure.toError,create_error failed]
    refine ⟨(answered url version m).through trees,?_,?_,?_⟩
    · rw [goes m url version shows response answers success,save,run_bind,run_failing,failed,← error]
      rfl
    · subst same
      rfl
    · intro l opened created
      cases (fails m same).symm.trans created
  · refine .inr ⟨around,l,followed,openable,?_⟩
    intro m url version shows response same answers success
    obtain ⟨files,-,reports,-⟩ := answered_same url version m
    have opened (machine : Machine) :
        (machine.through (trees ++ [around.refill l []])).files = around.refill l [] := by
      simp [Machine.through]
    have silent (machine : Machine) :
        (machine.through (trees ++ [around.refill l []])).reports = machine.reports :=
      Machine.filterMap_through (fun _ => rfl) _ _
    have saved : Saved around l url file shows response (answered url version m)
        ((save url file shows response).run (answered url version m)) :=
      saved_of_created (creates _ (files.trans same)) rfl (silent _) openable (opened _)
    refine ⟨?_,?_⟩
    · rw [goes m url version shows response answers success]
      revert saved
      rcases (save url file shows response).run (answered url version m) with ⟨result,last⟩
      rintro (refusable | ⟨whole,device,tallied⟩)
      · exact .refused refusable
      · exact .stored whole device (reports ▸ tallied)
    · intro k machine created
      cases (creates m same).symm.trans created
      exact opened m

def withheld (url : String) (version : ReleaseVersion) (response : Net.Response) :
    Except InstallError Download :=
  if response.status = 404 then .ok ⟨url,404,0,.missing⟩
  else .error (.notAvailable version.text (Net.statusText response.status))

theorem run_withheld {version : ReleaseVersion}
    (answers : Net.answerAfter m.network m.history url = .ok response)
    (unsuccessful : response.isSuccess = false) :
    (run url version file shows).run m = (withheld url version response,answered url version m) := by
  simp only [run_eq,answers,unsuccessful,withheld,Bool.false_eq_true,if_false]
  split <;> rfl

/-- A path leads to a file with these octets; the device never holds any. -/
def Holds (f : Files) (p : Path) (octets : List UInt8) : Prop :=
  (∃ mode, f.find? p = some (.file (.data octets) mode)) ∨ f.find? p = some .fullDevice ∧ octets = []

/-- From `m` on, the chunks of the body were reported, if progress is shown. -/
def Reported (shows : Bool) (response : Net.Response) (m after : Machine) : Prop :=
  ∃ calls, after.reports = m.reports ++ calls ∧
    (shows = true → Tallies (response.length?.getD 0) response.body.chunks calls) ∧
    (shows = false → calls = [])

theorem find?_of_file (followed : around.follow? file = .ok l) (openable : around.Openable l)
    (regular : around.at? l ≠ some .fullDevice) (files : after.files = around.refill l octets) :
    after.files.find? file = some (.file (.data octets) (around.openMode l)) := by
  rw [files,find?_refill openable followed,at?_refill openable regular]

theorem holds_of_refill (followed : around.follow? file = .ok l) (openable : around.Openable l)
    (device : around.at? l = some .fullDevice → octets = []) (files : after.files = around.refill l octets) :
    Holds after.files file octets := by
  by_cases present : around.at? l = some .fullDevice
  · refine .inr ⟨?_,device present⟩
    rw [files,find?_refill openable followed,at?_refill_device openable]
    exact present
  · exact .inl ⟨_,find?_of_file followed openable present files⟩

theorem reported_of_tally (reports : after.reports =
    m.reports ++ tally shows (response.length?.getD 0) 0 response.body.chunks) :
    Reported shows response m after := by
  refine ⟨_,reports,fun shown => ?_,fun hidden => ?_⟩
  · have counted := tallies (response.length?.getD 0) response.body.chunks
    simpa [tally,shown] using counted
  · simp [tally,hidden]

variable {version : ReleaseVersion} {result : Except InstallError Download}

theorem streamed_of_completed (answers : Net.answerAfter m.network m.history url = .ok response)
    (ran : (run url version file shows).run m = (result,after)) {download : Download}
    (done : result = .ok download) (completed : download.outcome = .completed) :
    response.isSuccess = true ∧ response.body.ending = .complete ∧
      download = ⟨url,response.status,response.body.octets.length,.completed⟩ ∧
      (∃ mode, after.files.find? file = some (.file (.data response.body.octets) mode)) ∧
      Reported shows response m after := by
  subst done
  cases success : response.isSuccess with
  | false =>
    have other := (run_withheld answers success).symm.trans ran
    unfold withheld at other
    split at other <;> cases other
    cases completed
  | true =>
    rcases run_cases file m.files with ⟨path,g,fails⟩ | ⟨around,l,followed,openable,saves⟩
    · obtain ⟨last,failed,-⟩ := fails m url version shows response rfl answers success
      cases failed.symm.trans ran
    · obtain ⟨saved,-⟩ := saves m url version shows response rfl answers success
      rw [ran] at saved
      generalize same : (Except.ok download : Except InstallError Download) = result at saved
      rcases saved with refusable | ⟨files,device,reports⟩
      · cases same
      · unfold delivered at same
        cases ending : response.body.ending with
        | cut | stalled => simp [ending,Net.Ending.fault?] at same
        | complete =>
          have regular : around.at? l ≠ some .fullDevice := fun present => (device present).2 ending
          simp only [ending,Net.Ending.fault?,Except.ok.injEq] at same
          exact ⟨rfl,rfl,same,⟨_,find?_of_file followed openable regular files⟩,
            reported_of_tally reports⟩

theorem streamed_of_fault (answers : Net.answerAfter m.network m.history url = .ok response)
    (ran : (run url version file shows).run m = (result,after)) (success : response.isSuccess = true)
    {fault : Net.TransportFault} (broken : response.body.ending.fault? = some fault) :
    result = .error (transportError url fault) ∧ Holds after.files file response.body.octets ∧
        Reported shows response m after ∨
      result = .error (.writeFailed file) ∨ ∃ path, result = .error (.file .create path) := by
  rcases run_cases file m.files with ⟨path,g,fails⟩ | ⟨around,l,followed,openable,saves⟩
  · obtain ⟨last,failed,-⟩ := fails m url version shows response rfl answers success
    exact .inr (.inr ⟨path,congrArg Prod.fst (ran.symm.trans failed)⟩)
  · obtain ⟨saved,-⟩ := saves m url version shows response rfl answers success
    rw [ran] at saved
    rcases saved with refusable | ⟨files,device,reports⟩
    · exact .inr (.inl rfl)
    · refine .inl ⟨?_,?_,reported_of_tally reports⟩
      · rw [delivered,broken]
      · exact holds_of_refill followed openable (fun present => (device present).1) files

theorem delivered_of_flawless (answers : Net.answerAfter m.network m.history url = .ok response)
    (ran : (run url version file shows).run m = (result,after)) (success : response.isSuccess = true)
    {opened : Machine} (created : (create file).run m = (.ok l,opened))
    (regular : opened.files.find? file ≠ some .fullDevice)
    (flawless : ∀ verdict ∈ m.disk, verdict = none) : result = delivered url response := by
  rcases run_cases file m.files with ⟨path,g,fails⟩ | ⟨around,k,followed,openable,saves⟩
  · obtain ⟨-,-,-,never⟩ := fails m url version shows response rfl answers success
    exact absurd created (never l opened)
  · obtain ⟨saved,opens⟩ := saves m url version shows response rfl answers success
    rw [ran] at saved
    rcases saved with refusable | stored
    · have device := refusable flawless
      refine absurd ?_ regular
      rw [opens l opened created,find?_refill openable followed,at?_refill_device openable]
      exact device
    · rfl

/-- How a body is divided makes no difference, unless a write is refused. -/
theorem same_of_divisions (answers : Net.answerAfter m.network m.history url = .ok response)
    (ran : (run url version file shows).run m = (result,after)) {n last : Machine} {other : Net.Response}
    {shows' : Bool} {result' : Except InstallError Download} (files : n.files = m.files)
    (answers' : Net.answerAfter n.network n.history url = .ok other)
    (status : other.status = response.status) (octets : other.body.octets = response.body.octets)
    (ending : other.body.ending = response.body.ending)
    (ran' : (run url version file shows').run n = (result',last))
    (written : result ≠ .error (.writeFailed file)) (written' : result' ≠ .error (.writeFailed file)) :
    result' = result ∧ last.files = after.files := by
  have successes : other.isSuccess = response.isSuccess := by simp [Net.Response.isSuccess,status]
  cases success : response.isSuccess with
  | false =>
    have stops := (run_withheld answers success).symm.trans ran
    have stops' := (run_withheld answers' (successes.trans success)).symm.trans ran'
    have same : withheld url version other = withheld url version response := by
      simp only [withheld,status]
    cases stops
    cases stops'
    exact ⟨same,files⟩
  | true =>
    have success' := successes.trans success
    rcases run_cases file m.files with ⟨path,g,fails⟩ | ⟨around,l,followed,openable,saves⟩
    · obtain ⟨_,failed,tree,-⟩ := fails m url version shows response rfl answers success
      obtain ⟨_,failed',tree',-⟩ := fails n url version shows' other files answers' success'
      cases failed.symm.trans ran
      cases failed'.symm.trans ran'
      exact ⟨rfl,tree'.trans tree.symm⟩
    · obtain ⟨saved,-⟩ := saves m url version shows response rfl answers success
      obtain ⟨saved',-⟩ := saves n url version shows' other files answers' success'
      have same : delivered url other = delivered url response := by
        simp only [delivered,status,octets,ending]
      rw [ran] at saved
      rw [ran'] at saved'
      rcases saved with refusable | ⟨tree,-,-⟩
      · exact absurd rfl written
      rcases saved' with refusable | ⟨tree',-,-⟩
      · exact absurd rfl written'
      · exact ⟨same,by rw [tree',tree,octets]⟩

/-- What comes of a download that was answered. A completed one left the whole body in the file, whatever
was there before, and reported each chunk; one whose stream broke off left the chunks that had arrived; and
without an artifact nothing is touched. The division into chunks decides nothing but the reports. -/
theorem run_streams (answers : Net.answerAfter m.network m.history url = .ok response)
    (ran : (run url version file shows).run m = (result,after)) :
    (∀ download, result = .ok download → download.outcome = .completed →
      response.isSuccess = true ∧ response.body.ending = .complete ∧
        download = ⟨url,response.status,response.body.octets.length,.completed⟩ ∧
        (∃ mode, after.files.find? file = some (.file (.data response.body.octets) mode)) ∧
        Reported shows response m after) ∧
    (∀ fault, response.isSuccess = true → response.body.ending.fault? = some fault →
      result = .error (transportError url fault) ∧ Holds after.files file response.body.octets ∧
          Reported shows response m after ∨
        result = .error (.writeFailed file) ∨ ∃ path, result = .error (.file .create path)) ∧
    (∀ l opened, response.isSuccess = true → (create file).run m = (.ok l,opened) →
      opened.files.find? file ≠ some .fullDevice → (∀ verdict ∈ m.disk, verdict = none) →
        result = delivered url response) ∧
    (∀ (n last : Machine) (other : Net.Response) (shows' : Bool) result', n.files = m.files →
      Net.answerAfter n.network n.history url = .ok other → other.status = response.status →
      other.body.octets = response.body.octets → other.body.ending = response.body.ending →
      (run url version file shows').run n = (result',last) → result ≠ .error (.writeFailed file) →
        result' ≠ .error (.writeFailed file) → result' = result ∧ last.files = after.files) ∧
    (response.isSuccess = false → result = withheld url version response ∧ after.files = m.files ∧
      after.history.filterMap Event.files? = m.history.filterMap Event.files? ∧
      after.reports = m.reports) := by
  refine ⟨fun download => streamed_of_completed answers ran,
    fun fault success => streamed_of_fault answers ran success,
    fun l opened success => delivered_of_flawless answers ran success,?_,fun unsuccessful => ?_⟩
  · intro n last other shows' result' files answers' status octets ending ran'
    exact same_of_divisions answers ran files answers' status octets ending ran'
  · cases (run_withheld answers unsuccessful).symm.trans ran
    obtain ⟨files,-,reports,changes⟩ := answered_same url version m
    exact ⟨rfl,files,changes,reports⟩

def serving (response : Net.Response) : Machine :=
  .fresh ⟨[([Path.nameOctets "tool.tmp"],.file (.data [9,9,9,9,9]) 0o600)],[]⟩ fun _ _ => .response response

def halves : Net.Response := ⟨200,none,some 4,⟨[[1,2],[3,4]],.complete⟩⟩

def whole : Net.Response := ⟨200,none,none,⟨[[1,2,3,4]],.complete⟩⟩

def half : Net.Response := ⟨200,none,some 4,⟨[[1,2]],.stalled⟩⟩

def nothing : Net.Response := ⟨404,none,none,⟨[[5]],.complete⟩⟩

def fetched (response : Net.Response) (shows : Bool) : Except InstallError Download × Machine :=
  (run "https://host/tool" ⟨"1.0.0"⟩ (.ofString "tool.tmp") shows).run (serving response)

theorem run_streams_halves :
    (fetched halves true).1 = .ok ⟨"https://host/tool",200,4,.completed⟩ ∧
      (∃ mode, (fetched halves true).2.files.find? (.ofString "tool.tmp") =
        some (.file (.data [1,2,3,4]) mode)) ∧
      Reported true halves (serving halves) (fetched halves true).2 ∧
      (fetched whole false).1 = (fetched halves true).1 ∧
      (fetched whole false).2.files = (fetched halves true).2.files ∧
      (fetched half true).1 = .error (.downloadTimeout "https://host/tool") ∧
      Reported true half (serving half) (fetched half true).2 ∧
      (fetched nothing true).2.files = (serving nothing).files := by
  have created (response : Net.Response) : ∃ l opened,
      (create (.ofString "tool.tmp")).run (serving response) = (.ok l,opened) ∧
        opened.files.find? (.ofString "tool.tmp") = some (.file (.data []) 0o600) :=
    ⟨_,_,by rfl,by rfl⟩
  have answers (response : Net.Response) (plain : response.redirection? = none) :
      Net.answerAfter (serving response).network (serving response).history "https://host/tool" =
        .ok response := by
    simp [Net.answerAfter,Net.answer,Net.answerOnce,serving,Machine.fresh,plain,Net.redirectLimit]
  have ran (response : Net.Response) (shows : Bool) :
      (run "https://host/tool" ⟨"1.0.0"⟩ (.ofString "tool.tmp") shows).run (serving response) =
        ((fetched response shows).1,(fetched response shows).2) := (Prod.eta _).symm
  have streams (response : Net.Response) (plain : response.redirection? = none) (shows : Bool) :=
    run_streams (answers response plain) (ran response shows)
  have delivers (response : Net.Response) (plain : response.redirection? = none) (shows : Bool)
      (success : response.isSuccess = true) :
      (fetched response shows).1 = delivered "https://host/tool" response := by
    obtain ⟨l,opened,opens,present⟩ := created response
    exact (streams response plain shows).2.2.1 l opened success opens (by simp [present])
      (by simp [serving,Machine.fresh])
  have complete : (fetched halves true).1 = .ok ⟨"https://host/tool",200,4,.completed⟩ :=
    delivers halves rfl true rfl
  have broken : (fetched half true).1 = .error (.downloadTimeout "https://host/tool") :=
    delivers half rfl true rfl
  have written (shows : Bool) : (fetched whole shows).1 = .ok ⟨"https://host/tool",200,4,.completed⟩ :=
    delivers whole rfl shows rfl
  obtain ⟨completes,-,-,divides,-⟩ := streams halves rfl true
  obtain ⟨-,breaks,-⟩ := streams half rfl true
  obtain ⟨-,-,-,-,withholds⟩ := streams nothing rfl true
  obtain ⟨-,-,-,holds,reported⟩ := completes _ complete rfl
  obtain ⟨same,tree⟩ := divides (serving whole) _ whole false _ rfl (answers whole rfl) rfl rfl rfl
    (ran whole false) (by simp [complete]) (by simp [written])
  obtain ⟨-,-,reported'⟩ | failed | ⟨path,failed⟩ := breaks .timedOut rfl rfl
  · exact ⟨complete,holds,reported,same,tree,broken,reported',(withholds rfl).2.1⟩
  · rw [broken] at failed
    cases failed
  · rw [broken] at failed
    cases failed

end Download
end ReleaseInstaller
