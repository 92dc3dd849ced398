import ReleaseInstaller.Proofs.Site
import ReleaseInstaller.Proofs.Uninstall

/-! Trees that differ in nothing but regular files. Their directories and links are the same, so a
path names the same entry in each of them. An install goes from one such tree to the next once its
directory is there, and so does the removal of regular files. -/
namespace ReleaseInstaller

open Files Procedure

namespace Files

variable {f g h : Files} {p : Path} {d l : Location} {n : Name}

/-- Wherever the trees differ there is a regular file or nothing in both. -/
structure Alike (f g : Files) : Prop where
  current : g.current = f.current
  nodes : ∀ l, g.at? l = f.at? l ∨ Plain (f.at? l) ∧ Plain (g.at? l)

namespace Alike

theorem refl (f : Files) : Alike f f := ⟨rfl,fun _ => .inl rfl⟩

theorem symm (alike : Alike f g) : Alike g f :=
  ⟨alike.current.symm,fun l => (alike.nodes l).imp Eq.symm And.symm⟩

theorem trans (first : Alike f g) (second : Alike g h) : Alike f h := by
  refine ⟨second.current.trans first.current,fun l => ?_⟩
  rcases first.nodes l with same | ⟨before,between⟩ <;>
    rcases second.nodes l with same' | ⟨between',behind⟩
  · exact .inl (same'.trans same)
  · exact .inr ⟨same ▸ between',behind⟩
  · exact .inr ⟨before,same' ▸ between⟩
  · exact .inr ⟨before,behind⟩

theorem keeps (alike : Alike f g) : Keeps f g := by
  refine ⟨alike.current,fun l node present on => ?_⟩
  rcases alike.nodes l with same | ⟨plain,-⟩
  · exact same.trans present
  · rw [(Keeps.refl f).off_plain plain node present] at on
    cases on

theorem seat? (alike : Alike f g) : g.seat? p = .ok d ↔ f.seat? p = .ok d :=
  ⟨alike.symm.keeps.seat?,alike.keeps.seat?⟩

theorem named (alike : Alike f g) : g.entry? p = .ok (some l) ↔ f.entry? p = .ok (some l) :=
  ⟨alike.symm.keeps.entry?,alike.keeps.entry?⟩

theorem plain (alike : Alike f g) (plain : Plain (f.node? p)) : Plain (g.node? p) := by
  unfold node?
  split
  · next l entry =>
    rw [node?_of_entry (alike.named.mp entry)] at plain
    rcases alike.nodes l with same | ⟨-,plain'⟩
    · exact same ▸ plain
    · exact plain'
  · exact .inl rfl

/-- What is done at one entry leaves trees alike if there is a regular file or nothing, before and
after. -/
theorem at_entry (current : g.current = f.current) (same : ∀ k, k ≠ l → g.at? k = f.at? k)
    (plain : Plain (f.at? l)) (plain' : Plain (g.at? l)) : Alike f g := by
  refine ⟨current,fun k => ?_⟩
  by_cases here : k = l
  · exact .inr (here ▸ ⟨plain,plain'⟩)
  · exact .inl (same k here)

theorem put (plain : Plain (f.at? (d ++ [n]))) (content : Content) (mode : Nat) :
    Alike f (f.put (d ++ [n]) (.file content mode)) := by
  refine at_entry rfl (l := d ++ [n]) (fun k other => ?_) plain ?_
  · rw [at?_put_entry,if_neg other]
  · rw [at?_put_entry,if_pos rfl]
    exact .inr ⟨_,_,rfl⟩

theorem erase (plain : Plain (f.at? (d ++ [n]))) : Alike f (f.erase (d ++ [n])) := by
  refine at_entry rfl (l := d ++ [n]) (fun k other => ?_) plain ?_
  · rw [at?_erase_entry,if_neg other]
  · rw [at?_erase_entry,if_pos rfl]
    exact .inl rfl

end Alike

theorem Part.node? (part : Part f g) : g.node? p = none ∨ g.node? p = f.node? p := by
  unfold Files.node?
  split
  · next l entry =>
    rw [part.keeps.entry? entry]
    cases present : g.at? l with
    | none => exact .inl rfl
    | some node => exact .inr (part.nodes l node present).symm
  · exact .inl rfl

end Files

namespace Target

variable {t : Target} {others : List Path} {served : List UInt8 → Prop} {f g : Files} {exe : String}

/-- Where no directory is missed on the way to that of the target none is made, and other changes
are made at files. -/
theorem Change.alike (change : t.Change others served f g) (named : t.Named exe)
    (found : f.seat? t.directory ≠ .error .notFound)
    (plain : ∀ p ∈ t.temporary :: t.final :: others, Plain (f.node? p)) : Alike f g := by
  have at_entry {p l} (member : p ∈ t.temporary :: t.final :: others)
      (entry : f.entry? p = .ok (some l)) : Plain (f.at? l) := node?_of_entry entry ▸ plain p member
  cases change with
  | made above entry vacant => exact absurd (seat?_of_vacant (named.leadsTo above) entry vacant) found
  | wrote entry plain =>
    obtain ⟨d,n,rfl,-⟩ := exists_of_entry entry
    exact .put plain _ _
  | removed member entry _ _ =>
    obtain ⟨d,n,rfl,-⟩ := exists_of_entry entry
    refine .erase (at_entry ?_ entry)
    exact List.mem_cons.mpr ((List.mem_cons.mp member).imp id (List.mem_cons_of_mem _))
  | moved entry final _ _ _ =>
    have plainFinal := at_entry (List.mem_cons_of_mem _ List.mem_cons_self) final
    obtain ⟨d,n,rfl,-⟩ := exists_of_entry entry
    obtain ⟨d',n',rfl,-⟩ := exists_of_entry final
    have erased : Alike f (f.erase (d ++ [n])) := .erase (at_entry List.mem_cons_self entry)
    refine erased.trans (.put ?_ _ _)
    rcases erased.nodes (d' ++ [n']) with same | ⟨-,plain⟩
    · exact same ▸ plainFinal
    · exact plain

theorem Change.seated (change : t.Change others served f g) (named : t.Named exe)
    (whole : f.WellFormed) (inside : ∀ p ∈ others, Path.Inside t.directory p)
    (found : f.seat? t.directory ≠ .error .notFound) : ∃ d, f.seat? t.directory = .ok d := by
  cases change with
  | made above entry vacant => exact absurd (seat?_of_vacant (named.leadsTo above) entry vacant) found
  | wrote entry _ | moved entry _ _ _ _ =>
    obtain ⟨d,_,seat,-⟩ := seat_of_entry whole named.temporary_inside entry
    exact ⟨d,seat⟩
  | removed member entry _ _ =>
    obtain ⟨d,_,seat,-⟩ := seat_of_entry whole (named.inside inside member) entry
    exact ⟨d,seat⟩

end Target

namespace Site

variable {s : Site} {m after : Machine} {d : Location}

theorem alike_of_goes (goes : m.Goes s.Step after) (seat : m.files.seat? s.target.directory = .ok d)
    (plain : ∀ p ∈ s.target.temporary :: s.target.final :: s.others, Plain (m.files.node? p)) :
    Alike m.files after.files := by
  obtain ⟨-,events,-,trace⟩ := goes
  refine trace.preserves (P := Alike m.files) (fun past f g alike taken => ?_) (.refl _)
  have there := alike.seat?.mpr seat
  exact alike.trans (taken.alike s.named (by simp [there]) fun p member =>
    alike.plain (plain p member))

/-- Where nothing is missed, the directory that is there in the end was there from the start. -/
theorem seat_of_goes (goes : m.Goes s.Step after) (whole : m.files.WellFormed)
    (found : m.files.seat? s.target.directory ≠ .error .notFound)
    (there : after.files.seat? s.target.directory = .ok d) :
    ∃ d, m.files.seat? s.target.directory = .ok d := by
  cases seat : m.files.seat? s.target.directory with
  | ok d => exact ⟨d,rfl⟩
  | error fault =>
    obtain ⟨-,events,-,trace⟩ := goes
    have still : after.files = m.files := by
      refine trace.preserves (P := (· = m.files)) ?_ rfl
      rintro past _ g rfl taken
      have inside (p : Path) (member : p ∈ s.others) : Path.Inside s.target.directory p :=
        s.inside p ((s.scope []).within p member)
      obtain ⟨d,seat'⟩ := taken.seated s.named whole inside found
      cases seat.symm.trans seat'
    rw [still,seat] at there
    cases there

end Site

namespace Uninstall

variable {m : Machine} {p : Path} {ps : List Path} {dir : Path}

theorem cleared_plain (whole : m.files.WellFormed) (inside : Path.Inside dir p)
    (plain : Plain (m.files.node? p)) :
    Alike m.files (Install.cleared p m).files ∧ (Install.cleared p m).files.WellFormed ∧
      (Install.cleared p m).files.node? p = none := by
  rcases plain with absent | ⟨content,mode,file⟩
  case inl =>
    have gone := (prunes_cleared p m).less.part.node? (p := p)
    rw [absent,or_self] at gone
    rcases Install.cleared_cases p m with same | ⟨g,removed,-⟩
    · rw [same] at gone ⊢
      exact ⟨.refl _,whole,gone⟩
    · obtain ⟨l,node,entry,present,-⟩ := removeFile_ok removed
      simp [node?_of_entry entry,present] at absent
  case inr =>
    obtain ⟨l,entry,present⟩ := exists_of_node? file
    have removed := removeFile_file entry present (endsInSlash_of_inside inside)
    rw [Install.cleared,run_discard,holds_of_file whole inside file,removed]
    obtain ⟨d,n,rfl,-⟩ := exists_of_entry entry
    have alike : Alike m.files (m.files.erase (d ++ [n])) := .erase (.inr ⟨_,_,present⟩)
    refine ⟨alike,whole.erase (by simp [present]),?_⟩
    change (m.files.erase (d ++ [n])).node? p = none
    rw [node?_of_entry (alike.named.mpr entry),at?_erase_entry,if_pos rfl]

theorem swept_plain (whole : m.files.WellFormed) (inside : ∀ p ∈ ps, ∃ dir, Path.Inside dir p)
    (plain : ∀ p ∈ ps, Plain (m.files.node? p)) :
    Alike m.files (swept ps m).files ∧ (swept ps m).files.WellFormed ∧
      ∀ p ∈ ps, (swept ps m).files.node? p = none := by
  induction ps generalizing m with
  | nil => exact ⟨.refl _,whole,by simp⟩
  | cons p rest ih =>
    obtain ⟨⟨dir,first⟩,inside⟩ := List.forall_mem_cons.mp inside
    obtain ⟨plainFirst,plain⟩ := List.forall_mem_cons.mp plain
    obtain ⟨alike,whole,gone⟩ := cleared_plain whole first plainFirst
    obtain ⟨alike',whole',others⟩ := ih whole inside fun q member => alike.plain (plain q member)
    refine ⟨alike.trans alike',whole',List.forall_mem_cons.mpr ⟨?_,others⟩⟩
    have later := (prunes_swept rest (Install.cleared p m)).less.part.node? (p := p)
    rwa [gone,or_self] at later

end Uninstall
end ReleaseInstaller
