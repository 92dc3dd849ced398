import ReleaseInstaller.Proofs.FileWork
import ReleaseInstaller.Proofs.Requests

/-! Work on files is quiet: whatever it does to the tree, and whether it succeeds or not, it
neither asks the feed nor begins a download, and the network stays what it is. -/
namespace ReleaseInstaller

/-- Whether the event turns to the feed or to the release server. -/
def Event.isCall : Event → Bool
  | askedFeed _ | downloading .. => true
  | _ => false

namespace Machine

/-- From `m` on, nothing but quiet events has happened. -/
structure Quietly (m after : Machine) : Prop where
  network : after.network = m.network
  history : ∃ events, after.history = m.history ++ events ∧ ∀ event ∈ events, event.isCall = false

theorem Quietly.refl (m : Machine) : Quietly m m := ⟨rfl,[],by simp,by simp⟩

theorem Quietly.trans {m middle after : Machine} (first : Quietly m middle)
    (second : Quietly middle after) : Quietly m after := by
  obtain ⟨network,events,history,quiet⟩ := first
  obtain ⟨network',events',history',quiet'⟩ := second
  refine ⟨network'.trans network,events ++ events',by simp [history,history'],?_⟩
  intro event member
  rcases List.mem_append.mp member with member | member
  · exact quiet event member
  · exact quiet' event member

theorem quietly_record {event : Event} (quiet : event.isCall = false) (m : Machine) :
    Quietly m (m.record event) :=
  ⟨rfl,[event],rfl,by simpa using quiet⟩

end Machine

namespace Procedure

variable {ε ε' α β : Type}

/-- On every machine the procedure does only what is quiet. -/
def Quiet (p : Procedure ε α) : Prop := ∀ m, Machine.Quietly m (run p m).2

theorem Quiet.pure (a : α) : Quiet (pure a : Procedure ε α) := Machine.Quietly.refl

theorem Quiet.throw (e : ε) : Quiet (throw e : Procedure ε α) := Machine.Quietly.refl

theorem Quiet.look (see : Files → α) : Quiet (look see : Procedure ε α) := Machine.Quietly.refl

theorem Quiet.record {event : Event} (quiet : event.isCall = false) :
    Quiet (record event : Procedure ε Unit) := Machine.quietly_record quiet

theorem Quiet.bind {p : Procedure ε α} {next : α → Procedure ε β} (first : Quiet p)
    (second : ∀ a, Quiet (next a)) : Quiet (p >>= next) := by
  intro m
  have before := first m
  rw [run_bind]
  revert before
  rcases run p m with ⟨e | a,middle⟩ <;> intro before
  · exact before
  · exact before.trans (second a middle)

theorem Quiet.failing {p : Procedure ε α} (quiet : Quiet p) (asError : ε → ε') :
    Quiet (failing asError p) := quiet

theorem Quiet.of_onFiles {p : Procedure ε α} (work : OnFiles p) : Quiet p := by
  intro m
  obtain ⟨result,trees,runs⟩ := work m.files
  rw [runs m rfl]
  exact ⟨rfl,trees.map .changed,rfl,by simp [Event.isCall]⟩

theorem Quiet.change (operation : Files → Except Fault Files) : Quiet (change operation) :=
  .of_onFiles (.change operation)

end Procedure

namespace Files

open Procedure

variable {ε : Type}

end Files

namespace Download

open Procedure

end Download

namespace Install

open Procedure

variable {ε : Type}

end Install
end ReleaseInstaller
