import ReleaseInstaller.Command
import ReleaseInstaller.Proofs.Lowercase
import ReleaseInstaller.Proofs.Path
import ReleaseInstaller.Proofs.Utf8

/-! What the path of a Windows script ends in. The extension reaches to the end of the path unless a slash
or a dot stands there, so the path ends in no blank. -/
namespace ReleaseInstaller

open Text

variable {s : List Char} {c : Char} {p : Path} {before after ext : List UInt8}

namespace Text

theorem splitAt_behind [DecidableEq α] {mark : α} {s t : List α} (free : mark ∉ t) :
    ∃ init piece, splitAt mark (s ++ t) = init ++ [piece ++ t] := by
  induction s with
  | nil => exact ⟨[],[],by simpa using splitAt_of_not_mem free⟩
  | cons c s ih =>
    obtain ⟨init,piece,pieces⟩ := ih
    simp only [List.cons_append,splitAt,pieces]
    split
    · exact ⟨[] :: init,piece,rfl⟩
    · cases init with
      | nil => exact ⟨[],c :: piece,rfl⟩
      | cons first init => exact ⟨(c :: first) :: init,piece,rfl⟩

end Text

namespace Path

theorem fileName?_behind (shape : p.octets = before ++ after) (some : after ≠ [])
    (slashless : slash ∉ after) (dotless : dot ∉ after) :
    ∃ front, p.fileName? = .some (front ++ after) := by
  obtain ⟨init,piece,pieces⟩ := splitAt_behind (s := before) slashless
  rw [← shape] at pieces
  obtain ⟨octet,inside⟩ := List.exists_mem_of_ne_nil after some
  have other (dots : List UInt8) (all : ∀ octet ∈ dots, octet = dot) : piece ++ after ≠ dots := fun same =>
    dotless (all octet (same ▸ List.mem_append_right piece inside) ▸ inside)
  have last : p.components.getLast? = .some (.named (piece ++ after)) := by
    have names := other [] (by simp)
    have goes := other [dot] (by simp)
    have leaves := other [dot,dot] (by simp)
    simp only [components,segments,pieces]
    split
    · simp [names,goes,leaves,List.getLast?_cons]
    · split <;> simp [names,goes,leaves,List.getLast?_cons]
  exact ⟨piece,by rw [fileName?,last]⟩

theorem extension?_behind (shape : p.octets = before ++ after) (some : after ≠ [])
    (slashless : slash ∉ after) (dotless : dot ∉ after) (found : p.extension? = .some ext) :
    ∃ front, ext = front ++ after := by
  obtain ⟨front,name⟩ := fileName?_behind shape some slashless dotless
  have passes : ∀ octet ∈ after.reverse, (decide (octet ≠ dot)) = true := fun octet member => by
    simp only [ne_eq,decide_not,Bool.not_eq_true',decide_eq_false_iff_not]
    rintro rfl
    exact dotless (List.mem_reverse.mp member)
  simp only [extension?,name,Option.bind_some,List.reverse_append,
    List.takeWhile_append_of_pos passes] at found
  split at found
  · cases found
  · cases found
    exact ⟨(front.reverse.takeWhile (· ≠ dot)).reverse,by simp⟩

end Path

namespace Command

/-- A Windows script's path ends in no blank. -/
theorem last_of_isWindowsScript (windows : isWindowsScript p = true)
    (spelled : p.octets = Utf8.encode (s ++ [c])) : isBlank c = false := by
  cases blank : isBlank c with
  | false => rfl
  | true =>
    have free {d : Char} {octet : UInt8} (ascii : octet.toNat < 0x80) (same : octet.toNat = d.toNat)
        (solid : isBlank d = false) : octet ∉ Utf8.encode [c] := fun member => by
      have here : octet ∈ String.utf8EncodeChar c := by simpa using member
      obtain rfl : c = d := Char.toNat_inj.mp ((toNat_of_octet ascii here).trans same)
      simp [blank] at solid
    obtain ⟨first,tail,octets,-⟩ := Utf8.unit_encodeChar c []
    rw [Utf8.encode_append] at spelled
    simp only [isWindowsScript,Option.any_eq_true] at windows
    obtain ⟨ext,found,listed⟩ := windows
    obtain ⟨front,rfl⟩ := Path.extension?_behind spelled (by simp [octets])
      (free (d := '/') (by decide) rfl (by decide)) (free (d := '.') (by decide) rfl (by decide)) found
    obtain ⟨lowered,shape⟩ := lower_concat_blank blank (Utf8.decodeLossy front)
    rw [Utf8.decodeLossy_append,shape,decide_eq_true_eq] at listed
    have firm : (scriptExtensions.all fun extension =>
        extension.toList.getLast?.all fun c => ! isBlank c) = true := by decide
    simpa [blank] using List.all_eq_true.mp firm _ listed

theorem ne_nil_of_isWindowsScript (windows : isWindowsScript p = true) (spelled : p.octets = Utf8.encode s) :
    s ≠ [] := by
  rintro rfl
  obtain ⟨octets⟩ := p
  obtain rfl : octets = [] := spelled
  cases windows

end Command
end ReleaseInstaller
