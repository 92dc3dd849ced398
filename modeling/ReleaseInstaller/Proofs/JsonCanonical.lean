import Mathlib.Data.Char
import Mathlib.Data.List.Lex
import ReleaseInstaller.Proofs.JsonScalar

/-! What the reader gives. Members are in the order of their keys and no key occurs twice, integers
are in range, and arrays and objects are nested within the limit. -/
namespace ReleaseInstaller.Json

variable {key : List Char} {value v : Value} {members known : List (List Char × Value)}
  {items : List Value} {depth fuel : Nat} {s rest : List Char}
  {item : List Char → Option (Value × List Char)}

theorem keyBefore_iff {s t : List Char} : keyBefore s t = true ↔ s < t := by
  induction s generalizing t with
  | nil => cases t <;> simp [keyBefore]
  | cons a s ih =>
    cases t with
    | nil => simp [keyBefore]
    | cons b t => simp [keyBefore,List.cons_lt_cons_iff,ih]

def Ordered (members : List (List Char × Value)) : Prop :=
  members.Pairwise fun first second => first.1 < second.1

theorem setMember_cons (key : List Char) (value : Value) (k : List Char) (known : Value)
    (rest : List (List Char × Value)) :
    setMember key value ((k,known) :: rest) =
      if k = key then (key,value) :: rest
      else if key < k then (key,value) :: (k,known) :: rest
      else (k,known) :: setMember key value rest := by
  simp only [setMember,keyBefore_iff]

theorem mem_setMember {member : List Char × Value} (inside : member ∈ setMember key value members) :
    member = (key,value) ∨ member ∈ members := by
  induction members with
  | nil => exact .inl (List.mem_singleton.mp inside)
  | cons first rest ih =>
    rw [setMember_cons] at inside
    split at inside
    · exact (List.mem_cons.mp inside).imp_right (List.mem_cons_of_mem _)
    split at inside
    · exact List.mem_cons.mp inside
    · rcases List.mem_cons.mp inside with same | inside
      · exact .inr (same ▸ List.mem_cons_self)
      · exact (ih inside).imp_right (List.mem_cons_of_mem _)

theorem mem_setMember_self (key : List Char) (value : Value) (members : List (List Char × Value)) :
    (key,value) ∈ setMember key value members := by
  induction members with
  | nil => exact List.mem_cons_self
  | cons first rest ih =>
    rw [setMember_cons]
    split
    · exact List.mem_cons_self
    split
    · exact List.mem_cons_self
    · exact List.mem_cons_of_mem _ ih

/-- Members in order are told apart by their keys. -/
theorem Ordered.eq_of_key {first second : List Char × Value} (ordered : Ordered members)
    (inside : first ∈ members) (inside' : second ∈ members) (same : first.1 = second.1) :
    first = second := by
  induction members with
  | nil => cases inside
  | cons member members ih =>
    obtain ⟨above,ordered⟩ := List.pairwise_cons.mp ordered
    rcases List.mem_cons.mp inside with rfl | later
    · rcases List.mem_cons.mp inside' with rfl | later'
      · rfl
      · exact absurd same (above second later').ne
    · rcases List.mem_cons.mp inside' with rfl | later'
      · exact absurd same.symm (above first later).ne
      · exact ih ordered later later'

theorem ordered_setMember (key : List Char) (value : Value) (ordered : Ordered members) :
    Ordered (setMember key value members) := by
  induction members with
  | nil => exact List.pairwise_singleton ..
  | cons first rest ih =>
    obtain ⟨above,inner⟩ := List.pairwise_cons.mp ordered
    rw [setMember_cons]
    split
    · next same =>
      exact List.pairwise_cons.mpr ⟨fun member inside => same ▸ above member inside,inner⟩
    split
    · next before =>
      refine List.pairwise_cons.mpr ⟨fun member inside => ?_,ordered⟩
      rcases List.mem_cons.mp inside with rfl | inside
      · exact before
      · exact before.trans (above member inside)
    · next different behind =>
      refine List.pairwise_cons.mpr ⟨fun member inside => ?_,ih inner⟩
      rcases mem_setMember inside with rfl | inside
      · exact lt_of_le_of_ne (not_lt.mp behind) different
      · exact above member inside

/-- A member with the greatest key goes to the end. -/
theorem setMember_append (greatest : ∀ member ∈ known, member.1 < key) :
    setMember key value known = known ++ [(key,value)] := by
  induction known with
  | nil => rfl
  | cons first known ih =>
    obtain ⟨less,greatest⟩ := List.forall_mem_cons.mp greatest
    rw [setMember_cons,if_neg less.ne,if_neg less.asymm,ih greatest]
    rfl

theorem collect_of_ordered (ordered : Ordered members) : collect members = members := by
  have onto (known members : List (List Char × Value)) (ordered : Ordered (known ++ members)) :
      members.foldl (fun known member => setMember member.1 member.2 known) known =
        known ++ members := by
    induction members generalizing known with
    | nil => simp
    | cons member members ih =>
      have less := (List.pairwise_append.mp ordered).2.2
      have next : setMember member.1 member.2 known = known ++ [member] :=
        setMember_append fun other inside => less other inside member List.mem_cons_self
      rw [List.foldl_cons]
      simp only [next]
      rw [ih _ (by simpa using ordered)]
      simp
  exact onto [] members ordered

theorem collect_induction {motive : List (List Char × Value) → Prop} (none : motive [])
    (more : ∀ known, ∀ member ∈ members, motive known → motive (setMember member.1 member.2 known)) :
    motive (collect members) := by
  have onto (known : List (List Char × Value)) (start : motive known) :
      motive (members.foldl (fun known member => setMember member.1 member.2 known) known) := by
    induction members generalizing known with
    | nil => exact start
    | cons member members ih =>
      exact ih (fun known other inside => more known other (List.mem_cons_of_mem _ inside)) _
        (more known member List.mem_cons_self start)
  exact onto [] none

theorem ordered_collect (members : List (List Char × Value)) : Ordered (collect members) :=
  collect_induction List.Pairwise.nil fun _ member _ ordered =>
    ordered_setMember member.1 member.2 ordered

theorem mem_of_mem_collect {member : List Char × Value} (inside : member ∈ collect members) :
    member ∈ members := by
  have every : collect members ⊆ members := by
    refine collect_induction (motive := (· ⊆ members)) (List.nil_subset _)
      fun known first listed every member inside => ?_
    rcases mem_setMember inside with rfl | inside
    · exact listed
    · exact every inside
  exact every inside

/-- A value that can be read where arrays and objects may be nested to a depth. -/
inductive Canonical : Nat → Value → Prop
  | null (depth : Nat) : Canonical depth .null
  | bool (depth : Nat) (value : Bool) : Canonical depth (.bool value)
  | integer (depth : Nat) (n : Int) : InRange n → Canonical depth (.number (.integer n))
  | fraction (depth : Nat) (negative : Bool) (magnitude : Binary64) :
      Canonical depth (.number (.fraction negative magnitude))
  | string (depth : Nat) (text : List Char) : Canonical depth (.string text)
  | array (depth : Nat) (items : List Value) :
      (∀ item ∈ items, Canonical depth item) → Canonical (depth + 1) (.array items)
  | object (depth : Nat) (members : List (List Char × Value)) : Ordered members →
      (∀ member ∈ members, Canonical depth member.2) → Canonical (depth + 1) (.object members)

theorem inRange_of_integer? {negative : Bool} {digits : List Char} {n : Int}
    (integer : integer? negative digits = some n) : InRange n := by
  have limit : 0 < Text.wordLimit := by decide
  simp only [integer?] at integer
  split at integer
  · simp only [Bool.and_eq_true,decide_eq_true_eq,Option.ite_none_right_eq_some] at integer
    obtain ⟨⟨-,small⟩,same⟩ := integer
    cases same
    exact ⟨by omega,by omega⟩
  · simp only [Option.ite_none_right_eq_some] at integer
    obtain ⟨small,same⟩ := integer
    cases same
    exact ⟨by omega,by omega⟩

theorem inRange_of_readUnsigned? {negative : Bool} {n : Int}
    (found : readUnsigned? negative s = some (.integer n,rest)) : InRange n := by
  simp only [readUnsigned?,Option.bind_eq_bind,Option.bind_eq_some_iff] at found
  obtain ⟨⟨whole,tail⟩,-,found⟩ := found
  split at found
  · next value integer _ =>
    cases found
    exact inRange_of_integer? integer
  · simp only [Option.bind_eq_some_iff] at found
    obtain ⟨⟨_,_⟩,-,⟨_,_⟩,-,_,-,found⟩ := found
    cases found

theorem canonical_of_readNumber? {n : Number} (depth : Nat) (found : readNumber? s = some (n,rest)) :
    Canonical depth (.number n) := by
  cases n with
  | fraction negative magnitude => exact .fraction ..
  | integer n =>
    unfold readNumber? at found
    split at found <;> exact .integer depth n (inRange_of_readUnsigned? found)

theorem exists_item_of_readItems? (found : readItems? item fuel s = some (items,rest)) :
    ∀ v ∈ items, ∃ s rest, item s = some (v,rest) := by
  induction fuel generalizing s items with
  | zero => cases found
  | succ fuel ih =>
    simp only [readItems?,Option.bind_eq_bind,Option.bind_eq_some_iff] at found
    obtain ⟨⟨first,tail⟩,read,found⟩ := found
    split at found
    · cases found
      exact List.forall_mem_singleton.mpr ⟨s,tail,read⟩
    · simp only [Option.bind_eq_some_iff] at found
      obtain ⟨⟨more,_⟩,later,found⟩ := found
      cases found
      exact List.forall_mem_cons.mpr ⟨⟨s,tail,read⟩,ih later⟩
    · cases found

theorem exists_item_of_readMembers? (found : readMembers? item fuel s = some (members,rest)) :
    ∀ member ∈ members, ∃ s rest, item s = some (member.2,rest) := by
  induction fuel generalizing s members with
  | zero => cases found
  | succ fuel ih =>
    simp only [readMembers?] at found
    split at found
    · simp only [Option.bind_eq_bind,Option.bind_eq_some_iff] at found
      obtain ⟨⟨key,tail⟩,-,found⟩ := found
      split at found
      · next inner _ =>
        simp only [Option.bind_eq_some_iff] at found
        obtain ⟨⟨first,tail⟩,read,found⟩ := found
        split at found
        · cases found
          exact List.forall_mem_singleton.mpr ⟨inner,tail,read⟩
        · simp only [Option.bind_eq_some_iff] at found
          obtain ⟨⟨more,_⟩,later,found⟩ := found
          cases found
          exact List.forall_mem_cons.mpr ⟨⟨inner,tail,read⟩,ih later⟩
        · cases found
      · cases found
    · cases found

theorem readWord?_eq {word : List Char} (found : readWord? word value s = some (v,rest)) :
    v = value := by
  simp only [readWord?,Option.ite_none_right_eq_some] at found
  exact (Prod.mk.inj (Option.some.inj found.2)).1.symm

/-- Whatever nests is no deeper than its items allow, and nothing else depends on the depth. -/
theorem canonical_of_readOne? (found : readOne? item s = some (v,rest))
    (each : ∀ s v rest, item s = some (v,rest) → Canonical depth v) :
    (∀ depth, Canonical depth v) ∨ opensNesting s = true ∧ Canonical (depth + 1) v := by
  simp only [readOne?,opensNesting] at found ⊢
  split at found
  · cases found
  · obtain ⟨⟨text,_⟩,-,same⟩ := Option.map_eq_some_iff.mp found
    cases same
    exact .inl fun depth => .string depth text
  · next opening =>
    refine .inr ⟨by rw [opening]; rfl,?_⟩
    split at found
    · cases found
      exact .array depth [] (by simp)
    · obtain ⟨⟨items,_⟩,read,same⟩ := Option.map_eq_some_iff.mp found
      cases same
      refine .array depth items fun v member => ?_
      obtain ⟨s,rest,read⟩ := exists_item_of_readItems? read v member
      exact each s v rest read
  · next opening =>
    refine .inr ⟨by rw [opening]; rfl,?_⟩
    split at found
    · cases found
      exact .object depth [] List.Pairwise.nil (by simp)
    · obtain ⟨⟨members,_⟩,read,same⟩ := Option.map_eq_some_iff.mp found
      cases same
      refine .object depth (collect members) (ordered_collect members) fun member inside => ?_
      obtain ⟨s,rest,read⟩ := exists_item_of_readMembers? read member (mem_of_mem_collect inside)
      exact each s member.2 rest read
  · exact .inl fun depth => readWord?_eq found ▸ .null depth
  · exact .inl fun depth => readWord?_eq found ▸ .bool depth true
  · exact .inl fun depth => readWord?_eq found ▸ .bool depth false
  · obtain ⟨⟨n,_⟩,read,same⟩ := Option.map_eq_some_iff.mp found
    cases same
    exact .inl fun depth => canonical_of_readNumber? depth read

theorem canonical_of_readValue? (found : readValue? depth s = some (v,rest)) :
    Canonical depth v := by
  induction depth generalizing s v rest with
  | zero =>
    simp only [readValue?] at found
    split at found
    · cases found
    · next scalar =>
      have nothing (s : List Char) (v : Value) (rest : List Char)
          (none : (fun _ => none : List Char → Option (Value × List Char)) s = some (v,rest)) :
          Canonical 0 v := nomatch none
      rcases canonical_of_readOne? found nothing with any | ⟨opens,-⟩
      · exact any 0
      · exact absurd opens scalar
  | succ depth ih =>
    rcases canonical_of_readOne? found fun _ _ _ read => ih read with any | ⟨-,nested⟩
    · exact any (depth + 1)
    · exact nested

theorem canonical_of_read? (found : read? s = some v) : Canonical depthLimit v := by
  simp only [read?,Option.bind_eq_bind,Option.bind_eq_some_iff,Option.ite_none_right_eq_some] at found
  obtain ⟨⟨value,rest⟩,read,-,same⟩ := found
  cases same
  exact canonical_of_readValue? read

end ReleaseInstaller.Json
