import ReleaseInstaller.Proofs.Operation
import ReleaseInstaller.Proofs.Unread

/-! Two trees that differ in hidden places only. An operation on paths that spare those places comes to
the same in both trees, and what is hidden stays in each of them as it was. -/
namespace ReleaseInstaller

/-- Both fail alike, or what they give is related. -/
inductive Parallel {ε α β : Type} (alike : α → β → Prop) : Except ε α → Except ε β → Prop where
  | ok : alike a b → Parallel alike (.ok a) (.ok b)
  | error : Parallel alike (.error e) (.error e)

namespace Files

variable {f g f' g' first second : Files} {hidden : Location → Prop} {p q : Path}
  {l k source target : Location}

theorem hasBelow_iff : f.hasBelow l = true ↔ ∃ k, l <+: k ∧ k ≠ l ∧ f.at? k ≠ none := by
  simp only [hasBelow,List.any_eq_true,Bool.and_eq_true,List.isPrefixOf_iff_prefix,
    decide_eq_true_eq]
  constructor
  · rintro ⟨⟨k,node⟩,member,below,other⟩
    refine ⟨k,below,other,?_⟩
    rw [at?]
    split
    · simp
    · intro absent
      simpa using List.lookup_eq_none_iff.mp absent _ member
  · rintro ⟨k,below,other,present⟩
    rw [at?,if_neg (by rintro rfl; exact other (List.prefix_nil.mp below).symm)] at present
    obtain ⟨⟨k',node⟩,member,same⟩ :=
      List.lookup_isSome_iff.mp (Option.isSome_iff_ne_none.mpr present)
    obtain rfl : k = k' := by simpa using same
    exact ⟨_,member,below,other⟩

theorem lookup_moved (entries : List (Location × Node)) (source target k : Location) :
    ((entries.filter fun entry => source.isPrefixOf entry.1).map fun entry =>
        (target ++ entry.1.drop source.length,entry.2)).lookup k =
      if target <+: k then entries.lookup (source ++ k.drop target.length) else none := by
  induction entries with
  | nil => simp
  | cons entry entries ih =>
    obtain ⟨l,node⟩ := entry
    rw [List.filter_cons]
    split
    · next below =>
      obtain ⟨rest,rfl⟩ := List.isPrefixOf_iff_prefix.mp below
      rw [List.map_cons,List.lookup_cons,ih,List.lookup_cons]
      by_cases within : target <+: k
      · obtain ⟨more,rfl⟩ := within
        have same : (target ++ more == target ++ rest) = (source ++ more == source ++ rest) := by
          rw [Bool.eq_iff_iff]
          simp
        simp [same]
      · have other : (k == target ++ rest) = false := by
          simp only [beq_eq_false_iff_ne,ne_eq]
          rintro rfl
          exact within (List.prefix_append ..)
        simp [within,other]
    · next off =>
      have other : (source ++ k.drop target.length == l) = false := by
        simp only [beq_eq_false_iff_ne,ne_eq]
        rintro rfl
        simp at off
      rw [ih,List.lookup_cons,other]

theorem at?_moveTree (some : source ≠ []) (other : k ≠ []) :
    (f.moveTree source target).at? k =
      if target <+: k then f.at? (source ++ k.drop target.length)
      else if source <+: k then none else f.at? k := by
  have rest := at?_eraseTree (f.eraseTree source) target k other
  rw [at?_eraseTree f source k other] at rest
  simp only [at?,other,if_false,List.isPrefixOf_iff_prefix] at rest
  simp only [at?,other,some,if_false,moveTree,List.lookup_append,lookup_moved,rest,
    List.append_eq_nil_iff,false_and]
  split <;> simp

theorem at?_put_of_ne (other : k ≠ l) (node : Node) : (f.put l node).at? k = f.at? k := by
  by_cases root : k = []
  · simp [root]
  · rw [at?_put _ _ _ _ root,if_neg other]

theorem at?_erase_of_ne (other : k ≠ l) : (f.erase l).at? k = f.at? k := by
  by_cases root : k = []
  · simp [root]
  · rw [at?_erase _ _ _ root,if_neg other]

/-- The trees hold the same but for hidden places. -/
structure SameBut (hidden : Location → Prop) (f g : Files) : Prop where
  current : g.current = f.current
  shown : ∀ k, ¬ hidden k → g.at? k = f.at? k

/-- At hidden places, moreover, each tree still holds what it did at first. -/
structure Twins (hidden : Location → Prop) (first second f g : Files) : Prop
    extends SameBut hidden f g where
  first : ∀ k, hidden k → f.at? k = first.at? k
  second : ∀ k, hidden k → g.at? k = second.at? k

/-- The walk of the path comes to no hidden place. -/
def Unread (f : Files) (hidden : Location → Prop) (p : Path) : Prop :=
  ∀ k, f.Comes (f.start p) p.steps k → ¬ hidden k

/-- Nothing is hidden on the way of the path, or below the entry that it names. -/
structure Spares (f : Files) (hidden : Location → Prop) (p : Path) : Prop where
  unread : f.Unread hidden p
  above : ∀ k, f.entry? p = .ok (some k) → ∀ l, hidden l → ¬ k <+: l

theorem Unread.of_leadsTo (unread : f.Unread hidden p) (leads : LeadsTo q p) : f.Unread hidden q :=
  fun k comes => unread k (comes.of_leadsTo leads)

def places : Location → List Path.Step → List Location
  | here, [] => [here]
  | here, .here :: rest => places here rest
  | here, .up :: rest => here :: places here.dropLast rest
  | here, .into name :: rest => here :: places (here ++ [name]) rest

def Linkless (f : Files) : Prop := ∀ entry ∈ f.entries, ∀ target, entry.2 ≠ .link target

instance (f : Files) : Decidable f.Linkless :=
  decidable_of_iff (∀ entry ∈ f.entries, (match entry.2 with | .link _ => false | _ => true) = true)
    (forall₂_congr fun entry _ => by cases entry.2 <;> simp)

theorem mem_places_self (here : Location) (steps : List Path.Step) : here ∈ places here steps := by
  induction steps with
  | nil => simp [places]
  | cons step steps ih => cases step <;> simp [places,ih]

theorem Comes.mem_places {here : Location} {steps : List Path.Step} (linkless : f.Linkless)
    (comes : f.Comes here steps k) : k ∈ places here steps := by
  induction comes with
  | stop => exact mem_places_self _ _
  | here _ ih => exact ih
  | up _ ih => exact List.mem_cons_of_mem _ ih
  | entry => exact List.mem_cons_of_mem _ (mem_places_self _ _)
  | on _ _ ih => exact List.mem_cons_of_mem _ ih
  | link met =>
    rw [at?] at met
    split at met
    · cases met
    · obtain ⟨before,after,whole,-⟩ := List.lookup_eq_some_iff.mp met
      exact absurd rfl (linkless _ (whole ▸ List.mem_append_right _ List.mem_cons_self) _)

/-- Without links it can be seen from its steps that a path spares a place. -/
theorem spares_of_linkless (linkless : f.Linkless) (off : l ∉ places (f.start p) p.steps)
    (above : ∀ k ∈ (f.entry? p).toOption.join, ¬ k <+: l) : f.Spares (· = l) p := by
  refine ⟨?_,?_⟩
  · rintro k comes rfl
    exact off (comes.mem_places linkless)
  · rintro k entry l rfl
    refine above k ?_
    rw [entry]
    rfl

namespace Twins

theorem agree (twins : Twins hidden first second f g) (unread : f.Unread hidden p) :
    f.AgreeAt g p :=
  ⟨twins.current,fun k comes => twins.shown k (unread k comes)⟩

theorem changed (twins : Twins hidden first second f g) (current : g'.current = f'.current)
    (same : ∀ k, ¬ hidden k → g'.at? k = f'.at? k)
    (kept : ∀ k, hidden k → f'.at? k = f.at? k ∧ g'.at? k = g.at? k) :
    Twins hidden first second f' g' :=
  ⟨⟨current,same⟩,fun k hid => (kept k hid).1.trans (twins.first k hid),
    fun k hid => (kept k hid).2.trans (twins.second k hid)⟩

theorem changed_at (twins : Twins hidden first second f g) (shown : ¬ hidden l)
    (current : g'.current = f'.current) (same : g'.at? l = f'.at? l)
    (off : ∀ k, k ≠ l → f'.at? k = f.at? k ∧ g'.at? k = g.at? k) :
    Twins hidden first second f' g' := by
  refine twins.changed current (fun k seen => ?_) fun k hid => off k ?_
  · by_cases here : k = l
    · rw [here,same]
    · rw [(off k here).1,(off k here).2,twins.shown k seen]
  · rintro rfl
    exact shown hid

theorem put (twins : Twins hidden first second f g) (shown : ¬ hidden l) (node : Node) :
    Twins hidden first second (f.put l node) (g.put l node) := by
  refine twins.changed_at shown twins.current ?_
    fun k other => ⟨at?_put_of_ne other node,at?_put_of_ne other node⟩
  by_cases root : l = []
  · simp [root]
  · rw [at?_put _ _ _ _ root,at?_put _ _ _ _ root,if_pos rfl,if_pos rfl]

theorem erase (twins : Twins hidden first second f g) (shown : ¬ hidden l) :
    Twins hidden first second (f.erase l) (g.erase l) := by
  refine twins.changed_at shown twins.current ?_
    fun k other => ⟨at?_erase_of_ne other,at?_erase_of_ne other⟩
  by_cases root : l = []
  · simp [root]
  · rw [at?_erase _ _ _ root,at?_erase _ _ _ root,if_pos rfl,if_pos rfl]

theorem moveTree (twins : Twins hidden first second f g) (some : source ≠ [])
    (off : ∀ k, hidden k → ¬ source <+: k ∧ ¬ target <+: k) :
    Twins hidden first second (f.moveTree source target) (g.moveTree source target) := by
  refine twins.changed twins.current (fun k shown => ?_) fun k hid => ?_
  · by_cases root : k = []
    · simp [root]
    have moved := twins.shown (source ++ k.drop target.length) fun hid =>
      (off _ hid).1 (List.prefix_append ..)
    rw [at?_moveTree some root,at?_moveTree some root,twins.shown k shown,moved]
  · by_cases root : k = []
    · simp [root]
    · simp [at?_moveTree some root,off k hid]

theorem hasBelow (twins : Twins hidden first second f g) (off : ∀ k, hidden k → ¬ l <+: k) :
    g.hasBelow l = f.hasBelow l := by
  rw [Bool.eq_iff_iff,hasBelow_iff,hasBelow_iff]
  refine exists_congr fun k => and_congr_right fun below => ?_
  rw [twins.shown k fun hid => off k hid below]

section Operations

variable (twins : Twins hidden first second f g)

include twins

theorem parallel_makeDirectory (unread : f.Unread hidden p) :
    Parallel (Twins hidden first second) (makeDirectory p f) (makeDirectory p g) := by
  simp only [makeDirectory,vacant?,(twins.agree unread).entry,bind,Except.bind]
  rcases entry : f.entry? p with fault | _ | l
  · exact .error
  · exact .error
  have shown := unread l (comes_of_named entry)
  dsimp only
  rw [twins.shown l shown]
  cases f.at? l with
  | none => exact .ok (twins.put shown _)
  | some node => exact .error

theorem parallel_removeFile (unread : f.Unread hidden p) :
    Parallel (Twins hidden first second) (removeFile p f) (removeFile p g) := by
  simp only [removeFile,named?,(twins.agree unread).entry,bind,Except.bind]
  rcases entry : f.entry? p with fault | _ | l
  · exact .error
  · exact .error
  have shown := unread l (comes_of_named entry)
  dsimp only
  rw [twins.shown l shown]
  split
  · exact .error
  · exact .error
  split
  · exact .error
  · exact .ok (twins.erase shown)

theorem parallel_setMode (unread : f.Unread hidden p) (mode : Nat) :
    Parallel (Twins hidden first second) (setMode p mode f) (setMode p mode g) := by
  simp only [setMode,(twins.agree unread).follow?,bind,Except.bind]
  cases followed : f.follow? p with
  | error fault => exact .error
  | ok l =>
    have shown := unread l (comes_of_follow? followed)
    dsimp only
    rw [twins.shown l shown]
    split
    · exact .ok (twins.put shown _)
    · exact .ok twins
    · exact .error

/-- What is opened is the same file, and no hidden one. -/
theorem parallel_truncate (unread : f.Unread hidden p) :
    Parallel (fun opened opened' => opened'.1 = opened.1 ∧ ¬ hidden opened.1 ∧
      Twins hidden first second opened.2 opened'.2) (truncate p f) (truncate p g) := by
  have agree := twins.agree unread
  simp only [truncate,agree.follow?,agree.checkFilePath,bind,Except.bind]
  split
  · exact .error
  split
  · exact .error
  cases followed : f.follow? p with
  | error fault => exact .error
  | ok l =>
    have shown := unread l (comes_of_follow? followed)
    dsimp only
    rw [twins.shown l shown]
    split
    · exact .ok ⟨rfl,shown,twins.put shown _⟩
    · exact .ok ⟨rfl,shown,twins.put shown _⟩
    · exact .ok ⟨rfl,shown,twins⟩
    · exact .error
    · exact .error

theorem parallel_append (shown : ¬ hidden l) (octets : List UInt8) :
    Parallel (Twins hidden first second) (append l octets f) (append l octets g) := by
  unfold append
  rw [twins.shown l shown]
  split
  · exact .ok (twins.put shown _)
  · exact .ok (twins.put shown _)
  · split
    · exact .ok twins
    · exact .error
  all_goals exact .error

theorem parallel_rename (spares : f.Spares hidden p) (spares' : f.Spares hidden q) :
    Parallel (Twins hidden first second) (rename p q f) (rename p q g) := by
  simp only [rename,named?,(twins.agree spares.unread).entry,(twins.agree spares'.unread).entry,
    bind,Except.bind]
  rcases entry : f.entry? p with fault | _ | l
  · exact .error
  · exact .error
  rcases entry' : f.entry? q with fault | _ | k
  · exact .error
  · exact .error
  have shown := spares.unread l (comes_of_named entry)
  have shown' := spares'.unread k (comes_of_named entry')
  have off := spares'.above k entry'
  have some : l ≠ [] := by
    obtain ⟨d,n,rfl,-⟩ := exists_of_entry entry
    simp
  have moved : Twins hidden first second (f.moveTree l k) (g.moveTree l k) :=
    twins.moveTree some fun h hid => ⟨spares.above l entry h hid,off h hid⟩
  dsimp only
  rw [twins.shown l shown,twins.shown k shown',twins.hasBelow off]
  split
  · exact .error
  · split
    · exact .ok twins
    split
    · exact .error
    split
    · exact .ok moved
    · split
      · exact .error
      · exact .ok moved
    · exact .error
  · split
    · exact .error
    split
    · exact .ok twins
    split
    · exact .error
    · exact .ok ((twins.erase shown).put shown' _)

end Operations

end Twins

end Files
end ReleaseInstaller
