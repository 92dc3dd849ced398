import ReleaseInstaller.Text.Utf8

/-! Reading back what was encoded. The octets of a character are one well-formed unit, whatever
follows them, and whatever stands in front of them. -/
namespace ReleaseInstaller.Text.Utf8

variable {c : Char} {n : Nat} {low high first : UInt8}

/-- An octet after the first one. -/
def following (n : Nat) : UInt8 := UInt8.ofNat (n % 64 + 128)

theorem toNat_following (n : Nat) : (following n).toNat = n % 64 + 128 := by
  rw [following,UInt8.toNat_ofNat']
  omega

theorem complete_following (count taken payload : Nat) (more : List UInt8)
    (above : low.toNat ≤ n % 64 + 0x80) (below : n % 64 + 0x80 ≤ high.toNat) :
    complete payload low high (count + 1) taken (following n :: more) =
      complete (payload * 64 + n % 64) 0x80 0xBF count (taken + 1) more := by
  simp only [complete,UInt8.le_iff_toNat_le,toNat_following,above,below,decide_true,Bool.and_self,
    if_true,Nat.add_sub_cancel]

theorem complete_within (count taken payload n : Nat) (more : List UInt8) :
    complete payload 0x80 0xBF (count + 1) taken (following n :: more) =
      complete (payload * 64 + n % 64) 0x80 0xBF count (taken + 1) more :=
  complete_following count taken payload more (Nat.le_add_left ..) (by change _ ≤ 0xBF; omega)

theorem toNat_lt (c : Char) : c.toNat < 0xD800 ∨ 0xDFFF < c.toNat ∧ c.toNat < 0x110000 := c.valid

theorem encodeChar_eq (c : Char) :
    String.utf8EncodeChar c =
      if c.toNat ≤ 0x7F then [UInt8.ofNat c.toNat]
      else if c.toNat ≤ 0x7FF then [UInt8.ofNat (c.toNat / 64 + 0xC0),following c.toNat]
      else if c.toNat ≤ 0xFFFF then
        [UInt8.ofNat (c.toNat / 4096 + 0xE0),following (c.toNat / 64),following c.toNat]
      else [UInt8.ofNat (c.toNat / 262144 + 0xF0),following (c.toNat / 4096),
        following (c.toNat / 64),following c.toNat] := by
  have bound := toNat_lt c
  have same : c.val.toNat = c.toNat := rfl
  have two (short : c.toNat ≤ 0x7FF) : c.toNat / 64 % 32 = c.toNat / 64 :=
    Nat.mod_eq_of_lt (by omega)
  have three (short : c.toNat ≤ 0xFFFF) : c.toNat / 4096 % 16 = c.toNat / 4096 :=
    Nat.mod_eq_of_lt (by omega)
  have four : c.toNat / 262144 % 8 = c.toNat / 262144 := Nat.mod_eq_of_lt (by omega)
  simp only [String.utf8EncodeChar,following,same,four]
  split
  · rfl
  split
  · next short => rw [two short]
  split
  · next short => rw [three short]
  · rfl

theorem lead?_ofNat (n : Nat) (small : n < 0x100) :
    lead? (UInt8.ofNat n) =
      if n < 0xC2 then none
      else if n < 0xE0 then some ⟨n - 0xC0,0x80,0xBF,1⟩
      else if n = 0xE0 then some ⟨0,0xA0,0xBF,2⟩
      else if n = 0xED then some ⟨0xD,0x80,0x9F,2⟩
      else if n < 0xF0 then some ⟨n - 0xE0,0x80,0xBF,2⟩
      else if n = 0xF0 then some ⟨0,0x90,0xBF,3⟩
      else if n < 0xF4 then some ⟨n - 0xF0,0x80,0xBF,3⟩
      else if n = 0xF4 then some ⟨4,0x80,0x8F,3⟩
      else none := by
  have value : (UInt8.ofNat n).toNat = n := by
    rw [UInt8.toNat_ofNat']
    omega
  simp only [lead?,UInt8.lt_iff_toNat_lt,← UInt8.toNat_inj,value]
  rfl

theorem unit_of_lead {payload count : Nat} (long : 0x80 ≤ n) (small : n < 0x100)
    (found : lead? (UInt8.ofNat n) = some ⟨payload,low,high,count⟩) (rest : List UInt8) :
    unit (UInt8.ofNat n) rest = complete payload low high count 0 rest := by
  have large : ¬UInt8.ofNat n < 0x80 := by
    rw [UInt8.lt_iff_toNat_lt,UInt8.toNat_ofNat',Nat.mod_eq_of_lt (by omega)]
    exact Nat.not_lt_of_le long
  rw [unit,if_neg large,found]

theorem unit_two (long : 0x7F < c.toNat) (short : c.toNat ≤ 0x7FF) (more : List UInt8) :
    unit (UInt8.ofNat (c.toNat / 64 + 0xC0)) (following c.toNat :: more) = (some c,1) := by
  have found := lead?_ofNat (c.toNat / 64 + 0xC0) (by omega)
  rw [if_neg (by omega),if_pos (by omega),Nat.add_sub_cancel] at found
  rw [unit_of_lead (by omega) (by omega) found,complete_within,complete]
  simp only [Nat.div_add_mod',Char.ofNat_toNat]

/-- The second of three octets is bounded from below where fewer octets would do, and from above
where surrogates would follow. -/
theorem unit_three (long : 0x7FF < c.toNat) (short : c.toNat ≤ 0xFFFF) (more : List UInt8) :
    unit (UInt8.ofNat (c.toNat / 4096 + 0xE0))
      (following (c.toNat / 64) :: following c.toNat :: more) = (some c,2) := by
  have bound := toNat_lt c
  have back {n : Nat} (same : n = c.toNat) : Char.ofNat n = c := by rw [same,Char.ofNat_toNat]
  have found := lead?_ofNat (c.toNat / 4096 + 0xE0) (by omega)
  rw [if_neg (by omega),if_neg (by omega)] at found
  by_cases least : c.toNat / 4096 + 0xE0 = 0xE0
  · rw [if_pos least] at found
    rw [unit_of_lead (by omega) (by omega) found]
    refine (complete_following _ _ _ _ (by change 0xA0 ≤ _; omega) (by change _ ≤ 0xBF; omega)).trans ?_
    rw [complete_within,complete,back (by omega)]
  rw [if_neg least] at found
  by_cases surrogate : c.toNat / 4096 + 0xE0 = 0xED
  · rw [if_pos surrogate] at found
    rw [unit_of_lead (by omega) (by omega) found]
    refine (complete_following _ _ _ _ (Nat.le_add_left ..) (by change _ ≤ 0x9F; omega)).trans ?_
    rw [complete_within,complete,back (by omega)]
  · rw [if_neg surrogate,if_pos (by omega)] at found
    rw [unit_of_lead (by omega) (by omega) found,complete_within,complete_within,complete,
      back (by omega)]

theorem unit_four (long : 0xFFFF < c.toNat) (more : List UInt8) :
    unit (UInt8.ofNat (c.toNat / 262144 + 0xF0))
      (following (c.toNat / 4096) :: following (c.toNat / 64) :: following c.toNat :: more) =
        (some c,3) := by
  have bound := toNat_lt c
  have back {n : Nat} (same : n = c.toNat) : Char.ofNat n = c := by rw [same,Char.ofNat_toNat]
  have found := lead?_ofNat (c.toNat / 262144 + 0xF0) (by omega)
  rw [if_neg (by omega),if_neg (by omega),if_neg (by omega),if_neg (by omega),
    if_neg (by omega)] at found
  by_cases least : c.toNat / 262144 + 0xF0 = 0xF0
  · rw [if_pos least] at found
    rw [unit_of_lead (by omega) (by omega) found]
    refine (complete_following _ _ _ _ (by change 0x90 ≤ _; omega) (by change _ ≤ 0xBF; omega)).trans ?_
    rw [complete_within,complete_within,complete,back (by omega)]
  rw [if_neg least] at found
  by_cases inner : c.toNat / 262144 + 0xF0 < 0xF4
  · rw [if_pos inner] at found
    rw [unit_of_lead (by omega) (by omega) found,complete_within,complete_within,complete_within,
      complete,back (by omega)]
  · rw [if_neg inner,if_pos (by omega)] at found
    rw [unit_of_lead (by omega) (by omega) found]
    refine (complete_following _ _ _ _ (Nat.le_add_left ..) (by change _ ≤ 0x8F; omega)).trans ?_
    rw [complete_within,complete_within,complete,back (by omega)]

/-- A character is read off its octets. -/
theorem unit_encodeChar (c : Char) (more : List UInt8) :
    ∃ first tail, String.utf8EncodeChar c = first :: tail ∧
      unit first (tail ++ more) = (some c,tail.length) := by
  rw [encodeChar_eq]
  split
  · next short =>
    have value : (UInt8.ofNat c.toNat).toNat = c.toNat := by
      rw [UInt8.toNat_ofNat']
      omega
    have low : UInt8.ofNat c.toNat < 0x80 := by
      rw [UInt8.lt_iff_toNat_lt,value]
      exact Nat.lt_succ_of_le short
    exact ⟨_,[],rfl,by simp [unit,low,value]⟩
  split
  · next long short => exact ⟨_,_,rfl,unit_two (by omega) short more⟩
  split
  · next long short => exact ⟨_,_,rfl,unit_three (by omega) short more⟩
  · next long => exact ⟨_,_,rfl,unit_four (by omega) more⟩

theorem unitsAfter_append (skipped rest : List UInt8) :
    unitsAfter skipped.length (skipped ++ rest) = unitsAfter 0 rest := by
  induction skipped with
  | nil => rfl
  | cons octet skipped ih => exact ih

theorem units_encode (s : List Char) : units (encode s) = s.map some := by
  induction s with
  | nil => rfl
  | cons c s ih =>
    obtain ⟨first,tail,octets,read⟩ := unit_encodeChar c (encode s)
    rw [encode_cons,octets,List.cons_append,units,unitsAfter,read]
    simp only [unitsAfter_append,List.map_cons]
    exact congrArg (some c :: ·) ih

@[simp] theorem decode?_encode (s : List Char) : decode? (encode s) = some s := by
  rw [decode?,units_encode]
  induction s with
  | nil => rfl
  | cons c s ih => simp [List.mapM_cons,ih]

/-- An octet that is never the first one of a character. -/
def isFollowing (octet : UInt8) : Bool := 0x80 ≤ octet && octet ≤ 0xBF

theorem isFollowing_iff : isFollowing first = true ↔ 0x80 ≤ first.toNat ∧ first.toNat ≤ 0xBF := by
  simp [isFollowing,UInt8.le_iff_toNat_le]

theorem unit_of_isFollowing (inside : isFollowing first = true) (rest : List UInt8) :
    unit first rest = (none,0) := by
  obtain ⟨above,below⟩ := isFollowing_iff.mp inside
  have long : ¬first < 0x80 := by
    rw [UInt8.lt_iff_toNat_lt]
    exact Nat.not_lt_of_le above
  have small : first < 0xC2 := UInt8.lt_iff_toNat_lt.mpr (Nat.lt_of_le_of_lt below (by decide))
  rw [unit,if_neg long,lead?,if_pos small]

theorem lead?_bounds {lead : Lead} (found : lead? first = some lead) :
    0x80 ≤ lead.low.toNat ∧ lead.high.toNat ≤ 0xBF := by
  unfold lead? at found
  repeat' split at found
  all_goals simp only [Option.some.injEq,reduceCtorEq] at found
  all_goals
    subst found
    dsimp only
    decide

theorem complete_append (octets more : List UInt8) (starts : isFollowing first = false)
    (above : 0x80 ≤ low.toNat) (below : high.toNat ≤ 0xBF) (payload count taken : Nat) :
    complete payload low high count taken (octets ++ first :: more) =
        complete payload low high count taken octets ∧
      (complete payload low high count taken octets).2 ≤ taken + octets.length := by
  induction count generalizing payload low high taken octets with
  | zero => simp [complete]
  | succ count ih =>
    cases octets with
    | nil =>
      have outside : ¬(low ≤ first && first ≤ high) = true := fun within => by
        simp only [Bool.and_eq_true,decide_eq_true_eq,UInt8.le_iff_toNat_le] at within
        have inside : isFollowing first = true := isFollowing_iff.mpr ⟨by omega,by omega⟩
        simp [starts] at inside
      exact ⟨if_neg outside,Nat.le_refl _⟩
    | cons next octets =>
      simp only [List.cons_append,complete]
      split
      · obtain ⟨same,fewer⟩ := ih octets (show 0x80 ≤ (0x80 : UInt8).toNat by decide)
          (show (0xBF : UInt8).toNat ≤ 0xBF by decide) (payload * 64 + (next.toNat - 0x80)) (taken + 1)
        rw [List.length_cons]
        exact ⟨same,by omega⟩
      · exact ⟨rfl,Nat.le_add_right ..⟩

theorem unit_append (octet : UInt8) (octets more : List UInt8) (starts : isFollowing first = false) :
    unit octet (octets ++ first :: more) = unit octet octets ∧
      (unit octet octets).2 ≤ octets.length := by
  unfold unit
  split
  · exact ⟨rfl,Nat.zero_le _⟩
  split
  · exact ⟨rfl,Nat.zero_le _⟩
  · next lead found =>
    obtain ⟨above,below⟩ := lead?_bounds found
    simpa using complete_append octets more starts above below lead.payload lead.following 0

theorem unitsAfter_before (octets more : List UInt8) (starts : isFollowing first = false) {skip : Nat}
    (within : skip ≤ octets.length) :
    unitsAfter skip (octets ++ first :: more) = unitsAfter skip octets ++ unitsAfter 0 (first :: more) := by
  induction octets generalizing skip with
  | nil =>
    obtain rfl := Nat.le_zero.mp within
    rfl
  | cons octet octets ih =>
    cases skip with
    | succ skip => exact ih (Nat.le_of_succ_le_succ within)
    | zero =>
      obtain ⟨same,fewer⟩ := unit_append octet octets more starts
      simp only [List.cons_append,unitsAfter,same,ih fewer]

/-- Whatever octets stand in front of a text, the text is read behind them. -/
theorem decodeLossy_append (octets : List UInt8) (s : List Char) :
    decodeLossy (octets ++ encode s) = decodeLossy octets ++ s := by
  cases s with
  | nil => simp
  | cons c s =>
    obtain ⟨first,tail,spelled,read⟩ := unit_encodeChar c (encode s)
    have starts : isFollowing first = false := by
      cases inside : isFollowing first with
      | false => rfl
      | true => simp [unit_of_isFollowing inside] at read
    have behind := units_encode (c :: s)
    rw [encode_cons,spelled,List.cons_append,units] at behind
    rw [encode_cons,spelled,List.cons_append,decodeLossy,units,
      unitsAfter_before octets _ starts (Nat.zero_le _),behind]
    simp [decodeLossy,units,Function.comp_def]

end ReleaseInstaller.Text.Utf8
