import VectorX.Input.DataFetcher
import VectorX.Common.UnitSteps

/-!
# The last block justified by an authority set

Reference: `circuits/input/mod.rs`. A node stores at each block the id of the authority set that
justifies the next one. The last block justified by a set is the one where the id moves on, and
`last_justified_block` finds it by bisection.
-/

namespace VectorX

open UnitSteps

/-! ## Set ids -/

/-- The set ids that a node serves: they start at 0 and grow by at most one at each block. -/
structure SetIds where
  head : UInt32
  setId : ℕ → UInt64
  setId_zero : setId 0 = 0
  setId_succ : ∀ h, h < head.toNat →
    (setId (h + 1)).toNat = (setId h).toNat ∨ (setId (h + 1)).toNat = (setId h).toNat + 1

/-- `u32` subtraction that panics on underflow. -/
def checkedSub (a b : UInt32) : Option UInt32 := if b ≤ a then some (a - b) else none

theorem checkedSub_of_le {a b : UInt32} (h : b.toNat ≤ a.toNat) :
    ∃ c, checkedSub a b = some c ∧ c.toNat = a.toNat - b.toNat := by
  have hle : b ≤ a := UInt32.le_iff_toNat_le.mpr h
  exact ⟨a - b, by rw [checkedSub, if_pos hle], UInt32.toNat_sub_of_le _ _ hle⟩

/-- The number before. -/
theorem checkedSub_one {a : UInt32} (h : 1 ≤ a.toNat) :
    ∃ c, checkedSub a 1 = some c ∧ c.toNat = a.toNat - 1 := checkedSub_of_le h

theorem checkedSub_eq_some {a b c : UInt32} (h : checkedSub a b = some c) :
    b.toNat ≤ a.toNat ∧ c.toNat = a.toNat - b.toNat := by
  rw [checkedSub] at h
  split at h
  · rename_i hle
    obtain rfl := Option.some.inj h
    exact ⟨UInt32.le_iff_toNat_le.mp hle, UInt32.toNat_sub_of_le _ _ hle⟩
  · exact absurd h (by simp)

/-- `u64` addition that panics on overflow. -/
def checkedAdd64 (a b : UInt64) : Option UInt64 :=
  if a.toNat + b.toNat < 2 ^ 64 then some (a + b) else none

theorem checkedAdd64_of_lt {a b : UInt64} (h : a.toNat + b.toNat < 2 ^ 64) :
    ∃ c, checkedAdd64 a b = some c ∧ c.toNat = a.toNat + b.toNat := by
  refine ⟨a + b, by rw [checkedAdd64, if_pos h], ?_⟩
  rw [UInt64.toNat_add, Nat.mod_eq_of_lt h]

theorem checkedAdd64_one {a : UInt64} (h : a.toNat + 1 < 2 ^ 64) :
    ∃ c, checkedAdd64 a 1 = some c ∧ c.toNat = a.toNat + 1 := checkedAdd64_of_lt h

theorem checkedAdd64_eq_some {a b c : UInt64} (h : checkedAdd64 a b = some c) :
    c.toNat = a.toNat + b.toNat := by
  rw [checkedAdd64] at h
  split at h
  · rename_i hlt
    rw [← Option.some.inj h, UInt64.toNat_add, Nat.mod_eq_of_lt hlt]
  · exact absurd h (by simp)

/-- How a binary is built: with overflow checks, or without, as `cargo build --release` does. -/
inductive Profile
  | debug
  | release
deriving DecidableEq

/-- `u32` addition: an overflow panics or wraps. -/
def Profile.add : Profile → UInt32 → UInt32 → Option UInt32
  | .debug, a, b => checkedAdd a b
  | .release, a, b => some (a + b)

/-- `u32` subtraction: an underflow panics or wraps. -/
def Profile.sub : Profile → UInt32 → UInt32 → Option UInt32
  | .debug, a, b => checkedSub a b
  | .release, a, b => some (a - b)

/-- `u64` addition: an overflow panics or wraps. -/
def Profile.add64 : Profile → UInt64 → UInt64 → Option UInt64
  | .debug, a, b => checkedAdd64 a b
  | .release, a, b => some (a + b)

/-- Without an overflow, both profiles add. -/
theorem Profile.add_of_lt (profile : Profile) {a b : UInt32}
    (h : profile = .debug → a.toNat + b.toNat < 2 ^ 32) :
    ∃ c, profile.add a b = some c ∧ c.toNat = (a.toNat + b.toNat) % 2 ^ 32 := by
  cases profile with
  | debug =>
    obtain ⟨c, hc, hval⟩ := checkedAdd_of_lt (h rfl)
    exact ⟨c, hc, by rw [hval, Nat.mod_eq_of_lt (h rfl)]⟩
  | release => exact ⟨a + b, rfl, UInt32.toNat_add a b⟩

theorem Profile.sub_one (profile : Profile) {a : UInt32} (h : 1 ≤ a.toNat) :
    ∃ c, profile.sub a 1 = some c ∧ c.toNat = a.toNat - 1 := by
  cases profile with
  | debug => exact checkedSub_one h
  | release => exact ⟨a - 1, rfl, UInt32.toNat_sub_of_le a 1 (UInt32.le_iff_toNat_le.mpr h)⟩

theorem Profile.add64_one (profile : Profile) {a : UInt64} (h : a.toNat + 1 < 2 ^ 64) :
    ∃ c, profile.add64 a 1 = some c ∧ c.toNat = a.toNat + 1 := by
  have hone : (1 : UInt64).toNat = 1 := rfl
  cases profile with
  | debug => exact checkedAdd64_one h
  | release => exact ⟨a + 1, rfl, by rw [UInt64.toNat_add, hone, Nat.mod_eq_of_lt h]⟩

section Search

variable (ids : SetIds)

/-- `get_authority_set_id`: asking for a block above the head panics. -/
def getAuthoritySetId (blockNumber : UInt32) : Option UInt64 :=
  if blockNumber ≤ ids.head then some (ids.setId blockNumber.toNat) else none

/-- The loop of `last_justified_block` on the bounds `low` and `high`, for at most `fuel` rounds. -/
def lastJustifiedBlockLoop (profile : Profile) (targetAuthoritySetId : UInt64) :
    ℕ → UInt32 → UInt32 → Option UInt32
  | 0, _, _ => none
  | fuel + 1, low, high =>
    if low ≤ high then do
      let sum ← profile.add low high
      let mid := sum / 2
      let midAuthoritySetId ← getAuthoritySetId ids mid
      let nextAuthoritySetId ← profile.add64 targetAuthoritySetId 1
      if midAuthoritySetId = nextAuthoritySetId then
        -- there is no block before block 0
        if mid = 0 then some mid
        else do
          let prev ← profile.sub mid 1
          let prevAuthoritySetId ← getAuthoritySetId ids prev
          if prevAuthoritySetId = targetAuthoritySetId then some mid
          else lastJustifiedBlockLoop profile targetAuthoritySetId fuel low prev
      else if midAuthoritySetId < nextAuthoritySetId then do
        let low ← profile.add mid 1
        lastJustifiedBlockLoop profile targetAuthoritySetId fuel low high
      else do
        let high ← profile.sub mid 1
        lastJustifiedBlockLoop profile targetAuthoritySetId fuel low high
    else some 0

/-- `last_justified_block`, if it ends within `fuel` rounds: 0 if the set is not followed by another
one. -/
def lastJustifiedBlockWithin (profile : Profile) (fuel : ℕ) (targetAuthoritySetId : UInt64) :
    Option UInt32 :=
  lastJustifiedBlockLoop ids profile targetAuthoritySetId fuel 0 ids.head

/-- `last_justified_block` with overflow checks, for which these rounds are enough. -/
def lastJustifiedBlock (targetAuthoritySetId : UInt64) : Option UInt32 :=
  lastJustifiedBlockWithin ids .debug (ids.head.toNat + 2) targetAuthoritySetId

end Search

/-! ## The bisection -/

section Bisection

variable {ids : SetIds} {t : UInt64} {profile : Profile}

/-- The set ids as numbers. -/
def SetIds.id (ids : SetIds) (h : ℕ) : ℕ := (ids.setId h).toNat

theorem SetIds.grows (ids : SetIds) : Grows ids.id ids.head.toNat := ids.setId_succ

theorem SetIds.id_zero (ids : SetIds) : ids.id 0 = 0 := by
  rw [SetIds.id, ids.setId_zero]
  rfl

/-- The last block justified by the authority set with id `t`. -/
def SetIds.IsEpochEnd (ids : SetIds) (t b : ℕ) : Prop := b ≤ ids.head.toNat ∧ IsPassage ids.id t b

/-- A set is followed by another one if the id at the head is larger. -/
theorem SetIds.exists_isEpochEnd_iff (ids : SetIds) (t : ℕ) :
    (∃ b, ids.IsEpochEnd t b) ↔ t < ids.id ids.head.toNat :=
  exists_isPassage_iff ids.grows (by rw [ids.id_zero]; exact Nat.zero_le t)

theorem SetIds.IsEpochEnd.unique {t b b' : ℕ} (hb : ids.IsEpochEnd t b)
    (hb' : ids.IsEpochEnd t b') : b = b' :=
  hb.2.unique ids.grows hb'.2 hb.1 hb'.1

/-- Up to the head, the id is at most `t` before the last block of the set and larger from it on. -/
theorem SetIds.IsEpochEnd.lt_iff {t b h : ℕ} (hb : ids.IsEpochEnd t b) (hh : h ≤ ids.head.toNat) :
    h < b ↔ ids.id h ≤ t :=
  hb.2.lt_iff ids.grows hb.1 hh

/-- From a block of the set on, the id stays the same as long as it does not exceed the one of the
set. -/
theorem SetIds.setId_eq_of_le {b x : ℕ} (hbx : b ≤ x) (hx : x ≤ ids.head.toNat)
    (hle : ids.id x ≤ ids.id b) : ids.setId x = ids.setId b :=
  UInt64.toNat_inj.mp (Nat.le_antisymm hle (ids.grows.mono hbx hx))

theorem getAuthoritySetId_eq_some {b : UInt32} {t : UInt64} (h : getAuthoritySetId ids b = some t) :
    b.toNat ≤ ids.head.toNat ∧ ids.setId b.toNat = t := by
  rw [getAuthoritySetId] at h
  split at h
  · rename_i hle
    exact ⟨UInt32.le_iff_toNat_le.mp hle, Option.some.inj h⟩
  · exact absurd h (by simp)

theorem getAuthoritySetId_of_le (ids : SetIds) {b : UInt32} (h : b.toNat ≤ ids.head.toNat) :
    getAuthoritySetId ids b = some (ids.setId b.toNat) := by
  rw [getAuthoritySetId, if_pos (UInt32.le_iff_toNat_le.mpr h)]

variable (profile) in
/-- The middle of two bounds. -/
theorem exists_mid (low high : UInt32)
    (h : profile = .debug → low.toNat + high.toNat < 2 ^ 32) :
    ∃ sum, profile.add low high = some sum ∧
      (sum / 2).toNat = (low.toNat + high.toNat) % 2 ^ 32 / 2 := by
  obtain ⟨sum, hsum, hval⟩ := profile.add_of_lt h
  refine ⟨sum, hsum, ?_⟩
  rw [UInt32.toNat_div, hval]
  rfl

variable (profile) in
/-- One round, with the bounds and the middle as numbers. -/
theorem lastJustifiedBlockLoop_succ (fuel : ℕ) {low high : UInt32} (ht : t.toNat + 1 < 2 ^ 64)
    (hle : low.toNat ≤ high.toNat) (hhigh : high.toNat ≤ ids.head.toNat)
    (hsum : profile = .debug → low.toNat + high.toNat < 2 ^ 32) :
    ∃ mid next prev : UInt32, mid.toNat = (low.toNat + high.toNat) % 2 ^ 32 / 2 ∧
      next.toNat = mid.toNat + 1 ∧ prev.toNat = mid.toNat - 1 ∧
      lastJustifiedBlockLoop ids profile t (fuel + 1) low high =
        if ids.id mid.toNat ≤ t.toNat then lastJustifiedBlockLoop ids profile t fuel next high
        else if IsPassage ids.id t.toNat mid.toNat then some mid
        else lastJustifiedBlockLoop ids profile t fuel low prev := by
  obtain ⟨sum, hsum, hmid⟩ := exists_mid profile low high hsum
  obtain ⟨nextId, hnextId, hnextIdVal⟩ := profile.add64_one ht
  have hone : (1 : UInt32).toNat = 1 := rfl
  obtain ⟨next, hnext, hnextVal⟩ := profile.add_of_lt (a := sum / 2) (b := 1) (fun _ => by omega)
  rw [hone, Nat.mod_eq_of_lt (by omega)] at hnextVal
  have hprevVal : (UInt32.ofNat ((sum / 2).toNat - 1)).toNat = (sum / 2).toNat - 1 :=
    UInt32.toNat_ofNat_of_lt' (show _ < 2 ^ 32 by omega)
  refine ⟨sum / 2, next, UInt32.ofNat ((sum / 2).toNat - 1), hmid, hnextVal, hprevVal, ?_⟩
  have hget := getAuthoritySetId_of_le ids (b := sum / 2) (by omega)
  have hat : ids.setId (sum / 2).toNat = nextId ↔ ids.id (sum / 2).toNat = t.toNat + 1 := by
    rw [← UInt64.toNat_inj, hnextIdVal, SetIds.id]
  have hbelow : ids.setId (sum / 2).toNat < nextId ↔ ids.id (sum / 2).toNat ≤ t.toNat := by
    rw [UInt64.lt_iff_toNat_lt, hnextIdVal, SetIds.id, Nat.lt_succ_iff]
  rw [lastJustifiedBlockLoop, if_pos (UInt32.le_iff_toNat_le.mpr hle)]
  simp only [hsum, hget, hnextId, hnext, Option.bind_eq_bind, Option.bind_some, hat, hbelow]
  by_cases hless : ids.id (sum / 2).toNat ≤ t.toNat
  · rw [if_neg (by omega), if_pos hless, if_pos hless]
  · have hpos : 1 ≤ (sum / 2).toNat := by
      by_contra hzero
      rw [Nat.lt_one_iff.mp (Nat.not_le.mp hzero), ids.id_zero] at hless
      exact hless (Nat.zero_le _)
    have hmidNe : sum / 2 ≠ 0 := by
      intro heq
      rw [heq] at hpos
      exact absurd hpos (by decide)
    obtain ⟨prev, hprev, hprevVal'⟩ := profile.sub_one hpos
    obtain rfl : prev = UInt32.ofNat ((sum / 2).toNat - 1) :=
      UInt32.toNat_inj.mp (by rw [hprevVal', hprevVal])
    have hgetPrev := getAuthoritySetId_of_le ids
      (b := UInt32.ofNat ((sum / 2).toNat - 1)) (by omega)
    have hbefore : ids.setId ((sum / 2).toNat - 1) = t ↔
        ids.id ((sum / 2).toNat - 1) = t.toNat := by
      rw [← UInt64.toNat_inj, SetIds.id]
    simp only [hprev, hgetPrev, Option.bind_some, if_neg hmidNe, if_neg hless, hprevVal, hbefore]
    by_cases heq : ids.id (sum / 2).toNat = t.toNat + 1
    · by_cases hprevEq : ids.id ((sum / 2).toNat - 1) = t.toNat
      · rw [if_pos heq, if_pos hprevEq, if_pos ⟨hpos, hprevEq, heq⟩]
      · rw [if_pos heq, if_neg hprevEq, if_neg fun h => hprevEq (IsPassage.before h)]
    · rw [if_neg heq, if_neg fun h => heq (IsPassage.at_eq h)]

/-- The bounds close in on the block between them where the id moves on. -/
theorem lastJustifiedBlockLoop_of_isEpochEnd {b : UInt32} (ht : t.toNat + 1 < 2 ^ 64)
    (hhead : ids.head.toNat < 2 ^ 31) (hb : ids.IsEpochEnd t.toNat b.toNat) :
    ∀ (fuel : ℕ) (low high : UInt32), high.toNat + 1 - low.toNat < fuel → low.toNat ≤ b.toNat →
      b.toNat ≤ high.toNat → high.toNat ≤ ids.head.toNat →
      lastJustifiedBlockLoop ids profile t fuel low high = some b
  | 0, _, _, hfuel, _, _, _ => absurd hfuel (by omega)
  | fuel + 1, low, high, hfuel, hlow, hhigh, hle => by
    obtain ⟨mid, next, prev, hmid, hnext, hprev, hstep⟩ :=
      lastJustifiedBlockLoop_succ profile fuel ht (Nat.le_trans hlow hhigh) hle fun _ => by omega
    have hside := hb.lt_iff (h := mid.toNat) (by omega)
    rcases Nat.lt_or_ge mid.toNat b.toNat with hlt | hge
    · rw [hstep, if_pos (hside.mp hlt)]
      exact lastJustifiedBlockLoop_of_isEpochEnd ht hhead hb fuel next high (by omega) (by omega)
        hhigh hle
    · rw [hstep, if_neg (mt hside.mpr (Nat.not_lt.mpr hge))]
      by_cases hat : IsPassage ids.id t.toNat mid.toNat
      · rw [if_pos hat, UInt32.toNat_inj.mp (hb.unique ⟨by omega, hat⟩)]
      · -- the middle is after the block
        have hne : mid.toNat ≠ b.toNat := fun heq => hat (heq ▸ hb.2)
        rw [if_neg hat]
        exact lastJustifiedBlockLoop_of_isEpochEnd ht hhead hb fuel low prev (by omega) hlow
          (by omega) (by omega)

/-- The lower bound passes the head if no id is above `t`. -/
theorem lastJustifiedBlockLoop_of_le (ht : t.toNat + 1 < 2 ^ 64)
    (hhead : ids.head.toNat < 2 ^ 31) (hall : ids.id ids.head.toNat ≤ t.toNat) :
    ∀ (fuel : ℕ) (low : UInt32), ids.head.toNat + 1 - low.toNat < fuel →
      lastJustifiedBlockLoop ids profile t fuel low ids.head = some 0
  | 0, _, hfuel => absurd hfuel (by omega)
  | fuel + 1, low, hfuel => by
    by_cases hle : low.toNat ≤ ids.head.toNat
    · obtain ⟨mid, next, prev, hmid, hnext, -, hstep⟩ :=
        lastJustifiedBlockLoop_succ profile fuel ht hle (Nat.le_refl _) fun _ => by omega
      have hmono := ids.grows.mono (a := mid.toNat) (b := ids.head.toNat) (by omega)
        (Nat.le_refl _)
      rw [hstep, if_pos (by omega)]
      exact lastJustifiedBlockLoop_of_le ht hhead hall fuel next (by omega)
    · rw [lastJustifiedBlockLoop, if_neg (by rw [UInt32.le_iff_toNat_le]; exact hle)]

/-- The search finds the last block of a set that is followed by another one. -/
theorem lastJustifiedBlock_of_isEpochEnd {b : UInt32} (ht : t.toNat + 1 < 2 ^ 64)
    (hhead : ids.head.toNat < 2 ^ 31) (hb : ids.IsEpochEnd t.toNat b.toNat) :
    lastJustifiedBlock ids t = some b := by
  have hzero : (0 : UInt32).toNat = 0 := rfl
  exact lastJustifiedBlockLoop_of_isEpochEnd ht hhead hb _ 0 ids.head (by omega) (by omega) hb.1
    (Nat.le_refl _)

/-- The search returns 0 for the current set and those to come. -/
theorem lastJustifiedBlock_of_le (ht : t.toNat + 1 < 2 ^ 64) (hhead : ids.head.toNat < 2 ^ 31)
    (hall : ids.id ids.head.toNat ≤ t.toNat) : lastJustifiedBlock ids t = some 0 := by
  have hzero : (0 : UInt32).toNat = 0 := rfl
  exact lastJustifiedBlockLoop_of_le ht hhead hall _ 0 (by omega)

/-- With overflow checks a round panics if the sum of the bounds or the next id overflows. -/
theorem lastJustifiedBlockLoop_eq_none {low high : UInt32} (hle : low.toNat ≤ high.toNat)
    (hover : 2 ^ 64 ≤ t.toNat + 1 ∨ 2 ^ 32 ≤ low.toNat + high.toNat) :
    ∀ fuel, lastJustifiedBlockLoop ids .debug t fuel low high = none
  | 0 => rfl
  | fuel + 1 => by
    have hone : (1 : UInt64).toNat = 1 := rfl
    rw [lastJustifiedBlockLoop, if_pos (UInt32.le_iff_toNat_le.mpr hle)]
    rcases hover with ht | hsum
    · have hnext : Profile.debug.add64 t 1 = none := if_neg (by omega)
      simp only [hnext, Option.bind_eq_bind, Option.bind_none, Option.bind_fun_none]
    · have hmid : Profile.debug.add low high = none := checkedAdd_of_le hsum
      rw [hmid]
      rfl

/-- A round that leads to a result has not panicked. -/
theorem lt_of_lastJustifiedBlockLoop {fuel : ℕ} {low high r : UInt32} (hle : low.toNat ≤ high.toNat)
    (h : lastJustifiedBlockLoop ids profile t fuel low high = some r) :
    profile = .debug → t.toNat + 1 < 2 ^ 64 ∧ low.toNat + high.toNat < 2 ^ 32 := by
  rintro rfl
  by_contra hover
  rw [lastJustifiedBlockLoop_eq_none hle (by omega)] at h
  exact absurd h (by simp)

/-- Between bounds that hold the last block of the set, nothing else is found. If the sum of the
bounds wraps, the middle is below both of them, and the lower bound goes back. -/
theorem lastJustifiedBlockLoop_eq_of_isEpochEnd {b r : UInt32} (ht : t.toNat + 1 < 2 ^ 64)
    (hb : ids.IsEpochEnd t.toNat b.toNat) :
    ∀ (fuel : ℕ) (low high : UInt32), low.toNat ≤ b.toNat → b.toNat ≤ high.toNat →
      high.toNat ≤ ids.head.toNat → lastJustifiedBlockLoop ids profile t fuel low high = some r → r = b
  | 0, _, _, _, _, _, h => absurd h (by simp [lastJustifiedBlockLoop])
  | fuel + 1, low, high, hlow, hhigh, hle, h => by
    have hsum := lt_of_lastJustifiedBlockLoop (Nat.le_trans hlow hhigh) h
    obtain ⟨mid, next, prev, hmid, hnext, hprev, hstep⟩ :=
      lastJustifiedBlockLoop_succ profile fuel ht (Nat.le_trans hlow hhigh) hle
        fun hdebug => (hsum hdebug).2
    have hside := hb.lt_iff (h := mid.toNat) (by omega)
    rw [hstep] at h
    rcases Nat.lt_or_ge mid.toNat b.toNat with hlt | hge
    · rw [if_pos (hside.mp hlt)] at h
      exact lastJustifiedBlockLoop_eq_of_isEpochEnd ht hb fuel next high (by omega) hhigh hle h
    · rw [if_neg (mt hside.mpr (Nat.not_lt.mpr hge))] at h
      by_cases hat : IsPassage ids.id t.toNat mid.toNat
      · rw [if_pos hat] at h
        rw [← Option.some.inj h, UInt32.toNat_inj.mp (hb.unique ⟨by omega, hat⟩)]
      · have hne : mid.toNat ≠ b.toNat := fun heq => hat (heq ▸ hb.2)
        rw [if_neg hat] at h
        exact lastJustifiedBlockLoop_eq_of_isEpochEnd ht hb fuel low prev hlow (by omega) (by omega) h

/-- Without a larger id only the lower bound moves, to at most `2 ^ 31`: the search ends at a head
below that, and nowhere else. -/
theorem lastJustifiedBlockLoop_eq_zero_of_le {r : UInt32} (ht : t.toNat + 1 < 2 ^ 64)
    (hall : ids.id ids.head.toNat ≤ t.toNat) :
    ∀ (fuel : ℕ) (low : UInt32), low.toNat ≤ ids.head.toNat →
      lastJustifiedBlockLoop ids profile t fuel low ids.head = some r →
      r = 0 ∧ ids.head.toNat < 2 ^ 31
  | 0, _, _, h => absurd h (by simp [lastJustifiedBlockLoop])
  | fuel + 1, low, hle, h => by
    have hsum := lt_of_lastJustifiedBlockLoop hle h
    obtain ⟨mid, next, prev, hmid, hnext, -, hstep⟩ :=
      lastJustifiedBlockLoop_succ profile fuel ht hle (Nat.le_refl _) fun hdebug => (hsum hdebug).2
    have hmono := ids.grows.mono (a := mid.toNat) (b := ids.head.toNat) (by omega)
      (Nat.le_refl _)
    rw [hstep, if_pos (by omega)] at h
    rcases Nat.lt_or_ge ids.head.toNat next.toNat with hpast | hmore
    · -- the last round has both bounds at the head
      rcases fuel with - | fuel
      · exact absurd h (by simp [lastJustifiedBlockLoop])
      · rw [lastJustifiedBlockLoop, if_neg (by rw [UInt32.le_iff_toNat_le]; omega)] at h
        exact ⟨(Option.some.inj h).symm, by omega⟩
    · exact lastJustifiedBlockLoop_eq_zero_of_le ht hall fuel next hmore h

/-- Without overflow checks, the id after the largest one is 0, the id of block 0: only the upper
bound moves. -/
theorem lastJustifiedBlockLoop_release_succ (ht : t.toNat + 1 = 2 ^ 64) (fuel : ℕ) {high : UInt32}
    (hle : high.toNat ≤ ids.head.toNat) :
    ∃ prev : UInt32, prev.toNat = high.toNat / 2 - 1 ∧
      lastJustifiedBlockLoop ids .release t (fuel + 1) 0 high =
        if high.toNat / 2 = 0 then some 0 else lastJustifiedBlockLoop ids .release t fuel 0 prev := by
  have hzero : (0 : UInt32).toNat = 0 := rfl
  have hone : (1 : UInt64).toNat = 1 := rfl
  have hnext : t + 1 = 0 := by
    rw [← UInt64.toNat_inj, UInt64.toNat_add, hone, ht]
    rfl
  have hlt : high.toNat < 2 ^ 32 := high.toNat_lt
  obtain ⟨sum, hsum, hmid⟩ := exists_mid .release 0 high (fun h => by cases h)
  rw [hzero, Nat.zero_add, Nat.mod_eq_of_lt hlt] at hmid
  have hget := getAuthoritySetId_of_le ids (b := sum / 2) (by omega)
  rw [lastJustifiedBlockLoop, if_pos (UInt32.le_iff_toNat_le.mpr (by omega)), ← hmid]
  simp only [hsum, hget, Profile.add64, hnext, Option.bind_eq_bind, Option.bind_some]
  rcases Nat.eq_zero_or_pos (sum / 2).toNat with hfirst | hpos
  · obtain heq : sum / 2 = 0 := UInt32.toNat_inj.mp hfirst
    have hid : ids.setId (sum / 2).toNat = 0 := by rw [hfirst, ids.setId_zero]
    exact ⟨0, by rw [hzero, hfirst], by rw [if_pos hid, if_pos heq, if_pos hfirst, heq]⟩
  · have hne : sum / 2 ≠ 0 := by
      intro heq
      rw [heq] at hpos
      exact absurd hpos (by decide)
    obtain ⟨prev, hprev, hprevVal⟩ := Profile.release.sub_one hpos
    have hgetPrev := getAuthoritySetId_of_le ids (b := prev) (by omega)
    have hsmall : prev.toNat < 2 ^ 32 := prev.toNat_lt
    -- no block has the largest id
    have hbefore : ids.setId prev.toNat ≠ t := by
      intro heq
      have hgrow := ids.grows.le_add prev.toNat (by omega)
      rw [ids.id_zero, SetIds.id, heq] at hgrow
      omega
    have hnot : ¬ ids.setId (sum / 2).toNat < 0 := by
      rw [UInt64.lt_iff_toNat_lt]
      exact Nat.not_lt_zero _
    refine ⟨prev, hprevVal, ?_⟩
    simp only [hprev, hgetPrev, Option.bind_some, if_neg hne, if_neg hbefore, if_neg hnot,
      if_neg hpos.ne', ite_self]

theorem lastJustifiedBlockLoop_release_eq_zero {r : UInt32} (ht : t.toNat + 1 = 2 ^ 64) :
    ∀ (fuel : ℕ) (high : UInt32), high.toNat ≤ ids.head.toNat →
      lastJustifiedBlockLoop ids .release t fuel 0 high = some r → r = 0
  | 0, _, _, h => absurd h (by simp [lastJustifiedBlockLoop])
  | fuel + 1, high, hle, h => by
    obtain ⟨prev, hprev, hstep⟩ := lastJustifiedBlockLoop_release_succ ht fuel hle
    rw [hstep] at h
    split at h
    · exact (Option.some.inj h).symm
    · exact lastJustifiedBlockLoop_release_eq_zero ht fuel prev (by omega) h

theorem lastJustifiedBlockLoop_release_of_lt (ht : t.toNat + 1 = 2 ^ 64) :
    ∀ (fuel : ℕ) (high : UInt32), high.toNat ≤ ids.head.toNat → high.toNat < fuel →
      lastJustifiedBlockLoop ids .release t fuel 0 high = some 0
  | 0, _, _, hfuel => absurd hfuel (by omega)
  | fuel + 1, high, hle, hfuel => by
    obtain ⟨prev, hprev, hstep⟩ := lastJustifiedBlockLoop_release_succ ht fuel hle
    rw [hstep]
    split
    · rfl
    · exact lastJustifiedBlockLoop_release_of_lt ht fuel prev (by omega) (by omega)

/-- The search ends for a set that is not followed by another one. -/
def Profile.SearchEnds : Profile → UInt64 → UInt32 → Prop
  | .debug, targetAuthoritySetId, head =>
    targetAuthoritySetId.toNat + 1 < 2 ^ 64 ∧ head.toNat < 2 ^ 31
  | .release, targetAuthoritySetId, head =>
    targetAuthoritySetId.toNat + 1 < 2 ^ 64 → head.toNat < 2 ^ 31

/-- What the search returns for a set that is followed by another one. -/
theorem isEpochEnd_of_lastJustifiedBlockWithin {fuel : ℕ} {r : UInt32}
    (hlt : t.toNat < ids.id ids.head.toNat)
    (h : lastJustifiedBlockWithin ids profile fuel t = some r) : ids.IsEpochEnd t.toNat r.toNat := by
  have hzero : (0 : UInt32).toNat = 0 := rfl
  obtain ⟨e, he⟩ := (ids.exists_isEpochEnd_iff t.toNat).mpr hlt
  have hid : ids.id ids.head.toNat < 2 ^ 64 := (ids.setId ids.head.toNat).toNat_lt
  have hval : (UInt32.ofNat e).toNat = e :=
    UInt32.toNat_ofNat_of_lt' (Nat.lt_of_le_of_lt he.1 ids.head.toNat_lt)
  have hb : ids.IsEpochEnd t.toNat (UInt32.ofNat e).toNat := by rwa [hval]
  rwa [lastJustifiedBlockLoop_eq_of_isEpochEnd (by omega) hb _ 0 ids.head (by omega) hb.1
    (Nat.le_refl _) h]

/-- What the search returns for a set that is not followed by another one, and when it does. -/
theorem exists_lastJustifiedBlockWithin_iff {r : UInt32} (hall : ids.id ids.head.toNat ≤ t.toNat) :
    (∃ fuel, lastJustifiedBlockWithin ids profile fuel t = some r) ↔
      r = 0 ∧ profile.SearchEnds t ids.head := by
  have hzero : (0 : UInt32).toNat = 0 := rfl
  rcases Nat.lt_or_ge (t.toNat + 1) (2 ^ 64) with ht | ht
  · have hends : profile.SearchEnds t ids.head ↔ ids.head.toNat < 2 ^ 31 := by
      cases profile with
      | debug => exact and_iff_right ht
      | release => exact forall_prop_of_true ht
    rw [hends]
    constructor
    · rintro ⟨fuel, h⟩
      exact lastJustifiedBlockLoop_eq_zero_of_le ht hall fuel 0 (by omega) h
    · rintro ⟨rfl, hhead⟩
      exact ⟨ids.head.toNat + 2, lastJustifiedBlockLoop_of_le ht hhead hall _ 0 (by omega)⟩
  · have hmax : t.toNat + 1 = 2 ^ 64 := Nat.le_antisymm t.toNat_lt ht
    cases profile with
    | debug =>
      constructor
      · rintro ⟨fuel, h⟩
        exact absurd (lt_of_lastJustifiedBlockLoop (by omega) h rfl).1 (by omega)
      · rintro ⟨-, hlt, -⟩
        exact absurd hlt (by omega)
    | release =>
      constructor
      · rintro ⟨fuel, h⟩
        exact ⟨lastJustifiedBlockLoop_release_eq_zero hmax fuel ids.head (Nat.le_refl _) h,
          fun hlt => absurd hlt (by omega)⟩
      · rintro ⟨rfl, -⟩
        exact ⟨ids.head.toNat + 1, lastJustifiedBlockLoop_release_of_lt hmax _ ids.head
          (Nat.le_refl _) (Nat.lt_succ_self _)⟩

/-- What the search returns, when it returns. -/
theorem lastJustifiedBlock_eq_some {r : UInt32} (h : lastJustifiedBlock ids t = some r) :
    ids.IsEpochEnd t.toNat r.toNat ∨
      ids.id ids.head.toNat ≤ t.toNat ∧ r = 0 ∧ t.toNat + 1 < 2 ^ 64 ∧ ids.head.toNat < 2 ^ 31 := by
  rcases Nat.lt_or_ge t.toNat (ids.id ids.head.toNat) with hlt | hall
  · exact Or.inl (isEpochEnd_of_lastJustifiedBlockWithin hlt h)
  · exact Or.inr ⟨hall, (exists_lastJustifiedBlockWithin_iff hall).mp ⟨_, h⟩⟩

end Bisection

/-- **Search.** On a chain of fewer than `2 ^ 31` blocks, and for every target below the largest id,
the search returns the one block where the id moves on from the target, and 0 if there is none. -/
theorem lastJustifiedBlock_correct (ids : SetIds) (t : UInt64) (hhead : ids.head.toNat < 2 ^ 31)
    (ht : t.toNat < 2 ^ 64 - 1) :
    ∃ b, lastJustifiedBlock ids t = some b ∧
      ((∃ e, ids.IsEpochEnd t.toNat e) → ids.IsEpochEnd t.toNat b.toNat ∧
        ∀ e, ids.IsEpochEnd t.toNat e → e = b.toNat) ∧
      ((¬ ∃ e, ids.IsEpochEnd t.toNat e) → b = 0) := by
  by_cases hex : ∃ e, ids.IsEpochEnd t.toNat e
  · obtain ⟨e, he⟩ := hex
    have hlt : e < 2 ^ 32 := by
      have hle := he.1
      omega
    have hval : (UInt32.ofNat e).toNat = e := UInt32.toNat_ofNat_of_lt' hlt
    have hb : ids.IsEpochEnd t.toNat (UInt32.ofNat e).toNat := by rwa [hval]
    exact ⟨_, lastJustifiedBlock_of_isEpochEnd (by omega) hhead hb,
      fun _ => ⟨hb, fun e' he' => he'.unique hb⟩, fun h => absurd ⟨e, he⟩ h⟩
  · have hall := mt (ids.exists_isEpochEnd_iff t.toNat).mpr hex
    exact ⟨0, lastJustifiedBlock_of_le (by omega) hhead (Nat.not_lt.mp hall), fun h => absurd h hex,
      fun _ => rfl⟩

/-- Blocks 0 to 3, with the end of the first epoch at block 2. -/
def twoEpochs : SetIds where
  head := 3
  setId h := if h < 2 then 0 else 1
  setId_zero := rfl
  setId_succ h _ := by
    rcases Nat.lt_trichotomy (h + 1) 2 with hlt | heq | hgt
    · left
      rw [if_pos hlt, if_pos (by omega)]
    · right
      rw [if_neg (by omega), if_pos (by omega)]
      rfl
    · left
      rw [if_neg (by omega), if_neg (by omega)]

/-- The search for the end of the first of two epochs. -/
theorem lastJustifiedBlock_correct_twoEpochs :
    ∃ b, lastJustifiedBlock twoEpochs 0 = some b ∧
      ((∃ e, twoEpochs.IsEpochEnd 0 e) → twoEpochs.IsEpochEnd 0 b.toNat ∧
        ∀ e, twoEpochs.IsEpochEnd 0 e → e = b.toNat) ∧
      ((¬ ∃ e, twoEpochs.IsEpochEnd 0 e) → b = 0) :=
  lastJustifiedBlock_correct twoEpochs 0 (by decide) (by decide)

example : lastJustifiedBlock twoEpochs 0 = some 2 := by decide

end VectorX
