import VectorX.Input.LastJustifiedBlock
import VectorX.Common.SortedSet

/-!
# The justifications of an interval

Reference: `circuits/input/mod.rs`. `find_justifications_in_range` merges the blocks with a stored
justification with the last blocks of the epochs, which it walks through one after the other. A
block of both kinds is returned twice, and the last block of an epoch is missed in an interval of
one block.
-/

namespace VectorX

open UnitSteps

/-! ## The walk and the merge -/

/-- The blocks of the store after justifications for the given blocks have been added, in this
order. -/
def justificationBlocks (blocks : List UInt32) : SortedSet UInt32 :=
  blocks.foldl (fun s b => s.zadd b.toNat b) SortedSet.empty

section Search

variable (ids : SetIds)

/-- The loop of `find_justifications_in_range`, for at most `fuel` epochs. -/
def epochEndLoop (endBlock : UInt32) : ℕ → UInt32 → UInt64 → Option (List UInt32)
  | 0, _, _ => none
  | fuel + 1, currBlock, currEra =>
    if currBlock < endBlock then do
      let epochEndBlock ← lastJustifiedBlock ids currEra
      -- the current era has no last block
      if epochEndBlock = 0 then some []
      else if epochEndBlock ≤ endBlock then do
        let currEra ← checkedAdd64 currEra 1
        let epochEndBlocks ← epochEndLoop endBlock fuel epochEndBlock currEra
        some (epochEndBlock :: epochEndBlocks)
      else some []
    else some []

/-- `find_justifications_in_range`. -/
def findJustificationsInRange (blocks : SortedSet UInt32) (startBlock endBlock : UInt32) :
    Option (List UInt32) := do
  let redisBlocks := blocks.zrangebyscore startBlock.toNat endBlock.toNat
  let prevBlock ← checkedSub startBlock 1
  let startEra ← getAuthoritySetId ids prevBlock
  let epochEndBlocks ← epochEndLoop ids endBlock (endBlock.toNat + 2) startBlock startEra
  some ((redisBlocks ++ epochEndBlocks).insertionSort (· ≤ ·))

end Search

example : findJustificationsInRange twoEpochs (justificationBlocks [3, 1]) 1 3 = some [1, 2, 3] := by
  decide

/-! ## The store -/

theorem mem_entries_justificationBlocks {blocks : List UInt32} {score : ℕ} {b : UInt32} :
    (score, b) ∈ (justificationBlocks blocks).entries ↔ b ∈ blocks ∧ score = b.toNat := by
  induction blocks using List.reverseRecOn with
  | nil => simp [justificationBlocks, SortedSet.empty]
  | append_singleton blocks b' ih =>
    have hlast : justificationBlocks (blocks ++ [b']) =
        (justificationBlocks blocks).zadd b'.toNat b' := by
      rw [justificationBlocks, List.foldl_concat]
      rfl
    rw [hlast, SortedSet.mem_entries_zadd, ih, List.mem_append, List.mem_singleton, Prod.mk.injEq]
    by_cases hb : b = b'
    · subst hb
      simp
    · simp [hb]

/-- The stored blocks of an interval. -/
theorem mem_zrangebyscore_justificationBlocks {blocks : List UInt32} {start stop b : UInt32} :
    b ∈ (justificationBlocks blocks).zrangebyscore start.toNat stop.toNat ↔
      b ∈ blocks ∧ start.toNat ≤ b.toNat ∧ b.toNat ≤ stop.toNat := by
  simp only [SortedSet.mem_zrangebyscore, mem_entries_justificationBlocks]
  constructor
  · rintro ⟨score, ⟨hb, rfl⟩, hlo, hhi⟩
    exact ⟨hb, hlo, hhi⟩
  · rintro ⟨hb, hlo, hhi⟩
    exact ⟨b.toNat, ⟨hb, rfl⟩, hlo, hhi⟩

theorem pairwise_zrangebyscore_justificationBlocks (blocks : List UInt32) (lo hi : ℕ) :
    ((justificationBlocks blocks).zrangebyscore lo hi).Pairwise fun b b' => b.toNat < b'.toNat :=
  SortedSet.pairwise_zrangebyscore (fun _ _ => UInt32.toNat_inj.mp)
    (fun _ he => (mem_entries_justificationBlocks.mp he).2) lo hi

/-! ## The walk -/

/-- A block is the last one of an epoch. -/
def SetIds.IsEpochEndBlock (ids : SetIds) (b : ℕ) : Prop := ∃ t, ids.IsEpochEnd t b

section Walk

variable {ids : SetIds} {endBlock curr : UInt32} {era : UInt64} {p fuel : ℕ}

/-- Where the walk is: the era is the one at block `p`, all last blocks up to `p` are passed, and
the current block is `p`, or the one after it when the walk starts. -/
structure WalkAt (ids : SetIds) (endBlock curr : UInt32) (era : UInt64) (p : ℕ) : Prop where
  era_eq : era.toNat = ids.id p
  le_curr : p ≤ curr.toNat
  curr_le : curr.toNat ≤ p + 1
  curr_le_end : curr.toNat ≤ endBlock.toNat
  end_le : endBlock.toNat ≤ ids.head.toNat

/-- A last block after `p` has an era from that of `p` on. -/
theorem WalkAt.era_lt (h : WalkAt ids endBlock curr era p) {b : ℕ} (hb : ids.IsEpochEndBlock b)
    (hp : p < b) : era.toNat < ids.id b := by
  obtain ⟨t, hbhead, hpassage⟩ := hb
  have hmono := ids.grows.mono (a := p) (b := b - 1) (by omega) (by omega)
  rw [hpassage.before, ← h.era_eq] at hmono
  rw [hpassage.at_eq]
  omega

/-- The last block of the era is the next one. -/
theorem WalkAt.next (h : WalkAt ids endBlock curr era p) {r : UInt32}
    (hr : ids.IsEpochEnd era.toNat r.toNat) :
    p < r.toNat ∧ ∀ b, ids.IsEpochEndBlock b → p < b → r.toNat ≤ b := by
  have hle := h.le_curr
  have hcurr := h.curr_le_end
  have hend := h.end_le
  refine ⟨(hr.lt_iff (by omega)).mpr h.era_eq.ge, fun b hb hp => ?_⟩
  have hbhead : b ≤ ids.head.toNat := hb.choose_spec.1
  have hlt := h.era_lt hb hp
  by_contra hbefore
  have hle := (hr.lt_iff hbhead).mp (by omega)
  omega

/-- One round before the end block. The walk ends if no last block up to the end is left, and
otherwise moves on to the next one. -/
theorem WalkAt.cases (h : WalkAt ids endBlock curr era p) (hlt : curr.toNat < endBlock.toNat)
    {r : UInt32} (hr : lastJustifiedBlock ids era = some r) :
    (epochEndLoop ids endBlock (fuel + 1) curr era = some [] ∧
        ids.id (endBlock.toNat - 1) ≤ era.toNat ∧
        ∀ b, ids.IsEpochEndBlock b → p < b → ¬b ≤ endBlock.toNat) ∨
      ∃ era', ids.IsEpochEnd era.toNat r.toNat ∧ WalkAt ids endBlock r era' r.toNat ∧
        epochEndLoop ids endBlock (fuel + 1) curr era =
          (epochEndLoop ids endBlock fuel r era').map (r :: ·) := by
  have hend := h.end_le
  rw [epochEndLoop, if_pos (UInt32.lt_iff_toNat_lt.mpr hlt), hr]
  simp only [Option.bind_eq_bind, Option.bind_some]
  rcases lastJustifiedBlock_eq_some hr with hlast | ⟨hall, rfl, -⟩
  · have hpos := hlast.2.pos
    have hzero : r ≠ 0 := fun heq => absurd hpos (by rw [heq]; decide)
    rw [if_neg hzero]
    rcases Nat.lt_or_ge endBlock.toNat r.toNat with hbeyond | hle
    · left
      refine ⟨by rw [if_neg (by rw [UInt32.le_iff_toNat_le]; omega)],
        (hlast.lt_iff (by omega)).mp (by omega), fun b hb hp => ?_⟩
      have hnext := (h.next hlast).2 b hb hp
      omega
    · right
      have hat : era.toNat + 1 = ids.id r.toNat := hlast.2.at_eq.symm
      have h64 : ids.id r.toNat < 2 ^ 64 := (ids.setId r.toNat).toNat_lt
      obtain ⟨era', hera', hval⟩ := checkedAdd64_one (a := era) (by omega)
      rw [hat] at hval
      refine ⟨era', hlast, ⟨hval, Nat.le_refl _, Nat.le_succ _, hle, hend⟩, ?_⟩
      rw [if_pos (UInt32.le_iff_toNat_le.mpr hle), hera', Option.bind_some]
      cases epochEndLoop ids endBlock fuel r era' <;> rfl
  · left
    rw [if_pos rfl]
    refine ⟨rfl, Nat.le_trans (ids.grows.mono (by omega) (Nat.le_refl _)) hall, fun b hb hp hle => ?_⟩
    have hlt := h.era_lt hb hp
    have hmono := ids.grows.mono (a := b) (b := ids.head.toNat) (by omega) (Nat.le_refl _)
    omega

/-- Nothing is left at the end block. -/
theorem epochEndLoop_of_ge (h : endBlock.toNat ≤ curr.toNat) :
    epochEndLoop ids endBlock (fuel + 1) curr era = some [] := by
  rw [epochEndLoop, if_neg (by rw [UInt32.lt_iff_toNat_lt]; omega)]

/-- The walk returns the last blocks from `p` on up to the end block, in order, if it starts before
the end block. -/
theorem WalkAt.mem_iff {l : List UInt32} (h : WalkAt ids endBlock curr era p)
    (hl : epochEndLoop ids endBlock fuel curr era = some l) :
    l.Pairwise (fun b b' => b.toNat < b'.toNat) ∧
      ∀ b, b ∈ l ↔ curr.toNat < endBlock.toNat ∧ p < b.toNat ∧ b.toNat ≤ endBlock.toNat ∧
        ids.IsEpochEndBlock b.toNat := by
  induction fuel generalizing curr era p l with
  | zero => exact absurd hl (by simp [epochEndLoop])
  | succ fuel ih =>
    rcases Nat.lt_or_ge curr.toNat endBlock.toNat with hlt | hge
    swap
    · rw [epochEndLoop_of_ge hge] at hl
      obtain rfl := Option.some.inj hl
      exact ⟨List.Pairwise.nil, fun b => iff_of_false List.not_mem_nil fun hb => by omega⟩
    rcases hr : lastJustifiedBlock ids era with - | r
    · rw [epochEndLoop, if_pos (UInt32.lt_iff_toNat_lt.mpr hlt), hr] at hl
      exact absurd hl (by simp)
    rcases h.cases hlt hr with ⟨hstop, -, hnone⟩ | ⟨era', hlast, h', hgo⟩
    · rw [hstop] at hl
      obtain rfl := Option.some.inj hl
      exact ⟨List.Pairwise.nil, fun b => iff_of_false List.not_mem_nil
        fun hb => hnone _ hb.2.2.2 hb.2.1 hb.2.2.1⟩
    · rw [hgo, Option.map_eq_some_iff] at hl
      obtain ⟨l', hl', rfl⟩ := hl
      obtain ⟨hsorted, hmem⟩ := ih h' hl'
      obtain ⟨hp, hfirst⟩ := h.next hlast
      have hle := h'.curr_le_end
      refine ⟨List.pairwise_cons.mpr ⟨fun b hb => ((hmem b).mp hb).2.1, hsorted⟩, fun b => ?_⟩
      rw [List.mem_cons, hmem]
      constructor
      · rintro (rfl | ⟨-, hb, hbend, hepoch⟩)
        · exact ⟨hlt, hp, hle, era.toNat, hlast⟩
        · exact ⟨hlt, by omega, hbend, hepoch⟩
      · rintro ⟨-, hb, hbend, hepoch⟩
        by_cases heq : b = r
        · exact Or.inl heq
        · have hne : b.toNat ≠ r.toNat := fun hb => heq (UInt32.toNat_inj.mp hb)
          have hfirst := hfirst b.toNat hepoch hb
          exact Or.inr ⟨by omega, by omega, hbend, hepoch⟩

/-- The walk returns if the search returns for all eras before the end block. -/
theorem WalkAt.isSome_iff (h : WalkAt ids endBlock curr era p) (hfuel : endBlock.toNat < fuel + p) :
    (epochEndLoop ids endBlock fuel curr era).isSome ↔ (curr.toNat < endBlock.toNat →
      ∀ t : UInt64, era.toNat ≤ t.toNat → t.toNat ≤ ids.id (endBlock.toNat - 1) →
        (lastJustifiedBlock ids t).isSome) := by
  induction fuel generalizing curr era p with
  | zero =>
    have hcurr := h.le_curr
    have hend := h.curr_le_end
    omega
  | succ fuel ih =>
    rcases Nat.lt_or_ge curr.toNat endBlock.toNat with hlt | hge
    swap
    · rw [epochEndLoop_of_ge hge]
      exact iff_of_true rfl fun hlt => by omega
    have hp := h.le_curr
    have hend := h.end_le
    have hera : era.toNat ≤ ids.id (endBlock.toNat - 1) := by
      rw [h.era_eq]
      exact ids.grows.mono (by omega) (by omega)
    have heq : ∀ t : UInt64, era.toNat ≤ t.toNat → t.toNat ≤ era.toNat → t = era :=
      fun t hle hge => UInt64.toNat_inj.mp (Nat.le_antisymm hge hle)
    rcases hr : lastJustifiedBlock ids era with - | r
    · rw [epochEndLoop, if_pos (UInt32.lt_iff_toNat_lt.mpr hlt), hr]
      refine iff_of_false (by simp) fun hall => ?_
      exact absurd (hall hlt era (Nat.le_refl _) hera) (by simp [hr])
    rcases h.cases hlt hr with ⟨hstop, hlast, -⟩ | ⟨era', hlast, h', hgo⟩
    · rw [hstop]
      refine iff_of_true rfl fun _ t hle hge => ?_
      rw [heq t hle (by omega), hr]
      rfl
    · have hnext := (h.next hlast).1
      have hera' : era'.toNat = era.toNat + 1 := h'.era_eq.trans hlast.2.at_eq
      rw [hgo, Option.isSome_map, ih h' (by omega)]
      constructor
      · intro hall _ t hle hge
        rcases Nat.lt_or_ge era.toNat t.toNat with hlater | hnot
        · refine hall ?_ t (by omega) hge
          -- the era of the block before the end is a later one
          have hiff := hlast.lt_iff (h := endBlock.toNat - 1) (by omega)
          omega
        · rw [heq t hle hnot, hr]
          rfl
      · exact fun hall _ t hle hge => hall hlt t (by omega) hge

end Walk

/-! ## Main result -/

instance instTotalLeUInt32 : Std.Total fun a b : UInt32 => a ≤ b := ⟨UInt32.le_total⟩

instance instIsTransLeUInt32 : IsTrans UInt32 (· ≤ ·) := ⟨fun _ _ _ => UInt32.le_trans⟩

/-- A sorted list is strictly sorted if nothing is repeated. -/
theorem pairwise_lt_insertionSort {l : List UInt32} :
    (l.insertionSort (· ≤ ·)).Pairwise (· < ·) ↔ l.Nodup := by
  rw [← (List.perm_insertionSort (· ≤ ·) l).nodup_iff]
  constructor
  · exact fun hlt => hlt.imp fun hab => UInt32.ne_of_lt hab
  · intro hnodup
    refine ((List.pairwise_insertionSort (· ≤ ·) l).and hnodup).imp fun {a b} hab => ?_
    exact UInt32.lt_of_le_of_ne hab.1 hab.2

/-- The search returns the blocks of the interval with a stored justification and the last blocks of
epochs, in strictly increasing order. -/
def IsExact (ids : SetIds) (blocks : List UInt32) (startBlock endBlock : UInt32) : Prop :=
  ∃ l, findJustificationsInRange ids (justificationBlocks blocks) startBlock endBlock = some l ∧
    l.Pairwise (· < ·) ∧
    ∀ b, b ∈ l ↔ startBlock.toNat ≤ b.toNat ∧ b.toNat ≤ endBlock.toNat ∧
      (b ∈ blocks ∨ ids.IsEpochEndBlock b.toNat)

section Exact

variable {ids : SetIds} {blocks : List UInt32} {startBlock endBlock prev : UInt32}

/-- The result is the merge of the stored blocks with the walk from the start on. -/
theorem WalkAt.findJustificationsInRange_eq (blocks : List UInt32)
    (hprev : checkedSub startBlock 1 = some prev)
    (h : WalkAt ids endBlock startBlock (ids.setId prev.toNat) prev.toNat) :
    findJustificationsInRange ids (justificationBlocks blocks) startBlock endBlock =
      (epochEndLoop ids endBlock (endBlock.toNat + 2) startBlock (ids.setId prev.toNat)).map
        fun epochEnds => ((justificationBlocks blocks).zrangebyscore startBlock.toNat endBlock.toNat ++
          epochEnds).insertionSort (· ≤ ·) := by
  have hle := h.le_curr
  have hcurr := h.curr_le_end
  have hend := h.end_le
  have hera := getAuthoritySetId_of_le ids (b := prev) (by omega)
  rw [findJustificationsInRange]
  simp only [hprev, hera, Option.bind_eq_bind, Option.bind_some]
  cases epochEndLoop ids endBlock (endBlock.toNat + 2) startBlock (ids.setId prev.toNat) <;> rfl

/-- Once the walk has returned, the result is exact if no block of the walk is stored, and if the
walk has missed stored blocks only. -/
theorem WalkAt.isExact_iff {epochEnds : List UInt32} (hprev : checkedSub startBlock 1 = some prev)
    (h : WalkAt ids endBlock startBlock (ids.setId prev.toNat) prev.toNat)
    (hends : epochEndLoop ids endBlock (endBlock.toNat + 2) startBlock (ids.setId prev.toNat) =
      some epochEnds) :
    IsExact ids blocks startBlock endBlock ↔
      (∀ b ∈ epochEnds, b ∉ blocks) ∧
      ∀ b : UInt32, startBlock.toNat ≤ b.toNat → b.toNat ≤ endBlock.toNat →
        ids.IsEpochEndBlock b.toNat → b ∈ blocks ∨ b ∈ epochEnds := by
  obtain ⟨hpos, hprevVal⟩ := checkedSub_eq_some hprev
  rw [UInt32.toNat_one] at hpos hprevVal
  obtain ⟨hsorted, hmem⟩ := h.mem_iff hends
  have hredis := pairwise_zrangebyscore_justificationBlocks blocks startBlock.toNat endBlock.toNat
  have hnodup : ∀ {l : List UInt32}, l.Pairwise (fun b b' => b.toNat < b'.toNat) → l.Nodup :=
    fun hl => hl.imp fun hlt heq => by simp [heq] at hlt
  rw [IsExact, h.findJustificationsInRange_eq blocks hprev, hends]
  simp only [Option.map_some, Option.some.injEq, exists_eq_left', pairwise_lt_insertionSort,
    List.mem_insertionSort, List.mem_append, mem_zrangebyscore_justificationBlocks,
    List.nodup_append', hnodup hredis, hnodup hsorted, true_and, List.disjoint_right]
  constructor
  · rintro ⟨hdisjoint, hall⟩
    refine ⟨fun b hb hstored => ?_, fun b hlo hhi hepoch => ?_⟩
    · have hrange := (hmem b).mp hb
      exact hdisjoint hb ⟨hstored, by omega, hrange.2.2.1⟩
    · exact ((hall b).mpr ⟨hlo, hhi, Or.inr hepoch⟩).imp And.left id
  · rintro ⟨hdisjoint, hall⟩
    refine ⟨fun b hb hstored => hdisjoint b hb hstored.1, fun b => ⟨?_, ?_⟩⟩
    · rintro (⟨hstored, hlo, hhi⟩ | hb)
      · exact ⟨hlo, hhi, Or.inl hstored⟩
      · obtain ⟨-, hlo, hhi, hepoch⟩ := (hmem b).mp hb
        exact ⟨by omega, hhi, Or.inr hepoch⟩
    · rintro ⟨hlo, hhi, hstored | hepoch⟩
      · exact Or.inl ⟨hstored, hlo, hhi⟩
      · exact (hall b hlo hhi hepoch).imp (fun hstored => ⟨hstored, hlo, hhi⟩) id

end Exact

/-- **Interval.** In an interval of one block the result is exact if the block is stored or is not
the last one of an epoch. In a longer one it is exact if the search for the last block returns for
every era before the end, and no last block of the interval is stored. -/
theorem findJustificationsInRange_isExact_iff (ids : SetIds) (blocks : List UInt32)
    (startBlock endBlock : UInt32) (hstart : 1 ≤ startBlock.toNat)
    (hle : startBlock.toNat ≤ endBlock.toNat) (hhead : endBlock.toNat ≤ ids.head.toNat) :
    IsExact ids blocks startBlock endBlock ↔
      (startBlock = endBlock → ids.IsEpochEndBlock startBlock.toNat → startBlock ∈ blocks) ∧
      (startBlock ≠ endBlock →
        (∀ t : UInt64, ids.id (startBlock.toNat - 1) ≤ t.toNat →
          t.toNat ≤ ids.id (endBlock.toNat - 1) → (lastJustifiedBlock ids t).isSome) ∧
        ∀ b ∈ blocks, startBlock.toNat ≤ b.toNat → b.toNat ≤ endBlock.toNat →
          ¬ids.IsEpochEndBlock b.toNat) := by
  obtain ⟨prev, hprev, hprevVal⟩ := checkedSub_one (a := startBlock) hstart
  have hwalk : WalkAt ids endBlock startBlock (ids.setId prev.toNat) prev.toNat :=
    ⟨rfl, by omega, by omega, hle, hhead⟩
  have hsome := @WalkAt.isSome_iff _ _ _ _ _ (endBlock.toNat + 2) hwalk (by omega)
  have hera : (ids.setId prev.toNat).toNat = ids.id (startBlock.toNat - 1) := by rw [hprevVal, SetIds.id]
  rw [hera] at hsome
  rcases hends : epochEndLoop ids endBlock (endBlock.toNat + 2) startBlock (ids.setId prev.toNat) with
    - | epochEnds
  · -- the search has not returned for one of the eras
    rw [hends] at hsome
    have hmissing := mt hsome.mpr (by simp)
    rw [Classical.not_imp] at hmissing
    refine iff_of_false ?_ fun h => hmissing.2 (h.2 fun heq => ?_).1
    · rintro ⟨l, hl, -⟩
      rw [hwalk.findJustificationsInRange_eq blocks hprev, hends] at hl
      exact absurd hl (by simp)
    · rw [heq] at hmissing
      omega
  · have hmem := (hwalk.mem_iff hends).2
    rw [hends] at hsome
    rw [hwalk.isExact_iff hprev hends]
    by_cases heq : startBlock = endBlock
    · subst heq
      simp only [Nat.lt_irrefl, false_and, iff_false] at hmem
      simp only [hmem, or_false, true_implies, ne_eq, not_true_eq_false, false_implies, and_true,
        implies_true, true_and]
      constructor
      · exact fun hall => hall startBlock (Nat.le_refl _) (Nat.le_refl _)
      · intro hstored b hlo hhi
        obtain rfl : b = startBlock := UInt32.toNat_inj.mp (Nat.le_antisymm hhi hlo)
        exact hstored
    · have hne : startBlock.toNat ≠ endBlock.toNat := fun h => heq (UInt32.toNat_inj.mp h)
      have hall := hsome.mp rfl (by omega)
      have hmem' : ∀ b, b ∈ epochEnds ↔ startBlock.toNat ≤ b.toNat ∧ b.toNat ≤ endBlock.toNat ∧
          ids.IsEpochEndBlock b.toNat := by
        intro b
        rw [hmem]
        constructor
        · exact fun h => ⟨by omega, h.2.2⟩
        · exact fun h => ⟨by omega, by omega, h.2⟩
      simp only [hmem', heq, ne_eq, not_false_eq_true, false_implies, true_implies, true_and]
      constructor
      · exact fun h => ⟨hall, fun b hb hlo hhi hepoch => h.1 b ⟨hlo, hhi, hepoch⟩ hb⟩
      · exact fun h => ⟨fun b hb hstored => h.2 b hstored hb.1 hb.2.1 hb.2.2,
          fun b hlo hhi hepoch => Or.inr ⟨hlo, hhi, hepoch⟩⟩

/-! ### Two epochs -/

/-- The interval from block 1 to block 3 with a justification for block 3. -/
theorem findJustificationsInRange_isExact_iff_twoEpochs :
    IsExact twoEpochs [3] 1 3 ↔
      ((1 : UInt32) = 3 → twoEpochs.IsEpochEndBlock 1 → 1 ∈ [(3 : UInt32)]) ∧
      ((1 : UInt32) ≠ 3 →
        (∀ t : UInt64, twoEpochs.id (1 - 1) ≤ t.toNat → t.toNat ≤ twoEpochs.id (3 - 1) →
          (lastJustifiedBlock twoEpochs t).isSome) ∧
        ∀ b ∈ [(3 : UInt32)], 1 ≤ b.toNat → b.toNat ≤ 3 → ¬twoEpochs.IsEpochEndBlock b.toNat) :=
  findJustificationsInRange_isExact_iff twoEpochs [3] 1 3 (by decide) (by decide) (by decide)

theorem isEpochEndBlock_twoEpochs : twoEpochs.IsEpochEndBlock 2 :=
  ⟨0, by decide, by decide, by decide, by decide⟩

/-- The last block of the first epoch is missed in the interval of this block, and it is returned
twice if it is stored. -/
theorem not_isExact : ¬IsExact twoEpochs [] 2 2 ∧ ¬IsExact twoEpochs [2] 1 3 := by
  constructor
  · rintro ⟨l, hl, -, hmem⟩
    have hempty : findJustificationsInRange twoEpochs (justificationBlocks []) 2 2 = some [] := by decide
    obtain rfl := Option.some.inj (hempty.symm.trans hl)
    exact List.not_mem_nil ((hmem 2).mpr ⟨by decide, by decide, Or.inr isEpochEndBlock_twoEpochs⟩)
  · rintro ⟨l, hl, hlt, -⟩
    have htwice : findJustificationsInRange twoEpochs (justificationBlocks [2]) 1 3 = some [2, 2] := by
      decide
    obtain rfl := Option.some.inj (htwice.symm.trans hl)
    exact absurd hlt (by decide)

end VectorX
