import VectorX.Bin.OperatorRun
import VectorX.Bin.StepSearch

/-!
# What the operator gains

Below the last multiple of the interval up to the head, there is always a request to submit: the
rotation to the set of the latest block if the contract does not know it, or else a header range to
the end of an epoch, by about the size of a range, or to the last multiple of the interval.
-/

namespace VectorX

open Plonky2x Solidity
open Contract (State)

variable {crypto : Crypto}

namespace VectorXOperator

/-! ## What is requested when there is work -/

section Requested

variable {config : Config} {fetcher : RpcDataFetcher crypto} {contract : State}
  {interval size latest : UInt32} {target : ℕ}

/-- The range is not shorter than the interval, and the numbers of the search do not overflow. -/
structure Workable (ids : SetIds) (interval size : UInt32) : Prop where
  interval_pos : 1 ≤ interval.toNat
  interval_le : interval.toNat ≤ size.toNat
  head_lt : ids.head.toNat < 2 ^ 31
  limit_lt : ids.head.toNat + size.toNat < 2 ^ 32

/-- The last multiple of the interval up to the head. -/
def lastMultiple (interval head : UInt32) : ℕ := head.toNat - head.toNat % interval.toNat

/-- What a round gains, unless it gets the hash of a set: an epoch, the size of a range up to the
interval, or all the rest. -/
def Gains (ids : SetIds) (interval size : UInt32) (target latest b : ℕ) : Prop :=
  ids.id latest < ids.id b ∨ latest + (size.toNat - interval.toNat + 1) ≤ b ∨ target ≤ b

/-- The ids are not larger than the block numbers. -/
theorem id_le (ids : SetIds) : ∀ h, h ≤ ids.head.toNat → ids.id h ≤ h
  | 0, _ => ids.id_zero.le
  | h + 1, hle => by
    have ih := id_le ids h (by omega)
    rcases ids.grows h (by omega) with hstep | hstep <;> omega

/-- The last block of a set up to the one of the head: none is found for the current set. -/
theorem exists_lastJustifiedBlock {ids : SetIds} {s : UInt64} (hhead : ids.head.toNat < 2 ^ 31)
    (hs : s.toNat ≤ ids.head.toNat) :
    ∃ e, lastJustifiedBlock ids s = some e ∧ (e ≠ 0 → ids.id e.toNat = s.toNat + 1) := by
  rcases Nat.lt_or_ge s.toNat (ids.id ids.head.toNat) with hlt | hge
  · obtain ⟨e, he⟩ := (ids.exists_isEpochEnd_iff s.toNat).mpr hlt
    have hval : (UInt32.ofNat e).toNat = e :=
      UInt32.toNat_ofNat_of_lt' (Nat.lt_of_le_of_lt he.1 ids.head.toNat_lt)
    have hend : ids.IsEpochEnd s.toNat (UInt32.ofNat e).toNat := by rwa [hval]
    exact ⟨UInt32.ofNat e, lastJustifiedBlock_of_isEpochEnd (by omega) hhead hend,
      fun _ => hend.2.at_eq⟩
  · exact ⟨0, lastJustifiedBlock_of_le (by omega) hhead hge, fun hne => absurd rfl hne⟩

/-- The search stops at once if the first block is justified. -/
theorem justifiedBlockLoop_of_ok {limit start : UInt32} {j : CircuitJustification} (fuel : ℕ)
    (hstart : start.toNat ≤ limit.toNat) (hj : askJustification config fetcher start = some (.ok j)) :
    justifiedBlockLoop config fetcher limit (fuel + 1) start = some (some start) := by
  rw [askJustification] at hj
  rw [justifiedBlockLoop, if_neg (by rw [gt_iff_lt, UInt32.lt_iff_toNat_lt]; omega), hj]
  rfl

/-- What the operator can step to: the multiples of the interval are justified. -/
def MultiplesJustified (config : Config) (fetcher : RpcDataFetcher crypto) (interval latest : UInt32) :
    Prop :=
  config.isDummyOperator = true ∨ ∀ b : UInt32, latest.toNat < b.toNat →
    b.toNat ≤ fetcher.toSetIds.head.toNat → b.toNat % interval.toNat = 0 →
    ∃ j, askJustification config fetcher b = some (.ok j)

/-- Below the last multiple of the interval, `find_block_to_step_to` finds a block, with a gain. -/
theorem findBlockToStepTo_gains (hw : Workable fetcher.toSetIds interval size)
    (hlatest : latest.toNat ≤ fetcher.toSetIds.head.toNat)
    (hlt : latest.toNat < lastMultiple interval fetcher.toSetIds.head)
    (htarget : target ≤ lastMultiple interval fetcher.toSetIds.head)
    (hjustified : MultiplesJustified config fetcher interval latest) :
    ∃ b, findBlockToStepTo config fetcher interval size latest fetcher.toSetIds.head
        (fetcher.toSetIds.setId latest.toNat) = some (some b) ∧
      Gains fetcher.toSetIds interval size target latest.toNat b.toNat := by
  have hsmall := id_le fetcher.toSetIds latest.toNat hlatest
  obtain ⟨hintervalPos, hintervalLe, hheadLt, hlimitLt⟩ := hw
  obtain ⟨e, he, hend⟩ := exists_lastJustifiedBlock (s := fetcher.toSetIds.setId latest.toNat)
    hheadLt (Nat.le_trans hsmall hlatest)
  obtain ⟨limit, hlimit, hlimitVal⟩ := checkedAdd_of_lt (a := latest) (b := size) (by omega)
  have hinterval : interval ≠ 0 := by
    rintro rfl
    exact absurd hintervalPos (by decide)
  simp only [findBlockToStepTo, he, hlimit, Option.bind_eq_bind, Option.bind_some]
  split
  · rename_i hstep
    have hnext : fetcher.toSetIds.id e.toNat = fetcher.toSetIds.id latest.toNat + 1 := hend hstep.1
    exact ⟨e, rfl, Or.inl (by omega)⟩
  have hmax := toNat_ite_le limit fetcher.toSetIds.head
  generalize (if limit ≤ fetcher.toSetIds.head then limit else fetcher.toSetIds.head) = m at hmax ⊢
  have hround : (m - m % interval).toNat = m.toNat - m.toNat % interval.toNat := toNat_sub_mod m interval
  have hmod : m.toNat % interval.toNat < interval.toNat := Nat.mod_lt _ hintervalPos
  have hmodLe := Nat.mod_le m.toNat interval.toNat
  -- the block is a multiple of the interval below the head, or below the end of the range
  have hgains : latest.toNat < (m - m % interval).toNat ∧
      Gains fetcher.toSetIds interval size target latest.toNat (m - m % interval).toNat := by
    rcases Nat.le_total limit.toNat fetcher.toSetIds.head.toNat with hle | hge
    · exact ⟨by omega, Or.inr (Or.inl (by omega))⟩
    · have hm : m.toNat = fetcher.toSetIds.head.toNat := by omega
      rw [lastMultiple, ← hm, ← hround] at hlt htarget
      exact ⟨hlt, Or.inr (Or.inr htarget)⟩
  have hmultiple : (m - m % interval).toNat % interval.toNat = 0 := by
    rw [hround]
    exact Nat.sub_mod_eq_zero_of_mod_eq (Nat.mod_mod _ _).symm
  generalize m - m % interval = b at hround hgains hmultiple ⊢
  rw [if_neg (by rw [UInt32.le_iff_toNat_le]; omega)]
  split
  · exact ⟨b, rfl, hgains.2⟩
  · rename_i hdummy
    obtain ⟨j, hj⟩ := (hjustified.resolve_left hdummy) b hgains.1 (by omega) hmultiple
    rw [show limit.toNat + 2 - b.toNat = limit.toNat + 1 - b.toNat + 1 by omega]
    exact ⟨b, justifiedBlockLoop_of_ok _ (by omega) hj, hgains.2⟩

/-- If the contract has the hash of the set of its latest block, a header range with a gain is
requested. -/
theorem findAndRequestHeaderRange_gains
    (hw : Workable fetcher.toSetIds interval contract.headerRangeCommitmentTreeSize)
    (hpos : 1 ≤ contract.latestBlock.toNat)
    (hlatest : contract.latestBlock.toNat ≤ fetcher.toSetIds.head.toNat)
    (hlt : contract.latestBlock.toNat < lastMultiple interval fetcher.toSetIds.head)
    (htarget : target ≤ lastMultiple interval fetcher.toSetIds.head)
    (hjustified : MultiplesJustified config fetcher interval contract.latestBlock)
    (hknown : contract.authoritySetIdToHash (fetcher.toSetIds.setId contract.latestBlock.toNat) ≠
      emptyBytes32) :
    ∃ b, VectorXOperator.findAndRequestHeaderRange config fetcher contract interval =
        some (some (requestHeaderRange contract contract.latestBlock
          (fetcher.toSetIds.setId contract.latestBlock.toNat) b contract.headerRangeFunctionId)) ∧
      Gains fetcher.toSetIds interval contract.headerRangeCommitmentTreeSize target
        contract.latestBlock.toNat b.toNat := by
  obtain ⟨b, hb, hgains⟩ := findBlockToStepTo_gains hw hlatest hlt htarget hjustified
  obtain ⟨prev, hprev, hprevVal⟩ := checkedSub_one hpos
  have hget := getAuthoritySetId_of_le fetcher.toSetIds (b := prev) (by omega)
  have hsmall := id_le fetcher.toSetIds prev.toNat (by omega)
  have hhead := hw.head_lt
  rw [SetIds.id] at hsmall
  obtain ⟨next, hnext, hnextVal⟩ :=
    checkedAdd64_one (a := fetcher.toSetIds.setId prev.toNat) (by omega)
  obtain ⟨e, he, -⟩ := exists_lastJustifiedBlock (s := fetcher.toSetIds.setId prev.toNat) hhead
    (by omega)
  have hid := setId_latest hpos hlatest (s := fetcher.toSetIds.setId prev.toNat) (by rw [hprevVal]) he
    hnextVal
  refine ⟨b, ?_, hgains⟩
  have hrequest : requestAuthoritySetId {
        vectorxLatestBlock := contract.latestBlock
        availCurrentBlock := fetcher.toSetIds.head
        headerRangeCommitmentTreeSize := contract.headerRangeCommitmentTreeSize
        nextAuthoritySetHashExists := contract.authoritySetIdToHash next ≠ emptyBytes32
        headerRangeFunctionId := contract.headerRangeFunctionId }
      (fetcher.toSetIds.setId prev.toNat) e =
        some (some (fetcher.toSetIds.setId contract.latestBlock.toNat)) := by
    rw [requestAuthoritySetId]
    simp only [hnext, Option.bind_eq_bind, Option.bind_some]
    by_cases hat : contract.latestBlock = e
    · rw [if_pos hat] at hid
      rw [hid] at hknown
      rw [if_pos hat, if_neg (by simpa using hknown)]
      exact congrArg (fun s => some (some s)) hid.symm
    · rw [if_neg hat] at hid
      rw [if_neg hat]
      exact congrArg (fun s => some (some s)) hid.symm
  simp only [VectorXOperator.findAndRequestHeaderRange, getContractDataForHeaderRange, hprev, hget,
    hnext, he, Option.bind_eq_bind, Option.bind_some, hrequest, hb]

/-- Where the multiples of the interval are justified, the block to step to is one of them or the
end of an epoch. -/
theorem findBlockToStepTo_target {s : UInt64} {b : UInt32}
    (hjustified : MultiplesJustified config fetcher interval latest)
    (h : findBlockToStepTo config fetcher interval size latest fetcher.toSetIds.head s =
      some (some b)) :
    fetcher.toSetIds.IsEpochEnd s.toNat b.toNat ∨ b.toNat % interval.toNat = 0 := by
  simp only [findBlockToStepTo, Option.bind_eq_bind, Option.bind_eq_some_iff] at h
  obtain ⟨e, he, limit, hlimit, h⟩ := h
  split at h
  · rename_i hstep
    obtain rfl : e = b := Option.some.inj (Option.some.inj h)
    exact Or.inl ((lastJustifiedBlock_eq_some he).resolve_right fun hzero => hstep.1 hzero.2.1)
  split at h
  · exact absurd h (by simp)
  have hmax := toNat_ite_le limit fetcher.toSetIds.head
  generalize (if limit ≤ fetcher.toSetIds.head then limit else fetcher.toSetIds.head) = m at h hmax
  have hround := toNat_sub_mod m interval
  have hmultiple : (m - m % interval).toNat % interval.toNat = 0 := by
    rw [hround]
    exact Nat.sub_mod_eq_zero_of_mod_eq (Nat.mod_mod _ _).symm
  generalize m - m % interval = start at h hround hmultiple
  split at h
  · exact absurd h (by simp)
  rename_i hlt
  rw [UInt32.le_iff_toNat_le, Nat.not_le] at hlt
  split at h
  · obtain rfl := Option.some.inj (Option.some.inj h)
    exact Or.inr hmultiple
  · -- the search stops at its first block
    rename_i hdummy
    obtain ⟨j, hj⟩ := (hjustified.resolve_left hdummy) start hlt (by omega) hmultiple
    rw [show limit.toNat + 2 - start.toNat = limit.toNat + 1 - start.toNat + 1 by omega,
      justifiedBlockLoop_of_ok _ (by omega) hj] at h
    obtain rfl := Option.some.inj (Option.some.inj h)
    exact Or.inr hmultiple

/-- The same for the block of a header range that is requested. -/
theorem findAndRequestHeaderRange_target {request : Request}
    (hjustified : MultiplesJustified config fetcher interval contract.latestBlock)
    (h : VectorXOperator.findAndRequestHeaderRange config fetcher contract interval =
      some (some request)) :
    ∃ s b, request = requestHeaderRange contract contract.latestBlock s b
        contract.headerRangeFunctionId ∧
      (fetcher.toSetIds.IsEpochEnd s.toNat b.toNat ∨ b.toNat % interval.toNat = 0) := by
  simp only [VectorXOperator.findAndRequestHeaderRange, Option.bind_eq_bind,
    Option.bind_eq_some_iff] at h
  obtain ⟨data, hdata, prev, hprev, c, hc, e, he, r, hr, h⟩ := h
  obtain ⟨next, hpos, hnext, rfl⟩ := getContractDataForHeaderRange_eq_some hdata
  rcases r with - | s
  · exact absurd h (by simp)
  simp only [Option.bind_eq_some_iff] at h
  obtain ⟨step, hstep, h⟩ := h
  rcases step with - | b
  · exact absurd h (by simp)
  exact ⟨s, b, (Option.some.inj (Option.some.inj h)).symm, findBlockToStepTo_target hjustified hstep⟩

/-- If the contract does not have it, the rotation to this set is requested. -/
theorem findAndRequestRotate_of_unknown {g : UInt32}
    (hhead : fetcher.toSetIds.head.toNat < 2 ^ 31)
    (hset : HasCurrentSet fetcher.toSetIds g contract) (hpos : 1 ≤ contract.latestBlock.toNat)
    (hlatest : contract.latestBlock.toNat < fetcher.toSetIds.head.toNat)
    (hunknown : contract.authoritySetIdToHash (fetcher.toSetIds.setId contract.latestBlock.toNat) =
      emptyBytes32) :
    ∃ c : UInt64, VectorXOperator.findAndRequestRotate fetcher contract =
        some (some (requestRotate contract c contract.rotateFunctionId)) ∧
      (fetcher.toSetIds.setId contract.latestBlock.toNat).toNat = c.toNat + 1 ∧
      contract.authoritySetIdToHash c ≠ emptyBytes32 := by
  obtain ⟨prev, hprev, hprevVal⟩ := checkedSub_one hpos
  obtain ⟨before, hbefore, hbeforeVal⟩ := checkedSub_one (a := fetcher.toSetIds.head) (by omega)
  have hget := getAuthoritySetId_of_le fetcher.toSetIds (b := prev) (by omega)
  have hgetHead := getAuthoritySetId_of_le fetcher.toSetIds (b := before) (by omega)
  have hsmall := id_le fetcher.toSetIds prev.toNat (by omega)
  rw [SetIds.id] at hsmall
  obtain ⟨next, hnext, hnextVal⟩ :=
    checkedAdd64_one (a := fetcher.toSetIds.setId prev.toNat) (by omega)
  -- the set of the latest block is not the one before it, whose hash the contract has
  have hne : fetcher.toSetIds.setId (contract.latestBlock.toNat - 1) ≠
      fetcher.toSetIds.setId contract.latestBlock.toNat := fun heq =>
    (hset.hash_ne hlatest.le rfl (Or.inl heq)).1 hunknown
  have hstep := fetcher.toSetIds.grows (contract.latestBlock.toNat - 1) (by omega)
  rw [Nat.sub_add_cancel hpos, SetIds.id, SetIds.id] at hstep
  have hgrown := hstep.resolve_left fun heq => hne (UInt64.toNat_inj.mp heq).symm
  rw [← hprevVal] at hgrown
  have hnextEq : next = fetcher.toSetIds.setId contract.latestBlock.toNat :=
    UInt64.toNat_inj.mp (hnextVal.trans hgrown.symm)
  have hmono := fetcher.toSetIds.grows.mono (a := contract.latestBlock.toNat) (b := before.toNat)
    (by omega) (by omega)
  rw [SetIds.id, SetIds.id] at hmono
  have hdue : fetcher.toSetIds.setId prev.toNat < fetcher.toSetIds.setId before.toNat := by
    rw [UInt64.lt_iff_toNat_lt]
    omega
  refine ⟨fetcher.toSetIds.setId prev.toNat, ?_, hgrown, ?_⟩
  · simp only [VectorXOperator.findAndRequestRotate, getContractDataForRotate, hprev, hget, hnext,
      hbefore, hgetHead, Option.bind_eq_bind, Option.bind_some, hnextEq]
    rw [if_pos ⟨hdue, by simpa using hunknown⟩]
  · exact hset.hash_ne_of_next hpos hlatest.le (by rw [hprevVal]) hnextVal (hnextEq ▸ hunknown)

end Requested

end VectorXOperator

end VectorX
