import VectorX.Contracts.VectorX
import VectorX.Input.Justification

/-!
# The operator

Reference: `bin/vectorx.rs` and `bin/genesis.rs`. In each round the operator compares the contract
with the chain of its node, and requests a rotation or a header range if one is due. The set that
justifies a block is the one whose id the node stores at the block before.
-/

namespace VectorX

open Plonky2x Solidity
open Contract (State Call headerRangeInput rotateInput)

variable {crypto : Crypto}

/-! ## Genesis -/

/-- What `bin/genesis.rs` prints. -/
structure GenesisParameters where
  height : UInt32
  header : Bytes32
  authoritySetId : UInt64
  authoritySetHash : Bytes32

/-- `main` of `bin/genesis.rs`; the default is the head. -/
def genesis (chain : EpochChain crypto) (block : Option UInt32) : Option GenesisParameters := do
  let header ← getHeader chain.toChain (block.getD chain.toSetIds.head).toNat
  let authoritySetId ← getAuthoritySetId chain.toSetIds header.number
  let authoritySetHash ← RpcDataFetcher.computeAuthoritySetHash chain header.number
  some { height := header.number, header := header.hash crypto, authoritySetId, authoritySetHash }

/-- What the height of the genesis is used for. -/
theorem genesis_eq_some {chain : EpochChain crypto} {block : Option UInt32} {p : GenesisParameters}
    (h : genesis chain block = some p) :
    p.height.toNat ≤ chain.toSetIds.head.toNat ∧
      p.authoritySetId = chain.toSetIds.setId p.height.toNat ∧
      RpcDataFetcher.computeAuthoritySetHash chain p.height = some p.authoritySetHash := by
  simp only [genesis, Option.bind_eq_bind, Option.bind_eq_some_iff] at h
  obtain ⟨header, -, id, hid, hash, hhash, h⟩ := h
  obtain rfl := Option.some.inj h
  rw [getAuthoritySetId] at hid
  split at hid
  · rename_i hle
    exact ⟨UInt32.le_iff_toNat_le.mp hle, (Option.some.inj hid).symm, hhash⟩
  · exact absurd hid (by simp)

namespace VectorXOperator

/-! ## Requests -/

section Definitions

/-- What is submitted to the platform: a function, its input, and the call that uses the output. -/
structure Request where
  functionId : Bytes32
  input : List UInt8
  call : Call

structure RotateContractData where
  currentBlock : UInt32
  nextAuthoritySetHashExists : Bool
  rotateFunctionId : Bytes32

structure HeaderRangeContractData where
  vectorxLatestBlock : UInt32
  availCurrentBlock : UInt32
  headerRangeCommitmentTreeSize : UInt32
  nextAuthoritySetHashExists : Bool
  headerRangeFunctionId : Bytes32

/-- The settings of the operator. -/
structure Config where
  isDummyOperator : Bool
  DUMMY_PUBLIC_KEY : Bytes32Variable
  DUMMY_SIGNATURE : BytesVariable 64
  MAX_AUTHORITY_SET_SIZE : ℕ

variable (config : Config) (fetcher : RpcDataFetcher crypto) (contract : State)

/-- `request_header_range`, with the hashes that the contract stores. -/
def requestHeaderRange (trustedBlock : UInt32) (trustedAuthoritySetId : UInt64) (targetBlock : UInt32)
    (headerRangeFunctionId : Bytes32) : Request where
  functionId := headerRangeFunctionId
  input := headerRangeInput trustedBlock (contract.blockHeightToHeaderHash trustedBlock)
    trustedAuthoritySetId (contract.authoritySetIdToHash trustedAuthoritySetId) targetBlock
  call := .commitHeaderRange trustedAuthoritySetId targetBlock

/-- `request_rotate`, with the hash that the contract stores. -/
def requestRotate (currentAuthoritySetId : UInt64) (rotateFunctionId : Bytes32) : Request where
  functionId := rotateFunctionId
  input := rotateInput currentAuthoritySetId (contract.authoritySetIdToHash currentAuthoritySetId)
  call := .rotate currentAuthoritySetId

def getContractDataForRotate : Option RotateContractData := do
  let currentBlock := contract.latestBlock
  let prevBlock ← checkedSub currentBlock 1
  let currentAuthoritySetId ← getAuthoritySetId fetcher.toSetIds prevBlock
  let nextAuthoritySetId ← checkedAdd64 currentAuthoritySetId 1
  some {
    currentBlock
    nextAuthoritySetHashExists := contract.authoritySetIdToHash nextAuthoritySetId ≠ emptyBytes32
    rotateFunctionId := contract.rotateFunctionId }

def getContractDataForHeaderRange : Option HeaderRangeContractData := do
  let vectorxLatestBlock := contract.latestBlock
  let prevBlock ← checkedSub vectorxLatestBlock 1
  let currentAuthoritySetId ← getAuthoritySetId fetcher.toSetIds prevBlock
  let nextAuthoritySetId ← checkedAdd64 currentAuthoritySetId 1
  some {
    vectorxLatestBlock
    availCurrentBlock := fetcher.toSetIds.head
    headerRangeCommitmentTreeSize := contract.headerRangeCommitmentTreeSize
    nextAuthoritySetHashExists := contract.authoritySetIdToHash nextAuthoritySetId ≠ emptyBytes32
    headerRangeFunctionId := contract.headerRangeFunctionId }

/-- `find_and_request_rotate`: the request, if one is submitted. -/
def findAndRequestRotate : Option (Option Request) := do
  let data ← getContractDataForRotate fetcher contract
  let beforeHead ← checkedSub fetcher.toSetIds.head 1
  let headAuthoritySetId ← getAuthoritySetId fetcher.toSetIds beforeHead
  let prevBlock ← checkedSub data.currentBlock 1
  let currentAuthoritySetId ← getAuthoritySetId fetcher.toSetIds prevBlock
  if currentAuthoritySetId < headAuthoritySetId ∧ data.nextAuthoritySetHashExists = false then
    some (some (requestRotate contract currentAuthoritySetId data.rotateFunctionId))
  else some none

/-- The loop of `find_block_to_step_to`, for at most `fuel` blocks. -/
def justifiedBlockLoop (limit : UInt32) : ℕ → UInt32 → Option (Option UInt32)
  | 0, _ => none
  | fuel + 1, blockToStepTo =>
    if blockToStepTo > limit then some none
    else do
      match ← getJustificationFromBlock fetcher config.DUMMY_PUBLIC_KEY config.DUMMY_SIGNATURE
          config.MAX_AUTHORITY_SET_SIZE blockToStepTo with
      | .ok _ => some (some blockToStepTo)
      | .error _ => do
        let blockToStepTo ← checkedAdd blockToStepTo 1
        justifiedBlockLoop limit fuel blockToStepTo

/-- `find_block_to_step_to`. -/
def findBlockToStepTo (idealBlockInterval headerRangeCommitmentTreeSize vectorxCurrentBlock
    availCurrentBlock : UInt32) (authoritySetId : UInt64) : Option (Option UInt32) := do
  let lastJustified ← lastJustifiedBlock fetcher.toSetIds authoritySetId
  let limit ← checkedAdd vectorxCurrentBlock headerRangeCommitmentTreeSize
  if lastJustified ≠ 0 ∧ lastJustified ≤ limit then some (some lastJustified)
  else do
    let maxValidBlock := if limit ≤ availCurrentBlock then limit else availCurrentBlock
    -- the remainder by zero panics
    if idealBlockInterval = 0 then none
    let blockToStepTo := maxValidBlock - maxValidBlock % idealBlockInterval
    if blockToStepTo ≤ vectorxCurrentBlock then some none
    else if config.isDummyOperator then some (some blockToStepTo)
    else justifiedBlockLoop config fetcher limit (limit.toNat + 2 - blockToStepTo.toNat) blockToStepTo

/-- The set id of the request: the next one from the last justified block on, if the contract has
it. -/
def requestAuthoritySetId (data : HeaderRangeContractData) (currentAuthoritySetId : UInt64)
    (lastJustified : UInt32) : Option (Option UInt64) :=
  if data.vectorxLatestBlock = lastJustified then do
    let nextAuthoritySetId ← checkedAdd64 currentAuthoritySetId 1
    if data.nextAuthoritySetHashExists = false then some none
    else some (some nextAuthoritySetId)
  else some (some currentAuthoritySetId)

/-- `find_and_request_header_range`: the request, if one is submitted. -/
def findAndRequestHeaderRange (idealBlockInterval : UInt32) : Option (Option Request) := do
  let data ← getContractDataForHeaderRange fetcher contract
  let prevBlock ← checkedSub data.vectorxLatestBlock 1
  let currentAuthoritySetId ← getAuthoritySetId fetcher.toSetIds prevBlock
  let lastJustified ← lastJustifiedBlock fetcher.toSetIds currentAuthoritySetId
  match ← requestAuthoritySetId data currentAuthoritySetId lastJustified with
  | none => some none
  | some authoritySetId => do
    match ← findBlockToStepTo config fetcher idealBlockInterval data.headerRangeCommitmentTreeSize
        data.vectorxLatestBlock data.availCurrentBlock authoritySetId with
    | none => some none
    | some blockToStepTo =>
      some (some (requestHeaderRange contract data.vectorxLatestBlock authoritySetId blockToStepTo
        data.headerRangeFunctionId))

end Definitions

/-! ## What is requested -/

section Requested

variable {config : Config} {fetcher : RpcDataFetcher crypto} {contract : State}

/-- A justification can only be fetched up to the head. -/
theorem le_head_of_getJustificationFromBlock {DUMMY_PUBLIC_KEY : Bytes32Variable}
    {DUMMY_SIGNATURE : BytesVariable 64} {VALIDATOR_SET_SIZE_MAX : ℕ} {b : UInt32}
    {j : Except Unit CircuitJustification}
    (h : getJustificationFromBlock fetcher DUMMY_PUBLIC_KEY DUMMY_SIGNATURE VALIDATOR_SET_SIZE_MAX b =
      some j) : b.toNat ≤ fetcher.toSetIds.head.toNat := by
  simp only [getJustificationFromBlock, Option.bind_eq_bind, Option.bind_eq_some_iff] at h
  obtain ⟨data, hdata, -⟩ := h
  simp only [getJustificationData, Option.bind_eq_bind, Option.bind_eq_some_iff] at hdata
  obtain ⟨id, hid, -⟩ := hdata
  exact (getAuthoritySetId_eq_some hid).1

/-- The search for a justified block goes up to the limit and not past the head. -/
theorem justifiedBlockLoop_eq_some {limit b : UInt32} :
    ∀ (fuel : ℕ) (start : UInt32),
      justifiedBlockLoop config fetcher limit fuel start = some (some b) →
      start.toNat ≤ b.toNat ∧ b.toNat ≤ limit.toNat ∧ b.toNat ≤ fetcher.toSetIds.head.toNat
  | 0, _, h => absurd h (by simp [justifiedBlockLoop])
  | fuel + 1, start, h => by
    rw [justifiedBlockLoop] at h
    split at h
    · exact absurd h (by simp)
    rename_i hlimit
    rw [gt_iff_lt, UInt32.lt_iff_toNat_lt, Nat.not_lt] at hlimit
    rw [Option.bind_eq_bind, Option.bind_eq_some_iff] at h
    obtain ⟨j, hj, h⟩ := h
    have hhead := le_head_of_getJustificationFromBlock hj
    rcases j with e | j
    · simp only [Option.bind_eq_bind, Option.bind_eq_some_iff] at h
      obtain ⟨next, hnext, h⟩ := h
      have hnextVal := checkedAdd_eq_some hnext
      have ih := justifiedBlockLoop_eq_some fuel next h
      omega
    · obtain rfl : start = b := Option.some.inj (Option.some.inj h)
      exact ⟨Nat.le_refl _, hlimit, hhead⟩

/-- All blocks after `latest` up to `b`, which the node has, are justified by the set with id
`s`. -/
structure JustifiedBy (ids : SetIds) (latest : UInt32) (s : UInt64) (b : UInt32) : Prop where
  lt : latest.toNat < b.toNat
  le_head : b.toNat ≤ ids.head.toNat
  setId_eq : ∀ x, latest.toNat < x → x ≤ b.toNat → ids.setId (x - 1) = s

/-- A block that is not after the last one justified by the set, if there is one. -/
theorem justifiedBy_of_lastJustifiedBlock {ids : SetIds} {latest e b : UInt32} {s : UInt64}
    (hlast : lastJustifiedBlock ids s = some e) (hs : ids.setId latest.toNat = s)
    (hlt : latest.toNat < b.toNat) (hb : b.toNat ≤ ids.head.toNat)
    (he : e = 0 ∨ b.toNat ≤ e.toNat) : JustifiedBy ids latest s b := by
  have hid : ids.id latest.toNat = s.toNat := by rw [SetIds.id, hs]
  -- the id stays at `s` up to the block before `b`
  have hbefore : ids.id (b.toNat - 1) ≤ s.toNat := by
    rcases lastJustifiedBlock_eq_some hlast with hend | ⟨hall, -⟩
    · refine (hend.lt_iff (by omega)).mp ?_
      rcases he with rfl | hle
      · exact absurd hend.2.pos (by decide)
      · omega
    · exact Nat.le_trans (ids.grows.mono (by omega) (Nat.le_refl _)) hall
  refine ⟨hlt, hb, fun x hx hxb => ?_⟩
  have hmono := ids.grows.mono (a := x - 1) (b := b.toNat - 1) (by omega) (by omega)
  rw [← hs]
  exact SetIds.setId_eq_of_le (by omega) (by omega) (by omega)

/-- The largest multiple of the interval up to `m`. -/
theorem toNat_sub_mod (m interval : UInt32) :
    (m - m % interval).toNat = m.toNat - m.toNat % interval.toNat := by
  have hle : m % interval ≤ m := by
    rw [UInt32.le_iff_toNat_le, UInt32.toNat_mod]
    exact Nat.mod_le _ _
  rw [UInt32.toNat_sub_of_le _ _ hle, UInt32.toNat_mod]

/-- The block to step to is in range, and the set does not change before it. -/
theorem findBlockToStepTo_eq_some {interval size latest b : UInt32} {s : UInt64}
    (hlatest : latest.toNat ≤ fetcher.toSetIds.head.toNat)
    (hs : fetcher.toSetIds.setId latest.toNat = s)
    (h : findBlockToStepTo config fetcher interval size latest fetcher.toSetIds.head s =
      some (some b)) :
    b.toNat ≤ latest.toNat + size.toNat ∧ JustifiedBy fetcher.toSetIds latest s b := by
  simp only [findBlockToStepTo, Option.bind_eq_bind, Option.bind_eq_some_iff] at h
  obtain ⟨e, he, limit, hlimit, h⟩ := h
  have hlimitVal := checkedAdd_eq_some hlimit
  have hjustified := fun hlt hb hle =>
    justifiedBy_of_lastJustifiedBlock (b := b) he hs hlt hb hle
  split at h
  · rename_i hstep
    obtain rfl : e = b := Option.some.inj (Option.some.inj h)
    have hle : e.toNat ≤ limit.toNat := UInt32.le_iff_toNat_le.mp hstep.2
    rcases lastJustifiedBlock_eq_some he with hend | ⟨-, hzero, -⟩
    · have hlt : latest.toNat < e.toNat := by
        rw [hend.lt_iff hlatest, SetIds.id, hs]
      exact ⟨by omega, hjustified hlt hend.1 (Or.inr (Nat.le_refl _))⟩
    · exact absurd hzero hstep.1
  rename_i hstep
  -- no block up to the limit is the last one justified by the set
  have hbeyond : b.toNat ≤ limit.toNat → e = 0 ∨ b.toNat ≤ e.toNat := by
    intro hb
    by_cases hzero : e = 0
    · exact Or.inl hzero
    · have hlt := mt (fun hle => And.intro hzero hle) hstep
      rw [UInt32.le_iff_toNat_le] at hlt
      exact Or.inr (by omega)
  split at h
  · exact absurd h (by simp)
  have hmax := toNat_ite_le limit fetcher.toSetIds.head
  generalize (if limit ≤ fetcher.toSetIds.head then limit else fetcher.toSetIds.head) = m at h hmax
  have hround : (m - m % interval).toNat ≤ m.toNat := by
    rw [toNat_sub_mod]
    exact Nat.sub_le _ _
  split at h
  · exact absurd h (by simp)
  rename_i hlatestLt
  rw [UInt32.le_iff_toNat_le, Nat.not_le] at hlatestLt
  have hrange : latest.toNat < b.toNat ∧ b.toNat ≤ limit.toNat ∧
      b.toNat ≤ fetcher.toSetIds.head.toNat := by
    split at h
    · obtain rfl := Option.some.inj (Option.some.inj h)
      omega
    · obtain ⟨hstart, hle, hhead⟩ := justifiedBlockLoop_eq_some _ _ h
      omega
  exact ⟨by omega, hjustified hrange.1 hrange.2.2 (hbeyond hrange.2.1)⟩

/-- The id at a block before the last one justified by its set, or at that block itself. -/
theorem setId_latest {ids : SetIds} {latest e : UInt32} {s next : UInt64} (hpos : 1 ≤ latest.toNat)
    (hlatest : latest.toNat ≤ ids.head.toNat) (hs : ids.setId (latest.toNat - 1) = s)
    (hlast : lastJustifiedBlock ids s = some e) (hnext : next.toNat = s.toNat + 1) :
    ids.setId latest.toNat = if latest = e then next else s := by
  have hid : ids.id (latest.toNat - 1) = s.toNat := by rw [SetIds.id, hs]
  have hstep := ids.grows (latest.toNat - 1) (by omega)
  rw [Nat.sub_add_cancel hpos, hid] at hstep
  have hval : (ids.setId latest.toNat).toNat = ids.id latest.toNat := rfl
  rcases lastJustifiedBlock_eq_some hlast with hend | ⟨hall, rfl, -⟩
  · by_cases hat : latest = e
    · subst hat
      rw [if_pos rfl]
      exact UInt64.toNat_inj.mp (by rw [hval, hnext, hend.2.at_eq])
    · rw [if_neg hat]
      refine UInt64.toNat_inj.mp ?_
      rcases hstep with hsame | hgrown
      · rw [hval, hsame]
      · -- the block would be the end of the epoch
        have hend' : ids.IsEpochEnd s.toNat latest.toNat := ⟨hlatest, hpos, hid, hgrown⟩
        exact absurd (UInt32.toNat_inj.mp (hend'.unique hend)) hat
  · have hmono := ids.grows.mono hlatest (Nat.le_refl _)
    rw [if_neg fun hzero => absurd hpos (by rw [hzero]; decide)]
    refine UInt64.toNat_inj.mp ?_
    rw [hval]
    omega

/-- What `get_contract_data_for_header_range` reads. -/
theorem getContractDataForHeaderRange_eq_some {data : HeaderRangeContractData}
    (h : getContractDataForHeaderRange fetcher contract = some data) :
    ∃ next : UInt64, 1 ≤ contract.latestBlock.toNat ∧
      next.toNat = (fetcher.toSetIds.setId (contract.latestBlock.toNat - 1)).toNat + 1 ∧
      data = {
        vectorxLatestBlock := contract.latestBlock
        availCurrentBlock := fetcher.toSetIds.head
        headerRangeCommitmentTreeSize := contract.headerRangeCommitmentTreeSize
        nextAuthoritySetHashExists := contract.authoritySetIdToHash next ≠ emptyBytes32
        headerRangeFunctionId := contract.headerRangeFunctionId } := by
  simp only [getContractDataForHeaderRange, Option.bind_eq_bind, Option.bind_eq_some_iff] at h
  obtain ⟨prev, hprev, s, hs, next, hnext, h⟩ := h
  obtain ⟨hpos, hprevVal⟩ := checkedSub_eq_some hprev
  have hone : (1 : UInt32).toNat = 1 := rfl
  rw [hone] at hpos hprevVal
  refine ⟨next, hpos, ?_, (Option.some.inj h).symm⟩
  rw [checkedAdd64_eq_some hnext, ← hprevVal, (getAuthoritySetId_eq_some hs).2]
  rfl

/-- A header range that is requested: it starts at the latest block of the contract, under the id at
that block, and the contract has the hash of the set if the id is new. -/
theorem findAndRequestHeaderRange_eq_some {interval : UInt32} {request : Request}
    (hlatest : contract.latestBlock.toNat ≤ fetcher.toSetIds.head.toNat)
    (h : findAndRequestHeaderRange config fetcher contract interval = some (some request)) :
    ∃ (s : UInt64) (b : UInt32), request = requestHeaderRange contract contract.latestBlock s b
        contract.headerRangeFunctionId ∧
      fetcher.toSetIds.setId contract.latestBlock.toNat = s ∧
      (fetcher.toSetIds.setId (contract.latestBlock.toNat - 1) = s ∨
        contract.authoritySetIdToHash s ≠ emptyBytes32) ∧
      b.toNat ≤ contract.latestBlock.toNat + contract.headerRangeCommitmentTreeSize.toNat ∧
      JustifiedBy fetcher.toSetIds contract.latestBlock s b := by
  simp only [findAndRequestHeaderRange, Option.bind_eq_bind, Option.bind_eq_some_iff] at h
  obtain ⟨data, hdata, prev, hprev, t, ht, e, he, r, hr, h⟩ := h
  obtain ⟨next, hpos, hnext, rfl⟩ := getContractDataForHeaderRange_eq_some hdata
  have hone : (1 : UInt32).toNat = 1 := rfl
  have hprevVal := (checkedSub_eq_some hprev).2
  have htVal := (getAuthoritySetId_eq_some ht).2
  rw [hprevVal, hone] at htVal
  rw [htVal] at hnext
  have hid := setId_latest hpos hlatest htVal he hnext
  -- the id of the request is the one at the latest block
  have hreq : ∀ s, r = some s → fetcher.toSetIds.setId contract.latestBlock.toNat = s ∧
      (fetcher.toSetIds.setId (contract.latestBlock.toNat - 1) = s ∨
        contract.authoritySetIdToHash s ≠ emptyBytes32) := by
    rintro s rfl
    rw [requestAuthoritySetId] at hr
    split at hr
    · rename_i hat
      rw [Option.bind_eq_bind, Option.bind_eq_some_iff] at hr
      obtain ⟨next', hnext', hr⟩ := hr
      have hsame : next' = next :=
        UInt64.toNat_inj.mp ((checkedAdd64_eq_some hnext').trans hnext.symm)
      split at hr
      · exact absurd hr (by simp)
      · rename_i hexists
        obtain rfl : next' = s := Option.some.inj (Option.some.inj hr)
        rw [hid, if_pos hat, hsame]
        exact ⟨rfl, Or.inr fun hzero => hexists (by simp [hzero])⟩
    · rename_i hat
      obtain rfl : t = s := Option.some.inj (Option.some.inj hr)
      exact ⟨by rw [hid, if_neg hat], Or.inl htVal⟩
  rcases r with - | s
  · exact absurd h (by simp)
  obtain ⟨hs, hhash⟩ := hreq s rfl
  simp only [Option.bind_eq_some_iff] at h
  obtain ⟨step, hstep, h⟩ := h
  rcases step with - | b
  · exact absurd h (by simp)
  obtain ⟨hrange, hjustified⟩ := findBlockToStepTo_eq_some hlatest hs hstep
  exact ⟨s, b, (Option.some.inj (Option.some.inj h)).symm, hs, hhash, hrange, hjustified⟩

/-- A rotation that is requested: the id before the latest block of the contract is passed before
the head, and the contract does not have the hash of the next set. -/
theorem findAndRequestRotate_eq_some {request : Request}
    (h : findAndRequestRotate fetcher contract = some (some request)) :
    ∃ c next : UInt64, request = requestRotate contract c contract.rotateFunctionId ∧
      1 ≤ contract.latestBlock.toNat ∧
      fetcher.toSetIds.setId (contract.latestBlock.toNat - 1) = c ∧ next.toNat = c.toNat + 1 ∧
      contract.authoritySetIdToHash next = emptyBytes32 ∧
      c.toNat < fetcher.toSetIds.id fetcher.toSetIds.head.toNat := by
  simp only [findAndRequestRotate, getContractDataForRotate, Option.bind_eq_bind,
    Option.bind_eq_some_iff] at h
  obtain ⟨data, ⟨prev, hprev, c, hc, next, hnext, hdata⟩, before, hbefore, t, ht, prev', hprev', c', hc',
    h⟩ := h
  obtain rfl := Option.some.inj hdata
  have hone : (1 : UInt32).toNat = 1 := rfl
  obtain rfl : prev = prev' := Option.some.inj (hprev.symm.trans hprev')
  obtain rfl : c = c' := Option.some.inj (hc.symm.trans hc')
  obtain ⟨hpos, hprevVal⟩ := checkedSub_eq_some hprev
  obtain ⟨hbeforeHead, htVal⟩ := getAuthoritySetId_eq_some ht
  have hcVal := (getAuthoritySetId_eq_some hc).2
  rw [hprevVal, hone] at hcVal
  split at h
  · rename_i hdue
    obtain ⟨hlt, hexists⟩ := hdue
    refine ⟨c, next, (Option.some.inj (Option.some.inj h)).symm, hpos, hcVal,
      checkedAdd64_eq_some hnext, ?_, ?_⟩
    · simpa using hexists
    · have hmono := fetcher.toSetIds.grows.mono hbeforeHead (Nat.le_refl _)
      rw [UInt64.lt_iff_toNat_lt, ← htVal] at hlt
      exact Nat.lt_of_lt_of_le hlt hmono
  · exact absurd h (by simp)

end Requested

end VectorXOperator

end VectorX
