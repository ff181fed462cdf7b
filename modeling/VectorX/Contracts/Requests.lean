import VectorX.Contracts.AuthoritySets

/-!
# Requests and their callbacks

A request packs an input for the gateway, and the callback packs it again to read the verified
output. In the state of the request, `rotate` succeeds after `requestRotate`. `commitHeaderRange`
reverts for an id before the latest one, which `requestHeaderRange` does not check.
-/

namespace VectorX.Contract

open Plonky2x Solidity

/-- In the state `s` of a request that has logged `es`, the callback succeeds with every verified
output of `n` bytes for the requested input. -/
def Fulfillable (keccak256 : List UInt8 → Bytes32) (s : State) (es : List Event) (n : ℕ)
    (callback : Call) : Prop :=
  ∀ gateway functionId input data, .requestCall gateway functionId input data ∈ es →
    ∀ (env : Env) (output : List UInt8), env.verifiedCall gateway functionId input = some output →
      output.length = n → ∃ r, exec keccak256 env s callback = .ok r

section Callbacks

variable {keccak256 : List UInt8 → Bytes32} {env : Env} {s s' : State} {es : List Event}

/-- Data with more than `i` words has a word `i`. -/
theorem exists_decodeWord {output : List UInt8} {i : ℕ} (h : 32 * i + 32 ≤ output.length) :
    ∃ w, decodeWord output i = some w := ⟨_, dif_pos h⟩

/-- An accepted request for a header range can be fulfilled exactly if the id is not an old one: the
other guards of the commit, and its input, are those of the request. -/
theorem requestHeaderRange_fulfillable_iff (hfrozen : s.frozen = false) {authoritySetId : UInt64}
    {requestedBlock : UInt32}
    (h : requestHeaderRange keccak256 env s authoritySetId requestedBlock = .ok (s', es)) :
    Fulfillable keccak256 s es 96 (.commitHeaderRange authoritySetId requestedBlock) ↔
      ¬authoritySetId < s.latestAuthoritySetId := by
  obtain ⟨htrusted, hauthority, hlt, input, rfl, -, -, rfl⟩ := requestHeaderRange_eq_ok.mp h
  constructor
  · intro hcommit
    obtain ⟨⟨s₁, es₁⟩, hexec⟩ := hcommit _ _ _ _ List.mem_cons_self
      { env with verifiedCall := fun _ _ _ => some (List.replicate 96 0) } _ rfl
      List.length_replicate
    exact (commitHeaderRange_eq_ok.mp hexec).2.2.2.1
  · intro hid gateway functionId input data hmem env' output hverified hlength
    obtain ⟨rfl, rfl, rfl, rfl⟩ : gateway = s.gateway ∧ functionId = s.headerRangeFunctionId ∧
        input = headerRangeInput s.latestBlock (s.blockHeightToHeaderHash s.latestBlock)
          authoritySetId (s.authoritySetIdToHash authoritySetId) requestedBlock ∧
        data = commitHeaderRangeData keccak256 authoritySetId requestedBlock := by
      simpa using hmem
    obtain ⟨headerHash, hheader⟩ := exists_decodeWord (i := 0) (hlength.symm.le.trans' (by decide))
    obtain ⟨stateRoot, hstate⟩ := exists_decodeWord (i := 1) (hlength.symm.le.trans' (by decide))
    obtain ⟨dataRoot, hdata⟩ := exists_decodeWord (i := 2) (hlength.symm.le.trans' (by decide))
    exact ⟨_, commitHeaderRange_eq_ok.mpr ⟨hfrozen, htrusted, hauthority, hid, hlt, headerHash,
      stateRoot, dataRoot, ⟨output, hverified, hheader, hstate, hdata⟩, rfl, rfl⟩⟩

/-- An accepted request for a rotation can be fulfilled. -/
theorem requestRotate_fulfillable (hfrozen : s.frozen = false) {currentAuthoritySetId : UInt64}
    (h : requestRotate keccak256 env s currentAuthoritySetId = .ok (s', es)) :
    Fulfillable keccak256 s es 32 (.rotate currentAuthoritySetId) := by
  obtain ⟨hcurrent, next, hnext, hempty, input, rfl, -, -, rfl⟩ := requestRotate_eq_ok.mp h
  intro gateway functionId input data hmem env' output hverified hlength
  obtain ⟨rfl, rfl, rfl, rfl⟩ : gateway = s.gateway ∧ functionId = s.rotateFunctionId ∧
      input = rotateInput currentAuthoritySetId (s.authoritySetIdToHash currentAuthoritySetId) ∧
      data = rotateData keccak256 currentAuthoritySetId := by
    simpa using hmem
  obtain ⟨hash, hhash⟩ := exists_decodeWord (i := 0) hlength.symm.le
  exact ⟨_, rotate_eq_ok.mpr ⟨hfrozen, hcurrent, next, hnext, hempty, output, hverified, hash, hhash,
    rfl, rfl⟩⟩

end Callbacks

/-! ## Main result -/

/-- The storage after any calls from the deployment on. -/
def stateAfter (keccak256 : List UInt8 → Bytes32) (calls : List (Env × Call)) : State :=
  (Run.run (step keccak256) State.fresh calls).1

/-- **Requests.** In every reachable state that is not frozen, an accepted request for a header
range can be fulfilled exactly if its id is not before the latest one, and an accepted request for a
rotation can always be fulfilled. -/
theorem requests_fulfillable (keccak256 : List UInt8 → Bytes32) (calls : List (Env × Call))
    (hfrozen : (stateAfter keccak256 calls).frozen = false) (env : Env) :
    (∀ authoritySetId requestedBlock s' es,
      exec keccak256 env (stateAfter keccak256 calls)
        (.requestHeaderRange authoritySetId requestedBlock) = .ok (s', es) →
      (Fulfillable keccak256 (stateAfter keccak256 calls) es 96
          (.commitHeaderRange authoritySetId requestedBlock) ↔
        ¬authoritySetId < (stateAfter keccak256 calls).latestAuthoritySetId)) ∧
    ∀ currentAuthoritySetId s' es,
      exec keccak256 env (stateAfter keccak256 calls) (.requestRotate currentAuthoritySetId) =
        .ok (s', es) →
      Fulfillable keccak256 (stateAfter keccak256 calls) es 32 (.rotate currentAuthoritySetId) :=
  ⟨fun _ _ _ _ h => requestHeaderRange_fulfillable_iff hfrozen h,
    fun _ _ _ h => requestRotate_fulfillable hfrozen h⟩

/-! ### A request for an old id -/

/-- Set 299 is added to the first set, and commits block 5. -/
def secondSetCalls : List (Env × Call) :=
  [(constantEnv [], .initializeContract genesisParams),
    (constantEnv (List.replicate 32 7), .rotate 298),
    (constantEnv (List.replicate 96 7), .commitHeaderRange 299 5)]

/-- The storage after these calls. -/
def secondSet : State := stateAfter Reference.keccak256 secondSetCalls

/-- A request for block 7 is accepted for both sets. -/
theorem requestHeaderRange_secondSet (authoritySetId : UInt64)
    (h : secondSet.authoritySetIdToHash authoritySetId ≠ emptyBytes32) :
    ∃ es, exec Reference.keccak256 (constantEnv []) secondSet (.requestHeaderRange authoritySetId 7) =
      .ok (secondSet, es) :=
  ⟨_, requestHeaderRange_eq_ok.mpr ⟨by decide +kernel, h, by decide +kernel, _, rfl, rfl, rfl, rfl⟩⟩

/-- Requests with set 299 are accepted and can be fulfilled. -/
theorem requests_fulfillable_secondSet :
    (∃ es, exec Reference.keccak256 (constantEnv []) secondSet (.requestHeaderRange 299 7) =
        .ok (secondSet, es) ∧
      Fulfillable Reference.keccak256 secondSet es 96 (.commitHeaderRange 299 7)) ∧
    ∃ es, exec Reference.keccak256 (constantEnv []) secondSet (.requestRotate 299) =
        .ok (secondSet, es) ∧
      Fulfillable Reference.keccak256 secondSet es 32 (.rotate 299) := by
  obtain ⟨hcommit, hrotate⟩ := requests_fulfillable Reference.keccak256 secondSetCalls
    (by decide +kernel) (constantEnv [])
  obtain ⟨es, hheader⟩ := requestHeaderRange_secondSet 299 (by decide +kernel)
  obtain ⟨es', hset⟩ : ∃ es, requestRotate Reference.keccak256 (constantEnv []) secondSet 299 =
      .ok (secondSet, es) :=
    ⟨_, requestRotate_eq_ok.mpr ⟨by decide +kernel, 300, by decide +kernel, by decide +kernel, _,
      rfl, rfl, rfl, rfl⟩⟩
  exact ⟨⟨es, hheader, (hcommit 299 7 secondSet es hheader).mpr (by decide +kernel)⟩,
    es', hset, hrotate 299 secondSet es' hset⟩

/-- A request with set 298 is accepted as well, and its commit reverts. -/
theorem not_requests_fulfillable : ¬∀ (keccak256 : List UInt8 → Bytes32) (calls : List (Env × Call))
    (env : Env) (authoritySetId : UInt64) (requestedBlock : UInt32) (s' : State) (es : List Event),
    (stateAfter keccak256 calls).frozen = false →
    exec keccak256 env (stateAfter keccak256 calls)
      (.requestHeaderRange authoritySetId requestedBlock) = .ok (s', es) →
    Fulfillable keccak256 (stateAfter keccak256 calls) es 96
      (.commitHeaderRange authoritySetId requestedBlock) := by
  intro hclaim
  have hfrozen : secondSet.frozen = false := by decide +kernel
  obtain ⟨es, hrequest⟩ := requestHeaderRange_secondSet 298 (by decide +kernel)
  have hid := (requestHeaderRange_fulfillable_iff hfrozen hrequest).mp
    (hclaim Reference.keccak256 secondSetCalls (constantEnv []) 298 7 secondSet es hfrozen hrequest)
  exact hid (by decide +kernel)

end VectorX.Contract
