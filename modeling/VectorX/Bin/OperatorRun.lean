import VectorX.Bin.Operator
import VectorX.Contracts.AuthoritySets
import VectorX.Reference.Justification

/-!
# Runs of the operator

The operator and the contract together, while the chain grows. In a step the operator looks at the
contract from the head of its node and may submit a request, or a request that was submitted before
is fulfilled: its call is executed, whatever the gateway answers.
-/

namespace VectorX

open Plonky2x Solidity
open Contract (State Call Env headerRangeInput rotateInput)

variable {crypto : Crypto}

/-- The chain up to a block. -/
def EpochChain.upTo (chain : EpochChain crypto) (head : UInt32)
    (h : head.toNat ≤ chain.toSetIds.head.toNat) : EpochChain crypto :=
  { chain with
    head
    number_eq := fun n hfirst hn => chain.number_eq n hfirst (Nat.le_trans hn h)
    parentHash_eq := fun n hfirst hn => chain.parentHash_eq n hfirst (Nat.lt_of_lt_of_le hn h)
    setId_succ := fun n hn => chain.setId_succ n (Nat.lt_of_lt_of_le hn h) }

namespace VectorXOperator

/-! ## Runs -/

section Runs

/-- What a node answers during a round, apart from the chain. -/
structure Node where
  head : UInt32
  proveFinality : UInt32 → Option GrandpaJustification
  redisJustification : UInt32 → Option StoredJustificationData

inductive Action
  | findAndRequestRotate (node : Node)
  | findAndRequestHeaderRange (node : Node) (idealBlockInterval : UInt32)
  | fulfil (i : ℕ) (env : Env)

/-- The contract, the last head of the node, and what was submitted so far. -/
structure System where
  contract : State
  head : UInt32
  requests : List Request

/-- A request, with the contract and the node at its submission. -/
structure Submission (crypto : Crypto) where
  contract : State
  fetcher : RpcDataFetcher crypto
  request : Request

/-- The fetcher of a node whose head is on the chain. -/
def Node.fetcher (node : Node) (chain : EpochChain crypto)
    (h : node.head.toNat ≤ chain.toSetIds.head.toNat) : RpcDataFetcher crypto :=
  { chain.upTo node.head h with
    proveFinality := node.proveFinality
    redisJustification := node.redisJustification }

/-- After a look at the contract. A panic submits nothing. -/
def System.submit (σ : System) (fetcher : RpcDataFetcher crypto) (request : Option (Option Request)) :
    System × List (Submission crypto) :=
  match request with
  | some (some request) =>
    ({ σ with head := fetcher.toSetIds.head, requests := σ.requests ++ [request] },
      [{ contract := σ.contract, fetcher, request }])
  | _ => ({ σ with head := fetcher.toSetIds.head }, [])

variable (keccak256 : List UInt8 → Bytes32) (config : Config) (chain : EpochChain crypto)

/-- A step. The head of the node does not move back. -/
def step (σ : System) : Action → System × List (Submission crypto)
  | .findAndRequestRotate node =>
    if h : σ.head.toNat ≤ node.head.toNat ∧ node.head.toNat ≤ chain.toSetIds.head.toNat then
      σ.submit (node.fetcher chain h.2)
        (VectorXOperator.findAndRequestRotate (node.fetcher chain h.2) σ.contract)
    else (σ, [])
  | .findAndRequestHeaderRange node idealBlockInterval =>
    if h : σ.head.toNat ≤ node.head.toNat ∧ node.head.toNat ≤ chain.toSetIds.head.toNat then
      σ.submit (node.fetcher chain h.2)
        (VectorXOperator.findAndRequestHeaderRange config (node.fetcher chain h.2) σ.contract
          idealBlockInterval)
    else (σ, [])
  | .fulfil i env =>
    match σ.requests[i]? with
    | none => (σ, [])
    | some request =>
      ({ σ with contract := (Contract.step keccak256 σ.contract (env, request.call)).1 }, [])

/-- The contract that is initialized with the genesis parameters. -/
def initial (head : UInt32) (p : GenesisParameters) (gateway : Address)
    (headerRangeFunctionId rotateFunctionId : Bytes32) (headerRangeCommitmentTreeSize : UInt32) :
    System where
  contract := State.genesis {
    gateway
    height := p.height
    header := p.header
    authoritySetId := p.authoritySetId
    authoritySetHash := p.authoritySetHash
    headerRangeFunctionId
    rotateFunctionId
    headerRangeCommitmentTreeSize }
  head
  requests := []

end Runs

/-! ## Valid requests -/

section Valid

/-- A header range from the latest block of the contract to `b` under the set with id `s`. -/
structure ValidHeaderRange (contract : State) (ids : SetIds) (request : Request) (s : UInt64)
    (b : UInt32) : Prop where
  input_eq : request.input = headerRangeInput contract.latestBlock
    (contract.blockHeightToHeaderHash contract.latestBlock) s (contract.authoritySetIdToHash s) b
  le_range : b.toNat ≤ contract.latestBlock.toNat + contract.headerRangeCommitmentTreeSize.toNat
  justified : JustifiedBy ids contract.latestBlock s b
  hash_ne : contract.authoritySetIdToHash s ≠ emptyBytes32
  latest_le : contract.latestAuthoritySetId ≤ s

/-- A rotation from the set with id `c`. -/
structure ValidRotate (contract : State) (ids : SetIds) (c : UInt64) : Prop where
  hash_ne : contract.authoritySetIdToHash c ≠ emptyBytes32
  next_eq : ∃ next : UInt64, next.toNat = c.toNat + 1 ∧
    contract.authoritySetIdToHash next = emptyBytes32
  epochEnd : ∃ b, ids.IsEpochEnd c.toNat b
  found : lastJustifiedBlock ids c ≠ some 0

/-- A valid submission. -/
def Submission.Valid (sub : Submission crypto) : Prop :=
  match sub.request.call with
  | .commitHeaderRange s b => ValidHeaderRange sub.contract sub.fetcher.toSetIds sub.request s b
  | .rotate c => ValidRotate sub.contract sub.fetcher.toSetIds c
  | _ => False

end Valid

/-! ## The invariant -/

section Invariant

/-- The contract has the hash of the set of its latest block, which is the one at the block before.
At genesis it is the one at the block itself. -/
def HasCurrentSet (ids : SetIds) (g : UInt32) (contract : State) : Prop :=
  ∃ h : ℕ, (h + 1 = contract.latestBlock.toNat ∨ contract.latestBlock = g ∧ h = g.toNat) ∧
    contract.latestAuthoritySetId = ids.setId h ∧
    contract.authoritySetIdToHash (ids.setId h) ≠ emptyBytes32

/-- A call that keeps the invariant: a rotation, or a commit to a block under the set before it. -/
def IsPending (ids : SetIds) (head : UInt32) (request : Request) : Prop :=
  match request.call with
  | .commitHeaderRange s b => 1 ≤ b.toNat ∧ b.toNat ≤ head.toNat ∧ ids.setId (b.toNat - 1) = s
  | .rotate _ => True
  | _ => False

structure OperatorInv (ids : SetIds) (g : UInt32) (σ : System) : Prop where
  head_le : σ.head.toNat ≤ ids.head.toNat
  pos : 1 ≤ σ.contract.latestBlock.toNat
  latest_le : σ.contract.latestBlock.toNat ≤ σ.head.toNat
  currentSet : HasCurrentSet ids g σ.contract
  pending : ∀ request ∈ σ.requests, IsPending ids σ.head request

/-- The invariant of a run, with what was submitted. -/
def RunInv (ids : SetIds) (g : UInt32) (σ : System) (subs : List (Submission crypto)) : Prop :=
  OperatorInv ids g σ ∧ ∀ sub ∈ subs, sub.Valid

variable {keccak256 : List UInt8 → Bytes32} {config : Config} {chain : EpochChain crypto}
  {ids : SetIds} {g head : UInt32} {σ : System} {contract : State}

/-- A request stays pending when the chain grows. -/
theorem IsPending.mono {ids' : SetIds} {head' : UInt32} {request : Request}
    (h : IsPending ids head request) (hids : ids.setId = ids'.setId)
    (hhead : head.toNat ≤ head'.toNat) : IsPending ids' head' request := by
  rw [IsPending] at h ⊢
  split at h
  · obtain ⟨hpos, hle, hs⟩ := h
    exact ⟨hpos, Nat.le_trans hle hhead, hids ▸ hs⟩
  · exact trivial
  · exact h

/-- The set at the latest block is known, and not older than the latest one of the contract, if it
is the current set or its hash was found. -/
theorem HasCurrentSet.hash_ne {s : UInt64} (h : HasCurrentSet ids g contract)
    (hlatest : contract.latestBlock.toNat ≤ ids.head.toNat)
    (hs : ids.setId contract.latestBlock.toNat = s)
    (hfound : ids.setId (contract.latestBlock.toNat - 1) = s ∨
      contract.authoritySetIdToHash s ≠ emptyBytes32) :
    contract.authoritySetIdToHash s ≠ emptyBytes32 ∧ contract.latestAuthoritySetId ≤ s := by
  obtain ⟨n, hn | ⟨hg, rfl⟩, hid, hhash⟩ := h
  · have hprev : contract.latestBlock.toNat - 1 = n := by omega
    rw [hprev] at hfound
    refine ⟨?_, ?_⟩
    · rcases hfound with heq | hne
      · rwa [← heq]
      · exact hne
    · rw [hid, ← hs, UInt64.le_iff_toNat_le]
      exact ids.grows.mono (by omega) hlatest
  · rw [hg] at hs
    rw [hid, ← hs]
    exact ⟨hhash, UInt64.le_refl _⟩

/-- The set before the latest block is known if the next one is not. -/
theorem HasCurrentSet.hash_ne_of_next {c next : UInt64} (h : HasCurrentSet ids g contract)
    (hpos : 1 ≤ contract.latestBlock.toNat) (hlatest : contract.latestBlock.toNat ≤ ids.head.toNat)
    (hc : ids.setId (contract.latestBlock.toNat - 1) = c) (hnext : next.toNat = c.toNat + 1)
    (hzero : contract.authoritySetIdToHash next = emptyBytes32) :
    contract.authoritySetIdToHash c ≠ emptyBytes32 := by
  obtain ⟨n, hn | ⟨hg, rfl⟩, -, hhash⟩ := h
  · have hprev : contract.latestBlock.toNat - 1 = n := by omega
    rwa [← hc, hprev]
  · -- at genesis the set may be the next one already
    rw [hg] at hpos hlatest hc
    have hstep := ids.grows (g.toNat - 1) (by omega)
    rw [Nat.sub_add_cancel hpos, SetIds.id, SetIds.id, hc] at hstep
    rcases hstep with hsame | hgrown
    · rwa [UInt64.toNat_inj.mp hsame] at hhash
    · rw [UInt64.toNat_inj.mp (hgrown.trans hnext.symm)] at hhash
      exact absurd hzero hhash

/-- A fulfilled request keeps the hash of the current set. -/
theorem HasCurrentSet.step {request : Request} {env : Env} (h : HasCurrentSet ids g contract)
    (hpos : 1 ≤ contract.latestBlock.toNat) (hlatest : contract.latestBlock.toNat ≤ head.toNat)
    (hpending : IsPending ids head request) :
    1 ≤ (Contract.step keccak256 contract (env, request.call)).1.latestBlock.toNat ∧
      (Contract.step keccak256 contract (env, request.call)).1.latestBlock.toNat ≤ head.toNat ∧
      HasCurrentSet ids g (Contract.step keccak256 contract (env, request.call)).1 := by
  rw [IsPending] at hpending
  rw [Contract.step]
  rcases hexec : Contract.exec keccak256 env contract request.call with e | ⟨contract', es⟩
  · exact ⟨hpos, hlatest, h⟩
  split at hpending
  · rename_i s b hcall
    obtain ⟨hb, hbhead, hs⟩ := hpending
    rw [hcall, Contract.exec] at hexec
    obtain ⟨-, -, hhash, hid, -, _, _, _, -, rfl, -⟩ := Contract.commitHeaderRange_eq_ok.mp hexec
    refine ⟨hb, hbhead, b.toNat - 1, Or.inl (Nat.sub_add_cancel hb), ?_, ?_⟩
    · rw [hs]
      change (if s > contract.latestAuthoritySetId then s else contract.latestAuthoritySetId) = s
      split
      · rfl
      · rename_i hle
        rw [gt_iff_lt, UInt64.lt_iff_toNat_lt] at hle
        rw [UInt64.lt_iff_toNat_lt] at hid
        exact UInt64.toNat_inj.mp (by omega)
    · rw [hs]
      exact hhash
  · rename_i c hcall
    rw [hcall, Contract.exec] at hexec
    obtain ⟨-, -, next, -, hzero, _, -, hash, -, rfl, -⟩ := Contract.rotate_eq_ok.mp hexec
    refine ⟨hpos, hlatest, ?_⟩
    obtain ⟨n, hn, hid, hhash⟩ := h
    refine ⟨n, hn, hid, ?_⟩
    change Function.update contract.authoritySetIdToHash next hash (ids.setId n) ≠ emptyBytes32
    rwa [Function.update_of_ne fun heq => hhash (by rw [heq]; exact hzero)]
  · exact absurd hpending id

/-- A rotation that is requested is valid. -/
theorem HasCurrentSet.valid_rotate {fetcher : RpcDataFetcher crypto} {request : Request}
    (h : HasCurrentSet fetcher.toSetIds g contract)
    (hlatest : contract.latestBlock.toNat ≤ fetcher.toSetIds.head.toNat)
    (hrequest : VectorXOperator.findAndRequestRotate fetcher contract = some (some request)) :
    Submission.Valid ⟨contract, fetcher, request⟩ ∧
      IsPending fetcher.toSetIds fetcher.toSetIds.head request := by
  obtain ⟨c, next, rfl, hpos, hc, hnext, hzero, hpassed⟩ := findAndRequestRotate_eq_some hrequest
  have hend := (fetcher.toSetIds.exists_isEpochEnd_iff c.toNat).mpr hpassed
  refine ⟨⟨h.hash_ne_of_next hpos hlatest hc hnext hzero, ⟨next, hnext, hzero⟩, hend, ?_⟩, trivial⟩
  intro hfound
  rcases lastJustifiedBlock_eq_some hfound with hat | ⟨hall, -⟩
  · exact absurd hat.2.pos (by decide)
  · exact absurd hpassed (Nat.not_lt.mpr hall)

/-- A header range that is requested is valid. -/
theorem HasCurrentSet.valid_headerRange {fetcher : RpcDataFetcher crypto} {interval : UInt32}
    {request : Request} (h : HasCurrentSet fetcher.toSetIds g contract)
    (hlatest : contract.latestBlock.toNat ≤ fetcher.toSetIds.head.toNat)
    (hrequest : VectorXOperator.findAndRequestHeaderRange config fetcher contract interval =
      some (some request)) :
    Submission.Valid ⟨contract, fetcher, request⟩ ∧
      IsPending fetcher.toSetIds fetcher.toSetIds.head request := by
  obtain ⟨s, b, rfl, hs, hfound, hrange, hjustified⟩ :=
    findAndRequestHeaderRange_eq_some hlatest hrequest
  obtain ⟨hhash, hle⟩ := h.hash_ne hlatest hs hfound
  have hlt := hjustified.lt
  exact ⟨⟨rfl, hrange, hjustified, hhash, hle⟩, by omega, hjustified.le_head,
    hjustified.setId_eq b.toNat hlt (Nat.le_refl _)⟩

/-- A look at the contract keeps the invariant if what is submitted is valid. -/
theorem OperatorInv.submit {fetcher : RpcDataFetcher crypto} {request : Option (Option Request)}
    (h : OperatorInv chain.toSetIds g σ) (hids : fetcher.toSetIds.setId = chain.toSetIds.setId)
    (hhead : σ.head.toNat ≤ fetcher.toSetIds.head.toNat)
    (hle : fetcher.toSetIds.head.toNat ≤ chain.toSetIds.head.toNat)
    (hvalid : ∀ r, request = some (some r) → Submission.Valid ⟨σ.contract, fetcher, r⟩ ∧
      IsPending fetcher.toSetIds fetcher.toSetIds.head r) :
    RunInv chain.toSetIds g (σ.submit fetcher request).1 (σ.submit fetcher request).2 := by
  have hpending : ∀ r ∈ σ.requests, IsPending chain.toSetIds fetcher.toSetIds.head r :=
    fun r hr => (h.pending r hr).mono rfl hhead
  have hkept : OperatorInv chain.toSetIds g { σ with head := fetcher.toSetIds.head } :=
    ⟨hle, h.pos, Nat.le_trans h.latest_le hhead, h.currentSet, hpending⟩
  rcases request with - | - | r
  · exact ⟨hkept, fun _ hmem => nomatch hmem⟩
  · exact ⟨hkept, fun _ hmem => nomatch hmem⟩
  · obtain ⟨hsub, hnew⟩ := hvalid r rfl
    refine ⟨⟨hle, h.pos, hkept.latest_le, h.currentSet, fun r' hr' => ?_⟩, fun sub hmem => ?_⟩
    · rcases List.mem_append.mp hr' with hold | hlast
      · exact hpending r' hold
      · rw [List.mem_singleton.mp hlast]
        exact hnew.mono hids (Nat.le_refl _)
    · rwa [List.mem_singleton.mp hmem]

/-- A step keeps the invariant and submits valid requests. -/
theorem OperatorInv.step (h : OperatorInv chain.toSetIds g σ) (action : Action) :
    RunInv chain.toSetIds g (VectorXOperator.step keccak256 config chain σ action).1
      (VectorXOperator.step keccak256 config chain σ action).2 := by
  cases action with
  | findAndRequestRotate node =>
    rw [VectorXOperator.step]
    split
    · rename_i hnode
      exact h.submit rfl hnode.1 hnode.2 fun r hr => h.currentSet.valid_rotate
        (Nat.le_trans h.latest_le hnode.1) hr
    · exact ⟨h, fun _ hmem => nomatch hmem⟩
  | findAndRequestHeaderRange node interval =>
    rw [VectorXOperator.step]
    split
    · rename_i hnode
      exact h.submit rfl hnode.1 hnode.2 fun r hr => h.currentSet.valid_headerRange
        (Nat.le_trans h.latest_le hnode.1) hr
    · exact ⟨h, fun _ hmem => nomatch hmem⟩
  | fulfil i env =>
    rw [VectorXOperator.step]
    split
    · exact ⟨h, fun _ hmem => nomatch hmem⟩
    · rename_i request hrequest
      obtain ⟨hpos, hlatest, hset⟩ := h.currentSet.step h.pos h.latest_le
        (h.pending request (List.mem_of_getElem? hrequest))
      exact ⟨⟨h.head_le, hpos, hlatest, hset, h.pending⟩, fun _ hmem => nomatch hmem⟩

variable (keccak256 config) in
/-- A step keeps the invariant of the run. -/
theorem RunInv.step {subs : List (Submission crypto)} (h : RunInv chain.toSetIds g σ subs)
    (action : Action) :
    RunInv chain.toSetIds g (VectorXOperator.step keccak256 config chain σ action).1
      (subs ++ (VectorXOperator.step keccak256 config chain σ action).2) := by
  obtain ⟨hinv, hnew⟩ := OperatorInv.step h.1 action
  exact ⟨hinv, fun sub hmem => (List.mem_append.mp hmem).elim (h.2 sub) (hnew sub)⟩

/-- A run keeps the invariant and submits valid requests. -/
theorem OperatorInv.run (h : OperatorInv chain.toSetIds g σ) (actions : List Action) :
    RunInv chain.toSetIds g (Run.run (VectorXOperator.step keccak256 config chain) σ actions).1
      (Run.run (VectorXOperator.step keccak256 config chain) σ actions).2 := by
  have hinit : RunInv chain.toSetIds g σ ([] : List (Submission crypto)) :=
    ⟨h, fun _ hmem => nomatch hmem⟩
  have hactions : ∀ action ∈ actions, True := fun _ _ => trivial
  have hrun := Run.run_invariant (RunInv chain.toSetIds g) (fun _ => True)
    (fun _ _ action _ hσ => RunInv.step keccak256 config hσ action) hinit hactions
  rwa [List.nil_append] at hrun

/-- The invariant holds at genesis. -/
theorem operatorInv_initial {p : GenesisParameters} {block : Option UInt32} {gateway : Address}
    {headerRangeFunctionId rotateFunctionId : Bytes32} {headerRangeCommitmentTreeSize : UInt32}
    (hhead : head.toNat ≤ chain.toSetIds.head.toNat)
    (hgenesis : genesis (chain.upTo head hhead) block = some p) (hpos : 1 ≤ p.height.toNat)
    (hhash : p.authoritySetHash ≠ emptyBytes32) :
    OperatorInv chain.toSetIds p.height (initial head p gateway headerRangeFunctionId rotateFunctionId
      headerRangeCommitmentTreeSize) := by
  obtain ⟨hle, hid, -⟩ := genesis_eq_some hgenesis
  refine ⟨hhead, hpos, hle, ⟨p.height.toNat, Or.inr ⟨rfl, rfl⟩, hid, ?_⟩, fun _ hmem => nomatch hmem⟩
  change Function.update (fun _ => emptyBytes32) p.authoritySetId p.authoritySetHash
    ((chain.upTo head hhead).toSetIds.setId p.height.toNat) ≠ emptyBytes32
  rwa [← hid, Function.update_self]

end Invariant

/-- **Operator.** Whatever the operator submits in a run from the genesis parameters of a block from
1 on is valid: every header range starts at the latest block, stays in range and below the head,
lies within one set whose hash the contract has, and every rotation is due and possible. -/
theorem submissions_valid {crypto : Crypto} (keccak256 : List UInt8 → Bytes32) (config : Config)
    (chain : EpochChain crypto) (head : UInt32) (hhead : head.toNat ≤ chain.toSetIds.head.toNat)
    (block : Option UInt32) (p : GenesisParameters)
    (hgenesis : genesis (chain.upTo head hhead) block = some p) (hpos : 1 ≤ p.height.toNat)
    (hhash : p.authoritySetHash ≠ emptyBytes32) (gateway : Address)
    (headerRangeFunctionId rotateFunctionId : Bytes32) (headerRangeCommitmentTreeSize : UInt32)
    (actions : List Action) :
    ∀ sub ∈ (Run.run (step keccak256 config chain) (initial head p gateway headerRangeFunctionId
      rotateFunctionId headerRangeCommitmentTreeSize) actions).2, sub.Valid :=
  ((operatorInv_initial hhead hgenesis hpos hhash).run actions).2

/-- A node of the reference chain without justifications. -/
def nodeAt (head : UInt32) : Node where
  head
  proveFinality _ := none
  redisJustification _ := none

/-- The dummy operator. -/
def dummyConfig : Config where
  isDummyOperator := true
  DUMMY_PUBLIC_KEY := emptyBytes32
  DUMMY_SIGNATURE := ArrayVariable.replicate 64 0
  MAX_AUTHORITY_SET_SIZE := 300

/-- The genesis parameters of block 1 of two epochs. -/
def firstBlockParameters : GenesisParameters where
  height := 1
  header := Reference.blockHash (Reference.logHeader (fun _ => []) 1)
  authoritySetId := 0
  authoritySetHash := Reference.authoritySetHash

/-- The rotation at the end of the first epoch, the rest of the epoch, and the next block. -/
def twoEpochActions : List Action :=
  [.findAndRequestRotate (nodeAt 3), .fulfil 0 (Contract.constantEnv (List.replicate 96 7)),
    .findAndRequestHeaderRange (nodeAt 3) 1, .fulfil 1 (Contract.constantEnv (List.replicate 96 7)),
    .findAndRequestHeaderRange (nodeAt 3) 1]

set_option maxRecDepth 4000 in
/-- What the operator submits for two epochs. -/
theorem submissions_valid_twoEpochs :
    (Run.run (step Reference.keccak256 dummyConfig (Reference.twoEpochChain [] []))
        (initial 1 firstBlockParameters (ArrayVariable.replicate 20 1) (ArrayVariable.replicate 32 1)
          (ArrayVariable.replicate 32 2) 256) twoEpochActions).2.map (fun sub => sub.request.call) =
        [.rotate 0, .commitHeaderRange 0 2, .commitHeaderRange 1 3] ∧
      ∀ sub ∈ (Run.run (step Reference.keccak256 dummyConfig (Reference.twoEpochChain [] []))
        (initial 1 firstBlockParameters (ArrayVariable.replicate 20 1) (ArrayVariable.replicate 32 1)
          (ArrayVariable.replicate 32 2) 256) twoEpochActions).2, sub.Valid :=
  ⟨rfl, submissions_valid Reference.keccak256 dummyConfig (Reference.twoEpochChain [] []) 1 (by decide)
    (some 1) firstBlockParameters rfl (by decide) (by decide +kernel) (ArrayVariable.replicate 20 1)
    (ArrayVariable.replicate 32 1) (ArrayVariable.replicate 32 2) 256 twoEpochActions⟩

end VectorXOperator

end VectorX
