import VectorX.Bin.OperatorProgress
import VectorX.Bin.Prover

/-!
# The platform

The operator, the provers and the contract together. The gateway has outputs that provers with a
node on the chain have proved, for whatever request. Then the contract stores nothing but hashes of
the chain, and if nodes serve the justifications of the blocks that the operator steps to, it
catches up with the chain.
-/

namespace VectorX

open Plonky2x Solidity
open Contract (State Env Call Settings headerRangeInput rotateInput)

variable {crypto : Crypto}

namespace VectorXOperator

/-! ## Provers -/

section Provers

/-- The functions that the platform knows, and the size of the header range circuit. -/
structure Platform where
  MAX_NUM_HEADERS : ℕ
  headerRangeFunctionId : Bytes32
  rotateFunctionId : Bytes32
  functionId_ne : headerRangeFunctionId ≠ rotateFunctionId

variable (platform : Platform) (config : Config)

/-- Run the circuit of a function. -/
def Platform.prove (fetcher : RpcDataFetcher crypto) (functionId : Bytes32) (input : List UInt8) :
    Option (List UInt8) :=
  if functionId = platform.headerRangeFunctionId then do
    let input ← newArray 80 input
    proveHeaderRange fetcher config.DUMMY_PUBLIC_KEY config.DUMMY_SIGNATURE
      config.MAX_AUTHORITY_SET_SIZE platform.MAX_NUM_HEADERS input
  else if functionId = platform.rotateFunctionId then do
    let input ← newArray 40 input
    proveRotate fetcher config.DUMMY_PUBLIC_KEY config.DUMMY_SIGNATURE MAX_HEADER_SIZE
      config.MAX_AUTHORITY_SET_SIZE (config.MAX_AUTHORITY_SET_SIZE * VALIDATOR_LENGTH + DELAY_LENGTH)
      input
  else none

/-- What the gateway has verified was proved by a prover with a node on the chain. -/
def Proved (chain : EpochChain crypto) (env : Env) : Prop :=
  ∀ gateway functionId input output, env.verifiedCall gateway functionId input = some output →
    ∃ (node : Node) (h : node.head.toNat ≤ chain.toSetIds.head.toNat),
      platform.prove config (node.fetcher chain h) functionId input = some output

variable {platform config} {fetcher : RpcDataFetcher crypto}

theorem prove_headerRange (input : BytesVariable 80) :
    platform.prove config fetcher platform.headerRangeFunctionId input.data =
      proveHeaderRange fetcher config.DUMMY_PUBLIC_KEY config.DUMMY_SIGNATURE
        config.MAX_AUTHORITY_SET_SIZE platform.MAX_NUM_HEADERS input := by
  rw [Platform.prove, if_pos rfl, newArray_data]
  rfl

theorem prove_rotate (input : BytesVariable 40) :
    platform.prove config fetcher platform.rotateFunctionId input.data =
      proveRotate fetcher config.DUMMY_PUBLIC_KEY config.DUMMY_SIGNATURE MAX_HEADER_SIZE
        config.MAX_AUTHORITY_SET_SIZE
        (config.MAX_AUTHORITY_SET_SIZE * VALIDATOR_LENGTH + DELAY_LENGTH) input := by
  rw [Platform.prove, if_neg platform.functionId_ne.symm, if_pos rfl, newArray_data]
  rfl

/-- The input for a rotation has 40 bytes. -/
theorem exists_rotateInput (id : UInt64) (hash : Bytes32) :
    ∃ input : BytesVariable 40, input.data = rotateInput id hash :=
  ⟨⟨rotateInput id hash, by
    rw [rotateInput, List.length_append, Bytes.length_beBytes, hash.length_data]⟩, rfl⟩

end Provers

/-! ## Assumptions -/

section Assumptions

/-- What the circuits need of a chain: the authorities of a set stay the same, their number and the
headers fit, each epoch end announces the next authorities, and no hash is zero. -/
structure Provable (chain : EpochChain crypto) (MAX_AUTHORITY_SET_SIZE : ℕ) : Prop where
  size_lt : 3 * MAX_AUTHORITY_SET_SIZE < 2 ^ 32
  sameSet : ∀ a b, a ≤ chain.toSetIds.head.toNat → b ≤ chain.toSetIds.head.toNat →
    chain.toSetIds.setId a = chain.toSetIds.setId b →
    chain.grandpaAuthorities a = chain.grandpaAuthorities b
  authorities_le : ∀ b keys, getAuthorities chain b = some keys → keys.length ≤ MAX_AUTHORITY_SET_SIZE
  headersFit : HeadersFit chain.toChain 0 chain.toSetIds.head.toNat
  announces : ∀ (t : ℕ) (b : UInt32), chain.toSetIds.IsEpochEnd t b.toNat → ∃ keys before after,
    Announces chain MAX_HEADER_SIZE MAX_AUTHORITY_SET_SIZE b keys before after
  header_ne : ∀ n, n ≤ chain.toSetIds.head.toNat → (chain.header n).hash crypto ≠ emptyBytes32
  authoritySet_ne : ∀ b hash, RpcDataFetcher.computeAuthoritySetHash chain b = some hash →
    hash ≠ emptyBytes32

/-- What a node has for a block: a finality proof at the end of an epoch, or else the record of a
justification that supports it. -/
inductive Justified (config : Config) (fetcher : RpcDataFetcher crypto) (b : UInt32) : Prop
  | finality {authorities : List Bytes32Variable} {justification : GrandpaJustification}
      {first : SignedPrecommit} (isEpochEnd : ∃ t, fetcher.toSetIds.IsEpochEnd t b.toNat)
      (finalizes : Finalizes fetcher b authorities justification first)
  | indexed {justification : GrandpaJustification} {stored : StoredJustificationData}
      (listen : listenForJustification fetcher.toEpochChain config.DUMMY_SIGNATURE justification =
        some (some stored))
      (supports : SupportsTarget fetcher.toEpochChain justification)
      (redis : fetcher.redisJustification b = some stored) (number_eq : stored.blockNumber = b)

/-- From the latest block on, the node can justify the ends of epochs and the multiples of the
interval. -/
def Justifies (config : Config) (fetcher : RpcDataFetcher crypto) (interval latest : UInt32) : Prop :=
  ∀ b : UInt32, latest.toNat ≤ b.toNat → b.toNat ≤ fetcher.toSetIds.head.toNat →
    ((∃ t, fetcher.toSetIds.IsEpochEnd t b.toNat) ∨
      latest.toNat < b.toNat ∧ b.toNat % interval.toNat = 0) →
    Justified config fetcher b

variable (platform : Platform) (config : Config) (chain : EpochChain crypto) (interval : UInt32)

/-- The node sees the block `target` and can justify what the operator steps to, and the gateway has
what a prover with this node proves for the requests. -/
structure RoundProved (target : UInt32) (σ : System) (node : Node) (env : Env) : Prop where
  head_mono : σ.head.toNat ≤ node.head.toNat
  head_le : node.head.toNat ≤ chain.toSetIds.head.toNat
  target_le : target.toNat ≤ node.head.toNat
  justifies : Justifies config (node.fetcher chain head_le) interval σ.contract.latestBlock
  answers : ∀ request,
    VectorXOperator.findAndRequestRotate (node.fetcher chain head_le) σ.contract =
        some (some request) ∨
      VectorXOperator.findAndRequestHeaderRange config (node.fetcher chain head_le) σ.contract
        interval = some (some request) →
    ∀ output, platform.prove config (node.fetcher chain head_le) request.functionId request.input =
        some output →
      env.verifiedCall σ.contract.gateway request.functionId request.input = some output

/-- What the platform does: outputs are proved, and rounds are answered. -/
def Honest (target : UInt32) (σ : System) : Move → Prop
  | .action (.fulfil _ env) => Proved platform config chain env
  | .action _ => True
  | .round node env =>
    Proved platform config chain env ∧
      RoundProved platform config chain interval target σ node env

end Assumptions

/-! ## The chain of a node -/

section Nodes

variable {chain : EpochChain crypto} {head : UInt32} {h : head.toNat ≤ chain.toSetIds.head.toNat}

theorem getAuthorities_upTo {b : UInt32} (hb : b.toNat ≤ head.toNat) :
    getAuthorities (chain.upTo head h) b = getAuthorities chain b := by
  have hle : b ≤ (chain.upTo head h).head ↔ b ≤ chain.head :=
    iff_of_true (UInt32.le_iff_toNat_le.mpr hb) (UInt32.le_iff_toNat_le.mpr (Nat.le_trans hb h))
  simp only [getAuthorities, hle]
  rfl

/-- The authorities are only reported up to the head. -/
theorem le_head_of_getAuthorities {b : UInt32} {keys : List Bytes32Variable}
    (hkeys : getAuthorities chain b = some keys) : b.toNat ≤ chain.toSetIds.head.toNat := by
  rw [getAuthorities] at hkeys
  split at hkeys
  · rename_i hle
    exact UInt32.le_iff_toNat_le.mp hle.1
  · exact absurd hkeys (by simp)

theorem computeAuthoritySetHash_upTo {b : UInt32} (hb : b.toNat ≤ head.toNat) :
    RpcDataFetcher.computeAuthoritySetHash (chain.upTo head h) b =
      RpcDataFetcher.computeAuthoritySetHash chain b := by
  rw [RpcDataFetcher.computeAuthoritySetHash, RpcDataFetcher.computeAuthoritySetHash,
    getAuthorities_upTo hb]

/-- The hash of a set is only reported up to the head. -/
theorem le_head_of_computeAuthoritySetHash {b : UInt32} {hash : Bytes32Variable}
    (hhash : RpcDataFetcher.computeAuthoritySetHash chain b = some hash) :
    b.toNat ≤ chain.toSetIds.head.toNat := by
  rw [RpcDataFetcher.computeAuthoritySetHash, Option.bind_eq_bind, Option.bind_eq_some_iff] at hhash
  obtain ⟨keys, hkeys, -⟩ := hhash
  exact le_head_of_getAuthorities hkeys

variable {MAX_AUTHORITY_SET_SIZE : ℕ}

/-- The hash of a set is the same at all of its blocks. -/
theorem Provable.computeAuthoritySetHash_eq (hchain : Provable chain MAX_AUTHORITY_SET_SIZE)
    {a b : UInt32} (ha : a.toNat ≤ chain.toSetIds.head.toNat)
    (hb : b.toNat ≤ chain.toSetIds.head.toNat)
    (heq : chain.toSetIds.setId a.toNat = chain.toSetIds.setId b.toNat) :
    RpcDataFetcher.computeAuthoritySetHash chain a =
      RpcDataFetcher.computeAuthoritySetHash chain b := by
  have hle : a ≤ chain.head ↔ b ≤ chain.head :=
    iff_of_true (UInt32.le_iff_toNat_le.mpr ha) (UInt32.le_iff_toNat_le.mpr hb)
  simp only [RpcDataFetcher.computeAuthoritySetHash, getAuthorities, hle,
    hchain.sameSet a.toNat b.toNat ha hb heq]

/-- The slots are fewer than the elements of the field. -/
theorem Provable.lt_goldilocks (hchain : Provable chain MAX_AUTHORITY_SET_SIZE) :
    MAX_AUTHORITY_SET_SIZE < GOLDILOCKS := by
  have hsize := hchain.size_lt
  have hbig := two_pow_32_lt_goldilocks
  omega

variable (head h) in
/-- What a node sees of the chain fits, too. -/
theorem Provable.upTo (hchain : Provable chain MAX_AUTHORITY_SET_SIZE) :
    Provable (chain.upTo head h) MAX_AUTHORITY_SET_SIZE where
  size_lt := hchain.size_lt
  sameSet a b ha hb heq := hchain.sameSet a b (Nat.le_trans ha h) (Nat.le_trans hb h) heq
  authorities_le b keys hkeys := by
    have hb : b.toNat ≤ head.toNat := le_head_of_getAuthorities hkeys
    rw [getAuthorities_upTo hb] at hkeys
    exact hchain.authorities_le b keys hkeys
  headersFit n hpos hn := hchain.headersFit n hpos (Nat.le_trans hn h)
  announces t b hend := by
    obtain ⟨keys, before, after, hlog⟩ := hchain.announces t b ⟨Nat.le_trans hend.1 h, hend.2⟩
    refine ⟨keys, before, after, ⟨⟨t, hend⟩, ?_, hlog.announces.logs_eq, hlog.announces.isFirst,
      hlog.announces.encodable⟩, hlog.fits, hlog.count_lt, hlog.length_pos, hlog.length_le, hlog.window⟩
    exact (getAuthorities_upTo hend.1).trans hlog.announces.authorities
  header_ne n hn := hchain.header_ne n (Nat.le_trans hn h)
  authoritySet_ne b hash hhash := by
    have hb : b.toNat ≤ head.toNat := le_head_of_computeAuthoritySetHash hhash
    rw [computeAuthoritySetHash_upTo hb] at hhash
    exact hchain.authoritySet_ne b hash hhash

variable {config : Config} {fetcher : RpcDataFetcher crypto} {b : UInt32}

/-- The hint justifies what the node can justify. -/
theorem Justified.hintJustifies (hb : Justified config fetcher b)
    (hchain : Provable fetcher.toEpochChain config.MAX_AUTHORITY_SET_SIZE) :
    HintJustifies fetcher config.DUMMY_PUBLIC_KEY config.DUMMY_SIGNATURE config.MAX_AUTHORITY_SET_SIZE
      b := by
  have hsize := hchain.size_lt
  cases hb with
  | finality isEpochEnd finalizes =>
    have hmax := hchain.authorities_le _ _ finalizes.authorities_eq
    exact finalizes.hintJustifies config.DUMMY_PUBLIC_KEY config.DUMMY_SIGNATURE isEpochEnd hmax
      (by omega)
  | indexed listen supports redis number_eq =>
    subst number_eq
    have hfits := (fitsCircuit_iff_supportsTarget listen).mpr supports
    obtain ⟨authorities, hauthorities, -, hnum⟩ := hfits.pubkeys
    have hmax := hchain.authorities_le _ _ hauthorities
    exact (FitsCircuit.accepted config.DUMMY_PUBLIC_KEY listen hfits).hintJustifies redis (by omega)
      (by omega)

/-- The operator gets a justification where the hint does. -/
theorem exists_askJustification
    (hb : HintJustifies fetcher config.DUMMY_PUBLIC_KEY config.DUMMY_SIGNATURE
      config.MAX_AUTHORITY_SET_SIZE b) : ∃ j, askJustification config fetcher b = some (.ok j) := by
  obtain ⟨justification, -, hhint, -⟩ := hb
  rw [hintSimpleJustification, Option.bind_eq_bind, Option.bind_eq_some_iff] at hhint
  obtain ⟨j | j, hj, hok⟩ := hhint
  · exact absurd hok (by simp)
  · exact ⟨j, hj⟩

end Nodes

/-! ## Outputs -/

section Outputs

variable (platform : Platform) (config : Config) (chain : EpochChain crypto)

/-- What the contract asks the gateway for. -/
inductive CanonicalInput : Bytes32 → List UInt8 → Prop
  | headerRange {T G : UInt32} (id : UInt64) (authoritySetHash : Bytes32) (lt : T.toNat < G.toNat)
      (bound : T.toNat + 8 * numMapJobs platform.MAX_NUM_HEADERS < 2 ^ 32) :
      CanonicalInput platform.headerRangeFunctionId
        (headerRangeInput T ((chain.header T.toNat).hash crypto) id authoritySetHash G)
  | rotate (id : UInt64) (authoritySetHash : Bytes32) :
      CanonicalInput platform.rotateFunctionId (rotateInput id authoritySetHash)

open Classical in
/-- The gateway, without the outputs that the contract does not ask for. -/
noncomputable def canonicalEnv (env : Env) : Env :=
  { env with
    verifiedCall := fun gateway functionId input =>
      if CanonicalInput platform chain functionId input then env.verifiedCall gateway functionId input
      else none }

variable {platform config chain} {env : Env} {gateway : Address} {functionId : Bytes32}
  {input output : List UInt8} {T G : UInt32} {id : UInt64} {authoritySetHash : Bytes32}

theorem verifiedCall_canonicalEnv (h : CanonicalInput platform chain functionId input) :
    (canonicalEnv platform chain env).verifiedCall gateway functionId input =
      env.verifiedCall gateway functionId input := if_pos h

/-- The first word of an output for a header range is the hash of the target. -/
theorem Proved.headerRange (hproved : Proved platform config chain env)
    (hlt : T.toNat < G.toNat)
    (hbound : T.toNat + 8 * numMapJobs platform.MAX_NUM_HEADERS < 2 ^ 32)
    (h : env.verifiedCall gateway platform.headerRangeFunctionId
      (headerRangeInput T ((chain.header T.toNat).hash crypto) id authoritySetHash G) = some output) :
    G.toNat ≤ chain.toSetIds.head.toNat ∧
      decodeWord output 0 = some ((chain.header G.toNat).hash crypto) := by
  obtain ⟨node, hnode, hprove⟩ := hproved _ _ _ _ h
  rw [show headerRangeInput T ((chain.header T.toNat).hash crypto) id authoritySetHash G =
    (packHeaderRangeInput T ((chain.header T.toNat).hash crypto) id authoritySetHash G).data from rfl,
    prove_headerRange] at hprove
  obtain ⟨hhead, rfl⟩ := proveHeaderRange_canonical hlt hbound hprove
  refine ⟨Nat.le_trans hhead hnode, ?_⟩
  rw [(Contract.decodeWord_bytes _).1, targetHeaderHash_chainOutput _ _ hlt]
  rfl

/-- The first word of an output for a rotation is the hash of the next set, at its first block. -/
theorem Proved.rotate (hproved : Proved platform config chain env)
    (hfield : config.MAX_AUTHORITY_SET_SIZE < GOLDILOCKS)
    (h : env.verifiedCall gateway platform.rotateFunctionId (rotateInput id authoritySetHash) =
      some output) :
    ∃ (b : UInt32) (hash : Bytes32), b.toNat ≤ chain.toSetIds.head.toNat ∧
      chain.toSetIds.id b.toNat = id.toNat + 1 ∧
      RpcDataFetcher.computeAuthoritySetHash chain b = some hash ∧ decodeWord output 0 = some hash := by
  obtain ⟨node, hnode, hprove⟩ := hproved _ _ _ _ h
  obtain ⟨input, hinput⟩ := exists_rotateInput id authoritySetHash
  rw [← hinput, prove_rotate] at hprove
  obtain ⟨b, hash, hend, hhash, rfl⟩ := proveRotate_canonical hfield hinput hprove
  have hb : b.toNat ≤ node.head.toNat := hend.1
  refine ⟨b, hash, Nat.le_trans hb hnode, hend.2.at_eq, ?_, ?_⟩
  · rw [← hhash]
    exact (computeAuthoritySetHash_upTo (h := hnode) hb).symm
  · have hword := decodeWord_append [] hash [] (i := 0) rfl
    rwa [List.nil_append, List.append_nil] at hword

/-- No output that the contract asks for starts with the zero word. -/
theorem Proved.nonzeroOutputs (hproved : Proved platform config chain env)
    (hchain : Provable chain config.MAX_AUTHORITY_SET_SIZE) :
    NonzeroOutputs (canonicalEnv platform chain env) := by
  intro gateway functionId input output houtput hzero
  have hinput : CanonicalInput platform chain functionId input := by
    by_contra hnot
    exact absurd (houtput.symm.trans (if_neg hnot)) (by simp)
  rw [verifiedCall_canonicalEnv hinput] at houtput
  cases hinput with
  | headerRange id authoritySetHash lt bound =>
    obtain ⟨hhead, hword⟩ := hproved.headerRange lt bound houtput
    exact hchain.header_ne _ hhead (Option.some.inj (hword.symm.trans hzero))
  | rotate id authoritySetHash =>
    obtain ⟨b, hash, -, -, hhash, hword⟩ := hproved.rotate hchain.lt_goldilocks houtput
    exact hchain.authoritySet_ne b hash hhash (Option.some.inj (hword.symm.trans hzero))

end Outputs

/-! ## Canonical storage -/

section Storage

/-- The stored block hashes are those of the chain, and the stored authority set hashes are those of
its sets. -/
structure CanonicalStorage (chain : EpochChain crypto) (contract : State) : Prop where
  header : ∀ b, contract.blockHeightToHeaderHash b ≠ emptyBytes32 →
    b.toNat ≤ chain.toSetIds.head.toNat ∧
      contract.blockHeightToHeaderHash b = (chain.header b.toNat).hash crypto
  authoritySet : ∀ id, contract.authoritySetIdToHash id ≠ emptyBytes32 →
    ∃ b : UInt32, b.toNat ≤ chain.toSetIds.head.toNat ∧ chain.toSetIds.setId b.toNat = id ∧
      RpcDataFetcher.computeAuthoritySetHash chain b = some (contract.authoritySetIdToHash id)

variable {keccak256 : List UInt8 → Bytes32} {platform : Platform} {config : Config}
  {chain : EpochChain crypto} {contract : State} {env : Env} {ids : SetIds} {head : UInt32}
  {request : Request}

/-- The contract calls the functions of the platform, and the next header range has no overflow. -/
structure UsesPlatform (platform : Platform) (contract : State) : Prop where
  headerRangeFunctionId : contract.headerRangeFunctionId = platform.headerRangeFunctionId
  rotateFunctionId : contract.rotateFunctionId = platform.rotateFunctionId
  bound : contract.latestBlock.toNat + 8 * numMapJobs platform.MAX_NUM_HEADERS < 2 ^ 32

/-- The next block hash of a commit. -/
theorem CanonicalStorage.commitsHeader (h : CanonicalStorage chain contract)
    (huses : UsesPlatform platform contract) (hproved : Proved platform config chain env)
    {s : UInt64} {b : UInt32} {headerHash stateRoot dataRoot : Bytes32}
    (htrusted : contract.blockHeightToHeaderHash contract.latestBlock ≠ emptyBytes32)
    (hlt : contract.latestBlock < b)
    (hverified : Contract.VerifiedOutput env contract s b headerHash stateRoot dataRoot) :
    b.toNat ≤ chain.toSetIds.head.toNat ∧ headerHash = (chain.header b.toNat).hash crypto := by
  obtain ⟨output, houtput, hword, -, -⟩ := hverified
  rw [huses.headerRangeFunctionId, (h.header _ htrusted).2] at houtput
  obtain ⟨hhead, hhash⟩ := hproved.headerRange (UInt32.lt_iff_toNat_lt.mp hlt) huses.bound houtput
  exact ⟨hhead, Option.some.inj (hword.symm.trans hhash)⟩

/-- A fulfilled request keeps the storage canonical. -/
theorem CanonicalStorage.fulfil (h : CanonicalStorage chain contract)
    (hfield : config.MAX_AUTHORITY_SET_SIZE < GOLDILOCKS)
    (huses : UsesPlatform platform contract) (hproved : Proved platform config chain env)
    (hpending : IsPending ids head request) :
    CanonicalStorage chain (Contract.step keccak256 contract (env, request.call)).1 := by
  rw [IsPending] at hpending
  rw [Contract.step]
  rcases hexec : Contract.exec keccak256 env contract request.call with e | ⟨contract', es⟩
  · exact h
  split at hpending
  · rename_i s b hcall
    rw [hcall, Contract.exec] at hexec
    obtain ⟨-, htrusted, -, -, hlt, headerHash, stateRoot, dataRoot, hverified, rfl, -⟩ :=
      Contract.commitHeaderRange_eq_ok.mp hexec
    obtain ⟨hhead, rfl⟩ := h.commitsHeader huses hproved htrusted hlt hverified
    exact ⟨Updates.forall_update
      (P := fun (b : UInt32) hash => b.toNat ≤ chain.toSetIds.head.toNat ∧
        hash = (chain.header b.toNat).hash crypto)
      h.header ⟨hhead, rfl⟩, h.authoritySet⟩
  · rename_i c hcall
    rw [hcall, Contract.exec] at hexec
    obtain ⟨-, -, next, hnext, -, output, houtput, hash, hword, rfl, -⟩ :=
      Contract.rotate_eq_ok.mp hexec
    rw [huses.rotateFunctionId] at houtput
    obtain ⟨b, hash', hb, hid, hhash, hword'⟩ := hproved.rotate hfield houtput
    obtain rfl := Option.some.inj (hword.symm.trans hword')
    have hat : chain.toSetIds.setId b.toNat = next :=
      UInt64.toNat_inj.mp (hid.trans (Contract.nextAuthoritySetId_eq_some.mp hnext).symm)
    exact ⟨h.header, Updates.forall_update
      (P := fun id hash => ∃ b : UInt32, b.toNat ≤ chain.toSetIds.head.toNat ∧
        chain.toSetIds.setId b.toNat = id ∧ RpcDataFetcher.computeAuthoritySetHash chain b = some hash)
      h.authoritySet ⟨b, hb, hat, hhash⟩⟩
  · exact absurd hpending id

/-- Two environments in which the same calls succeed with the same effect. -/
theorem step_congr {env' : Env} {call : Call}
    (h : ∀ s' es, Contract.exec keccak256 env contract call = .ok (s', es) ↔
      Contract.exec keccak256 env' contract call = .ok (s', es)) :
    Contract.step keccak256 contract (env, call) = Contract.step keccak256 contract (env', call) := by
  rw [Contract.step, Contract.step]
  rcases hexec : Contract.exec keccak256 env contract call with e | ⟨s', es⟩
  · rcases hexec' : Contract.exec keccak256 env' contract call with e' | ⟨s', es⟩
    · rfl
    · exact absurd (hexec.symm.trans ((h s' es).mpr hexec')) (by simp)
  · simp only [(h s' es).mp hexec]

/-- The contract only asks for the outputs of canonical inputs. -/
theorem CanonicalStorage.step_canonicalEnv (h : CanonicalStorage chain contract)
    (huses : UsesPlatform platform contract) (hpending : IsPending ids head request) :
    Contract.step keccak256 contract (canonicalEnv platform chain env, request.call) =
      Contract.step keccak256 contract (env, request.call) := by
  refine step_congr fun s' es => ?_
  rw [IsPending] at hpending
  split at hpending
  · rename_i s b hcall
    rw [hcall, Contract.exec, Contract.exec, Contract.commitHeaderRange_eq_ok,
      Contract.commitHeaderRange_eq_ok]
    refine and_congr_right fun _ => and_congr_right fun htrusted => and_congr_right fun _ =>
      and_congr_right fun _ => and_congr_right fun hlt => ?_
    have hinput : CanonicalInput platform chain contract.headerRangeFunctionId
        (headerRangeInput contract.latestBlock
          (contract.blockHeightToHeaderHash contract.latestBlock) s (contract.authoritySetIdToHash s)
          b) := by
      rw [huses.headerRangeFunctionId, (h.header _ htrusted).2]
      exact .headerRange _ _ (UInt32.lt_iff_toNat_lt.mp hlt) huses.bound
    have hverified : ∀ headerHash stateRoot dataRoot,
        Contract.VerifiedOutput (canonicalEnv platform chain env) contract s b headerHash stateRoot
            dataRoot ↔
          Contract.VerifiedOutput env contract s b headerHash stateRoot dataRoot := by
      intro headerHash stateRoot dataRoot
      constructor
      · rintro ⟨houtput⟩
        exact ⟨by rwa [verifiedCall_canonicalEnv hinput] at houtput⟩
      · rintro ⟨houtput⟩
        exact ⟨by rwa [verifiedCall_canonicalEnv hinput]⟩
    simp only [hverified]
  · rename_i c hcall
    have hinput : CanonicalInput platform chain contract.rotateFunctionId
        (rotateInput c (contract.authoritySetIdToHash c)) := by
      rw [huses.rotateFunctionId]
      exact .rotate _ _
    rw [hcall, Contract.exec, Contract.exec, Contract.rotate_eq_ok, Contract.rotate_eq_ok]
    simp only [verifiedCall_canonicalEnv hinput]
  · exact absurd hpending id

end Storage

/-! ## Requests -/

section Requests

variable {platform : Platform} {config : Config} {chain : EpochChain crypto}
  {interval target g : UInt32} {σ : System} {node : Node} {env : Env} {contract : State}
  {request : Request}

/-- A node has the stored hash of a set at the block before one that the set justifies. -/
theorem CanonicalStorage.computeAuthoritySetHash_eq (h : CanonicalStorage chain contract)
    (hchain : Provable chain config.MAX_AUTHORITY_SET_SIZE) {head : UInt32}
    (hhead : head.toNat ≤ chain.toSetIds.head.toNat) {id : UInt64} {b : UInt32}
    (hne : contract.authoritySetIdToHash id ≠ emptyBytes32) (hpos : 1 ≤ b.toNat)
    (hb : b.toNat ≤ head.toNat) (hid : chain.toSetIds.setId (b.toNat - 1) = id) :
    RpcDataFetcher.computeAuthoritySetHash (chain.upTo head hhead) (b - 1) =
      some (contract.authoritySetIdToHash id) := by
  have hprev : (b - 1).toNat = b.toNat - 1 :=
    UInt32.toNat_sub_of_le _ _ (UInt32.le_iff_toNat_le.mpr hpos)
  obtain ⟨b', hb', hid', hhash⟩ := h.authoritySet id hne
  rw [computeAuthoritySetHash_upTo (by omega), ← hhash]
  exact hchain.computeAuthoritySetHash_eq (by omega) hb' (by rw [hprev, hid, hid'])

/-- A requested rotation is answered. -/
theorem RoundProved.answers_rotate
    (h : RoundProved platform config chain interval target σ node env)
    (hchain : Provable chain config.MAX_AUTHORITY_SET_SIZE)
    (hstorage : CanonicalStorage chain σ.contract) (huses : UsesPlatform platform σ.contract)
    (hoperator : OperatorInv chain.toSetIds g σ) (hhead : chain.toSetIds.head.toNat < 2 ^ 31)
    (hrequest : VectorXOperator.findAndRequestRotate (node.fetcher chain h.head_le) σ.contract =
      some (some request)) :
    Answers (canonicalEnv platform chain env) σ.contract.gateway request := by
  have hnode := h.head_le
  have hlatest := Nat.le_trans hoperator.latest_le h.head_mono
  have hset : HasCurrentSet (node.fetcher chain h.head_le).toSetIds g σ.contract :=
    hoperator.currentSet
  have hvalid := (hset.valid_rotate hlatest hrequest).1
  obtain ⟨c, next, rfl, hpos, hc, -, -, -⟩ := findAndRequestRotate_eq_some hrequest
  obtain ⟨e, hend⟩ := hvalid.epochEnd
  have hval : (UInt32.ofNat e).toNat = e :=
    UInt32.toNat_ofNat_of_lt' (Nat.lt_of_le_of_lt hend.1 node.head.toNat_lt)
  rw [← hval] at hend
  generalize UInt32.ofNat e = b at hend
  have hbpos := hend.2.pos
  have hle : b.toNat ≤ node.head.toNat := hend.1
  -- the latest block is justified by the set, or the last one that is
  have hlt := (hend.lt_iff (h := σ.contract.latestBlock.toNat - 1)
    (show _ ≤ node.head.toNat by omega)).mpr (by rw [SetIds.id, hc])
  have hnodeChain : Provable (node.fetcher chain h.head_le).toEpochChain config.MAX_AUTHORITY_SET_SIZE :=
    hchain.upTo node.head h.head_le
  have hjust := (h.justifies b (by omega) hle (Or.inl ⟨_, hend⟩)).hintJustifies hnodeChain
  obtain ⟨keys, before, after, hannounces⟩ := hnodeChain.announces _ b hend
  have hbefore : chain.toSetIds.setId (b.toNat - 1) = c := UInt64.toNat_inj.mp hend.2.before
  have hhash := hstorage.computeAuthoritySetHash_eq hchain hnode hvalid.hash_ne hbpos hle hbefore
  have hsmall := id_le chain.toSetIds b.toNat (by omega)
  have hat : chain.toSetIds.id b.toNat = c.toNat + 1 := hend.2.at_eq
  have hlast := lastJustifiedBlock_of_isEpochEnd (by omega) (Nat.lt_of_le_of_lt hnode hhead) hend
  have hsize := hchain.size_lt
  have hgold := two_pow_32_lt_goldilocks
  obtain ⟨input, hinput⟩ := exists_rotateInput c (σ.contract.authoritySetIdToHash c)
  obtain ⟨output, -, hproved⟩ := proveRotate_of_hintJustifies hannounces (by omega) (by decide) rfl hlast
    hbefore hjust hhash hinput
  rw [← prove_rotate, ← huses.rotateFunctionId, hinput] at hproved
  refine ⟨output.data, ?_, output.length_data.ge⟩
  rw [verifiedCall_canonicalEnv]
  · exact h.answers _ (Or.inl hrequest) _ hproved
  · exact huses.rotateFunctionId ▸ .rotate _ _

theorem multiplesJustified_of_justifies {fetcher : RpcDataFetcher crypto} {latest : UInt32}
    (hchain : Provable fetcher.toEpochChain config.MAX_AUTHORITY_SET_SIZE)
    (h : Justifies config fetcher interval latest) :
    MultiplesJustified config fetcher interval latest :=
  Or.inr fun b hlt hle hmultiple =>
    exists_askJustification ((h b hlt.le hle (Or.inr ⟨hlt, hmultiple⟩)).hintJustifies hchain)

theorem length_bytes (o : SubchainVerificationVariable) : o.bytes.length = 96 := by
  simp only [SubchainVerificationVariable.bytes, List.length_append, ArrayVariable.length_data]

/-- A requested header range is answered. -/
theorem RoundProved.answers_headerRange
    (h : RoundProved platform config chain interval target σ node env)
    (hchain : Provable chain config.MAX_AUTHORITY_SET_SIZE)
    (hstorage : CanonicalStorage chain σ.contract) (huses : UsesPlatform platform σ.contract)
    (hoperator : OperatorInv chain.toSetIds g σ) (hextendable : Contract.Extendable σ.contract)
    (hsize : σ.contract.headerRangeCommitmentTreeSize.toNat ≤ 8 * numMapJobs platform.MAX_NUM_HEADERS)
    (hhead : chain.toSetIds.head.toNat < 2 ^ 31)
    (hrequest : VectorXOperator.findAndRequestHeaderRange config (node.fetcher chain h.head_le)
      σ.contract interval = some (some request)) :
    Answers (canonicalEnv platform chain env) σ.contract.gateway request := by
  have hnode := h.head_le
  have hlatest := Nat.le_trans hoperator.latest_le h.head_mono
  have hset : HasCurrentSet (node.fetcher chain h.head_le).toSetIds g σ.contract :=
    hoperator.currentSet
  have hnodeChain : Provable (node.fetcher chain h.head_le).toEpochChain config.MAX_AUTHORITY_SET_SIZE :=
    hchain.upTo node.head h.head_le
  obtain ⟨s, b, heq, hs, hfound, hrange, hjustified⟩ :=
    findAndRequestHeaderRange_eq_some hlatest hrequest
  obtain ⟨s', b', rfl, htarget⟩ := findAndRequestHeaderRange_target
    (multiplesJustified_of_justifies hnodeChain h.justifies) hrequest
  obtain ⟨rfl, rfl⟩ := Call.commitHeaderRange.inj (congrArg Request.call heq)
  have hne := (hset.hash_ne hlatest hs hfound).1
  have hlt := hjustified.lt
  have hle : b'.toNat ≤ node.head.toNat := hjustified.le_head
  have hbefore : chain.toSetIds.setId (b'.toNat - 1) = s' :=
    hjustified.setId_eq b'.toNat hlt (Nat.le_refl _)
  have hjust := (h.justifies b' hlt.le hle
    (htarget.imp (fun hend => ⟨_, hend⟩) fun hmultiple => ⟨hlt, hmultiple⟩)).hintJustifies hnodeChain
  have hhash := hstorage.computeAuthoritySetHash_eq hchain hnode hne (by omega) hle hbefore
  have hproved := proveHeaderRange_of_hintJustifies hjust hbefore hhash hlt (by omega) huses.bound hle
    fun n hn hn' => hnodeChain.headersFit n (by omega) (Nat.le_trans hn' hle)
  rw [if_pos (by omega), ← prove_headerRange, ← huses.headerRangeFunctionId] at hproved
  -- the trusted hash of the request is the one of the chain
  have htrusted := (hstorage.header _ hextendable.header).2
  have hinput : (requestHeaderRange σ.contract σ.contract.latestBlock s' b'
      σ.contract.headerRangeFunctionId).input = headerRangeInput σ.contract.latestBlock
        ((chain.header σ.contract.latestBlock.toNat).hash crypto) s'
        (σ.contract.authoritySetIdToHash s') b' :=
    congrArg (fun hash => headerRangeInput σ.contract.latestBlock hash s'
      (σ.contract.authoritySetIdToHash s') b') htrusted
  have hcanonical : CanonicalInput platform chain σ.contract.headerRangeFunctionId
      (requestHeaderRange σ.contract σ.contract.latestBlock s' b'
        σ.contract.headerRangeFunctionId).input := by
    rw [hinput, huses.headerRangeFunctionId]
    exact .headerRange _ _ hlt huses.bound
  have hanswer := h.answers _ (Or.inr hrequest) _
    ((congrArg (platform.prove config _ _) hinput).trans hproved)
  exact ⟨_, (verifiedCall_canonicalEnv hcanonical).trans hanswer, (length_bytes _).ge⟩

end Requests

/-! ## Runs -/

section Runs

/-- The settings fit the platform. -/
structure Deployed (platform : Platform) (ids : SetIds) (interval : UInt32) (settings : Settings) :
    Prop where
  frozen : settings.frozen = false
  headerRangeFunctionId : settings.headerRangeFunctionId = platform.headerRangeFunctionId
  rotateFunctionId : settings.rotateFunctionId = platform.rotateFunctionId
  workable : Workable ids interval settings.headerRangeCommitmentTreeSize
  size_le : settings.headerRangeCommitmentTreeSize.toNat ≤ 8 * numMapJobs platform.MAX_NUM_HEADERS
  bound : ids.head.toNat + 8 * numMapJobs platform.MAX_NUM_HEADERS < 2 ^ 32

/-- The invariant of the platform. -/
structure PlatformInv (chain : EpochChain crypto) (g : UInt32) (settings : Settings) (σ : System) :
    Prop where
  progress : ProgressInv chain.toSetIds g settings σ
  storage : CanonicalStorage chain σ.contract

variable (platform : Platform) (chain : EpochChain crypto)

/-- The gateway of an action, without the outputs that the contract does not ask for. -/
noncomputable def canonicalAction : Action → Action
  | .fulfil i env => .fulfil i (canonicalEnv platform chain env)
  | action => action

/-- The same in a move. -/
noncomputable def canonicalMove : Move → Move
  | .action action => .action (canonicalAction platform chain action)
  | .round node env => .round node (canonicalEnv platform chain env)

variable {platform chain} {keccak256 : List UInt8 → Bytes32} {config : Config}
  {interval target g : UInt32} {settings : Settings} {σ : System} {node : Node} {env : Env}

theorem PlatformInv.usesPlatform (h : PlatformInv chain g settings σ)
    (hdeployed : Deployed platform chain.toSetIds interval settings) :
    UsesPlatform platform σ.contract := by
  have hlatest := Nat.le_trans h.progress.operator.latest_le h.progress.operator.head_le
  have hbound := hdeployed.bound
  have heq := h.progress.settings_eq
  exact ⟨(congrArg Settings.headerRangeFunctionId heq).trans hdeployed.headerRangeFunctionId,
    (congrArg Settings.rotateFunctionId heq).trans hdeployed.rotateFunctionId, by omega⟩

variable (keccak256 config) in
/-- **Step.** An action keeps the invariant, and the outputs that the contract does not ask for do
not matter. -/
theorem PlatformInv.step (h : PlatformInv chain g settings σ)
    (hchain : Provable chain config.MAX_AUTHORITY_SET_SIZE)
    (hdeployed : Deployed platform chain.toSetIds interval settings) (action : Action)
    (hproved : ∀ i env, action = .fulfil i env → Proved platform config chain env) :
    VectorXOperator.step keccak256 config chain σ (canonicalAction platform chain action) =
        VectorXOperator.step keccak256 config chain σ action ∧
      PlatformInv chain g settings (VectorXOperator.step keccak256 config chain σ action).1 := by
  have huses := h.usesPlatform hdeployed
  have hnonzero : ∀ i env, canonicalAction platform chain action = .fulfil i env →
      NonzeroOutputs env := by
    intro i env heq
    cases action with
    | findAndRequestRotate | findAndRequestHeaderRange => exact nomatch heq
    | fulfil j env' =>
      obtain ⟨-, rfl⟩ := Action.fulfil.inj heq
      exact (hproved j env' rfl).nonzeroOutputs hchain
  have hprogress := (h.progress.step keccak256 config _ hnonzero).1
  cases action with
  | findAndRequestRotate node =>
    refine ⟨rfl, hprogress, ?_⟩
    rw [VectorXOperator.step]
    split
    · rw [submit_contract]
      exact h.storage
    · exact h.storage
  | findAndRequestHeaderRange node interval =>
    refine ⟨rfl, hprogress, ?_⟩
    rw [VectorXOperator.step]
    split
    · rw [submit_contract]
      exact h.storage
    · exact h.storage
  | fulfil i env =>
    have heq : VectorXOperator.step keccak256 config chain σ
        (canonicalAction platform chain (.fulfil i env)) =
          VectorXOperator.step keccak256 config chain σ (.fulfil i env) := by
      rw [canonicalAction, VectorXOperator.step, VectorXOperator.step]
      split
      · rfl
      · rename_i request hrequest
        rw [h.storage.step_canonicalEnv huses
          (h.progress.operator.pending request (List.mem_of_getElem? hrequest))]
    refine ⟨heq, heq ▸ hprogress, ?_⟩
    rw [VectorXOperator.step]
    split
    · exact h.storage
    · rename_i request hrequest
      exact h.storage.fulfil hchain.lt_goldilocks huses (hproved i env rfl)
        (h.progress.operator.pending request (List.mem_of_getElem? hrequest))

/-- **Run.** The same for the actions of a run. -/
theorem PlatformInv.run (hchain : Provable chain config.MAX_AUTHORITY_SET_SIZE)
    (hdeployed : Deployed platform chain.toSetIds interval settings) (actions : List Action)
    (hproved : ∀ i env, .fulfil i env ∈ actions → Proved platform config chain env)
    (h : PlatformInv chain g settings σ) :
    Run.run (VectorXOperator.step keccak256 config chain) σ
          (actions.map (canonicalAction platform chain)) =
        Run.run (VectorXOperator.step keccak256 config chain) σ actions ∧
      PlatformInv chain g settings
        (Run.run (VectorXOperator.step keccak256 config chain) σ actions).1 := by
  induction actions generalizing σ with
  | nil => exact ⟨rfl, h⟩
  | cons action actions ih =>
    obtain ⟨heq, hinv⟩ := h.step keccak256 config hchain hdeployed action fun i env hi =>
      hproved i env (hi ▸ List.mem_cons_self)
    obtain ⟨hrun, hend⟩ := ih (fun i env hmem => hproved i env (List.mem_cons_of_mem _ hmem)) hinv
    rw [List.map_cons, Run.run_cons, Run.run_cons, heq, hrun]
    exact ⟨rfl, hend⟩

/-- What an honest platform does is what progress needs. -/
theorem PlatformInv.served (h : PlatformInv chain g settings σ)
    (hchain : Provable chain config.MAX_AUTHORITY_SET_SIZE)
    (hdeployed : Deployed platform chain.toSetIds interval settings) (m : Move)
    (hhonest : Honest platform config chain interval target σ m) :
    Served config chain interval target σ (canonicalMove platform chain m) := by
  match m, hhonest with
  | .action (.findAndRequestRotate _), _ => trivial
  | .action (.findAndRequestHeaderRange _ _), _ => trivial
  | .action (.fulfil _ _), hproved => exact hproved.nonzeroOutputs hchain
  | .round node env, ⟨hproved, hround⟩ =>
    have huses := h.usesPlatform hdeployed
    have hhead := hdeployed.workable.head_lt
    have hsize : σ.contract.headerRangeCommitmentTreeSize.toNat ≤
        8 * numMapJobs platform.MAX_NUM_HEADERS := by
      rw [show σ.contract.headerRangeCommitmentTreeSize = settings.headerRangeCommitmentTreeSize from
        congrArg Settings.headerRangeCommitmentTreeSize h.progress.settings_eq]
      exact hdeployed.size_le
    refine ⟨hproved.nonzeroOutputs hchain, hround.head_mono, hround.head_le, hround.target_le,
      multiplesJustified_of_justifies (hchain.upTo node.head hround.head_le) hround.justifies, ?_, ?_⟩
    · intro request hrequest
      exact hround.answers_rotate hchain h.storage huses h.progress.operator hhead hrequest
    · intro request hrequest
      exact hround.answers_headerRange hchain h.storage huses h.progress.operator
        h.progress.extendable hsize hhead hrequest

variable (keccak256) in
/-- **Step.** A move keeps the invariant and does not raise the rank, and a round lowers it. -/
theorem PlatformInv.move (h : PlatformInv chain g settings σ)
    (hchain : Provable chain config.MAX_AUTHORITY_SET_SIZE)
    (hdeployed : Deployed platform chain.toSetIds interval settings)
    (htarget : target.toNat ≤ chain.toSetIds.head.toNat) (m : Move)
    (hhonest : Honest platform config chain interval target σ m) :
    PlatformInv chain g settings (VectorXOperator.move keccak256 config chain interval σ m).1 ∧
      rank chain.toSetIds interval settings.headerRangeCommitmentTreeSize
          (lastMultiple interval target)
          (VectorXOperator.move keccak256 config chain interval σ m).1.contract ≤
        rank chain.toSetIds interval settings.headerRangeCommitmentTreeSize
          (lastMultiple interval target) σ.contract - m.isRound.toNat := by
  have hserved := h.served hchain hdeployed m hhonest
  obtain ⟨-, hrank⟩ := h.progress.move keccak256 hdeployed.frozen hdeployed.workable htarget _ hserved
  have hmove : VectorXOperator.move keccak256 config chain interval σ (canonicalMove platform chain m) =
        VectorXOperator.move keccak256 config chain interval σ m ∧
      PlatformInv chain g settings (VectorXOperator.move keccak256 config chain interval σ m).1 := by
    match m, hhonest with
    | .action action, hhonest =>
      refine h.step keccak256 config hchain hdeployed action ?_
      rintro i env rfl
      exact hhonest
    | .round node env, ⟨hproved, hround⟩ =>
      refine PlatformInv.run hchain hdeployed (roundActions interval σ node env)
        (fun i env' hmem => ?_) h
      simp only [roundActions, List.mem_cons, Action.fulfil.injEq, reduceCtorEq, List.not_mem_nil,
        false_or, or_false] at hmem
      obtain ⟨-, rfl⟩ | ⟨-, rfl⟩ := hmem
      · exact hproved
      · exact hproved
  rw [hmove.1] at hrank
  refine ⟨hmove.2, Nat.le_trans hrank ?_⟩
  cases m <;> exact Nat.le_refl _

end Runs

/-! ## Genesis -/

section Genesis

variable {chain : EpochChain crypto} {head : UInt32}

/-- The header of the genesis is the one of the chain at its height. -/
theorem header_of_genesis {p : GenesisParameters} {block : Option UInt32}
    (h : genesis chain block = some p) : p.header = (chain.header p.height.toNat).hash crypto := by
  simp only [genesis, Option.bind_eq_bind, Option.bind_eq_some_iff] at h
  obtain ⟨header, hheader, _, -, _, -, h⟩ := h
  obtain rfl := Option.some.inj h
  rw [getHeader] at hheader
  split at hheader
  · rename_i hn
    obtain rfl := Option.some.inj hheader
    rw [chain.number_eq _ hn.1 hn.2]
  · exact absurd hheader (by simp)

/-- The storage of the genesis is canonical. -/
theorem canonicalStorage_initial {hhead : head.toNat ≤ chain.toSetIds.head.toNat}
    {block : Option UInt32} {p : GenesisParameters} (gateway : Address)
    (headerRangeFunctionId rotateFunctionId : Bytes32) (size : UInt32)
    (hgenesis : genesis (chain.upTo head hhead) block = some p) :
    CanonicalStorage chain
      (initial head p gateway headerRangeFunctionId rotateFunctionId size).contract := by
  obtain ⟨hle, hid, hhash⟩ := genesis_eq_some hgenesis
  replace hle : p.height.toNat ≤ head.toNat := hle
  have hheight := Nat.le_trans hle hhead
  have hheader : p.header = ((chain.upTo head hhead).header p.height.toNat).hash crypto :=
    header_of_genesis hgenesis
  rw [computeAuthoritySetHash_upTo hle] at hhash
  constructor
  · exact Updates.forall_update
      (P := fun (b : UInt32) hash => b.toNat ≤ chain.toSetIds.head.toNat ∧
        hash = (chain.header b.toNat).hash crypto)
      (fun _ hne => absurd rfl hne) ⟨hheight, hheader⟩
  · exact Updates.forall_update
      (P := fun id hash => ∃ b : UInt32, b.toNat ≤ chain.toSetIds.head.toNat ∧
        chain.toSetIds.setId b.toNat = id ∧ RpcDataFetcher.computeAuthoritySetHash chain b = some hash)
      (fun _ hne => absurd rfl hne) ⟨p.height, hheight, hid.symm, hhash⟩

end Genesis

/-- The contract has a block from `goal` on, and stores nothing but hashes of the chain. -/
structure CaughtUp (chain : EpochChain crypto) (goal : ℕ) (contract : State) : Prop where
  latest_ge : goal ≤ contract.latestBlock.toNat
  canonical : CanonicalStorage chain contract

/-- **Platform.** From genesis on, an operator, provers and nodes that serve justifications bring
the contract up to any block `target` of the chain, up to the last multiple of the interval, in at
most two rounds for each epoch in between, and one for each step of the size of a range up to the
interval. All hashes that it stores on the way are those of the chain. -/
theorem platform_catchesUp {crypto : Crypto} (keccak256 : List UInt8 → Bytes32) (config : Config)
    (platform : Platform) (chain : EpochChain crypto)
    (hchain : Provable chain config.MAX_AUTHORITY_SET_SIZE) (head : UInt32)
    (hhead : head.toNat ≤ chain.toSetIds.head.toNat) (block : Option UInt32) (p : GenesisParameters)
    (hgenesis : genesis (chain.upTo head hhead) block = some p) (hpos : 1 ≤ p.height.toNat)
    (gateway : Address) (headerRangeCommitmentTreeSize : UInt32) (interval target : UInt32)
    (hw : Workable chain.toSetIds interval headerRangeCommitmentTreeSize)
    (hsize : headerRangeCommitmentTreeSize.toNat ≤ 8 * numMapJobs platform.MAX_NUM_HEADERS)
    (hbound : chain.toSetIds.head.toNat + 8 * numMapJobs platform.MAX_NUM_HEADERS < 2 ^ 32)
    (htarget : target.toNat ≤ chain.toSetIds.head.toNat) (moves : List Move)
    (hhonest : Run.Along (move keccak256 config chain interval)
      (Honest platform config chain interval target)
      (initial head p gateway platform.headerRangeFunctionId platform.rotateFunctionId
        headerRangeCommitmentTreeSize) moves)
    (hrounds : 2 * (chain.toSetIds.id (lastMultiple interval target) -
        chain.toSetIds.id p.height.toNat) +
      (lastMultiple interval target - p.height.toNat +
          (headerRangeCommitmentTreeSize.toNat - interval.toNat)) /
        (headerRangeCommitmentTreeSize.toNat - interval.toNat + 1) ≤ moves.countP Move.isRound) :
    CaughtUp chain (lastMultiple interval target)
      (Run.run (move keccak256 config chain interval) (initial head p gateway
        platform.headerRangeFunctionId platform.rotateFunctionId headerRangeCommitmentTreeSize)
        moves).1.contract := by
  obtain ⟨hle, -, hhash⟩ := genesis_eq_some hgenesis
  have hhashNe : p.authoritySetHash ≠ emptyBytes32 :=
    (hchain.upTo head hhead).authoritySet_ne _ _ hhash
  have hheaderNe : p.header ≠ emptyBytes32 := by
    rw [header_of_genesis hgenesis]
    exact (hchain.upTo head hhead).header_ne _ hle
  obtain ⟨hprogress, hknown⟩ := progressInv_initial gateway platform.headerRangeFunctionId
    platform.rotateFunctionId headerRangeCommitmentTreeSize hhead hgenesis hpos hhashNe hheaderNe
  have hdeployed : Deployed platform chain.toSetIds interval {
      frozen := false, gateway, headerRangeFunctionId := platform.headerRangeFunctionId,
      rotateFunctionId := platform.rotateFunctionId, headerRangeCommitmentTreeSize } :=
    ⟨rfl, rfl, rfl, hw, hsize, hbound⟩
  obtain ⟨hinv, hrank⟩ := Run.run_rank _ (PlatformInv chain p.height _)
    (fun σ => rank chain.toSetIds interval headerRangeCommitmentTreeSize (lastMultiple interval target)
      σ.contract) Move.isRound (fun _ m hm hσ => hσ.move keccak256 hchain hdeployed htarget m hm)
    ⟨hprogress, canonicalStorage_initial gateway _ _ _ hgenesis⟩ hhonest
  exact ⟨le_latestBlock_of_rank_le hrank (Nat.le_trans (rank_le_of_known hknown) hrounds), hinv.storage⟩

/-! ## Two epochs -/

/-- The operator and the provers of two epochs with one authority each. -/
def epochEndConfig : Config where
  isDummyOperator := false
  DUMMY_PUBLIC_KEY := emptyBytes32
  DUMMY_SIGNATURE := ArrayVariable.replicate 64 0
  MAX_AUTHORITY_SET_SIZE := 1

def epochEndPlatform : Platform where
  MAX_NUM_HEADERS := 8
  headerRangeFunctionId := ArrayVariable.replicate 32 1
  rotateFunctionId := ArrayVariable.replicate 32 2
  functionId_ne := by decide

/-- The chain, with the announcement at the end of the first epoch. -/
def epochEndChain : EpochChain (Reference.crypto epochEndSigned) :=
  Reference.twoEpochChain epochEndSigned epochEndLogs

/-- A node that serves the finality proof for this block. -/
def epochEndNode : Node where
  head := 3
  proveFinality := epochEndFetcher.proveFinality
  redisJustification _ := none

theorem isEpochEnd_epochEndChain {t b : ℕ} (h : epochEndChain.toSetIds.IsEpochEnd t b) : b = 2 := by
  obtain ⟨hle, hpassage⟩ := h
  replace hle : b ≤ 3 := hle
  have hids : ∀ n < 4, epochEndChain.toSetIds.id n = if n < 2 then 0 else 1 := by decide
  have hat := hpassage.at_eq
  have hbefore := hpassage.before
  have hpos := hpassage.pos
  rw [hids b (by omega)] at hat
  rw [hids (b - 1) (by omega)] at hbefore
  split at hat <;> split at hbefore <;> omega

theorem finalizes_epochEndFetcher : Finalizes epochEndFetcher 2 [Reference.pubkey₁] epochEndProof
    ⟨epochEndPrecommit, epochEndSignature, Reference.pubkey₁⟩ := by
  refine ⟨rfl, rfl, rfl, rfl, ?_, ?_⟩
  · intro precommit hmem
    have hid : epochEndFetcher.toSetIds.setId ((2 : UInt32).toNat - 1) = 0 := rfl
    rw [List.mem_singleton.mp hmem, hid]
    exact signatureValid_epochEndSignature
  · decide

theorem provable_epochEndChain : Provable epochEndChain 1 where
  size_lt := by decide
  sameSet a b _ _ heq := by
    change (if a < 2 then (0 : UInt64) else 1) = if b < 2 then 0 else 1 at heq
    change Reference.twoAuthorities a = Reference.twoAuthorities b
    rw [Reference.twoAuthorities, Reference.twoAuthorities]
    split at heq <;> split at heq
    · rename_i ha hb
      rw [if_pos ha, if_pos hb]
    · exact absurd heq (by decide)
    · exact absurd heq (by decide)
    · rename_i ha hb
      rw [if_neg ha, if_neg hb]
  authorities_le b keys hkeys := by
    rw [getAuthorities] at hkeys
    split at hkeys
    · obtain rfl := Option.some.inj hkeys
      change ((Reference.twoAuthorities b.toNat).map Prod.fst).length ≤ 1
      rw [Reference.twoAuthorities]
      split <;> exact Nat.le_refl _
    · exact absurd hkeys (by simp)
  headersFit := by
    intro n hpos hn
    replace hn : n ≤ 3 := hn
    interval_cases n <;> decide +kernel
  announces t b hend := by
    obtain rfl : b = 2 := UInt32.toNat_inj.mp (isEpochEnd_epochEndChain hend)
    exact ⟨[Reference.pubkey₂], [], [], announcesAuthorities_epochEndFetcher, by decide +kernel,
      by decide, by decide, by decide, by rw [WindowFits]; decide⟩
  header_ne n hn := by
    replace hn : n ≤ 3 := hn
    interval_cases n <;> decide +kernel
  authoritySet_ne b hash hhash := by
    rw [RpcDataFetcher.computeAuthoritySetHash, getAuthorities] at hhash
    split at hhash
    · change RpcDataFetcher.hashAuthorities _
        ((Reference.twoAuthorities b.toNat).map Prod.fst) = _ at hhash
      rw [Reference.twoAuthorities] at hhash
      rintro rfl
      revert hhash
      split <;> decide +kernel
    · exact absurd hhash (by simp)

/-- Answers from a prover with this node. -/
def epochEndEnv : Env where
  sender := ArrayVariable.replicate 20 0
  isGuardian _ := false
  requestCall _ _ _ _ := true
  verifiedCall _ functionId input :=
    epochEndPlatform.prove epochEndConfig (epochEndNode.fetcher epochEndChain (by decide)) functionId
      input

theorem honest_epochEnd {σ : System} (hhead : σ.head.toNat ≤ 3) :
    Honest epochEndPlatform epochEndConfig epochEndChain 2 2 σ (.round epochEndNode epochEndEnv) := by
  refine ⟨fun gateway functionId input output houtput => ⟨epochEndNode, by decide, houtput⟩, hhead,
    by decide, by decide, fun b hlatest hb htarget => ?_, fun request _ output houtput => houtput⟩
  replace hb : b.toNat ≤ 3 := hb
  obtain rfl : b = 2 := by
    rcases htarget with ⟨t, hend⟩ | ⟨hlt, hmultiple⟩
    · exact UInt32.toNat_inj.mp (isEpochEnd_epochEndChain hend)
    · replace hmultiple : b.toNat % 2 = 0 := hmultiple
      exact UInt32.toNat_inj.mp (show b.toNat = 2 by omega)
  exact .finality ⟨0, Reference.isEpochEnd_twoEpochs⟩ finalizes_epochEndFetcher

/-- What `bin/genesis.rs` prints for block 1. -/
def epochEndParameters : GenesisParameters where
  height := 1
  header := (epochEndChain.header 1).hash (Reference.crypto epochEndSigned)
  authoritySetId := 0
  authoritySetHash := (Reference.crypto epochEndSigned).sha256 Reference.pubkey₁.data

set_option maxRecDepth 4000 in
theorem genesis_epochEndChain :
    genesis (epochEndChain.upTo 1 (by decide)) (some 1) = some epochEndParameters := rfl

/-- A move leaves the head of the node on the chain. -/
theorem head_move_le {crypto : Crypto} {keccak256 : List UInt8 → Bytes32} {config : Config}
    {chain : EpochChain crypto} {interval : UInt32} {σ : System} (m : Move)
    (h : σ.head.toNat ≤ chain.toSetIds.head.toNat) :
    (move keccak256 config chain interval σ m).1.head.toNat ≤ chain.toSetIds.head.toNat := by
  have hstep : ∀ (σ : System) (action : Action), True → σ.head.toNat ≤ chain.toSetIds.head.toNat →
      (step keccak256 config chain σ action).1.head.toNat ≤ chain.toSetIds.head.toNat := by
    intro σ action _ h
    cases action with
    | findAndRequestRotate node | findAndRequestHeaderRange node =>
      rw [step]
      split
      · rename_i hnode
        rw [submit_fst]
        exact hnode.2
      · exact h
    | fulfil i env =>
      rw [step]
      split <;> exact h
  cases m with
  | action action => exact hstep σ action trivial h
  | round node env =>
    exact Run.run_invariant_state (fun σ : System => σ.head.toNat ≤ chain.toSetIds.head.toNat)
      (fun _ => True) hstep h (fun _ _ => trivial)

/-- The contract gets to block 2, the end of the first epoch, in three rounds. -/
theorem platform_catchesUp_twoEpochs :
    CaughtUp epochEndChain (lastMultiple 2 2)
      (Run.run (move Reference.keccak256 epochEndConfig epochEndChain 2) (initial 1 epochEndParameters
        (ArrayVariable.replicate 20 1) epochEndPlatform.headerRangeFunctionId
        epochEndPlatform.rotateFunctionId 8)
        (List.replicate 3 (.round epochEndNode epochEndEnv))).1.contract := by
  refine platform_catchesUp Reference.keccak256 epochEndConfig epochEndPlatform epochEndChain
    provable_epochEndChain 1 (by decide) (some 1) epochEndParameters genesis_epochEndChain (by decide)
    (ArrayVariable.replicate 20 1) 8 2 2 ⟨by decide, by decide, by decide, by decide⟩ (by decide)
    (by decide) (by decide) _ ?_ (by decide)
  exact ⟨honest_epochEnd (by decide), honest_epochEnd (head_move_le _ (by decide)),
    honest_epochEnd (head_move_le _ (head_move_le _ (by decide))), trivial⟩

end VectorXOperator

end VectorX
