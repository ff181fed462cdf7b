import VectorX.Bin.OperatorGains
import VectorX.Contracts.Guardian

/-!
# The contract follows the head

While the platform answers what the operator requests, the contract catches up with the chain: in a
round it gets the hash of the next authority set, or the latest block moves on with a gain. Other
answers may arrive at any time in between.
-/

namespace VectorX

open Plonky2x Solidity
open Contract (State Env Appends Extendable Settings)

variable {crypto : Crypto}

namespace VectorXOperator

/-! ## Answers -/

section Answers

variable {keccak256 : List UInt8 → Bytes32} {ids : SetIds} {head g : UInt32} {contract : State}
  {request : Request} {env : Env}

/-- No output starts with the zero word. -/
def NonzeroOutputs (env : Env) : Prop :=
  ∀ gateway functionId input output, env.verifiedCall gateway functionId input = some output →
    decodeWord output 0 ≠ some emptyBytes32

/-- The bytes that the call of a request decodes. -/
def Request.outputLength (request : Request) : ℕ :=
  match request.call with
  | .commitHeaderRange _ _ => 96
  | _ => 32

/-- The gateway has an output for the request. -/
def Answers (env : Env) (gateway : Address) (request : Request) : Prop :=
  ∃ output, env.verifiedCall gateway request.functionId request.input = some output ∧
    request.outputLength ≤ output.length

theorem exists_decodeWord {output : List UInt8} {n i : ℕ} (hn : n ≤ output.length)
    (hi : 32 * i + 32 ≤ n) : ∃ w, decodeWord output i = some w := by
  rw [decodeWord, dif_pos (Nat.le_trans hi hn)]
  exact ⟨_, rfl⟩

/-- A fulfilled request only appends to the storage, and the light client can go on. -/
theorem fulfil_appends (hpending : IsPending ids head request) (hinit : contract.initialized = true)
    (hextendable : Extendable contract) (hnonzero : NonzeroOutputs env) :
    (∃ es, Appends contract es (Contract.step keccak256 contract (env, request.call)).1) ∧
      Extendable (Contract.step keccak256 contract (env, request.call)).1 := by
  -- the calls of the operator do not ask who the guardian is
  have hcall : Contract.step keccak256 contract (env, request.call) =
      Contract.step keccak256 contract ({ env with isGuardian := fun _ => false }, request.call) := by
    rw [IsPending] at hpending
    split at hpending
    · rename_i hcall
      rw [hcall]
      rfl
    · rename_i hcall
      rw [hcall]
      rfl
    · exact absurd hpending id
  have happends := Contract.appends_step keccak256
    (c := ({ env with isGuardian := fun _ => false }, request.call)) hinit rfl
  refine ⟨⟨_, hcall ▸ happends⟩, ?_⟩
  rcases Contract.step_effect keccak256 (env, request.call) contract with hsame | heffect
  · rw [hsame]
    exact hextendable
  · refine heffect.extendable ?_ (fun _ => hextendable) ?_
    · rw [Contract.SuppliesNonzero]
      rw [IsPending] at hpending
      split at hpending
      · rename_i hcall'
        rw [hcall']
        exact hnonzero
      · rename_i hcall'
        rw [hcall']
        exact trivial
      · exact absurd hpending id
    · rw [hcall, happends.initialized, hinit]

variable (keccak256) in
/-- A rotation that is answered stores the hash of the next set. -/
theorem fulfil_rotate {c next : UInt64} (hfrozen : contract.frozen = false)
    (hknown : contract.authoritySetIdToHash c ≠ emptyBytes32) (hnext : next.toNat = c.toNat + 1)
    (hunknown : contract.authoritySetIdToHash next = emptyBytes32) (hnonzero : NonzeroOutputs env)
    (hanswers : Answers env contract.gateway (requestRotate contract c contract.rotateFunctionId)) :
    (Contract.step keccak256 contract (env, .rotate c)).1.authoritySetIdToHash next ≠ emptyBytes32 := by
  obtain ⟨output, houtput, hlength⟩ := hanswers
  obtain ⟨hash, hhash⟩ := exists_decodeWord (i := 0) hlength (Nat.le_refl _)
  have hexec := Contract.rotate_eq_ok.mpr ⟨hfrozen, hknown, next,
    Contract.nextAuthoritySetId_eq_some.mpr hnext, hunknown, output, houtput, hash, hhash, rfl, rfl⟩
  rw [Contract.step, Contract.exec, hexec]
  show Function.update contract.authoritySetIdToHash next hash next ≠ emptyBytes32
  rw [Function.update_self]
  rintro rfl
  exact hnonzero _ _ _ _ houtput hhash

/-- A rotation does not move the latest block. -/
theorem latestBlock_fulfil_rotate (c : UInt64) :
    (Contract.step keccak256 contract (env, .rotate c)).1.latestBlock = contract.latestBlock := by
  rw [Contract.step, Contract.exec]
  rcases hexec : Contract.rotate env contract c with e | ⟨contract', es⟩
  · rfl
  · obtain ⟨-, -, next, -, -, output, -, hash, -, rfl, -⟩ := Contract.rotate_eq_ok.mp hexec
    rfl

/-- A header range that is answered moves the latest block, also after a rotation. -/
theorem fulfil_headerRange {contract' : State} {s : UInt64} {b : UInt32} {es : List Contract.Event}
    (happends : Appends contract es contract') (hlatest : contract'.latestBlock = contract.latestBlock)
    (hextendable : Extendable contract) (hfrozen : contract.frozen = false)
    (hknown : contract.authoritySetIdToHash s ≠ emptyBytes32)
    (hold : contract'.latestAuthoritySetId ≤ s) (hlt : contract.latestBlock.toNat < b.toNat)
    (hanswers : Answers env contract.gateway
      (requestHeaderRange contract contract.latestBlock s b contract.headerRangeFunctionId)) :
    (Contract.step keccak256 contract' (env, .commitHeaderRange s b)).1.latestBlock = b := by
  obtain ⟨output, houtput, hlength⟩ := hanswers
  replace hlength : 96 ≤ output.length := hlength
  obtain ⟨headerHash, hheaderHash⟩ := exists_decodeWord (i := 0) hlength (by decide)
  obtain ⟨stateRoot, hstateRoot⟩ := exists_decodeWord (i := 1) hlength (by decide)
  obtain ⟨dataRoot, hdataRoot⟩ := exists_decodeWord (i := 2) hlength (by decide)
  have hsettings := happends.settings
  have hheader := happends.header contract.latestBlock (le_refl _)
  have hhash := happends.authorities.hash s hknown
  simp only [State.settings, Settings.mk.injEq] at hsettings
  obtain ⟨hfrozen', hgateway, hfunction, -, -⟩ := hsettings
  have hverified : Contract.VerifiedOutput env contract' s b headerHash stateRoot dataRoot := by
    refine ⟨output, ?_, hheaderHash, hstateRoot, hdataRoot⟩
    rw [hgateway, hfunction, hlatest, hheader, hhash]
    exact houtput
  have hexec := (@Contract.commitHeaderRange_eq_ok keccak256).mpr
    ⟨hfrozen'.trans hfrozen, by rw [hlatest, hheader]; exact hextendable.header,
      by rw [hhash]; exact hknown, UInt64.not_lt.mpr hold,
      by rw [hlatest]; exact UInt32.lt_iff_toNat_lt.mpr hlt, headerHash, stateRoot, dataRoot, hverified,
      rfl, rfl⟩
  rw [Contract.step, Contract.exec, hexec]

end Answers

/-! ## Rounds -/

section Rounds

variable (keccak256 : List UInt8 → Bytes32) (config : Config) (chain : EpochChain crypto)
  (interval : UInt32)

/-- One round of `run`, and the answers to what is requested in it. -/
def roundActions (σ : System) (node : Node) (env : Env) : List Action :=
  [.findAndRequestRotate node, .findAndRequestHeaderRange node interval,
    .fulfil σ.requests.length env, .fulfil (σ.requests.length + 1) env]

/-- A round, or any other action in between. -/
inductive Move
  | action (action : Action)
  | round (node : Node) (env : Env)

def Move.isRound : Move → Bool
  | .action _ => false
  | .round _ _ => true

def move (σ : System) : Move → System × List (Submission crypto)
  | .action action => step keccak256 config chain σ action
  | .round node env => Run.run (step keccak256 config chain) σ (roundActions interval σ node env)

/-- The round sees the block `target`, the operator can step to the multiples of the interval, and
the gateway answers what is requested. -/
structure RoundServed (target : UInt32) (σ : System) (node : Node) (env : Env) : Prop where
  head_mono : σ.head.toNat ≤ node.head.toNat
  head_le : node.head.toNat ≤ chain.toSetIds.head.toNat
  target_le : target.toNat ≤ node.head.toNat
  justified : MultiplesJustified config (node.fetcher chain head_le) interval σ.contract.latestBlock
  rotate : ∀ request, VectorXOperator.findAndRequestRotate (node.fetcher chain head_le) σ.contract =
    some (some request) → Answers env σ.contract.gateway request
  headerRange : ∀ request, VectorXOperator.findAndRequestHeaderRange config
    (node.fetcher chain head_le) σ.contract interval = some (some request) →
    Answers env σ.contract.gateway request

/-- What progress needs: outputs do not start with the zero word, and rounds are served. -/
def Served (target : UInt32) (σ : System) : Move → Prop
  | .action (.fulfil _ env) => NonzeroOutputs env
  | .action _ => True
  | .round node env => NonzeroOutputs env ∧ RoundServed config chain interval target σ node env

variable {keccak256 config chain interval} {g target : UInt32} {settings : Settings} {σ : System}
  {node : Node} {env : Env}

/-- The invariant of progress. -/
structure ProgressInv (ids : SetIds) (g : UInt32) (settings : Settings) (σ : System) : Prop where
  operator : OperatorInv ids g σ
  initialized : σ.contract.initialized = true
  extendable : Extendable σ.contract
  settings_eq : σ.contract.settings = settings

@[simp] theorem submit_contract (σ : System) (fetcher : RpcDataFetcher crypto)
    (request : Option (Option Request)) : (σ.submit fetcher request).1.contract = σ.contract := by
  rcases request with - | - | r <;> rfl

variable (keccak256 config) in
/-- **Step.** An action keeps the invariant and only appends to the storage. -/
theorem ProgressInv.step (h : ProgressInv chain.toSetIds g settings σ) (action : Action)
    (hnonzero : ∀ i env, action = .fulfil i env → NonzeroOutputs env) :
    ProgressInv chain.toSetIds g settings (VectorXOperator.step keccak256 config chain σ action).1 ∧
      ∃ es, Appends σ.contract es
        (VectorXOperator.step keccak256 config chain σ action).1.contract := by
  have hoperator :
      OperatorInv chain.toSetIds g (VectorXOperator.step keccak256 config chain σ action).1 :=
    (h.operator.step action).1
  have hsuffices : ((∃ es, Appends σ.contract es
        (VectorXOperator.step keccak256 config chain σ action).1.contract) ∧
      Extendable (VectorXOperator.step keccak256 config chain σ action).1.contract) := by
    cases action with
    | findAndRequestRotate node =>
      rw [VectorXOperator.step]
      split
      · rw [submit_contract]
        exact ⟨⟨[], .refl⟩, h.extendable⟩
      · exact ⟨⟨[], .refl⟩, h.extendable⟩
    | findAndRequestHeaderRange node interval =>
      rw [VectorXOperator.step]
      split
      · rw [submit_contract]
        exact ⟨⟨[], .refl⟩, h.extendable⟩
      · exact ⟨⟨[], .refl⟩, h.extendable⟩
    | fulfil i env =>
      rw [VectorXOperator.step]
      split
      · exact ⟨⟨[], .refl⟩, h.extendable⟩
      · rename_i request hrequest
        exact fulfil_appends (h.operator.pending request (List.mem_of_getElem? hrequest))
          h.initialized h.extendable (hnonzero i env rfl)
  obtain ⟨⟨es, happends⟩, hextendable⟩ := hsuffices
  exact ⟨⟨hoperator, happends.initialized.trans h.initialized, hextendable,
    happends.settings.trans h.settings_eq⟩, es, happends⟩

/-- The requests that a look at the contract submits. -/
def submitted : Option (Option Request) → List Request
  | some (some request) => [request]
  | _ => []

theorem submit_fst (σ : System) (fetcher : RpcDataFetcher crypto) (request : Option (Option Request)) :
    (σ.submit fetcher request).1 =
      { σ with head := fetcher.toSetIds.head, requests := σ.requests ++ submitted request } := by
  rcases request with - | - | r
  · exact congrArg (System.mk _ _) (List.append_nil _).symm
  · exact congrArg (System.mk _ _) (List.append_nil _).symm
  · rfl

variable (keccak256 g settings) in
/-- The actions of a round: the requests, and their answers one after the other. -/
theorem round_fst (hserved : RoundServed config chain interval target σ node env) :
    ∃ σ₂ : System, σ₂.contract = σ.contract ∧
      σ₂.requests = σ.requests ++
        (submitted (VectorXOperator.findAndRequestRotate (node.fetcher chain hserved.head_le)
            σ.contract) ++
          submitted (VectorXOperator.findAndRequestHeaderRange config
            (node.fetcher chain hserved.head_le) σ.contract interval)) ∧
      (ProgressInv chain.toSetIds g settings σ → ProgressInv chain.toSetIds g settings σ₂) ∧
      (move keccak256 config chain interval σ (.round node env)).1 =
        (step keccak256 config chain
          (step keccak256 config chain σ₂ (.fulfil σ.requests.length env)).1
          (.fulfil (σ.requests.length + 1) env)).1 := by
  have hlook : (step keccak256 config chain σ (.findAndRequestRotate node)).1 = _ :=
    congrArg Prod.fst (dif_pos ⟨hserved.head_mono, hserved.head_le⟩)
  rw [submit_fst] at hlook
  refine ⟨(step keccak256 config chain (step keccak256 config chain σ (.findAndRequestRotate node)).1
    (.findAndRequestHeaderRange node interval)).1, ?_, ?_, fun hinv => ?_, rfl⟩
  · rw [hlook, step, dif_pos ⟨Nat.le_refl _, hserved.head_le⟩, submit_contract]
  · rw [hlook, step, dif_pos ⟨Nat.le_refl _, hserved.head_le⟩, submit_fst, List.append_assoc]
  · have hfirst := (hinv.step keccak256 config (.findAndRequestRotate node) (by simp)).1
    exact (hfirst.step keccak256 config (.findAndRequestHeaderRange node interval) (by simp)).1

theorem Gains.lt {ids : SetIds} {size : UInt32} {goal a b : ℕ}
    (h : Gains ids interval size goal a b) (ha : a ≤ ids.head.toNat) (hgoal : a < goal) : a < b := by
  by_contra hle
  have hmono := ids.grows.mono (Nat.not_lt.mp hle) ha
  rcases h with h | h | h <;> omega

theorem Gains.mono {ids : SetIds} {size : UInt32} {goal a b b' : ℕ}
    (h : Gains ids interval size goal a b) (hb : b ≤ b') (hb' : b' ≤ ids.head.toNat) :
    Gains ids interval size goal a b' := by
  have hmono := ids.grows.mono hb hb'
  rcases h with h | h | h
  · exact Or.inl (Nat.lt_of_lt_of_le h hmono)
  · exact Or.inr (Or.inl (h.trans hb))
  · exact Or.inr (Or.inr (h.trans hb))

variable (interval) in
theorem lastMultiple_mono {a b : UInt32} (h : a.toNat ≤ b.toNat) :
    lastMultiple interval a ≤ lastMultiple interval b := by
  have ha := Nat.div_add_mod a.toNat interval.toNat
  have hb := Nat.div_add_mod b.toNat interval.toNat
  have hmul := Nat.mul_le_mul_left interval.toNat (Nat.div_le_div_right (c := interval.toNat) h)
  rw [lastMultiple, lastMultiple]
  omega

theorem fulfil_of_getElem? {i : ℕ} {request : Request} (h : σ.requests[i]? = some request) :
    (step keccak256 config chain σ (.fulfil i env)).1 =
      { σ with contract := (Contract.step keccak256 σ.contract (env, request.call)).1 } := by
  rw [step, h]

variable (keccak256 config chain σ env) in
theorem fulfil_requests (i : ℕ) :
    (step keccak256 config chain σ (.fulfil i env)).1.requests = σ.requests := by
  rw [step]
  split <;> rfl

/-- What a round does below the target: the latest block moves on, with a gain or before its set was
known, or its set becomes known. -/
inductive RoundOutcome (ids : SetIds) (interval : UInt32) (goal : ℕ) (contract contract' : State) : Prop
  | moves (lt : contract.latestBlock.toNat < contract'.latestBlock.toNat)
      (gains : contract.authoritySetIdToHash (ids.setId contract.latestBlock.toNat) = emptyBytes32 ∨
        Gains ids interval contract.headerRangeCommitmentTreeSize goal contract.latestBlock.toNat
          contract'.latestBlock.toNat)
  | knows (latest : contract'.latestBlock = contract.latestBlock)
      (unknown : contract.authoritySetIdToHash (ids.setId contract.latestBlock.toNat) = emptyBytes32)
      (known : contract'.authoritySetIdToHash (ids.setId contract.latestBlock.toNat) ≠ emptyBytes32)

/-- The request of a rotation is the only one that `find_and_request_rotate` submits. -/
theorem submitted_findAndRequestRotate (fetcher : RpcDataFetcher crypto) (contract : State) :
    submitted (VectorXOperator.findAndRequestRotate fetcher contract) = [] ∨
      ∃ c, submitted (VectorXOperator.findAndRequestRotate fetcher contract) =
        [requestRotate contract c contract.rotateFunctionId] := by
  rcases hrotate : VectorXOperator.findAndRequestRotate fetcher contract with - | - | request
  · exact Or.inl rfl
  · exact Or.inl rfl
  · obtain ⟨c, next, rfl, -⟩ := findAndRequestRotate_eq_some hrotate
    exact Or.inr ⟨c, rfl⟩

variable (keccak256) in
/-- **Step.** A served round below the target. -/
theorem ProgressInv.round (h : ProgressInv chain.toSetIds g settings σ)
    (hfrozen : settings.frozen = false)
    (hw : Workable chain.toSetIds interval settings.headerRangeCommitmentTreeSize)
    (hnonzero : NonzeroOutputs env)
    (hserved : RoundServed config chain interval target σ node env)
    (hlt : σ.contract.latestBlock.toNat < lastMultiple interval target) :
    RoundOutcome chain.toSetIds interval (lastMultiple interval target) σ.contract
      (move keccak256 config chain interval σ (.round node env)).1.contract := by
  obtain ⟨σ₂, hcontract, hrequests, hinv, hmove⟩ :=
    round_fst keccak256 g settings hserved
  have h₂ := hinv h
  obtain ⟨h₃, es₃, happends₃⟩ := h₂.step keccak256 config
    (.fulfil σ.requests.length env) (by rintro i env' ⟨⟩; exact hnonzero)
  have hrequests₃ := fulfil_requests keccak256 config chain σ₂ env σ.requests.length
  generalize hσ₃ :
    (VectorXOperator.step keccak256 config chain σ₂ (.fulfil σ.requests.length env)).1 = σ₃
      at h₃ happends₃ hrequests₃ hmove
  obtain ⟨h₄, es₄, happends₄⟩ := h₃.step keccak256 config
    (.fulfil (σ.requests.length + 1) env) (by rintro i env' ⟨⟩; exact hnonzero)
  rw [hmove]
  generalize hσ₄ :
    (VectorXOperator.step keccak256 config chain σ₃ (.fulfil (σ.requests.length + 1) env)).1 = σ₄
      at h₄ happends₄
  rw [hcontract] at happends₃
  have hlatest₃ := UInt32.le_iff_toNat_le.mp happends₃.latestBlock
  have hlatest₄ := UInt32.le_iff_toNat_le.mp happends₄.latestBlock
  have hhead₄ := h₄.operator.latest_le.trans h₄.operator.head_le
  have hgoal := lastMultiple_mono interval hserved.target_le
  have hgoalLe : lastMultiple interval node.head ≤ node.head.toNat := Nat.sub_le _ _
  have hnotFrozen : σ.contract.frozen = false := by
    rw [← h.settings_eq] at hfrozen
    exact hfrozen
  have hsize : settings.headerRangeCommitmentTreeSize = σ.contract.headerRangeCommitmentTreeSize := by
    rw [← h.settings_eq]
    rfl
  rw [hsize] at hw
  have hheadLe := hserved.head_le
  have hnodeWorkable : Workable (node.fetcher chain hserved.head_le).toSetIds interval
      σ.contract.headerRangeCommitmentTreeSize :=
    ⟨hw.interval_pos, hw.interval_le, Nat.lt_of_le_of_lt hheadLe hw.head_lt,
      Nat.lt_of_le_of_lt (Nat.add_le_add_right hheadLe _) hw.limit_lt⟩
  by_cases hknown : σ.contract.authoritySetIdToHash
      (chain.toSetIds.setId σ.contract.latestBlock.toNat) = emptyBytes32
  · -- the rotation is the first request
    obtain ⟨c, hrotate, hnext, hknownPrev⟩ := findAndRequestRotate_of_unknown
      hnodeWorkable.head_lt h.operator.currentSet
      h.operator.pos (show σ.contract.latestBlock.toNat < node.head.toNat by omega) hknown
    have hget : σ₂.requests[σ.requests.length]? =
        some (requestRotate σ.contract c σ.contract.rotateFunctionId) := by
      rw [hrequests, hrotate]
      simp [submitted]
    have hstored := fulfil_rotate keccak256 hnotFrozen hknownPrev hnext hknown hnonzero
      (hserved.rotate _ hrotate)
    rw [fulfil_of_getElem? hget, hcontract] at hσ₃
    have hstored₃ : σ₃.contract.authoritySetIdToHash
        (chain.toSetIds.setId σ.contract.latestBlock.toNat) ≠ emptyBytes32 := hσ₃ ▸ hstored
    rcases Nat.lt_or_ge σ.contract.latestBlock.toNat σ₄.contract.latestBlock.toNat with hlt' | hge
    · exact .moves hlt' (Or.inl hknown)
    · refine .knows (UInt32.toNat_inj.mp (by omega)) hknown ?_
      rw [happends₄.authorities.hash _ hstored₃]
      exact hstored₃
  · -- the header range is the last request
    obtain ⟨b, hrange, hgains⟩ := findAndRequestHeaderRange_gains
      hnodeWorkable h.operator.pos
      (h.operator.latest_le.trans hserved.head_mono) (Nat.lt_of_lt_of_le hlt hgoal) hgoal
      hserved.justified hknown
    have hltb := hgains.lt (h.operator.latest_le.trans hserved.head_mono) hlt
    have hanswers := hserved.headerRange _ hrange
    suffices hb : b.toNat ≤ σ₄.contract.latestBlock.toNat by
      refine .moves (by omega) (Or.inr ?_)
      have hgains' : Gains chain.toSetIds interval σ.contract.headerRangeCommitmentTreeSize
        (lastMultiple interval target) σ.contract.latestBlock.toNat b.toNat := hgains
      exact hgains'.mono hb hhead₄
    have hfulfilled : ∀ (contract' : State) (es : List Contract.Event),
        Appends σ.contract es contract' → contract'.latestBlock = σ.contract.latestBlock →
        HasCurrentSet chain.toSetIds g contract' →
        (Contract.step keccak256 contract' (env, .commitHeaderRange
          (chain.toSetIds.setId σ.contract.latestBlock.toNat) b)).1.latestBlock = b := by
      intro contract' es happends hlatest hset
      have hknown' : contract'.authoritySetIdToHash
          (chain.toSetIds.setId σ.contract.latestBlock.toNat) ≠ emptyBytes32 := by
        rw [happends.authorities.hash _ hknown]
        exact hknown
      have hold := (hset.hash_ne (by rw [hlatest]; exact h.operator.latest_le.trans h.operator.head_le)
        (by rw [hlatest]) (Or.inr hknown')).2
      exact fulfil_headerRange happends hlatest h.extendable hnotFrozen hknown hold hltb hanswers
    rcases submitted_findAndRequestRotate (node.fetcher chain hserved.head_le) σ.contract with
      hnone | ⟨c, hrotate⟩
    · have hget : σ₂.requests[σ.requests.length]? = some (requestHeaderRange σ.contract
          σ.contract.latestBlock (chain.toSetIds.setId σ.contract.latestBlock.toNat) b
          σ.contract.headerRangeFunctionId) := by
        rw [hrequests, hnone, List.nil_append, List.getElem?_append_right (Nat.le_refl _), Nat.sub_self,
          hrange]
        rfl
      rw [fulfil_of_getElem? hget, hcontract] at hσ₃
      have hcommit : σ₃.contract.latestBlock = b := by
        rw [← hσ₃]
        exact hfulfilled σ.contract [] .refl rfl h.operator.currentSet
      rw [← hcommit]
      exact hlatest₄
    · have hget : σ₂.requests[σ.requests.length]? =
          some (requestRotate σ.contract c σ.contract.rotateFunctionId) := by
        rw [hrequests, hrotate]
        simp
      have hgetNext : σ₃.requests[σ.requests.length + 1]? = some (requestHeaderRange σ.contract
          σ.contract.latestBlock (chain.toSetIds.setId σ.contract.latestBlock.toNat) b
          σ.contract.headerRangeFunctionId) := by
        rw [hrequests₃, hrequests, hrotate, List.getElem?_append_right (Nat.le_add_right _ _),
          Nat.add_sub_cancel_left, hrange]
        rfl
      rw [fulfil_of_getElem? hget, hcontract] at hσ₃
      have hsame : σ₃.contract.latestBlock = σ.contract.latestBlock := by
        rw [← hσ₃]
        exact latestBlock_fulfil_rotate c
      rw [fulfil_of_getElem? hgetNext] at hσ₄
      have hcommit : σ₄.contract.latestBlock = b := by
        rw [← hσ₄]
        exact hfulfilled σ₃.contract es₃ happends₃ hsame h₃.operator.currentSet
      rw [hcommit]

/-! ## Progress -/

variable {contract contract' : State} {goal : ℕ} {ids : SetIds} {size : UInt32}

/-- An upper bound for the rounds up to `goal`: two for each epoch, one for each step of the size of
a range, and one for the hash of the current set. -/
def rank (ids : SetIds) (interval size : UInt32) (goal : ℕ) (contract : State) : ℕ :=
  if goal ≤ contract.latestBlock.toNat then 0
  else 2 * (ids.id goal - ids.id contract.latestBlock.toNat) +
    (goal - contract.latestBlock.toNat + (size.toNat - interval.toNat)) /
      (size.toNat - interval.toNat + 1) +
    if contract.authoritySetIdToHash (ids.setId contract.latestBlock.toNat) = emptyBytes32 then 1 else 0

/-- When the hash of the current set is known, no round is needed for it. -/
theorem rank_le_of_known
    (hknown : contract.authoritySetIdToHash (ids.setId contract.latestBlock.toNat) ≠ emptyBytes32) :
    rank ids interval size goal contract ≤ 2 * (ids.id goal - ids.id contract.latestBlock.toNat) +
      (goal - contract.latestBlock.toNat + (size.toNat - interval.toNat)) /
        (size.toNat - interval.toNat + 1) := by
  rw [rank, if_neg hknown, Nat.add_zero]
  split
  · exact Nat.zero_le _
  · exact Nat.le_refl _

/-- After enough rounds the latest block is not below the goal. -/
theorem le_latestBlock_of_rank_le {start rounds : ℕ}
    (hrank : rank ids interval size goal contract ≤ start - rounds) (hrounds : start ≤ rounds) :
    goal ≤ contract.latestBlock.toNat := by
  rw [Nat.sub_eq_zero_of_le hrounds, Nat.le_zero] at hrank
  by_contra hlt
  rw [rank, if_neg hlt] at hrank
  have hpositive : 1 ≤ (goal - contract.latestBlock.toNat + (size.toNat - interval.toNat)) /
      (size.toNat - interval.toNat + 1) :=
    (Nat.one_le_div_iff (Nat.succ_pos _)).mpr (by omega)
  omega

/-- The set of a later block is known unless it is a later set. -/
theorem HasCurrentSet.id_lt (h : HasCurrentSet ids g contract') {a : ℕ}
    (hlt : a < contract'.latestBlock.toNat) (hle : contract'.latestBlock.toNat ≤ ids.head.toNat)
    (hunknown : contract'.authoritySetIdToHash (ids.setId contract'.latestBlock.toNat) = emptyBytes32) :
    ids.id a < ids.id contract'.latestBlock.toNat := by
  have hmono := ids.grows.mono (a := a) (b := contract'.latestBlock.toNat - 1) (by omega) (by omega)
  have hstep := ids.grows (contract'.latestBlock.toNat - 1) (by omega)
  rw [Nat.sub_add_cancel (by omega)] at hstep
  have hne : ids.id contract'.latestBlock.toNat ≠ ids.id (contract'.latestBlock.toNat - 1) :=
    fun heq => (h.hash_ne hle rfl (Or.inl (UInt64.toNat_inj.mp heq.symm))).1 hunknown
  omega

/-- When the latest block moves on, the rank is not raised, and a gain or a hash that was missing
before lowers it. -/
theorem rank_of_moves (h : HasCurrentSet ids g contract')
    (hle : contract'.latestBlock.toNat ≤ ids.head.toNat) (hgoal : goal ≤ ids.head.toNat)
    (hlt : contract.latestBlock.toNat < contract'.latestBlock.toNat) :
    rank ids interval size goal contract' ≤ rank ids interval size goal contract ∧
      (contract.latestBlock.toNat < goal →
        (contract.authoritySetIdToHash (ids.setId contract.latestBlock.toNat) = emptyBytes32 ∨
          Gains ids interval size goal contract.latestBlock.toNat contract'.latestBlock.toNat) →
        rank ids interval size goal contract' < rank ids interval size goal contract) := by
  have hunknown := fun hzero => h.id_lt hlt hle hzero
  have hid := ids.grows.mono hlt.le hle
  rw [rank, rank]
  generalize contract'.latestBlock.toNat = b at *
  generalize contract.latestBlock.toNat = a at *
  rw [Gains]
  rcases Nat.lt_or_ge b goal with hb | hb
  · have hidGoal := ids.grows.mono hb.le hgoal
    have hdiv : (goal - b + (size.toNat - interval.toNat)) / (size.toNat - interval.toNat + 1) ≤
        (goal - a + (size.toNat - interval.toNat)) / (size.toNat - interval.toNat + 1) :=
      Nat.div_le_div_right (by omega)
    -- a step of the size of a range takes one off the quotient
    have hstep : a + (size.toNat - interval.toNat + 1) ≤ b →
        (goal - b + (size.toNat - interval.toNat)) / (size.toNat - interval.toNat + 1) + 1 ≤
          (goal - a + (size.toNat - interval.toNat)) / (size.toNat - interval.toNat + 1) := by
      intro hfar
      rw [← Nat.add_div_right _ (Nat.succ_pos _)]
      exact Nat.div_le_div_right (by omega)
    rw [if_neg (Nat.not_le.mpr hb), if_neg (Nat.not_le.mpr (hlt.trans hb))]
    by_cases hb' : contract'.authoritySetIdToHash (ids.setId b) = emptyBytes32
    · have hnew := hunknown hb'
      rw [if_pos hb']
      split
      · exact ⟨by omega, fun _ _ => by omega⟩
      · exact ⟨by omega, fun _ _ => by omega⟩
    · rw [if_neg hb']
      by_cases ha' : contract.authoritySetIdToHash (ids.setId a) = emptyBytes32
      · rw [if_pos ha']
        exact ⟨by omega, fun _ _ => by omega⟩
      · rw [if_neg ha']
        refine ⟨by omega, fun _ hgains => ?_⟩
        rcases hgains.resolve_left ha' with hgain | hgain | hgain
        · omega
        · have hdown := hstep hgain
          omega
        · omega
  · rw [if_pos hb]
    refine ⟨Nat.zero_le _, fun ha _ => ?_⟩
    have hpos : 1 ≤ (goal - a + (size.toNat - interval.toNat)) / (size.toNat - interval.toNat + 1) :=
      (Nat.one_le_div_iff (Nat.succ_pos _)).mpr (by omega)
    rw [if_neg (Nat.not_le.mpr ha)]
    omega

/-- The rank depends on the latest block and on whether the hash of its set is known. -/
theorem rank_of_same (hlatest : contract'.latestBlock = contract.latestBlock)
    (hkept : contract'.authoritySetIdToHash (ids.setId contract.latestBlock.toNat) = emptyBytes32 →
      contract.authoritySetIdToHash (ids.setId contract.latestBlock.toNat) = emptyBytes32) :
    rank ids interval size goal contract' ≤ rank ids interval size goal contract := by
  rw [rank, rank, hlatest]
  split
  · exact Nat.le_refl _
  · refine Nat.add_le_add_left ?_ _
    split
    · rename_i hzero
      rw [if_pos (hkept hzero)]
    · exact Nat.zero_le _

/-- **Step.** An action does not raise the rank. -/
theorem ProgressInv.rank_step (h : ProgressInv chain.toSetIds g settings σ) (action : Action)
    (hnonzero : ∀ i env, action = .fulfil i env → NonzeroOutputs env)
    (hgoal : goal ≤ chain.toSetIds.head.toNat) :
    rank chain.toSetIds interval size goal
        (VectorXOperator.step keccak256 config chain σ action).1.contract ≤
      rank chain.toSetIds interval size goal σ.contract := by
  obtain ⟨hinv, es, happends⟩ := h.step keccak256 config action hnonzero
  rcases Nat.lt_or_ge σ.contract.latestBlock.toNat
    (VectorXOperator.step keccak256 config chain σ action).1.contract.latestBlock.toNat with hlt | hge
  · exact (rank_of_moves hinv.operator.currentSet
      (hinv.operator.latest_le.trans hinv.operator.head_le) hgoal hlt).1
  · have hle := UInt32.le_iff_toNat_le.mp happends.latestBlock
    refine rank_of_same (UInt32.toNat_inj.mp (Nat.le_antisymm hge hle)) fun hzero => ?_
    by_contra hne
    exact hne (happends.authorities.hash _ hne ▸ hzero)

variable (keccak256) in
/-- **Step.** A served round below the target lowers the rank. -/
theorem ProgressInv.rank_round (h : ProgressInv chain.toSetIds g settings σ)
    (hfrozen : settings.frozen = false)
    (hw : Workable chain.toSetIds interval settings.headerRangeCommitmentTreeSize)
    (htarget : target.toNat ≤ chain.toSetIds.head.toNat) (hnonzero : NonzeroOutputs env)
    (hserved : RoundServed config chain interval target σ node env)
    (hinv : ProgressInv chain.toSetIds g settings
      (VectorXOperator.move keccak256 config chain interval σ (.round node env)).1)
    (hlt : σ.contract.latestBlock.toNat < lastMultiple interval target) :
    rank chain.toSetIds interval settings.headerRangeCommitmentTreeSize (lastMultiple interval target)
        (VectorXOperator.move keccak256 config chain interval σ (.round node env)).1.contract <
      rank chain.toSetIds interval settings.headerRangeCommitmentTreeSize
        (lastMultiple interval target) σ.contract := by
  have hsize : settings.headerRangeCommitmentTreeSize = σ.contract.headerRangeCommitmentTreeSize := by
    rw [← h.settings_eq]
    rfl
  have houtcome := h.round keccak256 hfrozen hw hnonzero hserved hlt
  have hset := hinv.operator.currentSet
  have hle := hinv.operator.latest_le.trans hinv.operator.head_le
  rw [hsize]
  generalize (VectorXOperator.move keccak256 config chain interval σ (.round node env)).1.contract =
    contract' at houtcome hset hle
  cases houtcome with
  | moves hmoves hgains =>
    exact (rank_of_moves hset hle ((Nat.sub_le _ _).trans htarget) hmoves).2 hlt hgains
  | knows hlatest hunknown hknown =>
    rw [rank, rank, hlatest, if_neg (Nat.not_le.mpr hlt), if_neg (Nat.not_le.mpr hlt), if_pos hunknown,
      if_neg hknown]
    exact Nat.lt_succ_self _

variable (keccak256) in
/-- **Step.** A move keeps the invariant and does not raise the rank, and a round lowers it. -/
theorem ProgressInv.move (h : ProgressInv chain.toSetIds g settings σ)
    (hfrozen : settings.frozen = false)
    (hw : Workable chain.toSetIds interval settings.headerRangeCommitmentTreeSize)
    (htarget : target.toNat ≤ chain.toSetIds.head.toNat) (m : Move)
    (hserved : Served config chain interval target σ m) :
    ProgressInv chain.toSetIds g settings
        (VectorXOperator.move keccak256 config chain interval σ m).1 ∧
      rank chain.toSetIds interval settings.headerRangeCommitmentTreeSize
          (lastMultiple interval target)
          (VectorXOperator.move keccak256 config chain interval σ m).1.contract ≤
        rank chain.toSetIds interval settings.headerRangeCommitmentTreeSize
          (lastMultiple interval target) σ.contract - m.isRound.toNat := by
  have hgoal : lastMultiple interval target ≤ chain.toSetIds.head.toNat :=
    (Nat.sub_le _ _).trans htarget
  cases m with
  | action action =>
    have hnonzero : ∀ i env, action = .fulfil i env → NonzeroOutputs env := by
      rintro i env rfl
      exact hserved
    exact ⟨(h.step keccak256 config action hnonzero).1, h.rank_step action hnonzero hgoal⟩
  | round node env =>
    obtain ⟨hnonzero, hround⟩ := hserved
    have hactions : ∀ action ∈ roundActions interval σ node env,
        ∀ i env', action = .fulfil i env' → NonzeroOutputs env' := by
      intro action hmem i env' hfulfil
      simp only [roundActions, List.mem_cons, List.not_mem_nil, or_false] at hmem
      rcases hmem with rfl | rfl | rfl | rfl <;> cases hfulfil <;> exact hnonzero
    obtain ⟨hinv, hle⟩ := Run.run_invariant_state
      (fun σ' => ProgressInv chain.toSetIds g settings σ' ∧
        rank chain.toSetIds interval settings.headerRangeCommitmentTreeSize
            (lastMultiple interval target) σ'.contract ≤
          rank chain.toSetIds interval settings.headerRangeCommitmentTreeSize
            (lastMultiple interval target) σ.contract)
      (fun action => ∀ i env', action = .fulfil i env' → NonzeroOutputs env')
      (fun σ' action hallowed hσ' => ⟨(hσ'.1.step keccak256 config action hallowed).1,
        (hσ'.1.rank_step action hallowed hgoal).trans hσ'.2⟩) ⟨h, Nat.le_refl _⟩ hactions
    refine ⟨hinv, ?_⟩
    rcases Nat.lt_or_ge σ.contract.latestBlock.toNat (lastMultiple interval target) with hlt | hge
    · exact Nat.le_sub_one_of_lt
        (h.rank_round keccak256 hfrozen hw htarget hnonzero hround hinv hlt)
    · -- at the target the rank is 0 already
      have hzero : rank chain.toSetIds interval settings.headerRangeCommitmentTreeSize
          (lastMultiple interval target) σ.contract = 0 := if_pos hge
      rw [hzero] at hle
      exact (Nat.le_zero.mp hle).le.trans (Nat.zero_le _)

end Rounds

/-- The invariant holds at genesis, where the hash of the current set is known. -/
theorem progressInv_initial {chain : EpochChain crypto} {head : UInt32} {p : GenesisParameters}
    {block : Option UInt32} (gateway : Address) (headerRangeFunctionId rotateFunctionId : Bytes32)
    (size : UInt32) (hhead : head.toNat ≤ chain.toSetIds.head.toNat)
    (hgenesis : genesis (chain.upTo head hhead) block = some p) (hpos : 1 ≤ p.height.toNat)
    (hhash : p.authoritySetHash ≠ emptyBytes32) (hheader : p.header ≠ emptyBytes32) :
    ProgressInv chain.toSetIds p.height {
        frozen := false, gateway, headerRangeFunctionId, rotateFunctionId,
        headerRangeCommitmentTreeSize := size }
      (initial head p gateway headerRangeFunctionId rotateFunctionId size) ∧
    (initial head p gateway headerRangeFunctionId rotateFunctionId size).contract.authoritySetIdToHash
      (chain.toSetIds.setId p.height.toNat) ≠ emptyBytes32 := by
  obtain ⟨-, hid, -⟩ := genesis_eq_some hgenesis
  have hset : p.authoritySetId = chain.toSetIds.setId p.height.toNat := hid
  refine ⟨⟨operatorInv_initial hhead hgenesis hpos hhash, rfl, ⟨?_, ?_⟩, rfl⟩, ?_⟩
  · show Function.update (fun _ => emptyBytes32) p.height p.header p.height ≠ emptyBytes32
    rwa [Function.update_self]
  · show Function.update (fun _ => emptyBytes32) p.authoritySetId p.authoritySetHash
      p.authoritySetId ≠ emptyBytes32
    rwa [Function.update_self]
  · rw [← hset]
    show Function.update (fun _ => emptyBytes32) p.authoritySetId p.authoritySetHash
      p.authoritySetId ≠ emptyBytes32
    rwa [Function.update_self]

/-- **Progress.** From genesis on, the contract catches up with any block `target` of the chain, up
to the last multiple of the interval: it takes at most two served rounds for each epoch in between,
and one for each step of the size of a range up to the interval, whatever happens between the
rounds. -/
theorem latestBlock_catchesUp {crypto : Crypto} (keccak256 : List UInt8 → Bytes32) (config : Config)
    (chain : EpochChain crypto) (head : UInt32) (hhead : head.toNat ≤ chain.toSetIds.head.toNat)
    (block : Option UInt32) (p : GenesisParameters)
    (hgenesis : genesis (chain.upTo head hhead) block = some p) (hpos : 1 ≤ p.height.toNat)
    (hhash : p.authoritySetHash ≠ emptyBytes32) (hheader : p.header ≠ emptyBytes32) (gateway : Address)
    (headerRangeFunctionId rotateFunctionId : Bytes32) (headerRangeCommitmentTreeSize : UInt32)
    (interval target : UInt32) (hw : Workable chain.toSetIds interval headerRangeCommitmentTreeSize)
    (htarget : target.toNat ≤ chain.toSetIds.head.toNat) (moves : List Move)
    (hserved : Run.Along (move keccak256 config chain interval) (Served config chain interval target)
      (initial head p gateway headerRangeFunctionId rotateFunctionId headerRangeCommitmentTreeSize)
      moves)
    (hrounds : 2 * (chain.toSetIds.id (lastMultiple interval target) -
        chain.toSetIds.id p.height.toNat) +
      (lastMultiple interval target - p.height.toNat +
          (headerRangeCommitmentTreeSize.toNat - interval.toNat)) /
        (headerRangeCommitmentTreeSize.toNat - interval.toNat + 1) ≤ moves.countP Move.isRound) :
    lastMultiple interval target ≤
      (Run.run (move keccak256 config chain interval) (initial head p gateway headerRangeFunctionId
        rotateFunctionId headerRangeCommitmentTreeSize) moves).1.contract.latestBlock.toNat := by
  obtain ⟨hinit, hknown⟩ := progressInv_initial gateway headerRangeFunctionId
    rotateFunctionId headerRangeCommitmentTreeSize hhead hgenesis hpos hhash hheader
  obtain ⟨-, hrank⟩ := Run.run_rank _ _
    (fun σ => rank chain.toSetIds interval headerRangeCommitmentTreeSize (lastMultiple interval target)
      σ.contract) Move.isRound
    (fun _ m hm hσ => hσ.move keccak256 rfl hw htarget m hm) hinit hserved
  exact le_latestBlock_of_rank_le hrank (Nat.le_trans (rank_le_of_known hknown) hrounds)

/-- A round of the dummy operator at block 3 of two epochs. -/
def servedRound : Move := .round (nodeAt 3) (Contract.constantEnv (List.replicate 96 7))

/-- Three rounds, and an old answer that arrives again. -/
def servedMoves : List Move :=
  [servedRound, .action (.fulfil 0 (Contract.constantEnv (List.replicate 96 9))), servedRound,
    servedRound]

theorem served_servedRound {σ : System} (hhead : σ.head.toNat ≤ 3) :
    Served dummyConfig (Reference.twoEpochChain [] []) 1 3 σ servedRound := by
  have hanswers : ∀ request, Answers (Contract.constantEnv (List.replicate 96 7)) σ.contract.gateway
      request := by
    intro request
    refine ⟨_, rfl, ?_⟩
    rw [Request.outputLength, List.length_replicate]
    split <;> decide
  refine ⟨?_, hhead, Nat.le_refl _, Nat.le_refl _, Or.inl rfl, fun request _ => hanswers request,
    fun request _ => hanswers request⟩
  rintro gateway functionId input output ⟨⟩
  decide

set_option maxRecDepth 4000 in
/-- The contract gets to block 3 in three rounds. -/
theorem latestBlock_catchesUp_twoEpochs :
    lastMultiple 1 3 ≤ (Run.run (move Reference.keccak256 dummyConfig (Reference.twoEpochChain [] []) 1)
      (initial 1 firstBlockParameters (ArrayVariable.replicate 20 1) (ArrayVariable.replicate 32 1)
        (ArrayVariable.replicate 32 2) 256) servedMoves).1.contract.latestBlock.toNat := by
  refine latestBlock_catchesUp Reference.keccak256 dummyConfig (Reference.twoEpochChain [] []) 1
    (by decide) (some 1) firstBlockParameters rfl (by decide) (by decide +kernel) (by decide +kernel)
    (ArrayVariable.replicate 20 1) (ArrayVariable.replicate 32 1) (ArrayVariable.replicate 32 2) 256 1 3
    ⟨by decide, by decide, by decide, by decide⟩ (by decide) servedMoves ?_ (by decide)
  refine ⟨served_servedRound (by decide), ?_, served_servedRound (by rfl), served_servedRound (by rfl),
    trivial⟩
  rintro gateway functionId input output ⟨⟩
  decide

end VectorXOperator

end VectorX
