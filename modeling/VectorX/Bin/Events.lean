import VectorX.Common.HashChain
import VectorX.Contracts.Bookkeeping
import VectorX.Input.LastJustifiedBlock
import VectorX.Reference.Crypto

/-!
# The event indexer

Reference: `bin/events.rs`, with the events that `contracts/src/interfaces/IVectorX.sol` declares.
The contract logs a stored range with five fields. The indexer asks for the topic of a signature
with four of them, and decodes four words.
-/

namespace VectorX

open Plonky2x Solidity
open Bytes (slice beNat beBytes)
open HashChain (CollisionFree)
open Contract (Env Call Event State)

/-! ## Logs -/

section Logs

structure Log where
  address : Address
  blockNumber : UInt64
  topics : List Bytes32
  data : List UInt8

/-- The signature of an event and its fields. A request to the gateway is not logged. -/
def Contract.Event.abiEncode : Event → Option (String × List UInt8)
  | .headerRangeRequested trustedBlock trustedHeader authoritySetId authoritySetHash targetBlock =>
    some ("HeaderRangeRequested(uint32,bytes32,uint64,bytes32,uint32)",
      encodeUint trustedBlock.toNat ++ trustedHeader.data ++ encodeUint authoritySetId.toNat ++
        authoritySetHash.data ++ encodeUint targetBlock.toNat)
  | .rotateRequested currentAuthoritySetId currentAuthoritySetHash =>
    some ("RotateRequested(uint64,bytes32)",
      encodeUint currentAuthoritySetId.toNat ++ currentAuthoritySetHash.data)
  | .headUpdate blockNumber headerHash =>
    some ("HeadUpdate(uint32,bytes32)", encodeUint blockNumber.toNat ++ headerHash.data)
  | .headerRangeCommitmentStored startBlock endBlock dataCommitment stateCommitment
      headerRangeCommitmentTreeSize =>
    some ("HeaderRangeCommitmentStored(uint32,uint32,bytes32,bytes32,uint32)",
      encodeUint startBlock.toNat ++ encodeUint endBlock.toNat ++ dataCommitment.data ++
        stateCommitment.data ++ encodeUint headerRangeCommitmentTreeSize.toNat)
  | .authoritySetStored authoritySetId authoritySetHash =>
    some ("AuthoritySetStored(uint64,bytes32)",
      encodeUint authoritySetId.toNat ++ authoritySetHash.data)
  | .requestCall _ _ _ _ => none

variable (keccak256 : List UInt8 → Bytes32)

/-- The topic of an event is the hash of its signature. -/
def eventTopic (signature : String) : Bytes32 := keccak256 signature.toUTF8.toList

/-- The log of an event that the contract at `address` emits in a block. No field is indexed. -/
def Contract.Event.toLog (address : Address) (blockNumber : UInt64) (e : Event) : Option Log :=
  e.abiEncode.map fun (signature, data) =>
    { address, blockNumber, topics := [eventTopic keccak256 signature], data }

/-- A transaction of a block. -/
def txStep (s : State) (tx : UInt64 × Env × Call) : State × List (UInt64 × Event) :=
  ((Contract.step keccak256 s tx.2).1, (Contract.step keccak256 s tx.2).2.map (Prod.mk tx.1))

/-- The events of a run, with their blocks. -/
def runEvents (txs : List (UInt64 × Env × Call)) : List (UInt64 × Event) :=
  (Run.run (txStep keccak256) State.fresh txs).2

/-- The logs of a run. -/
def runLogs (address : Address) (txs : List (UInt64 × Env × Call)) : List Log :=
  (runEvents keccak256 txs).filterMap fun (blockNumber, e) => e.toLog keccak256 address blockNumber

end Logs

/-! ## The indexer -/

section Indexer

abbrev HeaderRangeCommitmentStoredTuple := UInt32 × UInt32 × Bytes32 × Bytes32

def HeaderRangeCommitmentStoredTuple.abiEncode (t : HeaderRangeCommitmentStoredTuple) : List UInt8 :=
  encodeUint t.1.toNat ++ encodeUint t.2.1.toNat ++ t.2.2.1.data ++ t.2.2.2.data

/-- `abi_decode` with validation, which compares the encoding of the result with the data. -/
def HeaderRangeCommitmentStoredTuple.abiDecode (data : List UInt8) :
    Option HeaderRangeCommitmentStoredTuple := do
  let startBlock ← decodeWord data 0
  let endBlock ← decodeWord data 1
  let dataCommitment ← decodeWord data 2
  let stateCommitment ← decodeWord data 3
  let t : HeaderRangeCommitmentStoredTuple :=
    (UInt32.ofNat (beNat startBlock.data), UInt32.ofNat (beNat endBlock.data), dataCommitment,
      stateCommitment)
  if t.abiEncode = data then some t else none

structure DataCommitmentRange where
  start : UInt32
  endBlock : UInt32
  dataCommitment : Bytes32
deriving DecidableEq

structure Filter where
  address : Address
  fromBlock : UInt64
  toBlock : UInt64
  topic : Bytes32

/-- The logs that a node returns for a filter. -/
def Filter.Selects (filter : Filter) (log : Log) : Prop :=
  log.address = filter.address ∧ filter.fromBlock ≤ log.blockNumber ∧
    log.blockNumber ≤ filter.toBlock ∧ log.topics[0]? = some filter.topic

instance (filter : Filter) : DecidablePred filter.Selects := fun _ => instDecidableAnd

/-- The signature in `store_events`. -/
def storedEventSignature : String := "HeaderRangeCommitmentStored(uint32,uint32,bytes32,bytes32)"

variable (keccak256 : List UInt8 → Bytes32) (logs : List Log) (contractAddress : Address)

def headerRangeFilter (fromBlock toBlock : UInt64) : Filter where
  address := contractAddress
  fromBlock
  toBlock
  topic := eventTopic keccak256 storedEventSignature

/-- The range of a log. Data that does not decode panics. -/
def decodeRange (log : Log) : Option DataCommitmentRange := do
  let decoded ← HeaderRangeCommitmentStoredTuple.abiDecode log.data
  some { start := decoded.1, endBlock := decoded.2.1, dataCommitment := decoded.2.2.1 }

/-- The loop of `store_events` from `currStartBlock` on, for at most `fuel` batches. -/
def storeEventsLoop (endBlock : UInt64) : ℕ → UInt64 → Option (List DataCommitmentRange)
  | 0, _ => none
  | fuel + 1, currStartBlock =>
    if currStartBlock < endBlock then do
      let batchEndBlock ← checkedAdd64 currStartBlock 50000
      let batchEndBlock := if batchEndBlock > endBlock then endBlock else batchEndBlock
      let filter := headerRangeFilter keccak256 contractAddress currStartBlock batchEndBlock
      let ranges ← (logs.filter fun log => filter.Selects log).mapM decodeRange
      let rest ← storeEventsLoop endBlock fuel batchEndBlock
      some (ranges ++ rest)
    else some []

/-- `store_events`: the ranges that are added under the contract's key. -/
def storeEvents (startBlock endBlock : UInt64) : Option (List DataCommitmentRange) :=
  storeEventsLoop keccak256 logs contractAddress endBlock (endBlock.toNat - startBlock.toNat + 1)
    startBlock

end Indexer

/-! ## Topics -/

section Topics

variable {keccak256 : List UInt8 → Bytes32} {address : Address} {blockNumber : UInt64}

/-- The signatures of the events that the contract declares. -/
def declaredSignatures : List String :=
  ["HeaderRangeRequested(uint32,bytes32,uint64,bytes32,uint32)", "RotateRequested(uint64,bytes32)",
    "HeadUpdate(uint32,bytes32)", "HeaderRangeCommitmentStored(uint32,uint32,bytes32,bytes32,uint32)",
    "AuthoritySetStored(uint64,bytes32)"]

/-- What is hashed for the topics of the contract and of the indexer. -/
def signatureMessages : List (List UInt8) :=
  (storedEventSignature :: declaredSignatures).map fun signature => signature.toUTF8.toList

theorem mem_declaredSignatures {e : Event} {signature : String} {data : List UInt8}
    (h : e.abiEncode = some (signature, data)) : signature ∈ declaredSignatures := by
  cases e with
  | requestCall => exact absurd h (by simp [Event.abiEncode])
  | _ =>
    obtain ⟨rfl, -⟩ := Prod.mk.inj (Option.some.inj h)
    simp [declaredSignatures]

/-- No declared event has the signature that the indexer asks for. -/
theorem storedEventSignature_notMem :
    ∀ signature ∈ declaredSignatures,
      signature.toUTF8.toList ≠ storedEventSignature.toUTF8.toList := by
  decide +kernel

/-- No event of the contract has the topic that the indexer asks for. -/
theorem topic_ne_of_toLog (hfree : CollisionFree keccak256 signatureMessages) {e : Event} {log : Log}
    (h : e.toLog keccak256 address blockNumber = some log) :
    log.topics[0]? ≠ some (eventTopic keccak256 storedEventSignature) := by
  rw [Event.toLog, Option.map_eq_some_iff] at h
  obtain ⟨⟨signature, data⟩, hencode, rfl⟩ := h
  have hmem := mem_declaredSignatures hencode
  intro heq
  refine storedEventSignature_notMem signature hmem (hfree _ ?_ _ ?_ (Option.some.inj heq))
  · exact List.mem_map_of_mem (List.mem_cons_of_mem _ hmem)
  · exact List.mem_map_of_mem List.mem_cons_self

end Topics

/-! ## Decoding -/

section Decoding

open HeaderRangeCommitmentStoredTuple

theorem length_abiEncode (t : HeaderRangeCommitmentStoredTuple) : t.abiEncode.length = 128 := by
  simp only [HeaderRangeCommitmentStoredTuple.abiEncode, List.length_append, length_encodeUint,
    ArrayVariable.length_data]

/-- A number read back from its word. -/
theorem ofNat_beNat_encodeUint (a : UInt32) : UInt32.ofNat (beNat (encodeUint a.toNat)) = a := by
  have hlt : a.toNat < 256 ^ 32 := Nat.lt_trans a.toNat_lt (by decide)
  rw [encodeUint, Bytes.beNat_beBytes, Nat.mod_eq_of_lt hlt, UInt32.ofNat_toNat]

/-- Exactly the encodings of tuples decode. -/
theorem abiDecode_eq_some_iff {data : List UInt8} {t : HeaderRangeCommitmentStoredTuple} :
    abiDecode data = some t ↔ t.abiEncode = data := by
  constructor
  · intro h
    simp only [abiDecode, Option.bind_eq_bind, Option.bind_eq_some_iff] at h
    obtain ⟨_, -, _, -, _, -, _, -, h⟩ := h
    split at h
    · rename_i hencode
      rwa [← Option.some.inj h]
    · exact absurd h (by simp)
  · rintro rfl
    obtain ⟨a, b, d, r⟩ := t
    have hencode : HeaderRangeCommitmentStoredTuple.abiEncode (a, b, d, r) =
        encodeUint a.toNat ++ encodeUint b.toNat ++ d.data ++ r.data := rfl
    have hfirst := decodeWord_append [] ⟨encodeUint a.toNat, length_encodeUint _⟩
      (encodeUint b.toNat ++ (d.data ++ r.data)) (i := 0) rfl
    have hsecond := decodeWord_append (encodeUint a.toNat) ⟨encodeUint b.toNat, length_encodeUint _⟩
      (d.data ++ r.data) (i := 1) (length_encodeUint _)
    have hthird := decodeWord_append (encodeUint a.toNat ++ encodeUint b.toNat) d r.data (i := 2) (by
      rw [List.length_append, length_encodeUint, length_encodeUint])
    have hfourth := decodeWord_append (encodeUint a.toNat ++ encodeUint b.toNat ++ d.data) r [] (i := 3)
      (by rw [List.length_append, List.length_append, length_encodeUint, length_encodeUint,
        d.length_data])
    rw [List.nil_append, ← List.append_assoc, ← List.append_assoc, ← hencode] at hfirst
    rw [← List.append_assoc, ← hencode] at hsecond
    rw [← hencode] at hthird
    rw [List.append_nil, ← hencode] at hfourth
    rw [abiDecode, hfirst, hsecond, hthird, hfourth]
    simp only [Option.bind_eq_bind, Option.bind_some, ofNat_beNat_encodeUint, if_true]

/-- The data of a stored range is one word too long. -/
theorem decodeRange_of_toLog {keccak256 : List UInt8 → Bytes32} {address : Address}
    {blockNumber : UInt64} {a b : UInt32} {d r : Bytes32} {size : UInt32} {log : Log}
    (h : Event.toLog keccak256 address blockNumber (.headerRangeCommitmentStored a b d r size) =
      some log) : decodeRange log = none := by
  have hlen : log.data.length = 160 := by
    rw [← Option.some.inj h]
    simp only [List.length_append, length_encodeUint, ArrayVariable.length_data]
  rcases hdecode : abiDecode log.data with - | t
  · rw [decodeRange, hdecode]
    rfl
  · have hencode := congrArg List.length (abiDecode_eq_some_iff.mp hdecode)
    rw [length_abiEncode, hlen] at hencode
    exact absurd hencode (by decide)

end Decoding

/-! ## Nothing is indexed -/

section Indexed

variable {keccak256 : List UInt8 → Bytes32} {logs : List Log} {address : Address}
  {endBlock : UInt64}

/-- Without a log under the topic no range is added. -/
theorem storeEventsLoop_eq_nil
    (hnone : ∀ log ∈ logs, log.address = address →
      log.topics[0]? ≠ some (eventTopic keccak256 storedEventSignature)) :
    ∀ (fuel : ℕ) (currStartBlock : UInt64) (ranges : List DataCommitmentRange),
      storeEventsLoop keccak256 logs address endBlock fuel currStartBlock = some ranges → ranges = []
  | 0, _, _, h => absurd h (by simp [storeEventsLoop])
  | fuel + 1, currStartBlock, ranges, h => by
    rw [storeEventsLoop] at h
    split at h
    · simp only [Option.bind_eq_bind, Option.bind_eq_some_iff] at h
      obtain ⟨batchEndBlock, -, batch, hbatch, rest, hrest, h⟩ := h
      have hfilter : (logs.filter fun log => (headerRangeFilter keccak256 address currStartBlock
          (if batchEndBlock > endBlock then endBlock else batchEndBlock)).Selects log) = [] := by
        rw [List.filter_eq_nil_iff]
        intro log hlog hselects
        obtain ⟨haddress, -, -, htopic⟩ := of_decide_eq_true hselects
        exact hnone log hlog haddress htopic
      rw [hfilter] at hbatch
      obtain rfl : [] = batch := Option.some.inj hbatch
      have hempty := storeEventsLoop_eq_nil hnone fuel _ rest hrest
      rw [← Option.some.inj h, hempty, List.append_nil]
    · exact (Option.some.inj h).symm

end Indexed

/-- The log of a stored range is selected by the filter, decoded to its range, and the range is
added. -/
structure IsIndexed (keccak256 : List UInt8 → Bytes32) (logs : List Log) (contractAddress : Address)
    (startBlock endBlock : UInt64) (log : Log) (range : DataCommitmentRange) : Prop where
  selected : (headerRangeFilter keccak256 contractAddress startBlock endBlock).Selects log
  decoded : decodeRange log = some range
  added : ∃ ranges, storeEvents keccak256 logs contractAddress startBlock endBlock = some ranges ∧
    range ∈ ranges

/-- **Stored ranges.** If the signatures of the events do not collide, no log of a stored range is
indexed: the filter does not select it, its data does not decode, and its range is not added. -/
theorem storedRange_notIndexed (keccak256 : List UInt8 → Bytes32)
    (hfree : CollisionFree keccak256 signatureMessages) (txs : List (UInt64 × Env × Call))
    (address : Address) (logs : List Log)
    (hlogs : ∀ log ∈ logs, log.address = address →
      log.topics[0]? = some (eventTopic keccak256 storedEventSignature) →
      log ∈ runLogs keccak256 address txs) (startBlock endBlock blockNumber : UInt64)
    (range : DataCommitmentRange) (stateCommitment : Bytes32)
    (headerRangeCommitmentTreeSize : UInt32) (log : Log)
    (hlog : Event.toLog keccak256 address blockNumber
      (.headerRangeCommitmentStored range.start range.endBlock range.dataCommitment stateCommitment
        headerRangeCommitmentTreeSize) = some log) :
    ¬ IsIndexed keccak256 logs address startBlock endBlock log range ∧
      ¬ (headerRangeFilter keccak256 address startBlock endBlock).Selects log ∧
      decodeRange log = none ∧
      ∀ ranges, storeEvents keccak256 logs address startBlock endBlock = some ranges → ranges = [] := by
  have hselects : ¬ (headerRangeFilter keccak256 address startBlock endBlock).Selects log :=
    fun h => topic_ne_of_toLog hfree hlog h.2.2.2
  refine ⟨fun h => hselects h.selected, hselects, decodeRange_of_toLog hlog, fun ranges h => ?_⟩
  refine storeEventsLoop_eq_nil (fun log' hlog' haddress htopic => ?_) _ _ _ h
  -- the topic would be the one of an event of the run
  obtain ⟨⟨n, e⟩, -, he⟩ := List.mem_filterMap.mp (hlogs log' hlog' haddress htopic)
  exact topic_ne_of_toLog hfree he htopic

/-- A contract that is initialized in block 1 and commits to a header range in block 2. -/
def commitTxs : List (UInt64 × Env × Call) :=
  [(1, Contract.constantEnv [], .initializeContract Contract.genesisParams),
    (2, Contract.constantEnv (List.replicate 96 7), .commitHeaderRange 298 5)]

/-- The range that is committed. -/
def committedRange : DataCommitmentRange where
  start := 0
  endBlock := 5
  dataCommitment := ArrayVariable.replicate 32 7

theorem collisionFree_signatureMessages : CollisionFree Reference.keccak256 signatureMessages :=
  HashChain.collisionFree_of_nodup (by decide +kernel)

/-- The log of the commit. -/
def committedLog : Log where
  address := ArrayVariable.replicate 20 3
  blockNumber := 2
  topics := [eventTopic Reference.keccak256
    "HeaderRangeCommitmentStored(uint32,uint32,bytes32,bytes32,uint32)"]
  data := encodeUint 0 ++ encodeUint 5 ++ List.replicate 32 7 ++ List.replicate 32 7 ++ encodeUint 256

/-- Blocks 1 to 3, with the logs of the contract. -/
theorem storedRange_notIndexed_committed :
    ¬ IsIndexed Reference.keccak256
        (runLogs Reference.keccak256 (ArrayVariable.replicate 20 3) commitTxs)
        (ArrayVariable.replicate 20 3) 1 3 committedLog committedRange ∧
      ¬ (headerRangeFilter Reference.keccak256 (ArrayVariable.replicate 20 3) 1 3).Selects
        committedLog ∧
      decodeRange committedLog = none ∧
      ∀ ranges, storeEvents Reference.keccak256
        (runLogs Reference.keccak256 (ArrayVariable.replicate 20 3) commitTxs)
        (ArrayVariable.replicate 20 3) 1 3 = some ranges → ranges = [] :=
  storedRange_notIndexed Reference.keccak256 collisionFree_signatureMessages commitTxs
    (ArrayVariable.replicate 20 3)
    (runLogs Reference.keccak256 (ArrayVariable.replicate 20 3) commitTxs)
    (fun _ hlog _ _ => hlog) 1 3 2 committedRange (ArrayVariable.replicate 32 7) 256 committedLog rfl

/-- The commit is not indexed. -/
theorem not_isIndexed :
    ¬ ∀ (keccak256 : List UInt8 → Bytes32), CollisionFree keccak256 signatureMessages →
        ∀ (txs : List (UInt64 × Env × Call)) (address : Address) (logs : List Log),
        (∀ log, log ∈ logs ↔ log ∈ runLogs keccak256 address txs) →
        ∀ (startBlock endBlock blockNumber : UInt64) (range : DataCommitmentRange)
          (stateCommitment : Bytes32) (headerRangeCommitmentTreeSize : UInt32) (log : Log),
        startBlock ≤ blockNumber → blockNumber ≤ endBlock →
        (blockNumber, .headerRangeCommitmentStored range.start range.endBlock range.dataCommitment
          stateCommitment headerRangeCommitmentTreeSize) ∈ runEvents keccak256 txs →
        Event.toLog keccak256 address blockNumber
          (.headerRangeCommitmentStored range.start range.endBlock range.dataCommitment stateCommitment
            headerRangeCommitmentTreeSize) = some log →
        IsIndexed keccak256 logs address startBlock endBlock log range := by
  intro hclaim
  have hindexed := hclaim Reference.keccak256 collisionFree_signatureMessages commitTxs
    (ArrayVariable.replicate 20 3) _ (fun _ => Iff.rfl) 1 3 2 committedRange
    (ArrayVariable.replicate 32 7) 256 committedLog (by decide) (by decide)
    (List.mem_cons_of_mem _ List.mem_cons_self) rfl
  have hlog : Event.toLog Reference.keccak256 (ArrayVariable.replicate 20 3) 2
      (.headerRangeCommitmentStored 0 5 (ArrayVariable.replicate 32 7) (ArrayVariable.replicate 32 7)
        256) = some committedLog := rfl
  have hdecoded := decodeRange_of_toLog hlog
  rw [hindexed.decoded] at hdecoded
  exact absurd hdecoded (by simp)

end VectorX
