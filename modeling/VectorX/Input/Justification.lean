import VectorX.Circuits.JustificationSoundness
import VectorX.Circuits.SubchainVerification
import VectorX.Reference.EpochChain
import Mathlib.Logic.Function.Basic

/-!
# Justifications from a node and from the store

Reference: `circuits/input/mod.rs`, `circuits/input/types.rs` and the hint of
`circuits/builder/justification.rs`. The justification of an epoch end block comes from the node,
any other one from the store that the indexer fills. Both are checked against two thirds of the
authorities and padded to the slots of the circuit.
-/

namespace VectorX

open Plonky2x Plonky2x.CircuitBuilder
open Bytes (slice leNat leBytes)

/-! ## Data -/

section Data

@[ext] structure Precommit where
  targetHash : Bytes32Variable
  targetNumber : UInt32
deriving DecidableEq

/-- A precommit with its signature and the key of the signer. -/
structure SignedPrecommit where
  precommit : Precommit
  signature : BytesVariable 64
  id : Bytes32Variable
deriving DecidableEq

structure Commit where
  targetHash : Bytes32Variable
  targetNumber : UInt32
  precommits : List SignedPrecommit

structure GrandpaJustification where
  round : UInt64
  commit : Commit

/-- What the indexer stores for a block. -/
structure StoredJustificationData where
  blockNumber : UInt32
  signedMessage : List UInt8
  pubkeys : List (List UInt8)
  signatures : List (List UInt8)
  validatorSigned : List Bool
  numAuthorities : ℕ
deriving DecidableEq

structure SimpleJustificationData where
  pubkeys : List Bytes32Variable
  signatures : List (List UInt8)
  validatorSigned : List Bool
  signedMessage : List UInt8
  votingWeight : ℕ
  numAuthorities : ℕ

/-- A justification, padded to the slots of the circuit. -/
structure CircuitJustification where
  authoritySetId : UInt64
  signedMessage : List UInt8
  validatorSigned : List Bool
  pubkeys : List Bytes32Variable
  signatures : List (BytesVariable 64)
  numAuthorities : ℕ
  currentAuthoritySetHash : List UInt8

/-- The chain of a node, the finality proofs that it serves, and the store. -/
structure RpcDataFetcher (crypto : Crypto) extends EpochChain crypto where
  proveFinality : UInt32 → Option GrandpaJustification
  redisJustification : UInt32 → Option StoredJustificationData

/-- The encoding of a precommit message with the round and the set id. -/
def encodeSignerMessage (precommit : Precommit) (round authoritySetId : UInt64) : List UInt8 :=
  [1] ++ precommit.targetHash.data ++ leBytes 4 precommit.targetNumber.toNat ++
    leBytes 8 round.toNat ++ leBytes 8 authoritySetId.toNat

/-- The signature variable for 64 bytes: the point and the little-endian scalar. -/
def signatureVariable (sig : BytesVariable 64) : EDDSASignature where
  r := ⟨slice sig.data 0 32, Bytes.length_slice (by rw [sig.length_data]; decide)⟩
  s := BitVec.ofNat 256 (leNat (slice sig.data 32 32))

/-- Whether a signature verifies in the circuit. -/
def signatureValid (crypto : Crypto) (pubkey : Bytes32Variable) (signedMessage : List UInt8)
    (signature : BytesVariable 64) : Bool :=
  crypto.ed25519Verify pubkey signedMessage (signatureVariable signature)

/-- `verify_signature`, which panics if the signature is not valid. -/
def verifySignature (crypto : Crypto) (pubkey : Bytes32Variable) (signedMessage : List UInt8)
    (signature : BytesVariable 64) : Bool :=
  crypto.dalekVerify pubkey signedMessage (signatureVariable signature)

/-- `Pair::verify`. -/
def pairVerify (crypto : Crypto) (pubkey : Bytes32Variable) (signedMessage : List UInt8)
    (signature : BytesVariable 64) : Bool :=
  crypto.pairVerify pubkey signedMessage (signatureVariable signature)

/-- A map from keys to signatures, after inserting the given entries in order. -/
def signatureMap (entries : List (Bytes32Variable × BytesVariable 64)) :
    Bytes32Variable → Option (BytesVariable 64) :=
  entries.foldl (fun m entry => Function.update m entry.1 (some entry.2)) fun _ => none

end Data

/-! ## Messages and signatures -/

section Messages

/-- The host verifies what the circuit verifies. -/
@[simp] theorem verifySignature_eq : verifySignature = signatureValid := by
  funext crypto pubkey signedMessage signature
  rw [verifySignature, crypto.dalekVerify_eq, signatureValid]

@[simp] theorem pairVerify_eq : pairVerify = signatureValid := by
  funext crypto pubkey signedMessage signature
  rw [pairVerify, crypto.pairVerify_eq, signatureValid]

theorem length_encodeSignerMessage (precommit : Precommit) (round authoritySetId : UInt64) :
    (encodeSignerMessage precommit round authoritySetId).length = ENCODED_PRECOMMIT_LENGTH := by
  simp only [encodeSignerMessage, List.length_append, Bytes.length_leBytes,
    precommit.targetHash.length_data]
  rfl

/-- The circuit reads the message as the precommit. -/
theorem isPrecommit_encodeSignerMessage (precommit : Precommit) (round authoritySetId : UInt64) :
    IsPrecommit (encodeSignerMessage precommit round authoritySetId) precommit.targetHash
      precommit.targetNumber authoritySetId :=
  isPrecommit_append precommit.targetHash precommit.targetNumber round.toNat authoritySetId

/-- Inserting entries, in terms of the map before. -/
theorem foldl_update_eq_some {κ ν : Type*} [DecidableEq κ] {k : κ} {v : ν} :
    ∀ (entries : List (κ × ν)) (m : κ → Option ν),
      entries.foldl (fun (m : κ → Option ν) entry => Function.update m entry.1 (some entry.2)) m k =
        some v →
      (k, v) ∈ entries ∨ m k = some v
  | [], _, h => Or.inr h
  | (k', v') :: entries, m, h => by
    rcases foldl_update_eq_some entries (Function.update m k' (some v')) h with hmem | hupdate
    · exact Or.inl (List.mem_cons_of_mem _ hmem)
    · by_cases hk : k = k'
      · subst hk
        rw [Function.update_self] at hupdate
        rw [Option.some.inj hupdate]
        exact Or.inl (List.mem_cons_self ..)
      · rw [Function.update_of_ne hk] at hupdate
        exact Or.inr hupdate

/-- Inserted keys stay in the map. -/
theorem isSome_foldl_update {κ ν : Type*} [DecidableEq κ] {k : κ} :
    ∀ (entries : List (κ × ν)) (m : κ → Option ν), (m k).isSome ∨ (∃ v, (k, v) ∈ entries) →
      (entries.foldl (fun (m : κ → Option ν) entry => Function.update m entry.1 (some entry.2)) m
        k).isSome
  | [], _, h => h.resolve_right (by simp)
  | (k', v') :: entries, m, h => by
    refine isSome_foldl_update entries (Function.update m k' (some v')) ?_
    by_cases hk : k = k'
    · subst hk
      exact Or.inl (by rw [Function.update_self]; rfl)
    · rw [Function.update_of_ne hk]
      refine h.imp id fun ⟨v, hv⟩ => ⟨v, ?_⟩
      exact (List.mem_cons.mp hv).resolve_left fun heq => hk (congrArg Prod.fst heq)

/-- A signature in the map was inserted for its key. -/
theorem mem_of_signatureMap {entries : List (Bytes32Variable × BytesVariable 64)}
    {k : Bytes32Variable} {s : BytesVariable 64} (h : signatureMap entries k = some s) :
    (k, s) ∈ entries :=
  (foldl_update_eq_some entries _ h).resolve_right (by simp)

/-- The map has a signature for the keys that were inserted. -/
theorem isSome_signatureMap_iff (entries : List (Bytes32Variable × BytesVariable 64))
    {k : Bytes32Variable} : (signatureMap entries k).isSome ↔ ∃ s, (k, s) ∈ entries := by
  constructor
  · intro h
    obtain ⟨s, hs⟩ := Option.isSome_iff_exists.mp h
    exact ⟨s, mem_of_signatureMap hs⟩
  · exact fun h => isSome_foldl_update entries _ (Or.inr h)

end Messages

/-! ## The host -/

section Host

variable {crypto : Crypto} (fetcher : RpcDataFetcher crypto)
  (DUMMY_PUBLIC_KEY : Bytes32Variable) (DUMMY_SIGNATURE : BytesVariable 64)

/-- The branch of `get_justification_data` for an epoch end block. -/
def getFinalityProofData (VALIDATOR_SET_SIZE_MAX : ℕ) (blockNumber : UInt32) :
    Option SimpleJustificationData := do
  let justification ← fetcher.proveFinality blockNumber
  let prevBlock ← checkedSub blockNumber 1
  let authoritySetId ← getAuthoritySetId fetcher.toSetIds prevBlock
  let authorities ← getAuthorities fetcher.toEpochChain prevBlock
  if VALIDATOR_SET_SIZE_MAX < authorities.length then none
  let first ← justification.commit.precommits[0]?
  let signedMessage := encodeSignerMessage first.precommit justification.round authoritySetId
  -- an invalid signature panics
  if ¬ justification.commit.precommits.all fun precommit =>
      verifySignature crypto precommit.id signedMessage precommit.signature then none
  let signatureOf :=
    signatureMap (justification.commit.precommits.map fun precommit =>
      (precommit.id, precommit.signature))
  some {
    pubkeys := authorities
    signatures := authorities.map fun pubkey => ((signatureOf pubkey).getD DUMMY_SIGNATURE).data
    validatorSigned := authorities.map fun pubkey => (signatureOf pubkey).isSome
    signedMessage
    votingWeight := authorities.countP fun pubkey => (signatureOf pubkey).isSome
    numAuthorities := authorities.length }

/-- The branch of `get_justification_data` for other blocks. A record that cannot be read is an
error, a key that does not have 32 bytes panics. -/
def getStoredData (blockNumber : UInt32) : Option (Except Unit SimpleJustificationData) :=
  match fetcher.redisJustification blockNumber with
  | none => some (.error ())
  | some stored => do
    let pubkeys ← stored.pubkeys.mapM h256FromSlice
    some (.ok {
      pubkeys
      signatures := stored.signatures
      validatorSigned := stored.validatorSigned
      signedMessage := stored.signedMessage
      votingWeight := stored.validatorSigned.count true
      numAuthorities := stored.numAuthorities })

/-- `get_justification_data`. -/
def getJustificationData (VALIDATOR_SET_SIZE_MAX : ℕ) (blockNumber : UInt32) :
    Option (Except Unit SimpleJustificationData) := do
  let currAuthoritySetId ← getAuthoritySetId fetcher.toSetIds blockNumber
  let prevBlock ← checkedSub blockNumber 1
  let prevAuthoritySetId ← getAuthoritySetId fetcher.toSetIds prevBlock
  let nextAuthoritySetId ← checkedAdd64 prevAuthoritySetId 1
  if currAuthoritySetId = nextAuthoritySetId then do
    let data ← getFinalityProofData fetcher DUMMY_SIGNATURE VALIDATOR_SET_SIZE_MAX blockNumber
    some (.ok data)
  else getStoredData fetcher blockNumber

/-- Slot `i` of the justification. Indexing past the end of a list panics. -/
def justificationSlot (data : SimpleJustificationData) (i : ℕ) :
    Option (Bytes32Variable × BytesVariable 64 × Bool) := do
  let pubkey ← data.pubkeys[i]?
  let signature ← data.signatures[i]?
  let signature ← newArray 64 signature
  let signed ← data.validatorSigned[i]?
  some (pubkey, signature, signed)

/-- What `get_justification_from_block` does with the data. -/
def padJustification (crypto : Crypto) (DUMMY_PUBLIC_KEY : Bytes32Variable)
    (DUMMY_SIGNATURE : BytesVariable 64) (VALIDATOR_SET_SIZE_MAX : ℕ) (currentAuthoritySetId : UInt64)
    (data : SimpleJustificationData) : Option CircuitJustification := do
  if data.votingWeight * 3 < data.numAuthorities * 2 then none
  let slots ← (List.range data.numAuthorities).mapM (justificationSlot data)
  let padding := VALIDATOR_SET_SIZE_MAX - data.numAuthorities
  some {
    authoritySetId := currentAuthoritySetId
    signedMessage := data.signedMessage
    validatorSigned := slots.map (fun slot => slot.2.2) ++ List.replicate padding false
    pubkeys := slots.map Prod.fst ++ List.replicate padding DUMMY_PUBLIC_KEY
    signatures := slots.map (fun slot => slot.2.1) ++ List.replicate padding DUMMY_SIGNATURE
    numAuthorities := data.numAuthorities
    currentAuthoritySetHash := computeAuthoritySetHash crypto data.pubkeys }

/-- `get_justification_from_block`. -/
def getJustificationFromBlock (VALIDATOR_SET_SIZE_MAX : ℕ) (blockNumber : UInt32) :
    Option (Except Unit CircuitJustification) := do
  match ← getJustificationData fetcher DUMMY_SIGNATURE VALIDATOR_SET_SIZE_MAX blockNumber with
  | .error e => some (.error e)
  | .ok data => do
    let prevBlock ← checkedSub blockNumber 1
    let currentAuthoritySetId ← getAuthoritySetId fetcher.toSetIds prevBlock
    let justification ← padJustification crypto DUMMY_PUBLIC_KEY DUMMY_SIGNATURE
      VALIDATOR_SET_SIZE_MAX currentAuthoritySetId data
    some (.ok justification)

/-- `HintSimpleJustification::hint`. -/
def hintSimpleJustification (NUM_AUTHORITIES : ℕ) (blockNumber : UInt32) (authoritySetId : UInt64) :
    Option (JustificationVariable NUM_AUTHORITIES) := do
  match ← getJustificationFromBlock fetcher DUMMY_PUBLIC_KEY DUMMY_SIGNATURE NUM_AUTHORITIES
      blockNumber with
  | .error _ => none
  | .ok justification => do
    if justification.authoritySetId ≠ authoritySetId then none
    let encodedPrecommit ← newArray ENCODED_PRECOMMIT_LENGTH justification.signedMessage
    -- an invalid signature of a validator that is marked as signed panics
    let _ ← (List.range justification.numAuthorities).mapM fun i => do
      let signed ← justification.validatorSigned[i]?
      let pubkey ← justification.pubkeys[i]?
      let signature ← justification.signatures[i]?
      if signed && !verifySignature crypto pubkey justification.signedMessage signature then none
      some ()
    let validatorSigned ← newArray NUM_AUTHORITIES justification.validatorSigned
    let signatures ← newArray NUM_AUTHORITIES (justification.signatures.map signatureVariable)
    let pubkeys ← newArray NUM_AUTHORITIES justification.pubkeys
    some {
      encodedPrecommit
      validatorSigned
      signatures
      pubkeys
      numAuthorities := UInt32.ofNat justification.numAuthorities }

end Host

/-! ## The padded justification -/

section Padded

variable {crypto : Crypto} {fetcher : RpcDataFetcher crypto} {DUMMY_PUBLIC_KEY : Bytes32Variable}
  {DUMMY_SIGNATURE : BytesVariable 64} {VALIDATOR_SET_SIZE_MAX : ℕ} {b : UInt32}
  {data : SimpleJustificationData} {j : CircuitJustification}

/-- The voting weight counts all validators that are marked as signed. -/
theorem votingWeight_eq
    (h : getJustificationData fetcher DUMMY_SIGNATURE VALIDATOR_SET_SIZE_MAX b = some (.ok data)) :
    data.votingWeight = data.validatorSigned.count true := by
  simp only [getJustificationData, Option.bind_eq_bind, Option.bind_eq_some_iff] at h
  obtain ⟨curr, -, prevBlock, -, prev, -, next, -, h⟩ := h
  split at h
  · obtain ⟨data', hdata', h⟩ := Option.bind_eq_some_iff.mp h
    obtain rfl : data' = data := by simpa using h
    simp only [getFinalityProofData, Option.bind_eq_bind, Option.bind_eq_some_iff] at hdata'
    obtain ⟨justification, -, prevBlock, -, id, -, authorities, -, hdata'⟩ := hdata'
    split at hdata'
    · exact absurd hdata' (by simp)
    obtain ⟨first, -, hdata'⟩ := Option.bind_eq_some_iff.mp hdata'
    split at hdata'
    · exact absurd hdata' (by simp)
    obtain rfl := Option.some.inj hdata'
    rw [List.count, List.countP_map]
    refine List.countP_congr fun pubkey _ => ?_
    simp
  · rw [getStoredData] at h
    split at h
    · exact absurd h (by simp)
    obtain ⟨pubkeys, -, h⟩ := Option.bind_eq_some_iff.mp h
    obtain rfl : _ = data := by simpa using h
    rfl

/-- What is padded: the entries of the first `num_authorities` slots. -/
theorem of_padJustification {id : UInt64}
    (h : padJustification crypto DUMMY_PUBLIC_KEY DUMMY_SIGNATURE VALIDATOR_SET_SIZE_MAX id
      data = some j) :
    data.numAuthorities * 2 ≤ data.votingWeight * 3 ∧
      data.numAuthorities ≤ data.validatorSigned.length ∧
      j.numAuthorities = data.numAuthorities ∧
      j.validatorSigned = data.validatorSigned.take data.numAuthorities ++
        List.replicate (VALIDATOR_SET_SIZE_MAX - data.numAuthorities) false ∧
      j.pubkeys.length = j.validatorSigned.length ∧
      j.signatures.length = j.validatorSigned.length := by
  rw [padJustification] at h
  split at h
  · exact absurd h (by simp)
  rename_i hweight
  obtain ⟨slots, hslots, h⟩ := Option.bind_eq_some_iff.mp h
  obtain rfl := Option.some.inj h
  obtain ⟨hlen, hget⟩ := TreeReduce.getElem?_of_mapM hslots
  rw [List.length_range] at hlen
  have hsigned : ∀ t, t < data.numAuthorities → ∃ slot, slots[t]? = some slot ∧
      data.validatorSigned[t]? = some slot.2.2 := by
    intro t ht
    have hslot := hget t
    rw [List.getElem?_range ht, Option.bind_some] at hslot
    obtain ⟨slot, hsome⟩ : ∃ slot, slots[t]? = some slot :=
      ⟨_, List.getElem?_eq_getElem (by omega)⟩
    rw [hsome, eq_comm] at hslot
    simp only [justificationSlot, Option.bind_eq_bind, Option.bind_eq_some_iff] at hslot
    obtain ⟨pubkey, -, signature, -, signature', -, signed, hsigned, hslot⟩ := hslot
    exact ⟨slot, hsome, by rw [hsigned, ← Option.some.inj hslot]⟩
  have hle : data.numAuthorities ≤ data.validatorSigned.length := by
    by_contra hlt
    obtain ⟨slot, -, hsome⟩ := hsigned data.validatorSigned.length (Nat.not_le.mp hlt)
    rw [List.getElem?_eq_none (Nat.le_refl _)] at hsome
    exact absurd hsome (by simp)
  have htake : slots.map (fun slot => slot.2.2) =
      data.validatorSigned.take data.numAuthorities := by
    apply List.ext_getElem?
    intro t
    rw [List.getElem?_map, List.getElem?_take]
    split
    · rename_i ht
      obtain ⟨slot, hslot, hsome⟩ := hsigned t ht
      rw [hslot, hsome, Option.map_some]
    · rw [List.getElem?_eq_none (by omega), Option.map_none]
  exact ⟨Nat.not_lt.mp hweight, hle, rfl, by rw [htake], by simp, by simp⟩

/-- The flags of a justification: those of the first slots, and no others. -/
theorem of_getJustificationFromBlock
    (h : getJustificationFromBlock fetcher DUMMY_PUBLIC_KEY DUMMY_SIGNATURE VALIDATOR_SET_SIZE_MAX b =
      some (.ok j)) :
    ∃ flags : List Bool, flags.length = j.numAuthorities ∧
      j.validatorSigned =
        flags ++ List.replicate (VALIDATOR_SET_SIZE_MAX - j.numAuthorities) false := by
  rw [getJustificationFromBlock, Option.bind_eq_bind, Option.bind_eq_some_iff] at h
  obtain ⟨e | data, -, h⟩ := h
  · exact absurd h (by simp)
  simp only [Option.bind_eq_bind, Option.bind_eq_some_iff] at h
  obtain ⟨prevBlock, -, id, -, j', hpad, h⟩ := h
  obtain rfl : j' = j := by simpa using h
  obtain ⟨-, hle, hnum, hflags, -, -⟩ := of_padJustification hpad
  refine ⟨data.validatorSigned.take data.numAuthorities, ?_, by rw [hnum, hflags]⟩
  rw [List.length_take, Nat.min_eq_left hle, hnum]

end Padded

/-! ## Acceptance by the circuit -/

section Acceptance

/-- The arrays of a justification fill the slots, no padding is marked as signed, and the threshold
of the circuit is passed. -/
structure PassesCircuit (VALIDATOR_SET_SIZE_MAX : ℕ) (j : CircuitJustification) : Prop where
  length_pubkeys : j.pubkeys.length = VALIDATOR_SET_SIZE_MAX
  length_signatures : j.signatures.length = VALIDATOR_SET_SIZE_MAX
  length_validatorSigned : j.validatorSigned.length = VALIDATOR_SET_SIZE_MAX
  padding : ∀ i, j.numAuthorities ≤ i → i < VALIDATOR_SET_SIZE_MAX →
    j.validatorSigned[i]? = some false
  threshold : ∀ flags : ArrayVariable BoolVariable VALIDATOR_SET_SIZE_MAX,
    flags.data = j.validatorSigned →
    verifyVotingThreshold (UInt32.ofNat j.numAuthorities) flags 2 3 = some ()

/-- The votes stored beyond the first `num_authorities` entries. -/
def surplusVotes (data : SimpleJustificationData) : ℕ :=
  (data.validatorSigned.drop data.numAuthorities).count true

/-- The authorities fit, and the votes exceed two thirds of them even without those that are stored
beyond them; where the products of the circuit wrap around, its own comparison holds. -/
structure ClearsTwoThirds (VALIDATOR_SET_SIZE_MAX : ℕ) (data : SimpleJustificationData) : Prop where
  fits : data.numAuthorities ≤ VALIDATOR_SET_SIZE_MAX
  exceeds : 3 * data.numAuthorities < 2 ^ 32 →
    data.numAuthorities * 2 + surplusVotes data * 3 < data.votingWeight * 3
  wrapped : 2 ^ 32 ≤ 3 * data.numAuthorities →
    PassesThreshold data.numAuthorities (data.votingWeight - surplusVotes data)

/-- Without wrap-around the comparison of the circuit is exact. -/
theorem passesThreshold_iff_of_lt {n votes : ℕ} (hn : 3 * n < 2 ^ 32) (hvotes : votes ≤ n) :
    PassesThreshold n votes ↔ n * 2 < votes * 3 := by
  rw [PassesThreshold, Nat.mod_eq_of_lt (by omega), Nat.mod_eq_of_lt (by omega)]
  omega

/-- The comparison depends on the number of authorities as a 32-bit number. -/
theorem passesThreshold_mod {n votes : ℕ} :
    PassesThreshold (n % 2 ^ 32) votes ↔ PassesThreshold n votes := by
  rw [PassesThreshold, PassesThreshold, Nat.mul_mod_mod]

/-- The votes of the first entries. -/
theorem count_take_eq (data : SimpleJustificationData)
    (hweight : data.votingWeight = data.validatorSigned.count true) :
    (data.validatorSigned.take data.numAuthorities).count true + surplusVotes data =
      data.votingWeight := by
  rw [hweight, surplusVotes, ← List.count_append, List.take_append_drop]

variable {crypto : Crypto} {fetcher : RpcDataFetcher crypto} {DUMMY_PUBLIC_KEY : Bytes32Variable}
  {DUMMY_SIGNATURE : BytesVariable 64} {VALIDATOR_SET_SIZE_MAX : ℕ} {b : UInt32}
  {data : SimpleJustificationData} {j : CircuitJustification}

/-- The justification is the padded data. -/
theorem exists_padJustification
    (hdata : getJustificationData fetcher DUMMY_SIGNATURE VALIDATOR_SET_SIZE_MAX b =
      some (.ok data))
    (hj : getJustificationFromBlock fetcher DUMMY_PUBLIC_KEY DUMMY_SIGNATURE VALIDATOR_SET_SIZE_MAX
      b = some (.ok j)) :
    ∃ id, padJustification crypto DUMMY_PUBLIC_KEY DUMMY_SIGNATURE
      VALIDATOR_SET_SIZE_MAX id data = some j := by
  rw [getJustificationFromBlock, hdata, Option.bind_eq_bind, Option.bind_some] at hj
  simp only [Option.bind_eq_bind, Option.bind_eq_some_iff] at hj
  obtain ⟨prevBlock, -, id, -, j', hpad, hj⟩ := hj
  obtain rfl : j' = j := by simpa using hj
  exact ⟨id, hpad⟩

/-- The comparison of the circuit on the padded flags. -/
theorem verifyVotingThreshold_iff_of_padded {flags : ArrayVariable BoolVariable VALIDATOR_SET_SIZE_MAX}
    (hweight : data.votingWeight = data.validatorSigned.count true)
    (hflags : flags.data = data.validatorSigned.take data.numAuthorities ++
      List.replicate (VALIDATOR_SET_SIZE_MAX - data.numAuthorities) false) :
    verifyVotingThreshold (UInt32.ofNat data.numAuthorities) flags 2 3 = some () ↔
      PassesThreshold data.numAuthorities (data.votingWeight - surplusVotes data) := by
  have hcount := count_take_eq data hweight
  have hvotes : flags.data.count true = data.votingWeight - surplusVotes data := by
    rw [hflags, List.count_append, List.count_replicate]
    simp only [Bool.false_eq_true, beq_iff_eq, if_false]
    omega
  rw [verifyVotingThreshold_eq_some, UInt32.toNat_ofNat', passesThreshold_mod, hvotes]

end Acceptance

/-- **Acceptance.** A justification that the host returns fills the slots of the circuit and passes
its threshold if and only if the authorities fit and the votes of the first entries exceed two
thirds. -/
theorem passesCircuit_iff_clearsTwoThirds {crypto : Crypto} (fetcher : RpcDataFetcher crypto)
    (DUMMY_PUBLIC_KEY : Bytes32Variable) (DUMMY_SIGNATURE : BytesVariable 64)
    (VALIDATOR_SET_SIZE_MAX : ℕ) (b : UInt32) (data : SimpleJustificationData)
    (j : CircuitJustification)
    (hdata : getJustificationData fetcher DUMMY_SIGNATURE VALIDATOR_SET_SIZE_MAX b =
      some (.ok data))
    (hj : getJustificationFromBlock fetcher DUMMY_PUBLIC_KEY DUMMY_SIGNATURE VALIDATOR_SET_SIZE_MAX
      b = some (.ok j)) :
    PassesCircuit VALIDATOR_SET_SIZE_MAX j ↔ ClearsTwoThirds VALIDATOR_SET_SIZE_MAX data := by
  obtain ⟨id, hpad⟩ := exists_padJustification hdata hj
  obtain ⟨-, hle, hnum, hsigned, hpubkeys, hsignatures⟩ := of_padJustification hpad
  have hweight := votingWeight_eq hdata
  have hcount := count_take_eq data hweight
  have hvotes : data.votingWeight - surplusVotes data ≤ data.numAuthorities := by
    have hlen := List.count_le_length (a := true) (l := data.validatorSigned.take data.numAuthorities)
    rw [List.length_take] at hlen
    omega
  have hlen : j.validatorSigned.length =
      data.numAuthorities + (VALIDATOR_SET_SIZE_MAX - data.numAuthorities) := by
    rw [hsigned, List.length_append, List.length_take, List.length_replicate, Nat.min_eq_left hle]
  constructor
  · intro hpasses
    have hmax := hpasses.length_validatorSigned
    have hthreshold := hpasses.threshold ⟨j.validatorSigned, hmax⟩ rfl
    rw [hnum, verifyVotingThreshold_iff_of_padded hweight hsigned] at hthreshold
    refine ⟨by omega, fun hsmall => ?_, fun _ => hthreshold⟩
    rw [passesThreshold_iff_of_lt hsmall hvotes] at hthreshold
    omega
  · rintro ⟨hfits, hexceeds, hwrapped⟩
    refine ⟨by omega, by omega, by omega, fun i hi hlt => ?_, fun flags hflags => ?_⟩
    · rw [hnum] at hi
      rw [hsigned, List.getElem?_append_right (by rw [List.length_take]; omega), List.length_take,
        Nat.min_eq_left hle, List.getElem?_replicate, if_pos (by omega)]
    · rw [hnum, verifyVotingThreshold_iff_of_padded hweight (hflags.trans hsigned)]
      rcases Nat.lt_or_ge (3 * data.numAuthorities) (2 ^ 32) with hsmall | hlarge
      · have hstrict := hexceeds hsmall
        rw [passesThreshold_iff_of_lt hsmall hvotes]
        omega
      · exact hwrapped hlarge

/-- A fetcher for two epochs, with the given record for block 1. -/
def recordFetcher (stored : StoredJustificationData) : RpcDataFetcher (Reference.crypto []) :=
  { Reference.twoEpochChain [] [] with
    proveFinality := fun _ => none
    redisJustification := fun b => if b = 1 then some stored else none }

/-- A record for block 1 with the given flags, and the same key in each slot. -/
def recordOf (validatorSigned : List Bool) : StoredJustificationData where
  blockNumber := 1
  signedMessage := []
  pubkeys := validatorSigned.map fun _ => Reference.pubkey₁.data
  signatures := validatorSigned.map fun _ => List.replicate 64 0
  validatorSigned
  numAuthorities := validatorSigned.length

/-- The data of such a record. -/
def dataOf (validatorSigned : List Bool) : SimpleJustificationData where
  pubkeys := validatorSigned.map fun _ => Reference.pubkey₁
  signatures := validatorSigned.map fun _ => List.replicate 64 0
  validatorSigned
  signedMessage := []
  votingWeight := validatorSigned.count true
  numAuthorities := validatorSigned.length

/-- What the host returns for it. -/
def justificationOf (validatorSigned : List Bool) : CircuitJustification where
  authoritySetId := 0
  signedMessage := []
  validatorSigned
  pubkeys := validatorSigned.map fun _ => Reference.pubkey₁
  signatures := validatorSigned.map fun _ => ArrayVariable.replicate 64 0
  numAuthorities := validatorSigned.length
  currentAuthoritySetHash := computeAuthoritySetHash (Reference.crypto [])
    (validatorSigned.map fun _ => Reference.pubkey₁)

/-- Three of three authorities have signed. -/
theorem passesCircuit_iff_clearsTwoThirds_all :
    PassesCircuit 3 (justificationOf [true, true, true]) ↔
      ClearsTwoThirds 3 (dataOf [true, true, true]) :=
  passesCircuit_iff_clearsTwoThirds (recordFetcher (recordOf [true, true, true])) emptyBytes32
    (ArrayVariable.replicate 64 0) 3 1 _ _ rfl rfl

/-- With exactly two of three authorities the host accepts and the circuit does not. -/
theorem not_passesCircuit :
    ¬ ∀ (crypto : Crypto) (fetcher : RpcDataFetcher crypto) (DUMMY_PUBLIC_KEY : Bytes32Variable)
        (DUMMY_SIGNATURE : BytesVariable 64) (VALIDATOR_SET_SIZE_MAX : ℕ) (b : UInt32)
        (data : SimpleJustificationData) (j : CircuitJustification),
        getJustificationData fetcher DUMMY_SIGNATURE VALIDATOR_SET_SIZE_MAX b = some (.ok data) →
        getJustificationFromBlock fetcher DUMMY_PUBLIC_KEY DUMMY_SIGNATURE VALIDATOR_SET_SIZE_MAX b =
          some (.ok j) →
        PassesCircuit VALIDATOR_SET_SIZE_MAX j := by
  intro hclaim
  have hpasses := hclaim _ (recordFetcher (recordOf [true, true, false])) emptyBytes32
    (ArrayVariable.replicate 64 0) 3 1 (dataOf [true, true, false])
    (justificationOf [true, true, false]) rfl rfl
  have hthreshold := verifyVotingThreshold_eq_some.mp
    (hpasses.threshold ⟨[true, true, false], rfl⟩ rfl)
  exact absurd hthreshold (by rw [PassesThreshold]; decide)

end VectorX
