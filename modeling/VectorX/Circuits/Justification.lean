import VectorX.Circuits.Decoder
import VectorX.Common.HashChain

/-!
# Verification of GRANDPA justifications

Reference: `circuits/builder/justification.rs`. The authority set is committed to by a chained hash
of its public keys; a justification is a witness with one slot per possible authority.
-/

namespace VectorX

open Plonky2x Plonky2x.CircuitBuilder

/-! ## Definitions -/

section Definitions

variable (crypto : Crypto)

/-- The loop of `compute_authority_set_commitment` over the signers from index `i` on. -/
def commitmentLoop (numActiveAuthorities : Variable) :
    ℕ → BoolVariable → Bytes32Variable → List Bytes32Variable → Bytes32Variable
  | _, _, commitmentSoFar, [] => commitmentSoFar
  | i, authorityEnabled, commitmentSoFar, signer :: signers =>
    let atEnd := isEqual (Variable.ofNat i) numActiveAuthorities
    let authorityEnabled := authorityEnabled && !atEnd
    let chainedHash := crypto.sha256 (commitmentSoFar.data ++ signer.data)
    let commitmentSoFar := select authorityEnabled chainedHash commitmentSoFar
    commitmentLoop numActiveAuthorities (i + 1) authorityEnabled commitmentSoFar signers

/-- `compute_authority_set_commitment`. A circuit without slots does not build. -/
def computeAuthoritySetCommitment {MAX_NUM_AUTHORITIES : ℕ} (numActiveAuthorities : Variable)
    (authoritySetSigners : ArrayVariable Bytes32Variable MAX_NUM_AUTHORITIES) :
    Option Bytes32Variable := do
  let invalidNumAuthorities := isEqual numActiveAuthorities 0
  assertIsEqual invalidNumAuthorities false
  match authoritySetSigners.data with
  | [] => none
  | signer :: signers =>
    some (commitmentLoop crypto numActiveAuthorities 1 true (crypto.sha256 signer.data) signers)

/-- The number of validators marked as signed, as the circuit adds it up. -/
def countSigned (validatorSigned : List BoolVariable) : U32Variable :=
  validatorSigned.foldl
    (fun numSigned signed =>
      numSigned + U32Variable.fromVariablesUnsafe (BoolVariable.variable signed)) 0

/-- `verify_voting_threshold`. -/
def verifyVotingThreshold {MAX_NUM_AUTHORITIES : ℕ} (numActiveAuthorities : U32Variable)
    (validatorSigned : ArrayVariable BoolVariable MAX_NUM_AUTHORITIES)
    (thresholdNumerator thresholdDenominator : U32Variable) : Option Unit :=
  let numSigned := countSigned validatorSigned.data
  let scaledNumSigned := numSigned * thresholdDenominator
  let scaledThreshold := numActiveAuthorities * thresholdNumerator
  let isValidNumSigned := decide (scaledNumSigned > scaledThreshold)
  assertIsEqual isValidNumSigned true

/-- `verify_simple_justification`, on the untrusted `justification`. -/
def verifySimpleJustification {MAX_NUM_AUTHORITIES : ℕ} (blockNumber : U32Variable)
    (blockHash : Bytes32Variable) (authoritySetId : U64Variable)
    (authoritySetHash : Bytes32Variable)
    (justification : JustificationVariable MAX_NUM_AUTHORITIES) : Option Unit := do
  let computedAuthoritySetCommitment ← computeAuthoritySetCommitment crypto
    (U32Variable.variable justification.numAuthorities) justification.pubkeys
  assertIsEqual authoritySetHash computedAuthoritySetCommitment
  let decodedPrecommit ← decodePrecommit justification.encodedPrecommit
  assertIsEqual decodedPrecommit.blockNumber blockNumber
  assertIsEqual decodedPrecommit.authoritySetId authoritySetId
  assertIsEqual decodedPrecommit.blockHash blockHash
  -- all validators sign the same message
  let messageByteLengths :=
    ArrayVariable.replicate MAX_NUM_AUTHORITIES (UInt32.ofNat ENCODED_PRECOMMIT_LENGTH)
  let messages := ArrayVariable.replicate MAX_NUM_AUTHORITIES justification.encodedPrecommit
  crypto.curtaEddsaVerifySigsConditional justification.validatorSigned messageByteLengths messages
    justification.signatures justification.pubkeys
  verifyVotingThreshold justification.numAuthorities justification.validatorSigned 2 3

end Definitions

/-! ## The commitment to an authority set -/

section Commitment

variable (crypto : Crypto)

/-- The chained SHA-256 commitment to a list of public keys; the empty list has none. -/
def authoritySetCommitment : List Bytes32Variable → Option Bytes32Variable
  | [] => none
  | k :: ks => some (HashChain.chain crypto.sha256 ArrayVariable.data
      (fun acc x => acc.data ++ x.data) k ks)

/-- The messages that are hashed for the commitment. -/
def commitmentMessages : List Bytes32Variable → List (List UInt8)
  | [] => []
  | k :: ks => HashChain.messages crypto.sha256 ArrayVariable.data
      (fun acc x => acc.data ++ x.data) k ks

variable {crypto}

variable (crypto) in
/-- Only the empty list has no commitment. -/
theorem exists_authoritySetCommitment {A : List Bytes32Variable} :
    (∃ c, authoritySetCommitment crypto A = some c) ↔ A ≠ [] := by
  rcases A with - | ⟨k, ks⟩ <;> simp [authoritySetCommitment]

/-- The commitment binds the list of keys. -/
theorem authoritySetCommitment_injective {A B : List Bytes32Variable} {c : Bytes32Variable}
    (hfree : HashChain.CollisionFree crypto.sha256
      (commitmentMessages crypto A ++ commitmentMessages crypto B))
    (hA : authoritySetCommitment crypto A = some c)
    (hB : authoritySetCommitment crypto B = some c) : A = B := by
  match A, B with
  | [], _ => exact absurd hA (by simp [authoritySetCommitment])
  | _ :: _, [] => exact absurd hB (by simp [authoritySetCommitment])
  | k :: ks, k' :: ks' =>
    have heq := Option.some.inj (hA.trans hB.symm)
    have hnext : ∀ acc x acc' x' : Bytes32Variable,
        acc.data ++ x.data = acc'.data ++ x'.data → acc = acc' ∧ x = x' := by
      intro acc x acc' x' h
      have hlen : acc.data.length = acc'.data.length := by
        rw [acc.length_data, acc'.length_data]
      obtain ⟨hacc, hx⟩ := List.append_inj h hlen
      exact ⟨ArrayVariable.ext hacc, ArrayVariable.ext hx⟩
    have hne : ∀ k acc x : Bytes32Variable, k.data ≠ acc.data ++ x.data := by
      intro k acc x h
      have hlen := congrArg List.length h
      rw [List.length_append, k.length_data, acc.length_data, x.length_data] at hlen
      omega
    obtain ⟨hk, hks⟩ := HashChain.chain_injective (fun a b h => ArrayVariable.ext h) hnext hne
      hfree heq
    rw [hk, hks]

/-- Once disabled, the loop keeps its commitment. -/
theorem commitmentLoop_disabled (n : Variable) (signers : List Bytes32Variable) :
    ∀ (i : ℕ) (acc : Bytes32Variable), commitmentLoop crypto n i false acc signers = acc := by
  induction signers with
  | nil => exact fun _ _ => rfl
  | cons k ks ih => exact fun i acc => ih (i + 1) acc

/-- While enabled, the loop chains the keys up to index `n`, and all keys if `n` is beyond them. -/
theorem commitmentLoop_enabled {n : Variable} (signers : List Bytes32Variable) :
    ∀ (i : ℕ) (acc : Bytes32Variable), i ≤ n.val →
      commitmentLoop crypto n i true acc signers =
        (signers.take (n.val - i)).foldl (fun acc k => crypto.sha256 (acc.data ++ k.data)) acc := by
  induction signers with
  | nil => exact fun _ _ _ => by simp [commitmentLoop]
  | cons k ks ih =>
    intro i acc hi
    have hiff : isEqual (Variable.ofNat i) n = true ↔ i = n.val := by
      rw [isEqual_iff, Fin.ext_iff, Variable.val_ofNat_of_lt (Nat.lt_of_le_of_lt hi n.isLt)]
    rcases Nat.eq_or_lt_of_le hi with heq | hlt
    · have hend : isEqual (Variable.ofNat i) n = true := hiff.mpr heq
      rw [commitmentLoop, hend, heq, Nat.sub_self]
      exact commitmentLoop_disabled n ks (n.val + 1) acc
    · have hend : isEqual (Variable.ofNat i) n = false := by
        rw [← Bool.not_eq_true, hiff]
        omega
      have hsub : n.val - i = n.val - (i + 1) + 1 := by omega
      rw [commitmentLoop, hend, hsub, List.take_succ_cons, List.foldl_cons]
      exact ih (i + 1) _ hlt

/-- The circuit commits to the first `n` keys, and to all slots if `n` exceeds their number. -/
theorem computeAuthoritySetCommitment_eq {MAX_NUM_AUTHORITIES : ℕ} (n : Variable)
    (signers : ArrayVariable Bytes32Variable MAX_NUM_AUTHORITIES) :
    computeAuthoritySetCommitment crypto n signers =
      authoritySetCommitment crypto (signers.data.take n.val) := by
  rw [computeAuthoritySetCommitment]
  by_cases hn : n = 0
  · simp [hn, isEqual, assertIsEqual, authoritySetCommitment]
  · have hpos : 1 ≤ n.val := by
      by_contra h
      exact hn (Fin.ext (by rw [Fin.val_zero]; omega))
    have hsub : n.val = n.val - 1 + 1 := by omega
    simp only [isEqual, hn, decide_false, assertIsEqual, if_pos, Option.bind_eq_bind,
      Option.bind_some]
    rcases signers.data with - | ⟨k, ks⟩
    · simp [authoritySetCommitment]
    · rw [hsub, List.take_succ_cons, authoritySetCommitment, HashChain.chain]
      exact congrArg some (commitmentLoop_enabled ks 1 _ hpos)

end Commitment

/-! ## The voting threshold -/

/-- The count is the number of set flags modulo `2 ^ 32`. -/
theorem toNat_countSigned (flags : List BoolVariable) :
    (countSigned flags).toNat = flags.count true % 2 ^ 32 := by
  have hgen : ∀ (flags : List BoolVariable) (acc : U32Variable),
      (flags.foldl (fun n b => n + U32Variable.fromVariablesUnsafe (BoolVariable.variable b))
        acc).toNat = (acc.toNat + flags.count true) % 2 ^ 32 := by
    intro flags
    induction flags with
    | nil => exact fun acc => (Nat.mod_eq_of_lt acc.toNat_lt).symm
    | cons b flags ih =>
      intro acc
      have hb : (U32Variable.fromVariablesUnsafe (BoolVariable.variable b)).toNat = b.toNat := by
        have hle : b.toNat ≤ 1 := Bool.toNat_le b
        rw [U32Variable.toNat_fromVariablesUnsafe (by rw [BoolVariable.val_variable]; omega),
          BoolVariable.val_variable]
      rw [List.foldl_cons, ih, UInt32.toNat_add, hb, List.count_cons]
      have hcount : (if b == true then 1 else 0) = b.toNat := by cases b <;> rfl
      rw [hcount]
      omega
  rw [countSigned, hgen]
  simp

theorem toNat_mul_two (n : U32Variable) : (n * 2).toNat = 2 * n.toNat % 2 ^ 32 := by
  rw [UInt32.toNat_mul, Nat.mul_comm]
  rfl

theorem toNat_countSigned_mul_three (flags : List BoolVariable) :
    (countSigned flags * 3).toNat = 3 * flags.count true % 2 ^ 32 := by
  have hthree : (3 : U32Variable).toNat = 3 := rfl
  rw [UInt32.toNat_mul, toNat_countSigned, hthree]
  omega

/-- The threshold that is decided: both products are reduced modulo `2 ^ 32`. -/
def PassesThreshold (numAuthorities numSigned : ℕ) : Prop :=
  2 * numAuthorities % 2 ^ 32 < 3 * numSigned % 2 ^ 32

theorem verifyVotingThreshold_eq_some {MAX_NUM_AUTHORITIES : ℕ} {n : U32Variable}
    {flags : ArrayVariable BoolVariable MAX_NUM_AUTHORITIES} {u : Unit} :
    verifyVotingThreshold n flags 2 3 = some u ↔
      PassesThreshold n.toNat (flags.data.count true) := by
  rw [verifyVotingThreshold, assertIsEqual_eq_some, decide_eq_true_iff, gt_iff_lt,
    UInt32.lt_iff_toNat_lt, toNat_mul_two, toNat_countSigned_mul_three, PassesThreshold]

/-! ## The justification -/

/-- What the constraints of `verify_simple_justification` say. -/
structure Justifies (crypto : Crypto) {MAX_NUM_AUTHORITIES : ℕ} (blockNumber : U32Variable)
    (blockHash : Bytes32Variable) (authoritySetId : U64Variable)
    (authoritySetHash : Bytes32Variable)
    (justification : JustificationVariable MAX_NUM_AUTHORITIES) : Prop where
  commitment : authoritySetCommitment crypto
    (justification.pubkeys.data.take justification.numAuthorities.toNat) = some authoritySetHash
  precommit : IsPrecommit justification.encodedPrecommit.data blockHash blockNumber authoritySetId
  signatures : ∀ i, justification.validatorSigned.get i = true →
    crypto.ed25519Verify (justification.pubkeys.get i) justification.encodedPrecommit.data
      (justification.signatures.get i) = true
  threshold : PassesThreshold justification.numAuthorities.toNat
    (justification.validatorSigned.data.count true)

/-- The signature gadget checks the flagged signatures on the whole precommit message. -/
theorem curtaEddsaVerifySigsConditional_eq_some {crypto : Crypto} {MAX_NUM_AUTHORITIES : ℕ}
    {justification : JustificationVariable MAX_NUM_AUTHORITIES} {u : Unit} :
    crypto.curtaEddsaVerifySigsConditional justification.validatorSigned
        (ArrayVariable.replicate MAX_NUM_AUTHORITIES (UInt32.ofNat ENCODED_PRECOMMIT_LENGTH))
        (ArrayVariable.replicate MAX_NUM_AUTHORITIES justification.encodedPrecommit)
        justification.signatures justification.pubkeys = some u ↔
      ∀ i, justification.validatorSigned.get i = true →
        crypto.ed25519Verify (justification.pubkeys.get i) justification.encodedPrecommit.data
          (justification.signatures.get i) = true := by
  have hlen : (UInt32.ofNat ENCODED_PRECOMMIT_LENGTH).toNat =
      justification.encodedPrecommit.data.length := by
    rw [justification.encodedPrecommit.length_data]
    rfl
  rw [crypto.curtaEddsaVerifySigsConditional_iff _ _ _ _ _ fun i => by
    rw [ArrayVariable.get_replicate]
    decide]
  simp only [ArrayVariable.get_replicate, hlen, List.take_length]

theorem verifySimpleJustification_eq_some {crypto : Crypto} {MAX_NUM_AUTHORITIES : ℕ}
    {blockNumber : U32Variable} {blockHash : Bytes32Variable} {authoritySetId : U64Variable}
    {authoritySetHash : Bytes32Variable}
    {justification : JustificationVariable MAX_NUM_AUTHORITIES} {u : Unit} :
    verifySimpleJustification crypto blockNumber blockHash authoritySetId authoritySetHash
        justification = some u ↔
      Justifies crypto blockNumber blockHash authoritySetId authoritySetHash justification := by
  rw [verifySimpleJustification, computeAuthoritySetCommitment_eq, U32Variable.val_variable]
  constructor
  · intro h
    simp only [Option.bind_eq_bind, Option.bind_eq_some_iff, assertIsEqual_eq_some] at h
    obtain ⟨c, hc, _, rfl, pre, hpre, _, rfl, _, rfl, _, rfl, _, hsigs, hthreshold⟩ := h
    exact ⟨hc, (decodePrecommit_eq_some_iff.mp hpre).1, curtaEddsaVerifySigsConditional_eq_some.mp hsigs,
      verifyVotingThreshold_eq_some.mp hthreshold⟩
  · rintro ⟨hc, hpre, hsigs, hthreshold⟩
    obtain ⟨pre, hdecode, rfl, rfl, rfl⟩ := hpre.exists_decodePrecommit
    rw [hc, Option.bind_eq_bind, Option.bind_some, hdecode]
    have hsigs' := curtaEddsaVerifySigsConditional_eq_some (u := u).mpr hsigs
    have hthreshold' := verifyVotingThreshold_eq_some (u := u).mpr hthreshold
    simp [assertIsEqual, hsigs', hthreshold']

end VectorX
