import VectorX.Input.PrecommitCodec

/-!
# The justification indexer

Reference: `bin/indexer.rs`. The indexer stores a record for the target of a justification. The
signed message of the record is the one of the first precommit, under the set id at the target, and
the check of the threshold counts precommits before they are matched with the authorities.
-/

namespace VectorX

open Plonky2x Plonky2x.CircuitBuilder
open Bytes (slice leNat leBytes)

/-! ## Definitions -/

section Indexer

variable {crypto : Crypto} (chain : EpochChain crypto)

/-- The block with the given hash that the node serves. -/
def getBlockByHash (blockHash : Bytes32Variable) : Option ℕ :=
  (List.range (chain.head.toNat + 1)).find? fun n => (chain.header n).hash crypto = blockHash

/-- The signers with a valid signature, in the order of the precommits. -/
def validValidators (crypto : Crypto) (precommits : List SignedPrecommit) (signedMessage : List UInt8) :
    List (Bytes32Variable × BytesVariable 64) :=
  precommits.filterMap fun precommit =>
    if pairVerify crypto precommit.id signedMessage precommit.signature then
      some (precommit.id, precommit.signature)
    else none

/-- One round of `listen_for_justifications`: the record to store, if any. -/
def listenForJustification (DUMMY_SIGNATURE : BytesVariable 64) (justification : GrandpaJustification) :
    Option (Option StoredJustificationData) := do
  let block ← getBlockByHash chain justification.commit.targetHash
  let header := chain.header block
  if header.hash crypto ≠ justification.commit.targetHash then none
  let authoritySetId := chain.setId block
  let first ← justification.commit.precommits[0]?
  let signedMessage := encodeSignerMessage first.precommit justification.round authoritySetId
  let validators :=
    validValidators crypto justification.commit.precommits signedMessage
  let pubkeyToSignature := signatureMap validators
  let prevBlock ← checkedSub header.number 1
  let authorities ← getAuthorities chain prevBlock
  let numAuthorities := authorities.length
  let signedCount := validators.length
  let requiredSignatures := numAuthorities * 2 / 3
  if signedCount ≤ requiredSignatures then some none
  else
    some (some {
      blockNumber := header.number
      signedMessage
      pubkeys := authorities.map ArrayVariable.data
      signatures := authorities.map fun pubkey => ((pubkeyToSignature pubkey).getD DUMMY_SIGNATURE).data
      validatorSigned := authorities.map fun pubkey => (pubkeyToSignature pubkey).isSome
      numAuthorities })

end Indexer

/-! ## Records that fit the circuit -/

section Records

variable {crypto : Crypto}

/-- The number of authorities with a valid precommit on the message of the first one. -/
def signersAmong (crypto : Crypto) (authorities : List Bytes32Variable)
    (precommits : List SignedPrecommit) (signedMessage : List UInt8) : ℕ :=
  authorities.countP fun pubkey => precommits.any fun precommit =>
    precommit.id = pubkey ∧ signatureValid crypto pubkey signedMessage precommit.signature

/-- The record is what `verify_simple_justification` needs for its block. -/
structure FitsCircuit (chain : EpochChain crypto) (round : UInt64)
    (stored : StoredJustificationData) : Prop where
  decodes : Input.decodePrecommit stored.signedMessage =
    some ((chain.header stored.blockNumber.toNat).hash crypto, stored.blockNumber, round,
      chain.setId (stored.blockNumber.toNat - 1))
  signatures : ∀ i : ℕ, stored.validatorSigned[i]? = some true →
    ∃ (pubkey : Bytes32Variable) (signature : BytesVariable 64),
    stored.pubkeys[i]? = some pubkey.data ∧ stored.signatures[i]? = some signature.data ∧
      signatureValid crypto pubkey stored.signedMessage signature = true
  pubkeys : ∃ authorities, getAuthorities chain (stored.blockNumber - 1) = some authorities ∧
    stored.pubkeys = authorities.map ArrayVariable.data ∧
    stored.numAuthorities = authorities.length
  threshold : 2 * stored.numAuthorities < 3 * stored.validatorSigned.count true

/-- The precommits support the target: the first one is for the target itself, the set does not
change there, and more than two thirds of the authorities have a valid precommit on the same
message. -/
def SupportsTarget (chain : EpochChain crypto) (justification : GrandpaJustification) : Prop :=
  ∃ (block : ℕ) (first : SignedPrecommit) (authorities : List Bytes32Variable),
    getBlockByHash chain justification.commit.targetHash = some block ∧
    justification.commit.precommits[0]? = some first ∧
    getAuthorities chain (UInt32.ofNat block - 1) = some authorities ∧
    first.precommit.targetHash = justification.commit.targetHash ∧
    first.precommit.targetNumber.toNat = block ∧
    chain.setId block = chain.setId (block - 1) ∧
    2 * authorities.length < 3 * signersAmong crypto authorities justification.commit.precommits
      (encodeSignerMessage first.precommit justification.round (chain.setId block))

variable {chain : EpochChain crypto} {DUMMY_SIGNATURE : BytesVariable 64}
  {justification : GrandpaJustification} {stored : StoredJustificationData}

/-- The signers with a valid signature on the message. -/
theorem mem_validValidators {precommits : List SignedPrecommit} {msg : List UInt8}
    {k : Bytes32Variable} {s : BytesVariable 64} :
    (k, s) ∈ validValidators crypto precommits msg ↔
      ∃ precommit ∈ precommits, precommit.id = k ∧ precommit.signature = s ∧
        signatureValid crypto k msg s = true := by
  rw [validValidators, pairVerify_eq, List.mem_filterMap]
  constructor
  · rintro ⟨precommit, hmem, hsome⟩
    split at hsome
    · rename_i hvalid
      obtain ⟨rfl, rfl⟩ := Prod.mk.inj (Option.some.inj hsome)
      exact ⟨precommit, hmem, rfl, rfl, hvalid⟩
    · exact absurd hsome (by simp)
  · rintro ⟨precommit, hmem, rfl, rfl, hvalid⟩
    exact ⟨precommit, hmem, by rw [if_pos hvalid]⟩

/-- What is stored when a record is stored. -/
theorem listenForJustification_eq_some
    (h : listenForJustification chain DUMMY_SIGNATURE justification = some (some stored)) :
    ∃ (block : ℕ) (first : SignedPrecommit) (authorities : List Bytes32Variable),
      getBlockByHash chain justification.commit.targetHash = some block ∧
      justification.commit.precommits[0]? = some first ∧
      getAuthorities chain (stored.blockNumber - 1) = some authorities ∧
      stored.blockNumber.toNat = block ∧ 1 ≤ block ∧ block ≤ chain.head.toNat ∧
      (chain.header block).hash crypto = justification.commit.targetHash ∧
      stored.signedMessage =
        encodeSignerMessage first.precommit justification.round (chain.setId block) ∧
      stored.pubkeys = authorities.map ArrayVariable.data ∧
      stored.signatures = authorities.map (fun pubkey =>
        ((signatureMap (validValidators crypto justification.commit.precommits
          stored.signedMessage) pubkey).getD DUMMY_SIGNATURE).data) ∧
      stored.validatorSigned = authorities.map (fun pubkey =>
        (signatureMap (validValidators crypto justification.commit.precommits
          stored.signedMessage) pubkey).isSome) ∧
      stored.numAuthorities = authorities.length := by
  simp only [listenForJustification, Option.bind_eq_bind, Option.bind_eq_some_iff] at h
  obtain ⟨block, hblock, h⟩ := h
  split at h
  · exact absurd h (by simp)
  rename_i hhash
  simp only [Option.bind_eq_some_iff] at h
  obtain ⟨first, hfirst, prevBlock, hprev, authorities, hauthorities, h⟩ := h
  split at h
  · exact absurd h (by simp)
  have hmem := List.mem_of_find?_eq_some hblock
  rw [List.mem_range] at hmem
  have hnumber := chain.number_eq block (chain.first_le _) (by omega)
  obtain rfl := Option.some.inj (Option.some.inj h)
  rw [checkedSub] at hprev
  split at hprev
  · rename_i hle
    rw [UInt32.le_iff_toNat_le, hnumber] at hle
    obtain rfl := Option.some.inj hprev
    exact ⟨block, first, authorities, hblock, hfirst, hauthorities, hnumber, hle, by omega,
      not_not.mp hhash, rfl, rfl, rfl, rfl, rfl⟩
  · exact absurd hprev (by simp)

/-- When a record is stored. -/
theorem listenForJustification_of_lt {block : ℕ} {first : SignedPrecommit} {prev : UInt32}
    {authorities : List Bytes32Variable} {msg : List UInt8}
    (hblock : getBlockByHash chain justification.commit.targetHash = some block)
    (hhash : (chain.header block).hash crypto = justification.commit.targetHash)
    (hfirst : justification.commit.precommits[0]? = some first)
    (hmsg : msg = encodeSignerMessage first.precommit justification.round (chain.setId block))
    (hprev : checkedSub (chain.header block).number 1 = some prev)
    (hauthorities : getAuthorities chain prev = some authorities)
    (hcount : authorities.length * 2 / 3 <
      (validValidators crypto justification.commit.precommits msg).length) :
    listenForJustification chain DUMMY_SIGNATURE justification = some (some {
      blockNumber := (chain.header block).number
      signedMessage := msg
      pubkeys := authorities.map ArrayVariable.data
      signatures := authorities.map fun pubkey =>
        ((signatureMap (validValidators crypto justification.commit.precommits msg) pubkey).getD
          DUMMY_SIGNATURE).data
      validatorSigned := authorities.map fun pubkey =>
        (signatureMap (validValidators crypto justification.commit.precommits msg) pubkey).isSome
      numAuthorities := authorities.length }) := by
  subst hmsg
  simp only [listenForJustification, hblock, hhash, hfirst, hprev, hauthorities, Option.bind_eq_bind,
    Option.bind_some, ne_eq, not_true_eq_false, if_false, if_neg (Nat.not_le.mpr hcount)]

/-- The flags mark the authorities with a valid precommit. -/
theorem count_signed_eq {authorities : List Bytes32Variable} {precommits : List SignedPrecommit}
    {msg : List UInt8} :
    (authorities.map fun pubkey =>
        (signatureMap (validValidators crypto precommits msg) pubkey).isSome).count true =
      signersAmong crypto authorities precommits msg := by
  rw [List.count, List.countP_map, signersAmong]
  refine List.countP_congr fun pubkey _ => ?_
  have hsome := isSome_signatureMap_iff (validValidators crypto precommits msg)
    (k := pubkey)
  simp only [Function.comp_apply, beq_true, hsome, mem_validValidators, List.any_eq_true,
    decide_eq_true_eq]
  constructor
  · rintro ⟨s, precommit, hmem, hid, rfl, hvalid⟩
    exact ⟨precommit, hmem, hid, hvalid⟩
  · rintro ⟨precommit, hmem, hid, hvalid⟩
    exact ⟨_, precommit, hmem, hid, rfl, hvalid⟩

/-- A flagged slot holds a valid signature of its authority. -/
theorem exists_valid_of_flag {authorities : List Bytes32Variable} {precommits : List SignedPrecommit}
    {msg : List UInt8} {i : ℕ}
    (h : (authorities.map fun pubkey =>
      (signatureMap (validValidators crypto precommits msg) pubkey).isSome)[i]? =
        some true) :
    ∃ (pubkey : Bytes32Variable) (signature : BytesVariable 64), authorities[i]? = some pubkey ∧
      signatureMap (validValidators crypto precommits msg) pubkey = some signature ∧
      signatureValid crypto pubkey msg signature = true := by
  rw [List.getElem?_map, Option.map_eq_some_iff] at h
  obtain ⟨pubkey, hpubkey, hsome⟩ := h
  obtain ⟨signature, hsignature⟩ := Option.isSome_iff_exists.mp hsome
  obtain ⟨-, -, -, -, hvalid⟩ := mem_validValidators.mp (mem_of_signatureMap hsignature)
  exact ⟨pubkey, signature, hpubkey, hsignature, hvalid⟩

/-- A record fits the circuit if and only if the precommits support the target. -/
theorem fitsCircuit_iff_supportsTarget
    (h : listenForJustification chain DUMMY_SIGNATURE justification = some (some stored)) :
    FitsCircuit chain justification.round stored ↔ SupportsTarget chain justification := by
  obtain ⟨block, first, authorities, hblock, hfirst, hauthorities, hnumber, hpos, hhead, hhash, hmsg,
    hpubkeys, hsignatures, hflags, hnum⟩ := listenForJustification_eq_some h
  have hround := decodePrecommit_encodeSignerMessage first.precommit justification.round
    (chain.setId block)
  have hcount : stored.validatorSigned.count true =
      signersAmong crypto authorities justification.commit.precommits stored.signedMessage := by
    rw [hflags, count_signed_eq]
  have hofNat : UInt32.ofNat block = stored.blockNumber := by rw [← hnumber, UInt32.ofNat_toNat]
  constructor
  · rintro ⟨hdecodes, -, -, hthreshold⟩
    rw [hmsg, hround, hnumber, hhash, Option.some.injEq, Prod.mk.injEq, Prod.mk.injEq,
      Prod.mk.injEq] at hdecodes
    obtain ⟨htarget, htargetNumber, -, hset⟩ := hdecodes
    refine ⟨block, first, authorities, hblock, hfirst, by rw [hofNat]; exact hauthorities, htarget,
      by rw [htargetNumber, hnumber], hset, ?_⟩
    rw [← hmsg, ← hcount, ← hnum]
    exact hthreshold
  · rintro ⟨block', first', authorities', hblock', hfirst', hauthorities', htarget, htargetNumber,
      hset, hmajority⟩
    obtain rfl := Option.some.inj (hblock.symm.trans hblock')
    obtain rfl := Option.some.inj (hfirst.symm.trans hfirst')
    rw [hofNat] at hauthorities'
    obtain rfl := Option.some.inj (hauthorities.symm.trans hauthorities')
    refine ⟨?_, fun i hi => ?_, ⟨authorities, hauthorities, hpubkeys, hnum⟩, ?_⟩
    · rw [hmsg, hround, hnumber, hhash, htarget,
        UInt32.toNat_inj.mp (htargetNumber.trans hnumber.symm), hset]
    · rw [hflags] at hi
      obtain ⟨pubkey, signature, hpubkey, hsignature, hvalid⟩ := exists_valid_of_flag hi
      refine ⟨pubkey, signature, ?_, ?_, hvalid⟩
      · rw [hpubkeys, List.getElem?_map, hpubkey, Option.map_some]
      · rw [hsignatures, List.getElem?_map, hpubkey, Option.map_some, hsignature, Option.getD_some]
    · rw [hcount, hnum, hmsg]
      exact hmajority

end Records

end VectorX
