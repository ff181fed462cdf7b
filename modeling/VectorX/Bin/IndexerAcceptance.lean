import VectorX.Bin.Indexer

/-!
# Indexed justifications in the circuit

A record that fits the circuit is read back from the store, passes the checks of the host and of the
hint, and satisfies the constraints on the justification of its block.
-/

namespace VectorX

open Plonky2x Plonky2x.CircuitBuilder

variable {crypto : Crypto}

/-! ## Records by authority -/

section Record

/-- A record with one slot for each authority. -/
structure IsRecordOf (authorities : List Bytes32Variable)
    (signatureOf : Bytes32Variable → BytesVariable 64) (signed : Bytes32Variable → Bool)
    (stored : StoredJustificationData) : Prop where
  pubkeys : stored.pubkeys = authorities.map ArrayVariable.data
  signatures : stored.signatures = authorities.map fun pubkey => (signatureOf pubkey).data
  validatorSigned : stored.validatorSigned = authorities.map signed
  numAuthorities : stored.numAuthorities = authorities.length

variable {authorities : List Bytes32Variable} {signatureOf : Bytes32Variable → BytesVariable 64}
  {signed : Bytes32Variable → Bool} {stored : StoredJustificationData}
  {fetcher : RpcDataFetcher crypto} {DUMMY_PUBLIC_KEY : Bytes32Variable}
  {DUMMY_SIGNATURE : BytesVariable 64} {NUM_AUTHORITIES : ℕ} {b : UInt32}

/-- The data that is read from the store. -/
def storedData (authorities : List Bytes32Variable) (stored : StoredJustificationData) :
    SimpleJustificationData where
  pubkeys := authorities
  signatures := stored.signatures
  validatorSigned := stored.validatorSigned
  signedMessage := stored.signedMessage
  votingWeight := stored.validatorSigned.count true
  numAuthorities := stored.numAuthorities

/-- The padded justification of a record. -/
def paddedRecord (crypto : Crypto) (authorities : List Bytes32Variable)
    (signatureOf : Bytes32Variable → BytesVariable 64) (signed : Bytes32Variable → Bool)
    (DUMMY_PUBLIC_KEY : Bytes32Variable) (DUMMY_SIGNATURE : BytesVariable 64) (NUM_AUTHORITIES : ℕ)
    (id : UInt64) (signedMessage : List UInt8) : CircuitJustification where
  authoritySetId := id
  signedMessage
  validatorSigned :=
    authorities.map signed ++ List.replicate (NUM_AUTHORITIES - authorities.length) false
  pubkeys := authorities ++ List.replicate (NUM_AUTHORITIES - authorities.length) DUMMY_PUBLIC_KEY
  signatures := authorities.map signatureOf ++
    List.replicate (NUM_AUTHORITIES - authorities.length) DUMMY_SIGNATURE
  numAuthorities := authorities.length
  currentAuthoritySetHash := computeAuthoritySetHash crypto authorities

/-- The ids of blocks are below the largest 64-bit number. -/
theorem SetIds.id_le (ids : SetIds) : ∀ {h : ℕ}, h ≤ ids.head.toNat → ids.id h ≤ h
  | 0, _ => by rw [ids.id_zero]
  | h + 1, hle => by
    have ih := ids.id_le (h := h) (by omega)
    rcases ids.grows h (by omega) with hstep | hstep <;> omega

/-- Where the set does not change the justification comes from the store. -/
theorem IsRecordOf.getJustificationData_eq (hrecord : IsRecordOf authorities signatureOf signed stored)
    (hredis : fetcher.redisJustification b = some stored) (hpos : 1 ≤ b.toNat)
    (hhead : b.toNat ≤ fetcher.head.toNat)
    (hset : fetcher.toSetIds.setId b.toNat = fetcher.toSetIds.setId (b.toNat - 1)) :
    getJustificationData fetcher DUMMY_SIGNATURE NUM_AUTHORITIES b =
      some (.ok (storedData authorities stored)) := by
  obtain ⟨prev, hprev, hprevVal⟩ := checkedSub_one hpos
  have hget := getAuthoritySetId_of_le fetcher.toSetIds (b := b) hhead
  have hgetPrev := getAuthoritySetId_of_le fetcher.toSetIds (b := prev)
    (show prev.toNat ≤ fetcher.head.toNat by omega)
  have hid := fetcher.toSetIds.id_le (h := prev.toNat) (show prev.toNat ≤ fetcher.head.toNat by omega)
  have hlt : prev.toNat < 2 ^ 32 := prev.toNat_lt
  rw [SetIds.id] at hid
  obtain ⟨next, hnext, hnextVal⟩ := checkedAdd64_one (a := fetcher.toSetIds.setId prev.toNat)
    (by omega)
  have hne : fetcher.toSetIds.setId b.toNat ≠ next := by
    intro heq
    have hval := congrArg UInt64.toNat heq
    rw [hnextVal, hset, hprevVal] at hval
    omega
  have hpubkeys : stored.pubkeys.mapM h256FromSlice = some authorities := by
    rw [hrecord.pubkeys]
    have hall : authorities.mapM (fun k => h256FromSlice k.data) = some (authorities.map fun k => k) :=
      (TreeReduce.mapM_eq_some_map authorities).mpr fun k _ => by
        rw [h256FromSlice, dif_pos k.length_data]
    rw [List.map_id'] at hall
    rw [← hall, List.mapM_map]
    rfl
  simp only [getJustificationData, hget, hprev, hgetPrev, hnext, Option.bind_eq_bind,
    Option.bind_some, if_neg hne, getStoredData, hredis, hpubkeys]
  rfl

/-- The slots of the record are those of its authorities. -/
theorem IsRecordOf.padJustification_eq (hrecord : IsRecordOf authorities signatureOf signed stored)
    (hvotes : 2 * stored.numAuthorities < 3 * stored.validatorSigned.count true) (id : UInt64) :
    padJustification crypto DUMMY_PUBLIC_KEY DUMMY_SIGNATURE NUM_AUTHORITIES id
        (storedData authorities stored) =
      some (paddedRecord crypto authorities signatureOf signed DUMMY_PUBLIC_KEY DUMMY_SIGNATURE
        NUM_AUTHORITIES id stored.signedMessage) := by
  have hslots : (List.range authorities.length).mapM
      (justificationSlot (storedData authorities stored)) =
        some (authorities.map fun k => (k, signatureOf k, signed k)) := by
    refine TreeReduce.mapM_range_eq_some_map fun t k hk => ?_
    simp only [justificationSlot, storedData, hrecord.signatures, hrecord.validatorSigned,
      List.getElem?_map, hk, Option.map_some, Option.bind_eq_bind, Option.bind_some, newArray,
      dif_pos (signatureOf k).length_data]
  have hweight : ¬ (storedData authorities stored).votingWeight * 3 <
      (storedData authorities stored).numAuthorities * 2 := by
    simp only [storedData]
    omega
  rw [padJustification, if_neg hweight]
  simp only [storedData, hrecord.numAuthorities] at hslots ⊢
  rw [hslots]
  simp only [Option.bind_eq_bind, Option.bind_some, List.map_map, paddedRecord]
  congr 2
  exact congrArg (· ++ _) (List.map_id authorities)

variable (DUMMY_PUBLIC_KEY : Bytes32Variable) (DUMMY_SIGNATURE : BytesVariable 64)
  (NUM_AUTHORITIES : ℕ) in
/-- The host returns the padded record. -/
theorem IsRecordOf.getJustificationFromBlock_eq
    (hrecord : IsRecordOf authorities signatureOf signed stored)
    (hredis : fetcher.redisJustification b = some stored) (hpos : 1 ≤ b.toNat)
    (hhead : b.toNat ≤ fetcher.head.toNat)
    (hset : fetcher.toSetIds.setId b.toNat = fetcher.toSetIds.setId (b.toNat - 1))
    (hvotes : 2 * stored.numAuthorities < 3 * stored.validatorSigned.count true) :
    getJustificationFromBlock fetcher DUMMY_PUBLIC_KEY DUMMY_SIGNATURE NUM_AUTHORITIES b =
      some (.ok (paddedRecord crypto authorities signatureOf signed DUMMY_PUBLIC_KEY DUMMY_SIGNATURE
        NUM_AUTHORITIES (fetcher.toSetIds.setId (b.toNat - 1)) stored.signedMessage)) := by
  obtain ⟨prev, hprev, hprevVal⟩ := checkedSub_one hpos
  have hgetPrev := getAuthoritySetId_of_le fetcher.toSetIds (b := prev)
    (show prev.toNat ≤ fetcher.head.toNat by omega)
  rw [hprevVal] at hgetPrev
  rw [getJustificationFromBlock, hrecord.getJustificationData_eq hredis hpos hhead hset]
  simp only [Option.bind_eq_bind, Option.bind_some, hprev, hgetPrev,
    hrecord.padJustification_eq hvotes]

/-- The variable that the hint writes for a record. -/
structure IsVariableOf (authorities : List Bytes32Variable)
    (signatureOf : Bytes32Variable → BytesVariable 64) (signed : Bytes32Variable → Bool)
    (signedMessage : List UInt8) (r : JustificationVariable NUM_AUTHORITIES) : Prop where
  message : r.encodedPrecommit.data = signedMessage
  pubkeys : ∀ (i : ℕ) (k : Bytes32Variable), authorities[i]? = some k → r.pubkeys.data[i]? = some k
  signatures : ∀ (i : ℕ) (k : Bytes32Variable), authorities[i]? = some k →
    r.signatures.data[i]? = some (signatureVariable (signatureOf k))
  validatorSigned : r.validatorSigned.data =
    authorities.map signed ++ List.replicate (NUM_AUTHORITIES - authorities.length) false
  takePubkeys : r.pubkeys.data.take authorities.length = authorities
  numAuthorities : r.numAuthorities = UInt32.ofNat authorities.length

/-- The hint writes a padded record whose flagged signatures are valid. -/
theorem exists_hint_of_paddedRecord {signedMessage : List UInt8} {id : UInt64}
    (hjust : getJustificationFromBlock fetcher DUMMY_PUBLIC_KEY DUMMY_SIGNATURE NUM_AUTHORITIES b =
      some (.ok (paddedRecord crypto authorities signatureOf signed DUMMY_PUBLIC_KEY DUMMY_SIGNATURE
        NUM_AUTHORITIES id signedMessage)))
    (hmessage : signedMessage.length = ENCODED_PRECOMMIT_LENGTH)
    (hvalid : ∀ k ∈ authorities, signed k = true →
      signatureValid crypto k signedMessage (signatureOf k) = true)
    (hmax : authorities.length ≤ NUM_AUTHORITIES) :
    ∃ r : JustificationVariable NUM_AUTHORITIES,
      hintSimpleJustification fetcher DUMMY_PUBLIC_KEY DUMMY_SIGNATURE NUM_AUTHORITIES b id = some r ∧
      IsVariableOf authorities signatureOf signed signedMessage r := by
  have hleft : ∀ {α : Type} (f : Bytes32Variable → α) (d : α) (i : ℕ) (k : Bytes32Variable),
      authorities[i]? = some k →
      (authorities.map f ++ List.replicate (NUM_AUTHORITIES - authorities.length) d)[i]? =
        some (f k) := by
    intro α f d i k hk
    have hlt := (List.getElem?_eq_some_iff.mp hk).1
    rw [List.getElem?_append_left (by rwa [List.length_map]), List.getElem?_map, hk, Option.map_some]
  have hkey : ∀ (i : ℕ) (k : Bytes32Variable), authorities[i]? = some k →
      (authorities ++ List.replicate (NUM_AUTHORITIES - authorities.length) DUMMY_PUBLIC_KEY)[i]? =
        some k := by
    intro i k hk
    rw [List.getElem?_append_left (List.getElem?_eq_some_iff.mp hk).1, hk]
  -- the signatures that the hint verifies again
  have hverify : (List.range authorities.length).mapM (fun i => do
      let signed ← (authorities.map signed ++
        List.replicate (NUM_AUTHORITIES - authorities.length) false)[i]?
      let pubkey ← (authorities ++
        List.replicate (NUM_AUTHORITIES - authorities.length) DUMMY_PUBLIC_KEY)[i]?
      let signature ← (authorities.map signatureOf ++
        List.replicate (NUM_AUTHORITIES - authorities.length) DUMMY_SIGNATURE)[i]?
      if signed && !signatureValid crypto pubkey signedMessage signature then none
      some ()) = some (authorities.map fun _ => ()) := by
    refine TreeReduce.mapM_range_eq_some_map fun i k hk => ?_
    have hok : (signed k && !signatureValid crypto k signedMessage (signatureOf k)) = false := by
      cases hs : signed k
      · rfl
      · rw [hvalid k (List.mem_of_getElem? hk) hs]
        rfl
    simp only [hleft signed false i k hk, hleft signatureOf DUMMY_SIGNATURE i k hk, hkey i k hk,
      Option.bind_eq_bind, Option.bind_some, hok]
    rfl
  have hlenFlags : (authorities.map signed ++
      List.replicate (NUM_AUTHORITIES - authorities.length) false).length = NUM_AUTHORITIES := by
    rw [List.length_append, List.length_map, List.length_replicate, Nat.add_sub_cancel' hmax]
  have hlenKeys : (authorities ++ List.replicate (NUM_AUTHORITIES - authorities.length)
      DUMMY_PUBLIC_KEY).length = NUM_AUTHORITIES := by
    rw [List.length_append, List.length_replicate, Nat.add_sub_cancel' hmax]
  have hlenSigs : ((authorities.map signatureOf ++ List.replicate
      (NUM_AUTHORITIES - authorities.length) DUMMY_SIGNATURE).map signatureVariable).length =
        NUM_AUTHORITIES := by
    rw [List.length_map, List.length_append, List.length_map, List.length_replicate,
      Nat.add_sub_cancel' hmax]
  refine ⟨⟨⟨signedMessage, hmessage⟩, ⟨_, hlenFlags⟩, ⟨_, hlenSigs⟩, ⟨_, hlenKeys⟩,
    UInt32.ofNat authorities.length⟩, ?_, rfl, hkey, fun i k hk => ?_, rfl, List.take_left, rfl⟩
  · rw [hintSimpleJustification, hjust]
    simp only [Option.bind_eq_bind, Option.bind_some, paddedRecord, ne_eq, not_true_eq_false,
      if_false, verifySignature_eq, newArray, dif_pos hmessage, dif_pos hlenFlags, dif_pos hlenKeys,
      dif_pos hlenSigs]
    simp only [Option.bind_eq_bind] at hverify
    rw [hverify]
    rfl
  · rw [List.getElem?_map, hleft signatureOf DUMMY_SIGNATURE i k hk, Option.map_some]

variable (DUMMY_PUBLIC_KEY : Bytes32Variable) (DUMMY_SIGNATURE : BytesVariable 64)
  (NUM_AUTHORITIES : ℕ) in
/-- The hint writes a record whose flagged signatures are valid. -/
theorem IsRecordOf.exists_hint (hrecord : IsRecordOf authorities signatureOf signed stored)
    (hredis : fetcher.redisJustification b = some stored) (hpos : 1 ≤ b.toNat)
    (hhead : b.toNat ≤ fetcher.head.toNat)
    (hset : fetcher.toSetIds.setId b.toNat = fetcher.toSetIds.setId (b.toNat - 1))
    (hvotes : 2 * stored.numAuthorities < 3 * stored.validatorSigned.count true)
    (hmessage : stored.signedMessage.length = ENCODED_PRECOMMIT_LENGTH)
    (hvalid : ∀ k ∈ authorities, signed k = true →
      signatureValid crypto k stored.signedMessage (signatureOf k) = true)
    (hmax : authorities.length ≤ NUM_AUTHORITIES) :
    ∃ r : JustificationVariable NUM_AUTHORITIES,
      hintSimpleJustification fetcher DUMMY_PUBLIC_KEY DUMMY_SIGNATURE NUM_AUTHORITIES b
        (fetcher.toSetIds.setId (b.toNat - 1)) = some r ∧
      IsVariableOf authorities signatureOf signed stored.signedMessage r :=
  exists_hint_of_paddedRecord (hrecord.getJustificationFromBlock_eq DUMMY_PUBLIC_KEY DUMMY_SIGNATURE
    NUM_AUTHORITIES hredis hpos hhead hset hvotes) hmessage hvalid hmax

/-- The circuit accepts what the hint writes. -/
theorem IsVariableOf.verifySimpleJustification_eq {msg : List UInt8}
    {r : JustificationVariable NUM_AUTHORITIES} {blockHash hash : Bytes32Variable} {id : UInt64}
    (hr : IsVariableOf authorities signatureOf signed msg r)
    (hcommitment : authoritySetCommitment crypto authorities = some hash)
    (hprecommit : IsPrecommit msg blockHash b id)
    (hvalid : ∀ k ∈ authorities, signed k = true →
      signatureValid crypto k msg (signatureOf k) = true)
    (hsmall : 3 * authorities.length < 2 ^ 32)
    (hvotes : 2 * authorities.length < 3 * (authorities.map signed).count true) :
    verifySimpleJustification crypto b blockHash id hash r = some () := by
  have hnum : r.numAuthorities.toNat = authorities.length := by
    rw [hr.numAuthorities, UInt32.toNat_ofNat', Nat.mod_eq_of_lt (by omega)]
  refine verifySimpleJustification_eq_some.mpr ⟨?_, by rw [hr.message]; exact hprecommit,
    fun i hi => ?_, ?_⟩
  · rw [hnum, hr.takePubkeys]
    exact hcommitment
  · have hflag := r.validatorSigned.getElem?_data i
    rw [hi, hr.validatorSigned] at hflag
    have hlt : i.val < authorities.length := by
      by_contra hge
      rw [List.getElem?_append_right (by rw [List.length_map]; omega), List.getElem?_replicate] at hflag
      split at hflag <;> simp at hflag
    have hk := List.getElem?_eq_getElem hlt
    rw [List.getElem?_append_left (by rwa [List.length_map]), List.getElem?_map, hk, Option.map_some,
      Option.some.injEq] at hflag
    have hkey := Option.some.inj ((r.pubkeys.getElem?_data i).symm.trans (hr.pubkeys i _ hk))
    have hsig := Option.some.inj ((r.signatures.getElem?_data i).symm.trans (hr.signatures i _ hk))
    rw [hkey, hsig, hr.message]
    exact hvalid _ (List.getElem_mem hlt) hflag
  · have hcount : r.validatorSigned.data.count true = (authorities.map signed).count true := by
      rw [hr.validatorSigned, List.count_append, List.count_replicate]
      simp
    have hle := List.count_le_length (a := true) (l := authorities.map signed)
    rw [List.length_map] at hle
    rw [hnum, hcount, passesThreshold_iff_of_lt hsmall hle]
    omega

end Record

/-! ## Indexed records -/

section Indexed

/-- The hint reads the record of a block back for every circuit that has a slot for each authority,
and the constraints on the justification of the block are satisfied. -/
def AcceptedByCircuit (chain : EpochChain crypto) (DUMMY_PUBLIC_KEY : Bytes32Variable)
    (DUMMY_SIGNATURE : BytesVariable 64) (stored : StoredJustificationData) : Prop :=
  ∀ (fetcher : RpcDataFetcher crypto) (NUM_AUTHORITIES : ℕ), fetcher.toEpochChain = chain →
    fetcher.redisJustification stored.blockNumber = some stored →
    stored.numAuthorities ≤ NUM_AUTHORITIES → 3 * stored.numAuthorities < 2 ^ 32 →
    ∃ (r : JustificationVariable NUM_AUTHORITIES) (hash : Bytes32Variable),
      hintSimpleJustification fetcher DUMMY_PUBLIC_KEY DUMMY_SIGNATURE NUM_AUTHORITIES
        stored.blockNumber (chain.setId (stored.blockNumber.toNat - 1)) = some r ∧
      RpcDataFetcher.computeAuthoritySetHash chain (stored.blockNumber - 1) = some hash ∧
      verifySimpleJustification crypto stored.blockNumber
        ((chain.header stored.blockNumber.toNat).hash crypto)
        (chain.setId (stored.blockNumber.toNat - 1)) hash r = some ()

variable {chain : EpochChain crypto} {DUMMY_SIGNATURE : BytesVariable 64}
  {justification : GrandpaJustification} {stored : StoredJustificationData}

/-- A stored record that fits is accepted. -/
theorem FitsCircuit.accepted (DUMMY_PUBLIC_KEY : Bytes32Variable)
    (h : listenForJustification chain DUMMY_SIGNATURE justification = some (some stored))
    (hfits : FitsCircuit chain justification.round stored) :
    AcceptedByCircuit chain DUMMY_PUBLIC_KEY DUMMY_SIGNATURE stored := by
  rintro fetcher NUM_AUTHORITIES rfl hredis hmax hsmall
  obtain ⟨block, first, authorities, -, -, hauthorities, hnumber, hpos, hhead, hhash, hmsg,
    hpubkeys, hsignatures, hflags, hnum⟩ := listenForJustification_eq_some h
  have hrecord : IsRecordOf authorities (fun pubkey =>
      (signatureMap (validValidators crypto justification.commit.precommits
        stored.signedMessage) pubkey).getD DUMMY_SIGNATURE) (fun pubkey =>
      (signatureMap (validValidators crypto justification.commit.precommits
        stored.signedMessage) pubkey).isSome) stored := ⟨hpubkeys, hsignatures, hflags, hnum⟩
  have hdecodes := hfits.decodes
  rw [hmsg, decodePrecommit_encodeSignerMessage, Option.some.injEq, Prod.mk.injEq, Prod.mk.injEq,
    Prod.mk.injEq] at hdecodes
  obtain ⟨htarget, htargetNumber, -, hset⟩ := hdecodes
  have hvalid : ∀ k ∈ authorities,
      (signatureMap (validValidators crypto justification.commit.precommits
        stored.signedMessage) k).isSome = true →
      signatureValid crypto k stored.signedMessage
        ((signatureMap (validValidators crypto justification.commit.precommits
          stored.signedMessage) k).getD DUMMY_SIGNATURE) = true := by
    intro k _ hsome
    obtain ⟨s, hs⟩ := Option.isSome_iff_exists.mp hsome
    obtain ⟨-, -, -, -, hvalid⟩ := mem_validValidators.mp (mem_of_signatureMap hs)
    rw [hs, Option.getD_some]
    exact hvalid
  have hvotes := hfits.threshold
  have hprecommit := isPrecommit_encodeSignerMessage first.precommit justification.round
    (fetcher.setId block)
  rw [← hmsg, htarget, htargetNumber, hset] at hprecommit
  have hset' : fetcher.toSetIds.setId stored.blockNumber.toNat =
      fetcher.toSetIds.setId (stored.blockNumber.toNat - 1) := by
    rw [← hnumber] at hset
    exact hset
  obtain ⟨r, hhint, hr⟩ := hrecord.exists_hint DUMMY_PUBLIC_KEY DUMMY_SIGNATURE NUM_AUTHORITIES hredis
    (by omega)
    (by rw [hnumber]; exact hhead) hset' hvotes
    (by rw [hmsg, length_encodeSignerMessage]) hvalid (by omega)
  rw [hflags, hnum] at hvotes
  obtain ⟨hash, hcommitment⟩ := (exists_authoritySetCommitment crypto (A := authorities)).mpr (by
    rintro rfl
    simp at hvotes)
  refine ⟨r, hash, hhint, ?_, hr.verifySimpleJustification_eq hcommitment hprecommit hvalid
    (by omega) hvotes⟩
  rw [RpcDataFetcher.computeAuthoritySetHash, hauthorities, Option.bind_eq_bind, Option.bind_some,
    hashAuthorities_eq, hcommitment]

end Indexed

/-- **Indexed justifications.** A record that the indexer stores fits the circuit, and is accepted
by it, if and only if the precommits support the target: the first precommit is for the target
itself, the authority set does not change there, and more than two thirds of the authorities signed
that precommit. -/
theorem storedRecord_fits_iff {crypto : Crypto} (chain : EpochChain crypto)
    (DUMMY_PUBLIC_KEY : Bytes32Variable) (DUMMY_SIGNATURE : BytesVariable 64)
    (justification : GrandpaJustification) (stored : StoredJustificationData)
    (h : listenForJustification chain DUMMY_SIGNATURE justification = some (some stored)) :
    FitsCircuit chain justification.round stored ∧
        AcceptedByCircuit chain DUMMY_PUBLIC_KEY DUMMY_SIGNATURE stored ↔
      SupportsTarget chain justification := by
  rw [← fitsCircuit_iff_supportsTarget h]
  exact and_iff_left_of_imp fun hfits => hfits.accepted DUMMY_PUBLIC_KEY h

/-- The precommit for a block of two epochs without logs. -/
def indexedPrecommit (n : ℕ) : Precommit where
  targetHash := Reference.blockHash (Reference.logHeader (fun _ => []) n)
  targetNumber := UInt32.ofNat n

/-- The message for it, in round 0 of the first authority set. -/
def indexedMessage (n : ℕ) : List UInt8 :=
  encodeSignerMessage (indexedPrecommit n) 0 0

/-- The signature of the first authority on it, for block 1 and for block 2. -/
def indexedSignature (n : ℕ) : BytesVariable 64 :=
  if n = 1 then
    ⟨[187, 167, 255, 145, 249, 150, 98, 185, 196, 70, 106, 229, 88, 227, 217, 235, 161, 233, 100, 198,
      36, 223, 196, 253, 36, 248, 86, 247, 191, 222, 149, 49, 98, 196, 183, 68, 142, 105, 50, 102, 252,
      105, 226, 114, 163, 248, 206, 232, 41, 140, 230, 255, 192, 139, 138, 145, 228, 40, 180, 250, 175,
      248, 230, 11], rfl⟩
  else
    ⟨[115, 247, 115, 202, 53, 38, 172, 235, 198, 73, 83, 34, 186, 142, 4, 119, 192, 110, 224, 84, 47,
      78, 210, 171, 6, 71, 251, 53, 152, 157, 196, 192, 47, 115, 13, 234, 8, 237, 202, 79, 224, 150,
      116, 17, 133, 148, 222, 58, 88, 245, 245, 196, 42, 173, 78, 127, 115, 152, 214, 217, 238, 241,
      104, 4], rfl⟩

/-- The first authority has signed for block 1 and for block 2. -/
def indexedSigned : List Reference.SignedMessage :=
  [⟨Reference.pubkey₁, indexedMessage 1, signatureVariable (indexedSignature 1)⟩,
    ⟨Reference.pubkey₁, indexedMessage 2, signatureVariable (indexedSignature 2)⟩]

/-- A chain of two epochs. -/
def indexedChain : EpochChain (Reference.crypto indexedSigned) :=
  Reference.twoEpochChain indexedSigned []

/-- A justification for block 1 whose only precommit is for the given block. -/
def indexedJustification (n : ℕ) : GrandpaJustification where
  round := 0
  commit :=
    { targetHash := (indexedPrecommit 1).targetHash
      targetNumber := 1
      precommits := [⟨indexedPrecommit n, indexedSignature n, Reference.pubkey₁⟩] }

/-- The record for it. -/
def indexedRecord (n : ℕ) : StoredJustificationData where
  blockNumber := 1
  signedMessage := indexedMessage n
  pubkeys := [Reference.pubkey₁.data]
  signatures := [(indexedSignature n).data]
  validatorSigned := [true]
  numAuthorities := 1

/-- The headers of the chain, whatever is signed. -/
theorem hash_indexedChain (n : ℕ) :
    (indexedChain.header n).hash (Reference.crypto indexedSigned) =
      (indexedPrecommit n).targetHash := by
  have hlogs : (fun n => if n = 2 then [] else []) = fun _ => ([] : List DigestItem) :=
    funext fun n => ite_self []
  have hheader : indexedChain.header = Reference.logHeader fun _ => [] := by
    rw [← hlogs]
    rfl
  rw [hheader]
  rfl

/-- Block 0 has another hash than the target. -/
theorem indexedPrecommit_zero_ne : (indexedPrecommit 0).targetHash ≠ (indexedPrecommit 1).targetHash := by
  decide +kernel

theorem getBlockByHash_indexedChain :
    getBlockByHash indexedChain (indexedPrecommit 1).targetHash = some 1 := by
  have hrange : List.range (indexedChain.head.toNat + 1) = [0, 1, 2, 3] := rfl
  rw [getBlockByHash, hrange, List.find?_cons_of_neg, List.find?_cons_of_pos]
  · rw [decide_eq_true_eq]
    exact hash_indexedChain 1
  · rw [decide_eq_true_eq, hash_indexedChain]
    exact indexedPrecommit_zero_ne

theorem validValidators_indexedJustification {n : ℕ} (hn : n = 1 ∨ n = 2) :
    validValidators (Reference.crypto indexedSigned) (indexedJustification n).commit.precommits
        (indexedMessage n) =
      [(Reference.pubkey₁, indexedSignature n)] := by
  have hvalid : signatureValid (Reference.crypto indexedSigned) Reference.pubkey₁ (indexedMessage n)
      (indexedSignature n) = true := by
    refine decide_eq_true ?_
    rcases hn with rfl | rfl
    · exact List.mem_cons_self
    · exact List.mem_cons_of_mem _ List.mem_cons_self
  rw [validValidators, pairVerify_eq, indexedJustification, List.filterMap_cons_some,
    List.filterMap_nil]
  rw [if_pos hvalid]

theorem listenForJustification_indexedJustification {n : ℕ} (hn : n = 1 ∨ n = 2) :
    listenForJustification indexedChain (ArrayVariable.replicate 64 0) (indexedJustification n) =
      some (some (indexedRecord n)) := by
  have hvalidators := validValidators_indexedJustification hn
  have hblock : getBlockByHash indexedChain (indexedJustification n).commit.targetHash = some 1 :=
    getBlockByHash_indexedChain
  have hhash : (indexedChain.header 1).hash (Reference.crypto indexedSigned) =
      (indexedJustification n).commit.targetHash := hash_indexedChain 1
  have hprev : checkedSub (indexedChain.header 1).number 1 = some 0 := rfl
  have hauthorities : getAuthorities indexedChain 0 = some [Reference.pubkey₁] := rfl
  have hfirst : (indexedJustification n).commit.precommits[0]? =
      some ⟨indexedPrecommit n, indexedSignature n, Reference.pubkey₁⟩ := rfl
  have hmessage : indexedMessage n = encodeSignerMessage (indexedPrecommit n)
      (indexedJustification n).round (indexedChain.setId 1) := rfl
  have hcount : [Reference.pubkey₁].length * 2 / 3 < (validValidators (Reference.crypto indexedSigned)
      (indexedJustification n).commit.precommits (indexedMessage n)).length := by
    rw [hvalidators, List.length_singleton, List.length_singleton]
    exact Nat.zero_lt_one
  rw [listenForJustification_of_lt hblock hhash hfirst hmessage hprev hauthorities hcount, hvalidators]
  rfl

/-- The precommit is for the target. -/
theorem storedRecord_fits_iff_one :
    FitsCircuit indexedChain 0 (indexedRecord 1) ∧
        AcceptedByCircuit indexedChain emptyBytes32 (ArrayVariable.replicate 64 0) (indexedRecord 1) ↔
      SupportsTarget indexedChain (indexedJustification 1) :=
  storedRecord_fits_iff indexedChain emptyBytes32 (ArrayVariable.replicate 64 0)
    (indexedJustification 1) (indexedRecord 1)
    (listenForJustification_indexedJustification (Or.inl rfl))

/-- A record for block 1 with a message for block 2. -/
theorem not_fitsCircuit :
    ¬ ∀ (crypto : Crypto) (chain : EpochChain crypto) (DUMMY_PUBLIC_KEY : Bytes32Variable)
        (DUMMY_SIGNATURE : BytesVariable 64) (justification : GrandpaJustification)
        (stored : StoredJustificationData),
        listenForJustification chain DUMMY_SIGNATURE justification = some (some stored) →
        FitsCircuit chain justification.round stored ∧
          AcceptedByCircuit chain DUMMY_PUBLIC_KEY DUMMY_SIGNATURE stored := by
  intro hclaim
  have hfits := (hclaim _ indexedChain emptyBytes32 (ArrayVariable.replicate 64 0)
    (indexedJustification 2) (indexedRecord 2)
    (listenForJustification_indexedJustification (Or.inr rfl))).1
  have hdecodes : Input.decodePrecommit (encodeSignerMessage (indexedPrecommit 2) 0 0) = _ :=
    hfits.decodes
  rw [decodePrecommit_encodeSignerMessage, Option.some.injEq, Prod.mk.injEq, Prod.mk.injEq] at hdecodes
  have hnumber : (2 : UInt32) = 1 := hdecodes.2.1
  exact absurd hnumber (by decide)

end VectorX
