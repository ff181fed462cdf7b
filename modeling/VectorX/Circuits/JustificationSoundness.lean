import VectorX.Circuits.Justification
import VectorX.Reference.Crypto
import Mathlib.Tactic.FinCases

/-!
# What an accepted justification proves

The commitment binds the keys of the first `num_authorities` slots only, while signatures and votes
are taken over all slots, and nothing bounds `num_authorities` from above. The results below say
exactly when an accepted justification shows a two-thirds majority of the committed set, and when
the threshold is decided in exact arithmetic.
-/

namespace VectorX

open Plonky2x Plonky2x.CircuitBuilder
open HashChain (CollisionFree)

variable {MAX_NUM_AUTHORITIES : ℕ}

/-! ## The claims of a justification -/

/-- The number of keys of `A` whose slot holds a valid signature on the message. -/
def validVotes (crypto : Crypto) (A : List Bytes32Variable) (msg : List UInt8)
    (signatures : List EDDSASignature) : ℕ :=
  (A.zip signatures).countP fun slot => crypto.ed25519Verify slot.1 msg slot.2

/-- More than two thirds of the keys of `A` have a valid signature over one precommit for the block,
by the authority set with the given id. -/
def SignedByTwoThirds (crypto : Crypto) (A : List Bytes32Variable) (blockNumber : U32Variable)
    (blockHash : Bytes32Variable) (authoritySetId : U64Variable)
    (j : JustificationVariable MAX_NUM_AUTHORITIES) : Prop :=
  IsPrecommit j.encodedPrecommit.data blockHash blockNumber authoritySetId ∧
    2 * A.length < 3 * validVotes crypto A j.encodedPrecommit.data j.signatures.data

/-- The votes are those of the keys that are committed to. The hint writes such justifications; the
circuit does not check it. -/
structure VotesCommitted (j : JustificationVariable MAX_NUM_AUTHORITIES) : Prop where
  numAuthorities_le : j.numAuthorities.toNat ≤ MAX_NUM_AUTHORITIES
  lt_numAuthorities : ∀ i, j.validatorSigned.get i = true → i.val < j.numAuthorities.toNat

/-- The messages hashed for the commitments to `A` and to the keys of the justification. -/
def justificationMessages (crypto : Crypto) (A : List Bytes32Variable)
    (j : JustificationVariable MAX_NUM_AUTHORITIES) : List (List UInt8) :=
  commitmentMessages crypto A ++
    commitmentMessages crypto (j.pubkeys.data.take j.numAuthorities.toNat)

section Accepted

variable {crypto : Crypto} {blockNumber : U32Variable} {blockHash : Bytes32Variable}
  {authoritySetId : U64Variable} {authoritySetHash : Bytes32Variable}
  {j : JustificationVariable MAX_NUM_AUTHORITIES} {A : List Bytes32Variable}

/-! ## The committed keys -/

/-- The committed list is the list of the first `num_authorities` keys. -/
theorem Justifies.take_pubkeys
    (h : Justifies crypto blockNumber blockHash authoritySetId authoritySetHash j)
    (hA : authoritySetCommitment crypto A = some authoritySetHash)
    (hfree : CollisionFree crypto.sha256 (justificationMessages crypto A j)) :
    j.pubkeys.data.take j.numAuthorities.toNat = A :=
  (authoritySetCommitment_injective hfree hA h.commitment).symm

/-- Either the count is the size of the set, or the set is full and the count exceeds it. -/
theorem Justifies.numAuthorities_eq_or
    (h : Justifies crypto blockNumber blockHash authoritySetId authoritySetHash j)
    (hA : authoritySetCommitment crypto A = some authoritySetHash)
    (hfree : CollisionFree crypto.sha256 (justificationMessages crypto A j)) :
    j.numAuthorities.toNat = A.length ∨
      A.length = MAX_NUM_AUTHORITIES ∧ MAX_NUM_AUTHORITIES < j.numAuthorities.toNat := by
  have hlen := congrArg List.length (h.take_pubkeys hA hfree)
  rw [List.length_take, j.pubkeys.length_data] at hlen
  omega

/-- At most as many slots are flagged as hold a valid signature. -/
theorem count_le_countP_zip (verify : Bytes32Variable → EDDSASignature → Bool) :
    ∀ (keys : List Bytes32Variable) (signatures : List EDDSASignature) (flags : List BoolVariable),
      flags.length ≤ keys.length → flags.length ≤ signatures.length →
      (∀ (i : ℕ) (k : Bytes32Variable) (s : EDDSASignature), keys[i]? = some k →
        signatures[i]? = some s → flags[i]? = some true → verify k s = true) →
      flags.count true ≤ (keys.zip signatures).countP fun slot => verify slot.1 slot.2
  | _, _, [], _, _, _ => by simp
  | [], _, _ :: _, hkeys, _, _ => by simp at hkeys
  | _ :: _, [], _ :: _, _, hsigs, _ => by simp at hsigs
  | k :: keys, s :: signatures, b :: flags, hkeys, hsigs, hvalid => by
    have htail := count_le_countP_zip verify keys signatures flags (by simpa using hkeys)
      (by simpa using hsigs) fun i k' s' hk hs hb => hvalid (i + 1) k' s' hk hs hb
    have hhead : b = true → verify k s = true := fun hb =>
      hvalid 0 k s rfl rfl (by rw [hb]; rfl)
    rw [List.zip_cons_cons, List.count_cons, List.countP_cons]
    cases b
    · simp only [Bool.false_eq_true, beq_iff_eq, if_false]
      omega
    · simp only [hhead rfl, if_true, beq_self_eq_true]
      omega

/-- Every vote in the first `n` slots is backed by a valid signature of the key there. -/
theorem Justifies.count_take_le_validVotes
    (h : Justifies crypto blockNumber blockHash authoritySetId authoritySetHash j) (n : ℕ) :
    (j.validatorSigned.data.take n).count true ≤
      validVotes crypto (j.pubkeys.data.take n) j.encodedPrecommit.data j.signatures.data := by
  refine count_le_countP_zip (fun k s => crypto.ed25519Verify k j.encodedPrecommit.data s)
    (j.pubkeys.data.take n) j.signatures.data (j.validatorSigned.data.take n) ?_ ?_ ?_
  · rw [List.length_take, List.length_take, j.validatorSigned.length_data, j.pubkeys.length_data]
  · rw [List.length_take, j.validatorSigned.length_data, j.signatures.length_data]
    exact Nat.min_le_right _ _
  · intro i k s hk hs hb
    have hin : i < n := by
      have hlt := (List.getElem?_eq_some_iff.mp hb).1
      rw [List.length_take] at hlt
      omega
    rw [List.getElem?_take_of_lt hin] at hk hb
    have hi : i < MAX_NUM_AUTHORITIES := by
      have hlt := (List.getElem?_eq_some_iff.mp hb).1
      rwa [j.validatorSigned.length_data] at hlt
    have hflag : j.validatorSigned.get ⟨i, hi⟩ = true :=
      Option.some.inj ((j.validatorSigned.getElem?_data ⟨i, hi⟩).symm.trans hb)
    have hkey : j.pubkeys.get ⟨i, hi⟩ = k :=
      Option.some.inj ((j.pubkeys.getElem?_data ⟨i, hi⟩).symm.trans hk)
    have hsig : j.signatures.get ⟨i, hi⟩ = s :=
      Option.some.inj ((j.signatures.getElem?_data ⟨i, hi⟩).symm.trans hs)
    rw [← hkey, ← hsig]
    exact h.signatures ⟨i, hi⟩ hflag

/-- In a full set every vote is backed by a valid signature of a committed key. -/
theorem Justifies.count_le_validVotes
    (h : Justifies crypto blockNumber blockHash authoritySetId authoritySetHash j)
    (hkeys : j.pubkeys.data = A) :
    j.validatorSigned.data.count true ≤
      validVotes crypto A j.encodedPrecommit.data j.signatures.data := by
  have hcount := h.count_take_le_validVotes MAX_NUM_AUTHORITIES
  rwa [List.take_of_length_le (j.validatorSigned.length_data.le),
    List.take_of_length_le (j.pubkeys.length_data.le), hkeys] at hcount

/-- No vote is lost with the slots that are not committed to. -/
theorem VotesCommitted.count_take (hvotes : VotesCommitted j) :
    (j.validatorSigned.data.take j.numAuthorities.toNat).count true =
      j.validatorSigned.data.count true := by
  have hdrop : (j.validatorSigned.data.drop j.numAuthorities.toNat).count true = 0 := by
    refine List.count_eq_zero_of_not_mem fun hmem => ?_
    obtain ⟨i, hi, hget⟩ := List.mem_iff_getElem.mp hmem
    rw [List.length_drop, j.validatorSigned.length_data] at hi
    rw [List.getElem_drop] at hget
    have hlt := hvotes.lt_numAuthorities ⟨j.numAuthorities.toNat + i, by omega⟩ hget
    exact absurd hlt (by simp)
  conv_rhs => rw [← List.take_append_drop j.numAuthorities.toNat j.validatorSigned.data]
  rw [List.count_append, hdrop, Nat.add_zero]

end Accepted

/-! ## Exact arithmetic -/

/-- The threshold is decided on the size of the committed set and without a reduction modulo
`2 ^ 32`. -/
def ThresholdExact (A : List Bytes32Variable) (j : JustificationVariable MAX_NUM_AUTHORITIES) :
    Prop :=
  j.numAuthorities.toNat = A.length ∧
    (j.numAuthorities * 2).toNat = 2 * A.length ∧
    (countSigned j.validatorSigned.data * 3).toNat = 3 * j.validatorSigned.data.count true ∧
    2 * A.length < 3 * j.validatorSigned.data.count true

/-- An accepted justification decides the threshold in exact arithmetic if and only if its count of
authorities fits the slots and the two products fit 32 bits. -/
theorem thresholdExact_iff (crypto : Crypto) (blockNumber : U32Variable)
    (blockHash : Bytes32Variable) (authoritySetId : U64Variable)
    (authoritySetHash : Bytes32Variable) (A : List Bytes32Variable)
    (j : JustificationVariable MAX_NUM_AUTHORITIES)
    (hA : authoritySetCommitment crypto A = some authoritySetHash)
    (hfree : CollisionFree crypto.sha256 (justificationMessages crypto A j))
    (haccept : verifySimpleJustification crypto blockNumber blockHash authoritySetId
      authoritySetHash j = some ()) :
    ThresholdExact A j ↔
      j.numAuthorities.toNat ≤ MAX_NUM_AUTHORITIES ∧ j.numAuthorities.toNat < 2 ^ 31 ∧
        3 * j.validatorSigned.data.count true < 2 ^ 32 := by
  have h := verifySimpleJustification_eq_some.mp haccept
  have hnum := h.numAuthorities_eq_or hA hfree
  have hle : A.length ≤ MAX_NUM_AUTHORITIES := by
    rw [← h.take_pubkeys hA hfree, List.length_take, j.pubkeys.length_data]
    omega
  have hthreshold := h.threshold
  rw [ThresholdExact, toNat_mul_two, toNat_countSigned_mul_three]
  constructor
  · rintro ⟨hcount, htwo, hthree, -⟩
    omega
  · rintro ⟨hslots, htwo, hthree⟩
    have hcount : j.numAuthorities.toNat = A.length := by omega
    rw [PassesThreshold, Nat.mod_eq_of_lt (by omega), Nat.mod_eq_of_lt hthree, hcount] at hthreshold
    exact ⟨hcount, by omega, Nat.mod_eq_of_lt hthree, hthreshold⟩

/-- A message list that is hashed twice collides no more than once. -/
theorem collisionFree_append_self {hash : List UInt8 → Bytes32Variable} {msgs : List (List UInt8)}
    (h : CollisionFree hash msgs) : CollisionFree hash (msgs ++ msgs) :=
  h.mono fun m hm => by rwa [List.mem_append, or_self] at hm

theorem isPrecommit_precommit : IsPrecommit Reference.precommit.data Reference.precommitHash
    317857 298 :=
  ⟨rfl, rfl, by decide, by decide⟩

/-- The justification of a single authority that has signed, with a chosen count. -/
def singleJustification (numAuthorities : U32Variable) : JustificationVariable 1 where
  encodedPrecommit := Reference.precommit
  validatorSigned := ⟨[true], rfl⟩
  signatures := ⟨[Reference.signature₁], rfl⟩
  pubkeys := ⟨[Reference.pubkey₁], rfl⟩
  numAuthorities := numAuthorities

theorem verifySimpleJustification_single {num : U32Variable} (hpos : 1 ≤ num.toNat)
    (hpass : PassesThreshold num.toNat 1) :
    verifySimpleJustification (Reference.crypto [Reference.signed₁]) 317857 Reference.precommitHash
      298 ((Reference.crypto [Reference.signed₁]).sha256 Reference.pubkey₁.data)
      (singleJustification num) = some () := by
  refine verifySimpleJustification_eq_some.mpr ⟨?_, isPrecommit_precommit, ?_, hpass⟩
  · simp only [singleJustification]
    rw [List.take_of_length_le (by simpa using hpos)]
    rfl
  · intro i _
    have hi : i = 0 := Subsingleton.elim i 0
    subst hi
    exact Reference.ed25519Verify_signature₁

theorem collisionFree_single {num : U32Variable} (hpos : 1 ≤ num.toNat) :
    CollisionFree (Reference.crypto [Reference.signed₁]).sha256
      (justificationMessages (Reference.crypto [Reference.signed₁]) [Reference.pubkey₁]
        (singleJustification num)) := by
  have hkeys : (singleJustification num).pubkeys.data.take num.toNat = [Reference.pubkey₁] :=
    List.take_of_length_le (by simpa [singleJustification] using hpos)
  have hmsgs : justificationMessages (Reference.crypto [Reference.signed₁]) [Reference.pubkey₁]
      (singleJustification num) = [Reference.pubkey₁.data] ++ [Reference.pubkey₁.data] := by
    rw [justificationMessages]
    simp only [singleJustification] at hkeys ⊢
    rw [hkeys]
    rfl
  rw [hmsgs]
  exact collisionFree_append_self (HashChain.collisionFree_singleton _ _)

/-- The exact condition for a set of one authority and a count of one. -/
theorem thresholdExact_iff_single :
    ThresholdExact [Reference.pubkey₁] (singleJustification 1) ↔
      (1 : U32Variable).toNat ≤ 1 ∧ (1 : U32Variable).toNat < 2 ^ 31 ∧
        3 * [true].count true < 2 ^ 32 :=
  thresholdExact_iff (Reference.crypto [Reference.signed₁]) 317857 Reference.precommitHash 298
    ((Reference.crypto [Reference.signed₁]).sha256 Reference.pubkey₁.data) [Reference.pubkey₁]
    (singleJustification 1) rfl (collisionFree_single (by decide))
    (verifySimpleJustification_single (by decide) (by unfold PassesThreshold; decide))

/-- A full set of one authority is accepted with a count of `2 ^ 31`, whose double is zero. -/
theorem not_thresholdExact :
    ¬ ∀ (crypto : Crypto) (MAX_NUM_AUTHORITIES : ℕ) (blockNumber : U32Variable)
        (blockHash : Bytes32Variable) (authoritySetId : U64Variable)
        (authoritySetHash : Bytes32Variable) (A : List Bytes32Variable)
        (j : JustificationVariable MAX_NUM_AUTHORITIES),
        A.length ≤ MAX_NUM_AUTHORITIES →
        authoritySetCommitment crypto A = some authoritySetHash →
        CollisionFree crypto.sha256 (justificationMessages crypto A j) →
        verifySimpleJustification crypto blockNumber blockHash authoritySetId authoritySetHash j =
          some () →
        ThresholdExact A j := by
  intro hclaim
  have hexact := hclaim (Reference.crypto [Reference.signed₁]) 1 317857 Reference.precommitHash 298
    ((Reference.crypto [Reference.signed₁]).sha256 Reference.pubkey₁.data) [Reference.pubkey₁]
    (singleJustification (2 ^ 31)) (by decide) rfl (collisionFree_single (by decide))
    (verifySimpleJustification_single (by decide) (by unfold PassesThreshold; decide))
  exact absurd hexact.1 (by decide)

/-! ## Votes in padding slots -/

/-- One slot of a justification: public key, signature and flag. -/
structure Slot where
  pubkey : Bytes32Variable
  signature : EDDSASignature
  signed : BoolVariable

/-- The justification with the given slots. -/
def JustificationVariable.ofSlots (msg : BytesVariable ENCODED_PRECOMMIT_LENGTH)
    (numAuthorities : U32Variable) (slots : List Slot) (h : slots.length = MAX_NUM_AUTHORITIES) :
    JustificationVariable MAX_NUM_AUTHORITIES where
  encodedPrecommit := msg
  validatorSigned := ⟨slots.map Slot.signed, by rw [List.length_map, h]⟩
  signatures := ⟨slots.map Slot.signature, by rw [List.length_map, h]⟩
  pubkeys := ⟨slots.map Slot.pubkey, by rw [List.length_map, h]⟩
  numAuthorities := numAuthorities

/-- Slots whose flagged signatures verify make an accepted justification. -/
theorem justifies_ofSlots {crypto : Crypto} {blockNumber : U32Variable}
    {blockHash : Bytes32Variable} {authoritySetId : U64Variable}
    {authoritySetHash : Bytes32Variable} {msg : BytesVariable ENCODED_PRECOMMIT_LENGTH}
    {num : U32Variable} {slots : List Slot} (hlen : slots.length = MAX_NUM_AUTHORITIES)
    (hcommit : authoritySetCommitment crypto ((slots.map Slot.pubkey).take num.toNat) =
      some authoritySetHash)
    (hmsg : IsPrecommit msg.data blockHash blockNumber authoritySetId)
    (hvalid : ∀ slot ∈ slots, slot.signed = true →
      crypto.ed25519Verify slot.pubkey msg.data slot.signature = true)
    (hthreshold : PassesThreshold num.toNat ((slots.map Slot.signed).count true)) :
    Justifies crypto blockNumber blockHash authoritySetId authoritySetHash
      (JustificationVariable.ofSlots msg num slots hlen) where
  commitment := hcommit
  precommit := hmsg
  signatures := by
    intro i hi
    have hmem := List.get_mem slots (i.cast hlen.symm)
    have hslot := hvalid (slots.get (i.cast hlen.symm)) hmem
    simp only [JustificationVariable.ofSlots, ArrayVariable.get, List.get_eq_getElem,
      Fin.val_cast, List.getElem_map] at hi hslot ⊢
    exact hslot hi
  threshold := hthreshold

/-- Slots in which the first `v` keys of `k :: ks` have signed, the other keys hold an invalid
signature, and `f` of the padding slots repeat the vote of `k`. -/
def paddedSlots (good bad : Bytes32Variable → EDDSASignature) (k : Bytes32Variable)
    (ks : List Bytes32Variable) (v f p : ℕ) : List Slot :=
  ((k :: ks).take v).map (fun x => ⟨x, good x, true⟩) ++
    ((k :: ks).drop v).map (fun x => ⟨x, bad x, false⟩) ++
    (List.replicate f ⟨k, good k, true⟩ ++ List.replicate (p - f) ⟨k, good k, false⟩)

section PaddedSlots

variable (good bad : Bytes32Variable → EDDSASignature) (k : Bytes32Variable)
  (ks : List Bytes32Variable) {v f p : ℕ}

theorem map_pubkey_paddedSlots (hf : f ≤ p) :
    (paddedSlots good bad k ks v f p).map Slot.pubkey = k :: ks ++ List.replicate p k := by
  have hpad : List.replicate f k ++ List.replicate (p - f) k = List.replicate p k := by
    rw [← List.replicate_add, Nat.add_sub_cancel' hf]
  simp only [paddedSlots, List.map_append, List.map_map, Function.comp_def, List.map_id',
    List.map_replicate, hpad, List.take_append_drop]

theorem length_paddedSlots (hf : f ≤ p) :
    (paddedSlots good bad k ks v f p).length = (k :: ks).length + p := by
  have hlen := congrArg List.length (map_pubkey_paddedSlots good bad k ks (v := v) hf)
  rwa [List.length_map, List.length_append, List.length_replicate] at hlen

theorem count_signed_paddedSlots (hv : v ≤ (k :: ks).length) :
    ((paddedSlots good bad k ks v f p).map Slot.signed).count true = v + f := by
  simp only [paddedSlots, List.map_append, List.map_map, Function.comp_def, List.map_const',
    List.map_replicate, List.count_append, List.count_replicate, List.length_take, List.length_drop]
  simp
  omega

/-- Invalid signatures give no votes. -/
theorem countP_zip_map_append_eq_zero (verify : Bytes32Variable → EDDSASignature → Bool)
    (rest : List EDDSASignature) :
    ∀ l : List Bytes32Variable, (∀ x ∈ l, verify x (bad x) = false) →
      ((l.zip (l.map bad ++ rest)).countP fun slot => verify slot.1 slot.2) = 0
  | [], _ => by simp
  | x :: l, hbad => by
    have hhead := hbad x (by simp)
    have htail := countP_zip_map_append_eq_zero verify rest l fun y hy => hbad y (by simp [hy])
    rw [List.map_cons, List.cons_append, List.zip_cons_cons, List.countP_cons, htail]
    simp [hhead]

/-- At most `v` of the keys have a valid signature in these slots. -/
theorem validVotes_paddedSlots_le {crypto : Crypto} {msg : List UInt8}
    (hbad : ∀ x ∈ k :: ks, crypto.ed25519Verify x msg (bad x) = false) :
    validVotes crypto (k :: ks) msg ((paddedSlots good bad k ks v f p).map Slot.signature) ≤
      v := by
  obtain ⟨rest, hsigs⟩ : ∃ rest, (paddedSlots good bad k ks v f p).map Slot.signature =
      ((k :: ks).take v).map good ++ (((k :: ks).drop v).map bad ++ rest) := by
    simp only [paddedSlots, List.map_append, List.map_map, Function.comp_def, List.append_assoc]
    exact ⟨_, rfl⟩
  have hvoid := countP_zip_map_append_eq_zero bad (fun x s => crypto.ed25519Verify x msg s) rest
    ((k :: ks).drop v) fun x hx => hbad x (List.mem_of_mem_drop hx)
  have hsplit : (k :: ks).zip (((k :: ks).take v).map good ++ (((k :: ks).drop v).map bad ++ rest)) =
      ((k :: ks).take v).zip (((k :: ks).take v).map good) ++
        ((k :: ks).drop v).zip (((k :: ks).drop v).map bad ++ rest) := by
    conv_lhs => rw [← List.take_append_drop v (k :: ks)]
    rw [List.zip_append (by simp)]
    simp
  rw [validVotes, hsigs, hsplit, List.countP_append, hvoid, Nat.add_zero]
  calc _ ≤ (((k :: ks).take v).zip (((k :: ks).take v).map good)).length := List.countP_le_length
    _ ≤ v := by
      rw [List.length_zip, List.length_map, Nat.min_self, List.length_take]
      exact Nat.min_le_left _ _

end PaddedSlots

/-! ## When a justification is sound -/

/-- Unless there is one slot only, at most two thirds of a set of `n` keys can pass the threshold,
with votes in the padding slots or with a count that overflows. -/
theorem exists_threshold_attack {n max : ℕ} (hn : 1 ≤ n) (hmax : n ≤ max) (hone : max ≠ 1)
    (hlt : n < 2 ^ 32) :
    ∃ num v f : ℕ, num < 2 ^ 32 ∧ (num = n ∨ n = max ∧ max ≤ num) ∧ v ≤ n ∧ f ≤ max - n ∧
      3 * v ≤ 2 * n ∧ PassesThreshold num (v + f) := by
  simp only [PassesThreshold]
  by_cases hbig : 2 ^ 31 ≤ n
  · -- the threshold wraps; 3 * 1431655765 is the largest 32-bit number
    exact ⟨n, 1431655765, 0, by omega, Or.inl rfl, by omega, by omega, by omega, by omega⟩
  · by_cases hfull : n = max
    · exact ⟨2 ^ 31, 1, 0, by omega, Or.inr ⟨hfull, by omega⟩, by omega, by omega, by omega,
        by omega⟩
    · by_cases hedge : n = 2 ^ 31 - 1
      · exact ⟨n, 1431655764, 1, by omega, Or.inl rfl, by omega, by omega, by omega, by omega⟩
      · have hthreshold : 2 * n % 2 ^ 32 = 2 * n := Nat.mod_eq_of_lt (by omega)
        have hvotes : 3 * (2 * n / 3 + 1) % 2 ^ 32 = 3 * (2 * n / 3 + 1) :=
          Nat.mod_eq_of_lt (by omega)
        exact ⟨n, 2 * n / 3, 1, by omega, Or.inl rfl, by omega, by omega, by omega, by omega⟩

section Sound

variable {crypto : Crypto} {blockNumber : U32Variable} {blockHash : Bytes32Variable}
  {authoritySetId : U64Variable} {authoritySetHash : Bytes32Variable} {A : List Bytes32Variable}

/-- With one slot, an accepted justification carries the vote of the only authority. -/
theorem signedByTwoThirds_of_one_slot {j : JustificationVariable 1} (hmax : A.length ≤ 1)
    (hA : authoritySetCommitment crypto A = some authoritySetHash)
    (hfree : CollisionFree crypto.sha256 (justificationMessages crypto A j))
    (h : Justifies crypto blockNumber blockHash authoritySetId authoritySetHash j) :
    SignedByTwoThirds crypto A blockNumber blockHash authoritySetId j := by
  have hkeys := h.take_pubkeys hA hfree
  have hnum : 1 ≤ j.numAuthorities.toNat := by
    by_contra hzero
    have hnil : A = [] := by rw [← hkeys, show j.numAuthorities.toNat = 0 by omega, List.take_zero]
    exact absurd (hnil ▸ hA) (by simp [authoritySetCommitment])
  have hall : j.pubkeys.data = A := by
    rwa [List.take_of_length_le (by rw [j.pubkeys.length_data]; exact hnum)] at hkeys
  have hvotes := h.count_le_validVotes hall
  have hthreshold := h.threshold
  refine ⟨h.precommit, ?_⟩
  rw [PassesThreshold] at hthreshold
  omega

/-- If the votes are those of the committed keys, an accepted justification shows a two-thirds
majority of the committed set. -/
theorem Justifies.signedByTwoThirds {MAX_NUM_AUTHORITIES : ℕ}
    {j : JustificationVariable MAX_NUM_AUTHORITIES}
    (h : Justifies crypto blockNumber blockHash authoritySetId authoritySetHash j)
    (hA : authoritySetCommitment crypto A = some authoritySetHash)
    (hfree : CollisionFree crypto.sha256 (justificationMessages crypto A j))
    (hvotes : VotesCommitted j) (hslots : 3 * MAX_NUM_AUTHORITIES < 2 ^ 32) :
    SignedByTwoThirds crypto A blockNumber blockHash authoritySetId j := by
  have hkeys := h.take_pubkeys hA hfree
  have hnum := hvotes.numAuthorities_le
  have hlen := congrArg List.length hkeys
  rw [List.length_take, j.pubkeys.length_data, Nat.min_eq_left hnum] at hlen
  have hcount := h.count_take_le_validVotes j.numAuthorities.toNat
  rw [hvotes.count_take, hkeys] at hcount
  have hle : j.validatorSigned.data.count true ≤ MAX_NUM_AUTHORITIES :=
    List.count_le_length.trans j.validatorSigned.length_data.le
  have hthreshold := h.threshold
  rw [PassesThreshold, Nat.mod_eq_of_lt (by omega), Nat.mod_eq_of_lt (by omega)] at hthreshold
  exact ⟨h.precommit, by omega⟩

/-- An accepted justification is for a set whose size fits 32 bits. -/
theorem Justifies.length_lt {MAX_NUM_AUTHORITIES : ℕ} {j : JustificationVariable MAX_NUM_AUTHORITIES}
    (h : Justifies crypto blockNumber blockHash authoritySetId authoritySetHash j)
    (hA : authoritySetCommitment crypto A = some authoritySetHash)
    (hfree : CollisionFree crypto.sha256 (justificationMessages crypto A j)) :
    A.length < 2 ^ 32 := by
  have hnum := h.numAuthorities_eq_or hA hfree
  have hlt : j.numAuthorities.toNat < 2 ^ 32 := j.numAuthorities.toNat_lt
  omega

/-- If the threshold can be attacked, some accepted justification shows no two-thirds majority. -/
theorem exists_unsound_justification {MAX_NUM_AUTHORITIES num v f : ℕ}
    (hmax : A.length ≤ MAX_NUM_AUTHORITIES)
    (hA : authoritySetCommitment crypto A = some authoritySetHash)
    (hfree : CollisionFree crypto.sha256 (commitmentMessages crypto A))
    {msg : BytesVariable ENCODED_PRECOMMIT_LENGTH}
    (hmsg : IsPrecommit msg.data blockHash blockNumber authoritySetId)
    (hsign : ∀ k ∈ A, (∃ s, crypto.ed25519Verify k msg.data s = true) ∧
      ∃ s, crypto.ed25519Verify k msg.data s = false)
    (hlt : num < 2 ^ 32)
    (hnum : num = A.length ∨ A.length = MAX_NUM_AUTHORITIES ∧ MAX_NUM_AUTHORITIES ≤ num)
    (hv : v ≤ A.length) (hf : f ≤ MAX_NUM_AUTHORITIES - A.length) (hfew : 3 * v ≤ 2 * A.length)
    (hpass : PassesThreshold num (v + f)) :
    ∃ j : JustificationVariable MAX_NUM_AUTHORITIES,
      CollisionFree crypto.sha256 (justificationMessages crypto A j) ∧
        Justifies crypto blockNumber blockHash authoritySetId authoritySetHash j ∧
        ¬ SignedByTwoThirds crypto A blockNumber blockHash authoritySetId j := by
  obtain - | ⟨k, ks⟩ := A
  · exact absurd hA (by simp [authoritySetCommitment])
  obtain ⟨s₀, -⟩ := (hsign k (by simp)).1
  have hgood : ∀ x, ∃ s, x ∈ k :: ks → crypto.ed25519Verify x msg.data s = true := by
    intro x
    by_cases hx : x ∈ k :: ks
    · obtain ⟨s, hs⟩ := (hsign x hx).1
      exact ⟨s, fun _ => hs⟩
    · exact ⟨s₀, fun h => absurd h hx⟩
  have hbad : ∀ x, ∃ s, x ∈ k :: ks → crypto.ed25519Verify x msg.data s = false := by
    intro x
    by_cases hx : x ∈ k :: ks
    · obtain ⟨s, hs⟩ := (hsign x hx).2
      exact ⟨s, fun _ => hs⟩
    · exact ⟨s₀, fun h => absurd h hx⟩
  choose good hgood using hgood
  choose bad hbad using hbad
  have hlen : (paddedSlots good bad k ks v f (MAX_NUM_AUTHORITIES - (k :: ks).length)).length =
      MAX_NUM_AUTHORITIES := by
    rw [length_paddedSlots good bad k ks hf]
    omega
  have htoNat : (UInt32.ofNat num).toNat = num := by
    rw [UInt32.toNat_ofNat', Nat.mod_eq_of_lt hlt]
  have hkeys : ((paddedSlots good bad k ks v f (MAX_NUM_AUTHORITIES - (k :: ks).length)).map
      Slot.pubkey).take (UInt32.ofNat num).toNat = k :: ks := by
    rw [map_pubkey_paddedSlots good bad k ks hf, htoNat]
    rcases hnum with hnum | ⟨hfull, hnum⟩
    · rw [hnum, List.take_left]
    · rw [hfull, Nat.sub_self, List.replicate_zero, List.append_nil,
        List.take_of_length_le (by omega)]
  refine ⟨JustificationVariable.ofSlots msg (UInt32.ofNat num) _ hlen, ?_, ?_, ?_⟩
  · refine hfree.mono fun m hm => ?_
    simp only [justificationMessages, JustificationVariable.ofSlots, hkeys, List.mem_append,
      or_self] at hm
    exact hm
  · refine justifies_ofSlots hlen (by rw [hkeys, hA]) hmsg ?_ ?_
    · intro slot hslot hsigned
      simp only [paddedSlots, List.mem_append, List.mem_map, List.mem_replicate] at hslot
      rcases hslot with (⟨x, hx, rfl⟩ | ⟨x, -, rfl⟩) | ⟨-, rfl⟩ | ⟨-, rfl⟩
      · exact hgood x (List.mem_of_mem_take hx)
      · exact absurd hsigned (by simp)
      · exact hgood k (by simp)
      · exact absurd hsigned (by simp)
    · rw [htoNat, count_signed_paddedSlots good bad k ks hv]
      exact hpass
  · rintro ⟨-, hvotes⟩
    have hle := validVotes_paddedSlots_le good bad k ks (v := v) (f := f)
      (p := MAX_NUM_AUTHORITIES - (k :: ks).length) fun x hx => hbad x hx
    simp only [JustificationVariable.ofSlots] at hvotes
    omega

end Sound

/-- Let `A` be a committed set whose keys can sign a precommit for the block. Every accepted
justification shows a two-thirds majority of `A` if and only if there is only one slot, or the set
is too large for its size to fit 32 bits. -/
theorem justification_sound_iff (crypto : Crypto) (MAX_NUM_AUTHORITIES : ℕ)
    (blockNumber : U32Variable) (blockHash : Bytes32Variable) (authoritySetId : U64Variable)
    (authoritySetHash : Bytes32Variable) (A : List Bytes32Variable)
    (hmax : A.length ≤ MAX_NUM_AUTHORITIES)
    (hA : authoritySetCommitment crypto A = some authoritySetHash)
    (hfree : CollisionFree crypto.sha256 (commitmentMessages crypto A))
    (hsign : ∃ msg : BytesVariable ENCODED_PRECOMMIT_LENGTH,
      IsPrecommit msg.data blockHash blockNumber authoritySetId ∧
        ∀ k ∈ A, (∃ s, crypto.ed25519Verify k msg.data s = true) ∧
          ∃ s, crypto.ed25519Verify k msg.data s = false) :
    (∀ j : JustificationVariable MAX_NUM_AUTHORITIES,
        CollisionFree crypto.sha256 (justificationMessages crypto A j) →
        verifySimpleJustification crypto blockNumber blockHash authoritySetId authoritySetHash j =
          some () →
        SignedByTwoThirds crypto A blockNumber blockHash authoritySetId j) ↔
      MAX_NUM_AUTHORITIES = 1 ∨ 2 ^ 32 ≤ A.length := by
  obtain ⟨msg, hmsg, hkeys⟩ := hsign
  constructor
  · intro hsound
    by_contra hcond
    rw [not_or] at hcond
    obtain ⟨hone, hbig⟩ := hcond
    have hn : 1 ≤ A.length := by
      rcases A with - | ⟨k, ks⟩
      · exact absurd hA (by simp [authoritySetCommitment])
      · simp
    obtain ⟨num, v, f, hlt, hnum, hv, hf, hfew, hpass⟩ :=
      exists_threshold_attack hn hmax hone (by omega)
    obtain ⟨j, hfree', hj, hunsound⟩ :=
      exists_unsound_justification hmax hA hfree hmsg hkeys hlt hnum hv hf hfew hpass
    exact hunsound (hsound j hfree' (verifySimpleJustification_eq_some.mpr hj))
  · rintro hcond j hfree' haccept
    have hj := verifySimpleJustification_eq_some.mp haccept
    rcases hcond with rfl | hbig
    · exact signedByTwoThirds_of_one_slot hmax hA hfree' hj
    · exact absurd (hj.length_lt hA hfree') (by omega)

/-- The committed authority has not signed; the vote of the other key is in a padding slot. -/
def paddingJustification : JustificationVariable 2 where
  encodedPrecommit := Reference.precommit
  validatorSigned := ⟨[false, true], rfl⟩
  signatures := ⟨[Reference.zeroSignature, Reference.signature₂], rfl⟩
  pubkeys := ⟨[Reference.pubkey₁, Reference.pubkey₂], rfl⟩
  numAuthorities := 1

/-- A justification is accepted although no committed authority has signed. -/
theorem not_justification_sound :
    ¬ ∀ (crypto : Crypto) (MAX_NUM_AUTHORITIES : ℕ) (blockNumber : U32Variable)
        (blockHash : Bytes32Variable) (authoritySetId : U64Variable)
        (authoritySetHash : Bytes32Variable) (A : List Bytes32Variable)
        (j : JustificationVariable MAX_NUM_AUTHORITIES),
        A.length ≤ MAX_NUM_AUTHORITIES →
        authoritySetCommitment crypto A = some authoritySetHash →
        CollisionFree crypto.sha256 (justificationMessages crypto A j) →
        verifySimpleJustification crypto blockNumber blockHash authoritySetId authoritySetHash j =
          some () →
        SignedByTwoThirds crypto A blockNumber blockHash authoritySetId j := by
  intro hclaim
  have haccept : Justifies (Reference.crypto [Reference.signed₂]) 317857 Reference.precommitHash 298
      ((Reference.crypto [Reference.signed₂]).sha256 Reference.pubkey₁.data)
      paddingJustification := by
    refine ⟨rfl, isPrecommit_precommit, ?_, by unfold PassesThreshold; decide⟩
    intro i hi
    fin_cases i
    · exact absurd hi (by decide)
    · decide
  have hsound := hclaim (Reference.crypto [Reference.signed₂]) 2 317857 Reference.precommitHash 298
    ((Reference.crypto [Reference.signed₂]).sha256 Reference.pubkey₁.data) [Reference.pubkey₁]
    paddingJustification (by decide) rfl
    (collisionFree_append_self (HashChain.collisionFree_singleton _ _))
    (verifySimpleJustification_eq_some.mpr haccept)
  exact absurd hsound.2 (by decide)

/-- For a set of one authority, one slot is sound and two are not. -/
theorem justification_sound_iff_single :
    (∀ j : JustificationVariable 1,
        CollisionFree (Reference.crypto [Reference.signed₁]).sha256
          (justificationMessages (Reference.crypto [Reference.signed₁]) [Reference.pubkey₁] j) →
        verifySimpleJustification (Reference.crypto [Reference.signed₁]) 317857
          Reference.precommitHash 298
          ((Reference.crypto [Reference.signed₁]).sha256 Reference.pubkey₁.data) j = some () →
        SignedByTwoThirds (Reference.crypto [Reference.signed₁]) [Reference.pubkey₁] 317857
          Reference.precommitHash 298 j) ∧
      ¬ ∀ j : JustificationVariable 2,
        CollisionFree (Reference.crypto [Reference.signed₁]).sha256
          (justificationMessages (Reference.crypto [Reference.signed₁]) [Reference.pubkey₁] j) →
        verifySimpleJustification (Reference.crypto [Reference.signed₁]) 317857
          Reference.precommitHash 298
          ((Reference.crypto [Reference.signed₁]).sha256 Reference.pubkey₁.data) j = some () →
        SignedByTwoThirds (Reference.crypto [Reference.signed₁]) [Reference.pubkey₁] 317857
          Reference.precommitHash 298 j := by
  have hsign : ∃ msg : BytesVariable ENCODED_PRECOMMIT_LENGTH,
      IsPrecommit msg.data Reference.precommitHash 317857 298 ∧ ∀ k ∈ [Reference.pubkey₁],
        (∃ s, (Reference.crypto [Reference.signed₁]).ed25519Verify k msg.data s = true) ∧
          ∃ s, (Reference.crypto [Reference.signed₁]).ed25519Verify k msg.data s = false := by
    refine ⟨Reference.precommit, isPrecommit_precommit, fun k hk => ?_⟩
    obtain rfl := List.mem_singleton.mp hk
    exact ⟨⟨Reference.signature₁, Reference.ed25519Verify_signature₁⟩,
      ⟨Reference.zeroSignature, by decide⟩⟩
  have hiff := fun MAX_NUM_AUTHORITIES (hmax : 1 ≤ MAX_NUM_AUTHORITIES) =>
    justification_sound_iff (Reference.crypto [Reference.signed₁]) MAX_NUM_AUTHORITIES 317857
      Reference.precommitHash 298
      ((Reference.crypto [Reference.signed₁]).sha256 Reference.pubkey₁.data) [Reference.pubkey₁]
      hmax rfl (HashChain.collisionFree_singleton _ Reference.pubkey₁.data) hsign
  refine ⟨(hiff 1 (by decide)).mpr (Or.inl rfl), fun hsound => ?_⟩
  exact absurd ((hiff 2 (by decide)).mp hsound) (by decide)

end VectorX
