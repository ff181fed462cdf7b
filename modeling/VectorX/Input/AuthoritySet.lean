import VectorX.Circuits.Justification
import VectorX.Input.LastJustifiedBlock
import VectorX.Reference.Crypto

/-!
# Authority sets of a chain

Reference: `circuits/input/mod.rs`. The node reports the authorities that justify the block after a
given one. The host hashes them in the same order as the circuit, over the list itself rather than
over all slots.
-/

namespace VectorX

open Plonky2x Plonky2x.CircuitBuilder

/-! ## Definitions -/

section Definitions

/-- A chain from block 0 on, with the set id and the weighted authorities at each block. -/
structure EpochChain (crypto : Crypto) extends Chain crypto, SetIds where
  first_eq : first = 0
  grandpaAuthorities : ℕ → List (Bytes32Variable × UInt64)

variable (crypto : Crypto)

/-- Each key is hashed after the digest so far. The source has this loop twice, word for word, in
the two functions below: so they agree by construction. -/
def authoritySetHashLoop (authorities : List Bytes32Variable) : List UInt8 :=
  authorities.foldl (fun hashSoFar authority => (crypto.sha256 (hashSoFar ++ authority.data)).data) []

/-- `compute_authority_set_hash`. The digest of the empty list is empty. -/
def computeAuthoritySetHash (authorities : List Bytes32Variable) : List UInt8 :=
  authoritySetHashLoop crypto authorities

/-- `H256::from_slice`, which panics unless there are 32 bytes. -/
def h256FromSlice (bytes : List UInt8) : Option Bytes32Variable :=
  if h : bytes.length = 32 then some ⟨bytes, h⟩ else none

variable {crypto} (chain : EpochChain crypto)

/-- `get_authorities`, which panics if the weight of an authority is not 1. -/
def getAuthorities (blockNumber : UInt32) : Option (List Bytes32Variable) :=
  if blockNumber ≤ chain.head ∧ ∀ a ∈ chain.grandpaAuthorities blockNumber.toNat, a.2 = 1 then
    some ((chain.grandpaAuthorities blockNumber.toNat).map Prod.fst)
  else none

/-- The method `compute_authority_set_hash` of the data fetcher, on the authorities it has
fetched. -/
def RpcDataFetcher.hashAuthorities (crypto : Crypto) (authorities : List Bytes32Variable) :
    Option Bytes32Variable :=
  h256FromSlice (authoritySetHashLoop crypto authorities)

/-- `RpcDataFetcher::compute_authority_set_hash`. -/
def RpcDataFetcher.computeAuthoritySetHash (blockNumber : UInt32) : Option Bytes32Variable := do
  let authorities ← getAuthorities chain blockNumber
  RpcDataFetcher.hashAuthorities crypto authorities

end Definitions

/-! ## The hash of the host -/

section Host

variable {crypto : Crypto}

/-- The chain has every block up to its head. -/
theorem EpochChain.first_le (chain : EpochChain crypto) (n : ℕ) : chain.first.toNat ≤ n := by
  rw [chain.first_eq]
  exact Nat.zero_le n

/-- From the digest of a key on, the loop is the chained hash. -/
theorem foldl_sha256_data (authorities : List Bytes32Variable) :
    ∀ acc : Bytes32Variable, authorities.foldl
        (fun hashSoFar authority => (crypto.sha256 (hashSoFar ++ authority.data)).data) acc.data =
      (authorities.foldl (fun acc k => crypto.sha256 (acc.data ++ k.data)) acc).data := by
  induction authorities with
  | nil => exact fun _ => rfl
  | cons k ks ih => exact fun acc => ih (crypto.sha256 (acc.data ++ k.data))

/-- The first key is hashed after the empty digest, that is alone. -/
theorem authoritySetCommitment_data {authorities : List Bytes32Variable} {c : Bytes32Variable}
    (h : authoritySetCommitment crypto authorities = some c) :
    computeAuthoritySetHash crypto authorities = c.data := by
  rcases authorities with - | ⟨k, ks⟩
  · exact absurd h (by simp [authoritySetCommitment])
  · obtain rfl := Option.some.inj h
    rw [computeAuthoritySetHash, authoritySetHashLoop, List.foldl_cons, List.nil_append,
      foldl_sha256_data]
    rfl

/-- The method of the fetcher panics on the empty list and agrees with the circuit otherwise. -/
theorem hashAuthorities_eq (authorities : List Bytes32Variable) :
    RpcDataFetcher.hashAuthorities crypto authorities = authoritySetCommitment crypto authorities := by
  rcases hA : authoritySetCommitment crypto authorities with - | c
  · have hnil : authorities = [] := by
      by_contra hne
      obtain ⟨c, hc⟩ := (exists_authoritySetCommitment crypto).mpr hne
      rw [hA] at hc
      exact absurd hc (by simp)
    rw [hnil]
    rfl
  · have hdata := authoritySetCommitment_data hA
    rw [computeAuthoritySetHash] at hdata
    rw [RpcDataFetcher.hashAuthorities, h256FromSlice, dif_pos (by rw [hdata, c.length_data])]
    exact congrArg some (ArrayVariable.ext hdata)

/-- The authorities of a block have a hash if there are any, all of weight 1. -/
theorem exists_computeAuthoritySetHash_iff (chain : EpochChain crypto) (b : UInt32) :
    (∃ c, RpcDataFetcher.computeAuthoritySetHash chain b = some c) ↔
      b ≤ chain.head ∧ chain.grandpaAuthorities b.toNat ≠ [] ∧
        ∀ a ∈ chain.grandpaAuthorities b.toNat, a.2 = 1 := by
  rw [RpcDataFetcher.computeAuthoritySetHash, getAuthorities]
  split
  · rename_i hb
    simp only [Option.bind_eq_bind, Option.bind_some, hashAuthorities_eq,
      exists_authoritySetCommitment, ne_eq, List.map_eq_nil_iff]
    exact ⟨fun hne => ⟨hb.1, hne, hb.2⟩, fun h => h.2.1⟩
  · rename_i hb
    simp only [Option.bind_eq_bind, Option.bind_none, reduceCtorEq, exists_false, false_iff]
    exact fun h => hb ⟨h.1, h.2.2⟩

/-- The first slots hold the keys, whatever the padding. -/
theorem computeAuthoritySetCommitment_padded {MAX_NUM_AUTHORITIES : ℕ}
    {L P : List Bytes32Variable} {n : Variable} (hlen : (L ++ P).length = MAX_NUM_AUTHORITIES)
    (hn : n.val = L.length) :
    computeAuthoritySetCommitment crypto n
        (⟨L ++ P, hlen⟩ : ArrayVariable Bytes32Variable MAX_NUM_AUTHORITIES) =
      authoritySetCommitment crypto L := by
  rw [computeAuthoritySetCommitment_eq, hn, List.take_left]

end Host

/-- **Commitment.** In a circuit of any size the commitment to a non-empty padded list is the hash
that both host functions compute for the list alone. If the messages hashed for two lists do not
collide, their commitments are equal only if the lists are. -/
theorem computeAuthoritySetCommitment_agrees_binds (crypto : Crypto) (MAX_NUM_AUTHORITIES : ℕ)
    (L L' P P' : List Bytes32Variable) (n n' : Variable)
    (hlen : (L ++ P).length = MAX_NUM_AUTHORITIES) (hlen' : (L' ++ P').length = MAX_NUM_AUTHORITIES)
    (hn : n.val = L.length) (hn' : n'.val = L'.length) (hL : L ≠ []) :
    (∃ c, computeAuthoritySetCommitment crypto n
          (⟨L ++ P, hlen⟩ : ArrayVariable Bytes32Variable MAX_NUM_AUTHORITIES) = some c ∧
        computeAuthoritySetHash crypto L = c.data ∧
        RpcDataFetcher.hashAuthorities crypto L = some c) ∧
    (HashChain.CollisionFree crypto.sha256
        (commitmentMessages crypto L ++ commitmentMessages crypto L') →
      (computeAuthoritySetCommitment crypto n
            (⟨L ++ P, hlen⟩ : ArrayVariable Bytes32Variable MAX_NUM_AUTHORITIES) =
          computeAuthoritySetCommitment crypto n'
            (⟨L' ++ P', hlen'⟩ : ArrayVariable Bytes32Variable MAX_NUM_AUTHORITIES) ↔
        L = L')) := by
  rw [computeAuthoritySetCommitment_padded hlen hn, computeAuthoritySetCommitment_padded hlen' hn']
  obtain ⟨c, hc⟩ := (exists_authoritySetCommitment crypto).mpr hL
  refine ⟨⟨c, hc, authoritySetCommitment_data hc, (hashAuthorities_eq L).trans hc⟩, fun hfree => ?_⟩
  constructor
  · intro heq
    exact authoritySetCommitment_injective hfree hc (heq ▸ hc)
  · exact congrArg (authoritySetCommitment crypto)

/-- The messages for the first authority alone and for both. -/
theorem collisionFree_authorities :
    HashChain.CollisionFree (Reference.crypto []).sha256
      (commitmentMessages (Reference.crypto []) [Reference.pubkey₁] ++
        commitmentMessages (Reference.crypto []) [Reference.pubkey₁, Reference.pubkey₂]) := by
  have hne : (Reference.crypto []).sha256 Reference.pubkey₁.data ≠
      (Reference.crypto []).sha256
        (((Reference.crypto []).sha256 Reference.pubkey₁.data).data ++ Reference.pubkey₂.data) := by
    decide +kernel
  refine (HashChain.collisionFree_pair hne).mono fun m hm => ?_
  simpa [commitmentMessages, HashChain.messages, HashChain.messagesFrom] using hm

/-- The first authority, padded with the second, against both. -/
theorem computeAuthoritySetCommitment_agrees_binds_pair :
    (∃ c, computeAuthoritySetCommitment (Reference.crypto []) (Variable.ofNat 1)
          (⟨[Reference.pubkey₁] ++ [Reference.pubkey₂], rfl⟩ : ArrayVariable Bytes32Variable 2) =
            some c ∧
        computeAuthoritySetHash (Reference.crypto []) [Reference.pubkey₁] = c.data ∧
        RpcDataFetcher.hashAuthorities (Reference.crypto []) [Reference.pubkey₁] = some c) ∧
    (computeAuthoritySetCommitment (Reference.crypto []) (Variable.ofNat 1)
          (⟨[Reference.pubkey₁] ++ [Reference.pubkey₂], rfl⟩ : ArrayVariable Bytes32Variable 2) =
        computeAuthoritySetCommitment (Reference.crypto []) (Variable.ofNat 2)
          (⟨[Reference.pubkey₁, Reference.pubkey₂] ++ [], rfl⟩ : ArrayVariable Bytes32Variable 2) ↔
      [Reference.pubkey₁] = [Reference.pubkey₁, Reference.pubkey₂]) :=
  (computeAuthoritySetCommitment_agrees_binds (Reference.crypto []) 2 [Reference.pubkey₁]
    [Reference.pubkey₁, Reference.pubkey₂] [Reference.pubkey₂] [] (Variable.ofNat 1)
    (Variable.ofNat 2) rfl rfl (by decide) (by decide) (by decide)).imp_right fun h =>
      h collisionFree_authorities

end VectorX
