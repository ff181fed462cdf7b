import VectorX.Reference.Rotate

/-!
# A signed reference chain

Two authorities finalize block 1, which announces the next two; those finalize blocks 9 and 10. One
of the first two also signs a block of another chain.
-/

namespace Reference

open VectorX Plonky2x Plonky2x.CircuitBuilder
open HashChain (CollisionFree)

/-! ## Headers -/

def pubkey₃ : Bytes32Variable :=
  ⟨[237, 73, 40, 198, 40, 209, 194, 198, 234, 233, 3, 56, 144, 89, 149, 97, 41, 89, 39, 58, 92, 99,
    249, 54, 54, 193, 70, 20, 172, 135, 55, 209], rfl⟩

/-- Block 1 announces the second and the third authority. -/
def signedLogs (n : ℕ) : List DigestItem :=
  if n = 1 then [.consensus consensusEngineIdBytes (scheduledChange [pubkey₂, pubkey₃])] else []

def signedHeader (n : ℕ) : Header := logHeader signedLogs n

theorem length_encode_signedHeader (n : ℕ) : (signedHeader n).encode.length ≤ 225 := by
  by_cases h : n = 1
  · rw [h]
    decide +kernel
  · exact Nat.le_trans (length_encode_logHeader (if_neg h)) (by decide)

/-- The hashes of the `k` blocks from block `n` on, on top of a given hash. -/
def hashesFrom : ℕ → ℕ → Bytes32Variable → List Bytes32Variable
  | 0, _, _ => []
  | k + 1, n, parentHash =>
    let hash := blockHash { header n parentHash with logs := signedLogs n }
    hash :: hashesFrom k (n + 1) hash

theorem hashesFrom_blockHash (k : ℕ) :
    ∀ n, hashesFrom k (n + 1) (blockHash (signedHeader n)) =
      (List.range k).map fun s => blockHash (signedHeader (n + 1 + s)) := by
  induction k with
  | zero => exact fun _ => rfl
  | succ k ih =>
    intro n
    rw [hashesFrom, List.range_succ_eq_map, List.map_cons, List.map_map]
    refine congrArg (List.cons _) ((ih (n + 1)).trans (List.map_congr_left fun s _ => ?_))
    rw [Function.comp_apply, Nat.succ_eq_add_one]
    congr 2
    omega

theorem blake2b_encode (signed : List SignedMessage) (h : Header) :
    (crypto signed).blake2b h.encode = blockHash h := rfl

/-- The hashes of blocks 0 to 9 are different and not zero. -/
theorem nodup_blockHash_signedHeader :
    (emptyBytes32 :: blockHash (signedHeader 0) ::
      (List.range 9).map fun s => blockHash (signedHeader (1 + s))).Nodup := by
  rw [← hashesFrom_blockHash 9 0]
  decide +kernel

theorem blockHash_signedHeader_ne {n : ℕ} (hn : n ≤ 9) :
    blockHash (signedHeader n) ≠ emptyBytes32 := by
  intro heq
  refine (List.nodup_cons.mp nodup_blockHash_signedHeader).1 ?_
  rw [← heq]
  rcases n with - | n
  · exact List.mem_cons_self
  · refine List.mem_cons_of_mem _ (List.mem_map.mpr ⟨n, List.mem_range.mpr (by omega), ?_⟩)
    rw [Nat.add_comm]

/-! ## Signatures -/

/-- The message for a block of the chain. -/
def signedPrecommit (n : UInt32) (id : UInt64) : BytesVariable ENCODED_PRECOMMIT_LENGTH :=
  precommitMessage (blockHash (signedHeader n.toNat)) n id

/-- The signature of the first authority on block 1. -/
def signature₁₁ : EDDSASignature where
  r := ⟨[127, 233, 48, 95, 238, 228, 38, 34, 118, 65, 65, 104, 243, 182, 231, 78, 82, 63, 71, 219,
    17, 62, 156, 248, 53, 19, 4, 60, 179, 50, 23, 218], rfl⟩
  s := 0xaa8b7aa262d3f78a2bb28b721fe95a3815675f0e1968a2a2e93af3042002208

/-- The signature of the second authority on block 1. -/
def signature₂₁ : EDDSASignature where
  r := ⟨[220, 215, 208, 94, 162, 209, 252, 72, 51, 130, 28, 182, 121, 220, 58, 103, 75, 213, 179,
    100, 118, 21, 15, 46, 23, 182, 199, 80, 36, 67, 115, 218], rfl⟩
  s := 0x9d17373a4d10398a8ce0f8f215dba12e99a32dc4c7b09e9262efb78c74ceb23

/-- The signature of the second authority on block 9. -/
def signature₂₉ : EDDSASignature where
  r := ⟨[148, 228, 4, 138, 207, 111, 51, 213, 187, 92, 168, 208, 1, 92, 87, 176, 142, 79, 234, 190,
    68, 146, 21, 77, 81, 195, 73, 102, 240, 193, 245, 40], rfl⟩
  s := 0x2f9057ca0f74e8b89a70139c1845e47e618d49df3d034e067326b93f650f955

/-- The signature of the third authority on block 9. -/
def signature₃₉ : EDDSASignature where
  r := ⟨[253, 224, 222, 0, 147, 181, 21, 137, 42, 148, 242, 223, 70, 36, 20, 203, 198, 200, 78, 198,
    70, 125, 254, 255, 80, 165, 66, 45, 80, 247, 197, 152], rfl⟩
  s := 0xb70f4ea56f5af36957ef96bb2d1c91dc1f479bbc191f9cfe2ef30cb05583b86

/-- The signature of the second authority on block 10. -/
def signature₂₁₀ : EDDSASignature where
  r := ⟨[100, 9, 84, 98, 73, 223, 192, 144, 115, 189, 183, 160, 137, 17, 150, 57, 126, 196, 51, 204,
    110, 201, 37, 117, 147, 68, 118, 28, 139, 168, 40, 203], rfl⟩
  s := 0x14ae38a655009985aa311b669fbe75ce007627f81a77565ec9d233f21f59d47

/-- The signature of the third authority on block 10. -/
def signature₃₁₀ : EDDSASignature where
  r := ⟨[26, 102, 56, 255, 12, 52, 32, 238, 20, 54, 244, 170, 52, 59, 3, 138, 96, 26, 248, 191, 159,
    88, 149, 61, 54, 173, 87, 217, 99, 39, 66, 103], rfl⟩
  s := 0x7d9c5beeb3ea37dfb0b4bbec45d290c4050c71fc1b5f8d679b386df0c9eecc9

/-- The signatures on the blocks, and the one on another chain. -/
def chainSigned : List SignedMessage :=
  [ signed₁,
    ⟨pubkey₁, (signedPrecommit 1 298).data, signature₁₁⟩,
    ⟨pubkey₂, (signedPrecommit 1 298).data, signature₂₁⟩,
    ⟨pubkey₂, (signedPrecommit 9 299).data, signature₂₉⟩,
    ⟨pubkey₃, (signedPrecommit 9 299).data, signature₃₉⟩,
    ⟨pubkey₂, (signedPrecommit 10 299).data, signature₂₁₀⟩,
    ⟨pubkey₃, (signedPrecommit 10 299).data, signature₃₁₀⟩ ]

/-- The cryptography with these signatures. -/
abbrev signedCrypto : Crypto := crypto chainSigned

/-- The chain of these headers. -/
def signedChain : Chain signedCrypto := logChain chainSigned signedLogs

theorem header_signedChain (n : ℕ) : signedChain.header n = signedHeader n := rfl

theorem hash_signedChain (n : ℕ) :
    (signedChain.header n).hash signedCrypto = blockHash (signedHeader n) := rfl

/-! ## Justifications -/

/-- A justification by two authorities, in a circuit for four. -/
def pairJustification (message : BytesVariable ENCODED_PRECOMMIT_LENGTH)
    (pubkey pubkey' : Bytes32Variable) (signature signature' : EDDSASignature) :
    JustificationVariable 4 where
  encodedPrecommit := message
  validatorSigned := ⟨[true, true, false, false], rfl⟩
  signatures := ⟨[signature, signature', zeroSignature, zeroSignature], rfl⟩
  pubkeys := ⟨[pubkey, pubkey', emptyBytes32, emptyBytes32], rfl⟩
  numAuthorities := 2

/-- The commitment to two authorities. -/
def pairHash (pubkey pubkey' : Bytes32Variable) : Bytes32Variable :=
  (crypto []).sha256 (((crypto []).sha256 pubkey.data).data ++ pubkey'.data)

/-- The justifications of blocks 1, 9 and 10. -/
def justification₁ : JustificationVariable 4 :=
  pairJustification (signedPrecommit 1 298) pubkey₁ pubkey₂ signature₁₁ signature₂₁

def justification₉ : JustificationVariable 4 :=
  pairJustification (signedPrecommit 9 299) pubkey₂ pubkey₃ signature₂₉ signature₃₉

def justification₁₀ : JustificationVariable 4 :=
  pairJustification (signedPrecommit 10 299) pubkey₂ pubkey₃ signature₂₁₀ signature₃₁₀

theorem pairHash_ne : pairHash pubkey₁ pubkey₂ ≠ emptyBytes32 ∧
    pairHash pubkey₂ pubkey₃ ≠ emptyBytes32 := by
  decide +kernel

variable {message : BytesVariable ENCODED_PRECOMMIT_LENGTH} {pubkey pubkey' : Bytes32Variable}
  {signature signature' : EDDSASignature}

/-- Two valid signatures justify the block. -/
theorem verifySimpleJustification_pair {blockHash : Bytes32Variable} {n : UInt32} {id : UInt64}
    (hmessage : IsPrecommit message.data blockHash n id)
    (hsigned : ⟨pubkey, message.data, signature⟩ ∈ chainSigned)
    (hsigned' : ⟨pubkey', message.data, signature'⟩ ∈ chainSigned) :
    verifySimpleJustification (crypto chainSigned) n blockHash id (pairHash pubkey pubkey')
      (pairJustification message pubkey pubkey' signature signature') = some () := by
  refine verifySimpleJustification_eq_some.mpr ⟨rfl, hmessage, ?_, ?_⟩
  · intro i hi
    match i with
    | 0 => exact decide_eq_true hsigned
    | 1 => exact decide_eq_true hsigned'
    | 2 | 3 => exact absurd hi (by simp [pairJustification, ArrayVariable.get])
  · change 2 * 2 % 2 ^ 32 < 3 * 2 % 2 ^ 32
    decide

end Reference
