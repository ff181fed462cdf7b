import VectorX.Reference.Hash
import VectorX.Plonky2x.Builder

/-!
# A reference instance of the cryptography

The hash functions are the real ones. Signature verification is given by a table of signed messages:
it accepts what is in the table, so it agrees with Ed25519 wherever only these messages and forged
signatures occur.
-/

namespace Reference

open Plonky2x

/-- A message with a valid signature. -/
structure SignedMessage where
  pubkey : Bytes32Variable
  message : List UInt8
  signature : EDDSASignature
deriving DecidableEq

/-- SHA-256, Blake2b, and the signatures of the table. -/
def primitives (signed : List SignedMessage) : Primitives where
  sha256 msg := ⟨Sha256.hash msg, Sha256.length_hash msg⟩
  blake2b msg := ⟨Blake2b.hash msg, Blake2b.length_hash msg⟩
  ed25519Verify pubkey message signature := decide (⟨pubkey, message, signature⟩ ∈ signed)
  dalekVerify pubkey message signature := decide (⟨pubkey, message, signature⟩ ∈ signed)
  pairVerify pubkey message signature := decide (⟨pubkey, message, signature⟩ ∈ signed)
  dalekVerify_eq := rfl
  pairVerify_eq := rfl

/-- The primitives with gadgets that reject whatever is out of range. -/
def crypto (signed : List SignedMessage) : Crypto where
  toPrimitives := primitives signed
  selectArrayRandomGate l i := l[i.val]?
  selectArrayRandomGate_eq _ _ _ := rfl
  getFixedSubarray LEN a offset _ := a.subarray offset.val LEN
  getFixedSubarray_eq _ _ _ _ := rfl
  curtaBlake2bVariable bytes len :=
    if len.toNat ≤ bytes.length then some ((primitives signed).blake2b (bytes.take len.toNat))
    else none
  curtaBlake2bVariable_eq _ _ := rfl
  curtaEddsaVerifySigsConditional isActive messageByteLengths messages signatures pubkeys :=
    if ∀ i, isActive.get i = true → (primitives signed).ed25519Verify (pubkeys.get i)
      ((messages.get i).data.take (messageByteLengths.get i).toNat) (signatures.get i) = true
    then some () else none
  curtaEddsaVerifySigsConditional_iff _ _ _ _ _ _ := by simp
  getRootFromHashedLeaves {NB_LEAVES} leaves nbEnabledLeaves :=
    let nodes := (List.range (Merkle.nextPowerOfTwo NB_LEAVES)).map fun i =>
      if i < nbEnabledLeaves.val then leaves.data.getD i emptyBytes32 else emptyBytes32
    (Merkle.hashLayers (fun a b => (primitives signed).sha256 (a.data ++ b.data)) nodes.length
      nodes).headD emptyBytes32
  getRootFromHashedLeaves_eq {d} leaves nbEnabledLeaves _ := by
    rw [Merkle.nextPowerOfTwo_two_pow]
    simp only [List.length_map, List.length_range]
    rw [Merkle.hashLayers_leaves Nat.lt_two_pow_self.le, List.headD_cons]
  mapreduce := mapReduceTree
  mapreduce_eq _ _ _ _ _ _ _ _ := rfl

theorem rejectsPastEnd_crypto (signed : List SignedMessage) : (crypto signed).RejectsPastEnd := by
  intro N LEN a offset seed h
  exact dif_neg (Nat.not_le.mpr h)

/-- The hash function of the contract. -/
def keccak256 (msg : List UInt8) : Bytes32Variable := ⟨Keccak256.hash msg, Keccak256.length_hash msg⟩

/-! ## Two authorities and a precommit

The precommit is for block 317857 and authority set 298.
-/

def pubkey₁ : Bytes32Variable :=
  ⟨[138, 136, 227, 221, 116, 9, 241, 149, 253, 82, 219, 45, 60, 186, 93, 114,
    202, 103, 9, 191, 29, 148, 18, 27, 243, 116, 136, 1, 180, 15, 111, 92], rfl⟩

def pubkey₂ : Bytes32Variable :=
  ⟨[129, 57, 119, 14, 168, 125, 23, 95, 86, 163, 84, 102, 195, 76, 126, 204,
    203, 141, 138, 145, 180, 238, 55, 162, 93, 246, 15, 91, 143, 201, 179, 148], rfl⟩

def precommit : BytesVariable 53 :=
  ⟨[1, 38, 27, 45, 113, 196, 242, 16, 36, 228, 137, 117, 93, 79, 157, 136, 222, 239, 71,
    241, 37, 152, 13, 194, 159, 190, 169, 38, 234, 124, 89, 223, 233, 161, 217, 4, 0, 75,
    58, 0, 0, 0, 0, 0, 0, 42, 1, 0, 0, 0, 0, 0, 0], rfl⟩

def precommitHash : Bytes32Variable :=
  ⟨[38, 27, 45, 113, 196, 242, 16, 36, 228, 137, 117, 93, 79, 157, 136, 222, 239, 71, 241, 37,
    152, 13, 194, 159, 190, 169, 38, 234, 124, 89, 223, 233], rfl⟩

/-- The signature of the first authority on the precommit. -/
def signature₁ : EDDSASignature where
  r := ⟨[31, 167, 60, 91, 161, 114, 186, 2, 28, 121, 107, 25, 169, 253, 135, 177,
    149, 177, 105, 87, 10, 67, 215, 123, 163, 45, 247, 112, 169, 156, 162, 211], rfl⟩
  s := 0x82d53fe524e236893625fd33124fe25bcfd70601726eac705cc8358ba837089

/-- The signature of the second authority on the precommit. -/
def signature₂ : EDDSASignature where
  r := ⟨[41, 68, 104, 214, 133, 37, 80, 89, 102, 62, 206, 125, 236, 18, 229, 176,
    122, 82, 47, 97, 63, 86, 122, 171, 63, 105, 39, 41, 74, 237, 59, 137], rfl⟩
  s := 0xa629a6c1c6385193873b179aee449342d34f3db19a64351392e777ee2efb92b

/-- A signature that is not valid. -/
def zeroSignature : EDDSASignature := ⟨emptyBytes32, 0⟩

def signed₁ : SignedMessage := ⟨pubkey₁, precommit.data, signature₁⟩

def signed₂ : SignedMessage := ⟨pubkey₂, precommit.data, signature₂⟩

theorem ed25519Verify_signature₁ :
    (crypto [signed₁]).ed25519Verify pubkey₁ precommit.data signature₁ = true := by decide

end Reference
