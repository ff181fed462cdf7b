import VectorX.Circuits.Justification
import VectorX.Reference.Chain

/-!
# Reference justifications

The first authority signs the block after the start of a reference chain, as the only member of
authority set 298.
-/

namespace Reference

open VectorX Plonky2x
open Bytes (leBytes)

/-- The message that is signed for a block, in round 0. -/
def precommitMessage (blockHash : Bytes32Variable) (blockNumber : UInt32)
    (authoritySetId : UInt64) : BytesVariable ENCODED_PRECOMMIT_LENGTH where
  data := [1] ++ blockHash.data ++ leBytes 4 blockNumber.toNat ++ leBytes 8 0 ++
    leBytes 8 authoritySetId.toNat
  length_data := by
    simp only [List.length_append, Bytes.length_leBytes, ArrayVariable.length_data]
    rfl

theorem isPrecommit_precommitMessage (blockHash : Bytes32Variable) (blockNumber : UInt32)
    (authoritySetId : UInt64) :
    IsPrecommit (precommitMessage blockHash blockNumber authoritySetId).data blockHash blockNumber
      authoritySetId :=
  isPrecommit_append blockHash blockNumber 0 authoritySetId

/-- The justification with the signature of the first authority. -/
def justification (message : BytesVariable ENCODED_PRECOMMIT_LENGTH) (signature : EDDSASignature) :
    JustificationVariable 1 where
  encodedPrecommit := message
  validatorSigned := ⟨[true], List.length_singleton⟩
  signatures := ⟨[signature], List.length_singleton⟩
  pubkeys := ⟨[pubkey₁], List.length_singleton⟩
  numAuthorities := 1

/-- The commitment to the first authority. -/
def authoritySetHash : Bytes32Variable := (crypto []).sha256 pubkey₁.data

theorem verifySimpleJustification_justification {blockHash : Bytes32Variable} {blockNumber : UInt32}
    {authoritySetId : UInt64} {message : BytesVariable ENCODED_PRECOMMIT_LENGTH}
    (signature : EDDSASignature)
    (hmessage : IsPrecommit message.data blockHash blockNumber authoritySetId) :
    verifySimpleJustification (crypto [⟨pubkey₁, message.data, signature⟩]) blockNumber blockHash
      authoritySetId authoritySetHash (justification message signature) = some () := by
  refine verifySimpleJustification_eq_some.mpr ⟨rfl, hmessage, ?_, ?_⟩
  · intro i _
    obtain rfl : i = 0 := Subsingleton.elim i 0
    exact decide_eq_true (List.mem_singleton.mpr rfl)
  · change 2 * 1 % 2 ^ 32 < 3 * 1 % 2 ^ 32
    decide

/-! ## Signed blocks -/

/-- The message for block 1 of the chain from the genesis block. -/
def message₁ : BytesVariable ENCODED_PRECOMMIT_LENGTH :=
  precommitMessage (blockHash (chainHeader 0 1)) 1 298

/-- The signature on it. -/
def blockSignature₁ : EDDSASignature where
  r := ⟨[151, 38, 248, 146, 244, 229, 43, 233, 149, 156, 48, 74, 159, 25, 157, 15, 96, 66, 77, 80,
    29, 18, 161, 91, 135, 154, 124, 103, 105, 158, 169, 23], rfl⟩
  s := 0xd59bcfa7e6acea3e1d63b685dc655ee12e0a241cdd7379c93f403290cb12caf

/-- The message for block 4294967095 of the chain from block 4294967094. -/
def message₂ : BytesVariable ENCODED_PRECOMMIT_LENGTH :=
  precommitMessage (blockHash (chainHeader 4294967094 1)) 4294967095 298

/-- The signature on it. -/
def blockSignature₂ : EDDSASignature where
  r := ⟨[103, 23, 154, 147, 237, 155, 44, 117, 8, 197, 45, 110, 68, 78, 180, 185, 111, 73, 99, 28,
    138, 199, 254, 45, 245, 247, 106, 203, 214, 48, 184, 82], rfl⟩
  s := 0x27fc54d566cc53ef34766ba993bcf9dee82534a3cfbeddede0ea75eb1f19300

def blockSigned₁ : SignedMessage := ⟨pubkey₁, message₁.data, blockSignature₁⟩

def blockSigned₂ : SignedMessage := ⟨pubkey₁, message₂.data, blockSignature₂⟩

end Reference
