import VectorX.Circuits.Rotate
import VectorX.Reference.Justification

/-!
# Reference epoch end headers

Block 1 of the reference chain, as the last block of an epoch: its only log announces the next
authorities. The first authority signs it.
-/

namespace Reference

open VectorX Plonky2x Plonky2x.CircuitBuilder

/-- The message that schedules the change to the given authorities, without delay. -/
def scheduledChange (keys : List Bytes32Variable) : List UInt8 :=
  [1] ++ Compact.encode keys.length ++
    keys.flatMap (fun key => key.data ++ expectedWeightBytes.data) ++ expectedDelayBytes.data

/-- Block 1, announcing the given authorities. -/
def epochEndHeader (keys : List Bytes32Variable) : Header :=
  { header 1 (blockHash (chainHeader 0 0)) with
    logs := [.consensus consensusEngineIdBytes (scheduledChange keys)] }

/-- The header fits into 256 bytes. -/
theorem length_epochEndHeader : ((epochEndHeader [pubkey₂]).encode ++ []).length ≤ 256 := by
  decide +kernel

/-- The signature on the message that announces the second authority. -/
def epochEndSignature₁ : EDDSASignature where
  r := ⟨[37, 95, 161, 169, 125, 225, 186, 249, 184, 232, 249, 107, 245, 172, 16, 165, 226, 71, 213,
    248, 182, 157, 27, 156, 227, 65, 49, 252, 131, 159, 68, 126], rfl⟩
  s := 0xbf18b891aec19fa6670e1745cc21df0820e6977c37a48763cc9e61ae890df93

/-- The signature on the message that announces both authorities. -/
def epochEndSignature₂ : EDDSASignature where
  r := ⟨[229, 165, 206, 77, 130, 133, 173, 51, 176, 208, 87, 239, 118, 201, 122, 160, 100, 140, 179,
    220, 227, 164, 24, 33, 89, 201, 215, 162, 128, 112, 157, 237], rfl⟩
  s := 0x3e991b32bd93de0dbbd803c72b688e7868779d32b21c4209b098fd9efc1d732

/-! ## Rotations -/

/-- A rotation to the first of `n` authorities, on a header that is followed by further bytes. -/
def rotateVariable (h : Header) (tail : List UInt8) (hlen : (h.encode ++ tail).length ≤ 256)
    (n startPosition : ℕ) (newPubkey : Bytes32Variable) : RotateVariable 256 1 where
  epochEndBlockNumber := 1
  targetHeader := {
    headerBytes := ⟨h.encode ++ tail ++ List.replicate (256 - (h.encode ++ tail).length) 0, by
      rw [List.length_append, List.length_replicate, Nat.add_sub_cancel' hlen]⟩
    headerSize := UInt32.ofNat h.encode.length }
  targetHeaderNumAuthorities := Variable.ofNat n
  nextAuthoritySetStartPosition := Variable.ofNat startPosition
  newPubkeys := ⟨[newPubkey], rfl⟩

/-- The message for block 1 with the given header. -/
def headerMessage (h : Header) : BytesVariable ENCODED_PRECOMMIT_LENGTH :=
  precommitMessage (blockHash h) 1 298

variable {h : Header} {tail : List UInt8} {hlen : (h.encode ++ tail).length ≤ 256}
  {n startPosition : ℕ} {newPubkey : Bytes32Variable}

theorem hashEncodedHeader_rotateVariable (signed : List SignedMessage) :
    hashEncodedHeader (crypto signed)
      (rotateVariable h tail hlen n startPosition newPubkey).targetHeader = some (blockHash h) := by
  have hle : h.encode.length ≤ 256 := by
    rw [List.length_append] at hlen
    omega
  have hsize : (UInt32.ofNat h.encode.length).toNat = h.encode.length := by
    rw [UInt32.toNat_ofNat', Nat.mod_eq_of_lt (by omega)]
  refine curtaBlake2bVariable_eq_some.mpr ⟨?_, ?_⟩
  · rw [ArrayVariable.length_data, rotateVariable, hsize]
    exact hle
  · have htake : (h.encode ++ tail ++ List.replicate (256 - (h.encode ++ tail).length) 0).take
        h.encode.length = h.encode := by
      rw [List.append_assoc, List.take_left]
    rw [rotateVariable, hsize, htake]
    rfl

def epochEndSigned₁ : SignedMessage :=
  ⟨pubkey₁, (headerMessage (epochEndHeader [pubkey₂])).data, epochEndSignature₁⟩

def epochEndSigned₂ : SignedMessage :=
  ⟨pubkey₁, (headerMessage (epochEndHeader [pubkey₁, pubkey₂])).data, epochEndSignature₂⟩

/-- The rotation returns the commitment to the key alone. -/
theorem rotate_rotateVariable (signature : EDDSASignature) (hpos : 0 < n) (hn : n < 2 ^ 32)
    (hverify : verifyEpochEndHeader (crypto [⟨pubkey₁, (headerMessage h).data, signature⟩]) 44
      (rotateVariable h tail hlen n startPosition newPubkey).targetHeader (blockHash h)
      (Variable.ofNat n) (Variable.ofNat startPosition)
      (⟨[newPubkey], rfl⟩ : ArrayVariable Bytes32Variable 1) = some ()) :
    rotate (crypto [⟨pubkey₁, (headerMessage h).data, signature⟩]) 44 298 authoritySetHash
        (rotateVariable h tail hlen n startPosition newPubkey)
        (justification (headerMessage h) signature) = some ((crypto []).sha256 newPubkey.data) := by
  have hval : (Variable.ofNat n).val = n :=
    Variable.val_ofNat_of_lt (Nat.lt_trans hn two_pow_32_lt_goldilocks)
  have htake : List.take (Variable.ofNat n).val [newPubkey] = [newPubkey] :=
    List.take_of_length_le (by rw [hval]; exact hpos)
  have hjust := verifySimpleJustification_justification signature
    (isPrecommit_precommitMessage (blockHash h) 1 298)
  refine rotate_eq_some.mpr ⟨rfl, blockHash h, hashEncodedHeader_rotateVariable _, hjust, hverify, ?_⟩
  rw [rotateVariable, htake]
  rfl

end Reference
