import VectorX.Circuits.HeaderRange
import VectorX.Circuits.RotateSoundness
import VectorX.Circuits.DummyRotate

/-!
# The rotate circuit

Reference: `circuits/rotate.rs`. The circuit maps the 40 input bytes to the 32 bytes of the new
hash.
-/

namespace VectorX

open Plonky2x Plonky2x.CircuitBuilder
open Bytes (beBytes)
open Contract (rotateInput)

/-! ## Definitions -/

/-- `RotateCircuit::define`, on the untrusted header and justification. -/
def rotateCircuit (crypto : Crypto) {MAX_AUTHORITY_SET_SIZE MAX_HEADER_SIZE : ℕ}
    (MAX_SUBARRAY_SIZE : ℕ) (input : BytesVariable 40)
    (rotateVar : RotateVariable MAX_HEADER_SIZE MAX_AUTHORITY_SET_SIZE)
    (justification : JustificationVariable MAX_AUTHORITY_SET_SIZE) : Option (List UInt8) := do
  -- read the on-chain inputs
  let authoritySetId ← input.subarray 0 8
  let authoritySetHash ← input.subarray 8 32
  let authoritySetId := U64Variable.decode authoritySetId.data
  let newAuthoritySetHash ←
    rotate crypto MAX_SUBARRAY_SIZE authoritySetId authoritySetHash rotateVar justification
  some newAuthoritySetHash.data

/-! ## Reading the input -/

section Input

variable {crypto : Crypto} {S MAX_AUTHORITY_SET_SIZE MAX_SUBARRAY_SIZE : ℕ} {id : U64Variable}
  {hash : Bytes32Variable} {input : BytesVariable 40}
  {r : RotateVariable S MAX_AUTHORITY_SET_SIZE}
  {justification : JustificationVariable MAX_AUTHORITY_SET_SIZE} {bytes : List UInt8}

/-- The circuit on an input that the contract has packed. -/
theorem rotateCircuit_rotateInput (hinput : input.data = rotateInput id hash) :
    rotateCircuit crypto MAX_SUBARRAY_SIZE input r justification = some bytes ↔
      ∃ output, rotate crypto MAX_SUBARRAY_SIZE id hash r justification = some output ∧
        bytes = output.data := by
  have hfirst : input.data = [] ++ beBytes 8 id.toNat ++ hash.data := hinput
  have hsecond : input.data = beBytes 8 id.toNat ++ hash.data ++ [] :=
    hinput.trans (List.append_nil _).symm
  have hid := subarray_of_append hfirst List.length_nil (Bytes.length_beBytes _ _)
  have hhash : input.subarray 8 32 = some hash :=
    subarray_of_append hsecond (Bytes.length_beBytes _ _) hash.length_data
  simp only [rotateCircuit, hid, hhash, Option.bind_eq_bind, Option.bind_some,
    U64Variable.decode_beBytes, Option.bind_eq_some_iff, Option.some.injEq, @eq_comm _ bytes]

end Input

end VectorX
