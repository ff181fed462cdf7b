import VectorX.Input.HeaderRotate
import VectorX.Input.Justification

/-!
# The precommit message

Reference: `circuits/input/types.rs`, `circuits/input/mod.rs` and `circuits/builder/decoder.rs`.
What an authority signs is the encoding of a `SignerMessage` with the round and the set id. The host
and the circuit each read it back with a decoder of its own.
-/

namespace VectorX

open Plonky2x Plonky2x.CircuitBuilder
open Bytes (slice leNat leBytes)

/-! ## Definitions -/

section Definitions

/-- The encoding of the fields, in order. -/
def Precommit.encode (precommit : Precommit) : List UInt8 :=
  precommit.targetHash.data ++ leBytes 4 precommit.targetNumber.toNat

inductive SignerMessage
  | dummyMessage (n : UInt32)
  | precommitMessage (precommit : Precommit)
deriving DecidableEq

/-- The index of the variant, then its fields. -/
def SignerMessage.encode : SignerMessage → List UInt8
  | .dummyMessage n => 0 :: leBytes 4 n.toNat
  | .precommitMessage precommit => 1 :: precommit.encode

/-- The encoding of a message with the round and the set id, as it is signed. -/
def encodeSigned (message : SignerMessage) (round authoritySetId : UInt64) : List UInt8 :=
  message.encode ++ leBytes 8 round.toNat ++ leBytes 8 authoritySetId.toNat

/-- `decode_precommit` of `circuits/input/mod.rs`: block hash, block number, round and set id. -/
def Input.decodePrecommit (precommit : List UInt8) :
    Option (Bytes32Variable × UInt32 × UInt64 × UInt64) := do
  let first ← precommit[0]?
  assertEq first 1
  let blockHash ← h256FromSlice (slice precommit 1 32)
  let blockNumber ← newArray 4 (slice precommit 33 4)
  let round ← newArray 8 (slice precommit 37 8)
  let authoritySetId ← newArray 8 (slice precommit 45 8)
  some (blockHash, UInt32.ofNat (leNat blockNumber.data), UInt64.ofNat (leNat round.data),
    UInt64.ofNat (leNat authoritySetId.data))

end Definitions

/-! ## Decoding an encoding -/

section Encoding

/-- The message of a precommit is the one that the host builds for it. -/
theorem encodeSigned_precommitMessage (precommit : Precommit) (round authoritySetId : UInt64) :
    encodeSigned (.precommitMessage precommit) round authoritySetId =
      encodeSignerMessage precommit round authoritySetId := rfl

/-- The signed message decodes to its parts. -/
theorem decodePrecommit_encodeSignerMessage (precommit : Precommit) (round authoritySetId : UInt64) :
    Input.decodePrecommit (encodeSignerMessage precommit round authoritySetId) =
      some (precommit.targetHash, precommit.targetNumber, round, authoritySetId) := by
  have hnumber : precommit.targetNumber.toNat < 256 ^ 4 := precommit.targetNumber.toNat_lt
  have hround : round.toNat < 256 ^ 8 := round.toNat_lt
  have hid : authoritySetId.toNat < 256 ^ 8 := authoritySetId.toNat_lt
  obtain ⟨hhash, hnumberSlice, hroundSlice, hidSlice⟩ :=
    slice_precommit precommit.targetHash precommit.targetNumber.toNat round.toNat
      authoritySetId.toNat
  have hfirst : (encodeSignerMessage precommit round authoritySetId)[0]? = some 1 := rfl
  rw [← encodeSignerMessage] at hhash hnumberSlice hroundSlice hidSlice
  simp only [Input.decodePrecommit, hfirst, hhash, hnumberSlice, hroundSlice, hidSlice,
    Option.bind_eq_bind, Option.bind_some, assertEq_self, h256FromSlice, newArray,
    dif_pos precommit.targetHash.length_data, dif_pos (Bytes.length_leBytes _ _),
    Bytes.leNat_leBytes, Nat.mod_eq_of_lt hnumber, Nat.mod_eq_of_lt hround, Nat.mod_eq_of_lt hid,
    UInt32.ofNat_toNat, UInt64.ofNat_toNat]

/-- The circuit decodes the signed message to the same parts. -/
theorem decodePrecommit_of_encodeSignerMessage {msg : BytesVariable ENCODED_PRECOMMIT_LENGTH}
    {precommit : Precommit} {round authoritySetId : UInt64}
    (hmsg : msg.data = encodeSignerMessage precommit round authoritySetId) :
    decodePrecommit msg = some {
      blockHash := precommit.targetHash
      blockNumber := precommit.targetNumber
      justificationRound := round
      authoritySetId } := by
  have hround : round.toNat < 256 ^ 8 := round.toNat_lt
  obtain ⟨-, -, hroundSlice, -⟩ := slice_precommit precommit.targetHash
    precommit.targetNumber.toNat round.toNat authoritySetId.toNat
  rw [← encodeSignerMessage, ← hmsg] at hroundSlice
  refine decodePrecommit_eq_some_iff.mpr ⟨?_, ?_⟩
  · rw [hmsg]
    exact isPrecommit_encodeSignerMessage precommit round authoritySetId
  · rw [hroundSlice, Bytes.leNat_leBytes, Nat.mod_eq_of_lt hround]

end Encoding

/-! ## Messages are encodings -/

section Messages

/-- A slice of a message, as the little-endian bytes of a number. -/
theorem leBytes_slice (msg : BytesVariable ENCODED_PRECOMMIT_LENGTH) {i n : ℕ}
    (h : i + n ≤ ENCODED_PRECOMMIT_LENGTH) :
    leBytes n (leNat (slice msg.data i n)) = slice msg.data i n ∧
      leNat (slice msg.data i n) < 256 ^ n := by
  have hlen : (slice msg.data i n).length = n := Bytes.length_slice (by rw [msg.length_data]; exact h)
  have hbytes := Bytes.leBytes_leNat (slice msg.data i n)
  have hlt := Bytes.leNat_lt (slice msg.data i n)
  rw [hlen] at hbytes hlt
  exact ⟨hbytes, hlt⟩

/-- Every message of the right kind is the encoding of its parts. -/
theorem exists_encodeSignerMessage {msg : BytesVariable ENCODED_PRECOMMIT_LENGTH}
    (hkind : msg.data[0]? = some 1) :
    ∃ (precommit : Precommit) (round authoritySetId : UInt64),
      msg.data = encodeSignerMessage precommit round authoritySetId := by
  have hlen : msg.data.length = 53 := msg.length_data
  obtain ⟨hnumber, hnumberLt⟩ := leBytes_slice msg (show 33 + 4 ≤ 53 by decide)
  obtain ⟨hround, hroundLt⟩ := leBytes_slice msg (show 37 + 8 ≤ 53 by decide)
  obtain ⟨hid, hidLt⟩ := leBytes_slice msg (show 45 + 8 ≤ 53 by decide)
  -- the five parts are adjacent
  have hsplit : msg.data = slice msg.data 0 1 ++ slice msg.data 1 32 ++ slice msg.data 33 4 ++
      slice msg.data 37 8 ++ slice msg.data 45 8 := by
    rw [← Bytes.slice_add, ← Bytes.slice_add, ← Bytes.slice_add, ← Bytes.slice_add]
    have hall := Bytes.slice_zero_length msg.data
    rw [hlen] at hall
    exact hall.symm
  refine ⟨⟨⟨slice msg.data 1 32, Bytes.length_slice (by omega)⟩,
    UInt32.ofNat (leNat (slice msg.data 33 4))⟩, UInt64.ofNat (leNat (slice msg.data 37 8)),
    UInt64.ofNat (leNat (slice msg.data 45 8)), ?_⟩
  rw [encodeSignerMessage, UInt32.toNat_ofNat_of_lt' hnumberLt, UInt64.toNat_ofNat_of_lt' hroundLt,
    UInt64.toNat_ofNat_of_lt' hidLt, hnumber, hround, hid, ← Bytes.slice_one_eq_iff.mpr hkind]
  exact hsplit

end Messages

/-! ## The two decoders -/

/-- The two decoders return the same four values, whose encoding is the message. -/
structure DecodeAgree (msg : BytesVariable ENCODED_PRECOMMIT_LENGTH) (precommit : Precommit)
    (round authoritySetId : UInt64) : Prop where
  host : Input.decodePrecommit msg.data =
    some (precommit.targetHash, precommit.targetNumber, round, authoritySetId)
  circuit : decodePrecommit msg = some {
    blockHash := precommit.targetHash
    blockNumber := precommit.targetNumber
    justificationRound := round
    authoritySetId }
  encode : encodeSigned (.precommitMessage precommit) round authoritySetId = msg.data

theorem decodeAgree_of_encodeSignerMessage {msg : BytesVariable ENCODED_PRECOMMIT_LENGTH}
    {precommit : Precommit} {round authoritySetId : UInt64}
    (hmsg : msg.data = encodeSignerMessage precommit round authoritySetId) :
    DecodeAgree msg precommit round authoritySetId where
  host := by
    rw [hmsg]
    exact decodePrecommit_encodeSignerMessage precommit round authoritySetId
  circuit := decodePrecommit_of_encodeSignerMessage hmsg
  encode := hmsg.symm

/-- Both decoders reject a message of another kind. -/
theorem decodePrecommit_eq_none {msg : BytesVariable ENCODED_PRECOMMIT_LENGTH}
    (hkind : msg.data[0]? ≠ some 1) :
    Input.decodePrecommit msg.data = none ∧ decodePrecommit msg = none := by
  refine ⟨Option.eq_none_iff_forall_ne_some.mpr fun values h => ?_,
    Option.eq_none_iff_forall_ne_some.mpr fun pre h => ?_⟩
  · simp only [Input.decodePrecommit, Option.bind_eq_bind, Option.bind_eq_some_iff] at h
    obtain ⟨first, hfirst, _, hassert, -⟩ := h
    have hne : first ≠ 1 := fun hone => hkind (hone ▸ hfirst)
    rw [assertEq, if_neg hne] at hassert
    exact absurd hassert (by simp)
  · exact hkind (decodePrecommit_eq_some_iff.mp h).1.kind

/-- Both decoders accept every message of the right kind. -/
theorem exists_decodeAgree {msg : BytesVariable ENCODED_PRECOMMIT_LENGTH}
    (hkind : msg.data[0]? = some 1) :
    ∃ precommit round authoritySetId, DecodeAgree msg precommit round authoritySetId := by
  obtain ⟨precommit, round, authoritySetId, hmsg⟩ := exists_encodeSignerMessage hkind
  exact ⟨precommit, round, authoritySetId, decodeAgree_of_encodeSignerMessage hmsg⟩

/-- What the host accepts, both decoders accept. -/
theorem decodeAgree_of_host {msg : BytesVariable ENCODED_PRECOMMIT_LENGTH}
    {values : Bytes32Variable × UInt32 × UInt64 × UInt64}
    (h : Input.decodePrecommit msg.data = some values) :
    DecodeAgree msg ⟨values.1, values.2.1⟩ values.2.2.1 values.2.2.2 := by
  have hkind : msg.data[0]? = some 1 := by
    by_contra hne
    rw [(decodePrecommit_eq_none hne).1] at h
    exact absurd h (by simp)
  obtain ⟨precommit, round, authoritySetId, hagree⟩ := exists_decodeAgree hkind
  obtain rfl := Option.some.inj (h.symm.trans hagree.host)
  exact hagree

/-- What the circuit accepts, both decoders accept. -/
theorem decodeAgree_of_circuit {msg : BytesVariable ENCODED_PRECOMMIT_LENGTH} {pre : PrecommitVariable}
    (h : decodePrecommit msg = some pre) :
    DecodeAgree msg ⟨pre.blockHash, pre.blockNumber⟩ pre.justificationRound pre.authoritySetId := by
  obtain ⟨precommit, round, authoritySetId, hagree⟩ :=
    exists_decodeAgree (decodePrecommit_eq_some_iff.mp h).1.kind
  obtain rfl := Option.some.inj (h.symm.trans hagree.circuit)
  exact hagree

/-- The values determine the message. -/
theorem DecodeAgree.unique {msg msg' : BytesVariable ENCODED_PRECOMMIT_LENGTH} {precommit : Precommit}
    {round authoritySetId : UInt64} (h : DecodeAgree msg precommit round authoritySetId)
    (h' : DecodeAgree msg' precommit round authoritySetId) : msg = msg' :=
  ArrayVariable.ext (h.encode.symm.trans h'.encode)

/-! ## Main result -/

/-- **Precommit codec.** Every encoding of a precommit with its round and set id has 53 bytes and is
read back by both decoders. Every message of 53 bytes is rejected by both, if it is of another kind,
or read by both as the values that it encodes, so that no two messages are read as the same
values. -/
theorem precommit_codec :
    (∀ (precommit : Precommit) (round authoritySetId : UInt64),
      (encodeSigned (.precommitMessage precommit) round authoritySetId).length = 53 ∧
      ∀ msg : BytesVariable ENCODED_PRECOMMIT_LENGTH,
        msg.data = encodeSigned (.precommitMessage precommit) round authoritySetId →
        DecodeAgree msg precommit round authoritySetId) ∧
    (∀ msg : BytesVariable ENCODED_PRECOMMIT_LENGTH,
      (msg.data[0]? ≠ some 1 ∧ Input.decodePrecommit msg.data = none ∧ decodePrecommit msg = none) ∨
      msg.data[0]? = some 1 ∧
        ∃ precommit round authoritySetId, DecodeAgree msg precommit round authoritySetId) ∧
    ∀ msg msg' : BytesVariable ENCODED_PRECOMMIT_LENGTH,
      (∀ values, Input.decodePrecommit msg.data = some values →
        Input.decodePrecommit msg'.data = some values → msg = msg') ∧
      ∀ pre, decodePrecommit msg = some pre → decodePrecommit msg' = some pre → msg = msg' := by
  refine ⟨fun precommit round authoritySetId => ⟨length_encodeSignerMessage _ _ _,
    fun msg hmsg => decodeAgree_of_encodeSignerMessage hmsg⟩, fun msg => ?_, fun msg msg' => ?_⟩
  · by_cases hkind : msg.data[0]? = some 1
    · exact Or.inr ⟨hkind, exists_decodeAgree hkind⟩
    · exact Or.inl ⟨hkind, decodePrecommit_eq_none hkind⟩
  · -- both messages encode the values that are read
    exact ⟨fun values h h' => (decodeAgree_of_host h).unique (decodeAgree_of_host h'),
      fun pre h h' => (decodeAgree_of_circuit h).unique (decodeAgree_of_circuit h')⟩

end VectorX
