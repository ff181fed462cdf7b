import VectorX.Plonky2x.Vars
import VectorX.Common.Merkle

/-!
# Gadgets of the plonky2x circuit builder

A gadget maps the values of its inputs to the values of its outputs. One that constrains its inputs
returns an `Option`: `none` says that no witness with these values satisfies the constraints, or
that the circuit does not build. A circuit is then a function from its public inputs and the values
written by its hints, and a witness is accepted when the function returns `some`.

The simple gadgets are definitions. The others are parameters of the circuits: a `Crypto` has one
function for each of them, with the properties that the circuits rely on.
-/

namespace Plonky2x

/-- An Ed25519 signature: the compressed point `r` and the scalar `s`. -/
structure EDDSASignature where
  r : Bytes32Variable
  s : BitVec 256
deriving DecidableEq

/-- The hash functions and the signature verifiers. The circuits and the host use three
implementations of Ed25519, which are assumed to accept the same signatures. -/
structure Primitives where
  /-- SHA-256. -/
  sha256 : List UInt8 → Bytes32Variable
  /-- Blake2b with a 32-byte digest. -/
  blake2b : List UInt8 → Bytes32Variable
  /-- Whether the signature gadget accepts a signature on a message under a compressed public
  key. -/
  ed25519Verify : Bytes32Variable → List UInt8 → EDDSASignature → Bool
  /-- `verify` of `ed25519_dalek`. -/
  dalekVerify : Bytes32Variable → List UInt8 → EDDSASignature → Bool
  /-- `Pair::verify` of `sp_core`. -/
  pairVerify : Bytes32Variable → List UInt8 → EDDSASignature → Bool
  dalekVerify_eq : dalekVerify = ed25519Verify
  pairVerify_eq : pairVerify = ed25519Verify

/-- The map stage on each group of `B` consecutive inputs, job `j` with hint `hints j`, and the
outputs combined in adjacent pairs, layer by layer. -/
def mapReduceTree {Ctx Input Output Hint : Type} (ctx : Ctx) (B : ℕ) (inputs : List Input)
    (hints : ℕ → Hint) (mapStage : Ctx → List Input → Hint → Option Output)
    (reduceStage : Ctx → Output → Output → Option Output) : Option Output := do
  let outputs ← (List.range (inputs.length / B)).mapM fun j =>
    mapStage ctx (Bytes.slice inputs (j * B) B) (hints j)
  TreeReduce.reduceTree (reduceStage ctx) outputs

/-- The primitives, and the gadgets of the circuit builder that are more than a constraint or two. A
gadget comes with what is assumed of it; where nothing is assumed, such as for a window that leaves
its array, it may do anything. -/
structure Crypto extends Primitives where
  /-- The element at a variable index. -/
  selectArrayRandomGate {V : Type} : List V → Variable → Option V
  selectArrayRandomGate_eq {V : Type} (l : List V) (i : Variable) (h : i.val < l.length) :
    selectArrayRandomGate l i = l[i.val]?
  /-- `LEN` elements from a variable offset. The seed is for the random linear combination that
  compares them with the array. -/
  getFixedSubarray {V : Type} {N : ℕ} (LEN : ℕ) (a : ArrayVariable V N) (offset : Variable)
    (seed : List ByteVariable) : Option (ArrayVariable V LEN)
  getFixedSubarray_eq {V : Type} {N LEN : ℕ} (a : ArrayVariable V N) (offset : Variable)
    (seed : List ByteVariable) (h : offset.val + LEN ≤ N) :
    getFixedSubarray LEN a offset seed = a.subarray offset.val LEN
  /-- The Blake2b hash of the first `len` bytes. A larger length has no witness. -/
  curtaBlake2bVariable (bytes : List ByteVariable) (len : U32Variable) : Option Bytes32Variable
  curtaBlake2bVariable_eq (bytes : List ByteVariable) (len : U32Variable) :
    curtaBlake2bVariable bytes len =
      if len.toNat ≤ bytes.length then some (blake2b (bytes.take len.toNat)) else none
  /-- Every active signature verifies on its message. -/
  curtaEddsaVerifySigsConditional {N LEN : ℕ} (isActive : ArrayVariable BoolVariable N)
    (messageByteLengths : ArrayVariable U32Variable N)
    (messages : ArrayVariable (BytesVariable LEN) N) (signatures : ArrayVariable EDDSASignature N)
    (pubkeys : ArrayVariable Bytes32Variable N) : Option Unit
  curtaEddsaVerifySigsConditional_iff {N LEN : ℕ} (isActive : ArrayVariable BoolVariable N)
    (messageByteLengths : ArrayVariable U32Variable N)
    (messages : ArrayVariable (BytesVariable LEN) N) (signatures : ArrayVariable EDDSASignature N)
    (pubkeys : ArrayVariable Bytes32Variable N)
    (h : ∀ i, (messageByteLengths.get i).toNat ≤ LEN) :
    curtaEddsaVerifySigsConditional isActive messageByteLengths messages signatures pubkeys =
        some () ↔
      ∀ i, isActive.get i = true → ed25519Verify (pubkeys.get i)
        ((messages.get i).data.take (messageByteLengths.get i).toNat) (signatures.get i) = true
  /-- The SHA-256 Merkle root of the leaves, with those from index `nbEnabledLeaves` on replaced by
  zero bytes. -/
  getRootFromHashedLeaves {NB_LEAVES : ℕ} (leaves : ArrayVariable Bytes32Variable NB_LEAVES)
    (nbEnabledLeaves : Variable) : Bytes32Variable
  getRootFromHashedLeaves_eq {d : ℕ} (leaves : ArrayVariable Bytes32Variable (2 ^ d))
    (nbEnabledLeaves : Variable) (h : nbEnabledLeaves.val ≤ 2 ^ d) :
    getRootFromHashedLeaves leaves nbEnabledLeaves =
      Merkle.root (fun a b => sha256 (a.data ++ b.data))
        (fun i => if i < nbEnabledLeaves.val then leaves.data.getD i emptyBytes32 else emptyBytes32)
        d 0
  /-- Map-reduce over groups of `B` inputs. -/
  mapreduce {Ctx Input Output Hint : Type} (ctx : Ctx) (B : ℕ) (inputs : List Input)
    (hints : ℕ → Hint) (mapStage : Ctx → List Input → Hint → Option Output)
    (reduceStage : Ctx → Output → Output → Option Output) : Option Output
  mapreduce_eq {Ctx Input Output Hint : Type} (ctx : Ctx) (B : ℕ) (inputs : List Input)
    (hints : ℕ → Hint) (mapStage : Ctx → List Input → Hint → Option Output)
    (reduceStage : Ctx → Output → Output → Option Output) (k : ℕ) (h : inputs.length = 2 ^ k * B) :
    mapreduce ctx B inputs hints mapStage reduceStage =
      mapReduceTree ctx B inputs hints mapStage reduceStage

/-- `get_fixed_subarray` rejects every window that leaves its array. -/
def Crypto.RejectsPastEnd (crypto : Crypto) : Prop :=
  ∀ (N LEN : ℕ) (a : BytesVariable N) (offset : Variable) (seed : List ByteVariable),
    N < offset.val + LEN → crypto.getFixedSubarray LEN a offset seed = none

namespace CircuitBuilder

section Gadgets

variable {V : Type*}

/-- `assert_is_equal`. -/
def assertIsEqual [DecidableEq V] (a b : V) : Option Unit := if a = b then some () else none

/-- `is_equal`. -/
def isEqual [DecidableEq V] (a b : V) : BoolVariable := decide (a = b)

/-- `is_zero`. -/
def isZero (a : Variable) : BoolVariable := decide (a = 0)

/-- `select`: the second argument if the selector is set, else the third. -/
def select (s : BoolVariable) (a b : V) : V := if s then a else b

/-- `le_sum`: the field element with the given bits, least significant first. -/
def leSum (bits : List BoolVariable) : Variable := Variable.ofNat (Bits.ofBits bits)

/-- SHA-256 of two nodes of a Merkle tree. -/
def hashNode (crypto : Crypto) (a b : Bytes32Variable) : Bytes32Variable :=
  crypto.sha256 (a.data ++ b.data)

end Gadgets

/-! ## What the gadgets guarantee -/

section Lemmas

variable {V : Type*}

@[simp] theorem assertIsEqual_eq_some [DecidableEq V] {a b : V} {u : Unit} :
    assertIsEqual a b = some u ↔ a = b := by
  rw [assertIsEqual]
  split <;> simp [*]

@[simp] theorem isEqual_iff [DecidableEq V] {a b : V} : isEqual a b = true ↔ a = b := by
  simp [isEqual]

@[simp] theorem isZero_iff {a : Variable} : isZero a = true ↔ a = 0 := by
  simp [isZero]

@[simp] theorem select_true (a b : V) : select true a b = a := rfl

@[simp] theorem select_false (a b : V) : select false a b = b := rfl

theorem val_leSum {bits : List BoolVariable} (h : bits.length ≤ 32) :
    (leSum bits).val = Bits.ofBits bits := by
  apply Variable.val_ofNat_of_lt
  calc Bits.ofBits bits < 2 ^ bits.length := Bits.ofBits_lt bits
    _ ≤ 2 ^ 32 := Nat.pow_le_pow_right (by omega) h
    _ < GOLDILOCKS := two_pow_32_lt_goldilocks

variable {crypto : Crypto}

/-- A window in range is the slice of the list. -/
theorem getFixedSubarray_eq_some {V : Type} {N LEN : ℕ} {a : ArrayVariable V N} {offset : Variable}
    (seed : List ByteVariable) (h : offset.val + LEN ≤ N) {b : ArrayVariable V LEN} :
    crypto.getFixedSubarray LEN a offset seed = some b ↔
      b.data = Bytes.slice a.data offset.val LEN := by
  rw [crypto.getFixedSubarray_eq a offset seed h, ArrayVariable.subarray_eq_some_iff]
  exact and_iff_right h

/-- An accepted window is in range, if all others are rejected. -/
theorem le_of_getFixedSubarray (hpast : crypto.RejectsPastEnd) {N LEN : ℕ} {a : BytesVariable N}
    {offset : Variable} {seed : List ByteVariable} {b : BytesVariable LEN}
    (h : crypto.getFixedSubarray LEN a offset seed = some b) : offset.val + LEN ≤ N := by
  by_contra hlt
  rw [hpast N LEN a offset seed (Nat.not_le.mp hlt)] at h
  exact absurd h (by simp)

theorem curtaBlake2bVariable_eq_some {bytes : List ByteVariable} {len : U32Variable}
    {h : Bytes32Variable} :
    crypto.curtaBlake2bVariable bytes len = some h ↔
      len.toNat ≤ bytes.length ∧ crypto.blake2b (bytes.take len.toNat) = h := by
  rw [crypto.curtaBlake2bVariable_eq]
  split <;> simp [*]

end Lemmas

end CircuitBuilder

end Plonky2x
