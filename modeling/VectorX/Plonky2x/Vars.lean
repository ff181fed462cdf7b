import VectorX.Common.Bits
import Mathlib.Data.UInt

/-!
# Circuit variables of plonky2x

A circuit variable is modelled by the value that a witness assigns to it. A `Variable` is an element
of the Goldilocks field, a `U32Variable` or `U64Variable` a machine integer, a `BoolVariable` a
Boolean; an array has its length in its type.
-/

namespace Plonky2x

/-- The order of the Goldilocks field. -/
def GOLDILOCKS : ℕ := 2 ^ 64 - 2 ^ 32 + 1

instance : NeZero GOLDILOCKS := ⟨by decide⟩

/-- A field element. -/
abbrev Variable := Fin GOLDILOCKS

/-- A bit, range-checked. -/
abbrev BoolVariable := Bool

/-- A 32-bit integer, range-checked; its arithmetic is modulo `2 ^ 32`. -/
abbrev U32Variable := UInt32

/-- A 64-bit integer, range-checked. -/
abbrev U64Variable := UInt64

/-- A byte, range-checked. -/
abbrev ByteVariable := UInt8

/-! ## Field elements -/

/-- `from_canonical_usize`: a number as a field element. -/
def Variable.ofNat (n : ℕ) : Variable := Fin.ofNat GOLDILOCKS n

/-- The number 0 or 1 of a bit, as a field element. -/
def BoolVariable.variable (b : BoolVariable) : Variable := Variable.ofNat b.toNat

/-- The field element that carries a 32-bit integer. -/
def U32Variable.variable (x : U32Variable) : Variable := Variable.ofNat x.toNat

/-- `U32Variable::from_variables_unsafe`: read a field element as a 32-bit integer without a range
check. The callers pass elements below `2 ^ 32`. -/
def U32Variable.fromVariablesUnsafe (v : Variable) : U32Variable := UInt32.ofNat v.val

/-- `U32Variable::from_variables`: read a field element as a 32-bit integer, range-checked. -/
def U32Variable.fromVariables (v : Variable) : Option U32Variable :=
  if v.val < 2 ^ 32 then some (UInt32.ofNat v.val) else none

/-- `U32Variable::decode`: four bytes, most significant first. -/
def U32Variable.decode (bytes : List ByteVariable) : U32Variable :=
  UInt32.ofNat (Bytes.beNat bytes)

/-- `U64Variable::decode`: eight bytes, most significant first. -/
def U64Variable.decode (bytes : List ByteVariable) : U64Variable :=
  UInt64.ofNat (Bytes.beNat bytes)

/-- `ByteVariable::as_bool_targets`: the bits of a byte, most significant first. -/
def ByteVariable.asBoolTargets (b : ByteVariable) : List BoolVariable :=
  (Bits.toBits 8 b.toNat).reverse

theorem Variable.val_ofNat (n : ℕ) : (Variable.ofNat n).val = n % GOLDILOCKS := rfl

/-- A number below the field order is its own element. -/
theorem Variable.val_ofNat_of_lt {n : ℕ} (h : n < GOLDILOCKS) : (Variable.ofNat n).val = n :=
  Nat.mod_eq_of_lt h

theorem Variable.val_add_of_lt {a b : Variable} (h : a.val + b.val < GOLDILOCKS) :
    (a + b).val = a.val + b.val := by
  rw [Fin.val_add, Nat.mod_eq_of_lt h]

theorem two_pow_32_lt_goldilocks : 2 ^ 32 < GOLDILOCKS := by decide

@[simp] theorem U32Variable.val_variable (x : U32Variable) :
    (U32Variable.variable x).val = x.toNat :=
  Variable.val_ofNat_of_lt (Nat.lt_trans x.toNat_lt two_pow_32_lt_goldilocks)

@[simp] theorem BoolVariable.val_variable (b : BoolVariable) :
    (BoolVariable.variable b).val = b.toNat :=
  Variable.val_ofNat_of_lt (Nat.lt_of_le_of_lt (Bool.toNat_le b) (by decide))

theorem U32Variable.toNat_fromVariablesUnsafe {v : Variable} (h : v.val < 2 ^ 32) :
    (U32Variable.fromVariablesUnsafe v).toNat = v.val := by
  rw [fromVariablesUnsafe, UInt32.toNat_ofNat', Nat.mod_eq_of_lt h]

/-- A range-checked element and the integer read from it are the same number. -/
theorem U32Variable.fromVariables_eq_some_iff {v : Variable} {x : U32Variable} :
    U32Variable.fromVariables v = some x ↔ v.val = x.toNat := by
  have hx : x.toNat < 2 ^ 32 := x.toNat_lt
  rw [fromVariables]
  constructor
  · intro h
    split at h
    · rename_i hv
      obtain rfl := Option.some.inj h
      rw [UInt32.toNat_ofNat', Nat.mod_eq_of_lt hv]
    · exact absurd h (by simp)
  · intro h
    rw [if_pos (by omega), h, UInt32.ofNat_toNat]

/-! ## Arrays -/

/-- An array of `N` variables. -/
@[ext] structure ArrayVariable (V : Type*) (N : ℕ) where
  data : List V
  length_data : data.length = N
deriving DecidableEq

/-- `N` bytes. -/
abbrev BytesVariable (N : ℕ) := ArrayVariable ByteVariable N

/-- 32 bytes: hashes, roots, public keys. -/
abbrev Bytes32Variable := BytesVariable 32

namespace ArrayVariable

variable {V W : Type*} {N : ℕ}

/-- Element `i`. -/
def get (a : ArrayVariable V N) (i : Fin N) : V := a.data.get (i.cast a.length_data.symm)

/-- The array of the values of a function. -/
def ofFn (f : Fin N → V) : ArrayVariable V N := ⟨List.ofFn f, List.length_ofFn⟩

/-- `N` copies of a value. -/
def replicate (N : ℕ) (v : V) : ArrayVariable V N := ⟨List.replicate N v, List.length_replicate⟩

/-- The constant slice `a[i .. i + n]`; a slice past the end does not build. -/
def subarray (a : ArrayVariable V N) (i n : ℕ) : Option (ArrayVariable V n) :=
  if h : i + n ≤ N then
    some ⟨Bytes.slice a.data i n, Bytes.length_slice (a.length_data.symm ▸ h)⟩
  else none

theorem get_mem (a : ArrayVariable V N) (i : Fin N) : a.get i ∈ a.data := List.get_mem _ _

theorem getElem?_data (a : ArrayVariable V N) (i : Fin N) : a.data[i.val]? = some (a.get i) := by
  have hi : i.val < a.data.length := a.length_data.symm ▸ i.isLt
  rw [List.getElem?_eq_getElem hi]
  rfl

@[simp] theorem get_ofFn (f : Fin N → V) (i : Fin N) : (ofFn f).get i = f i := by
  rw [get, ofFn, List.get_ofFn]
  rfl

@[simp] theorem get_replicate (v : V) (i : Fin N) : (replicate N v).get i = v := by
  simp [get, replicate]

/-- A slice in range is the slice of the list. -/
theorem subarray_eq_some_iff {a : ArrayVariable V N} {i n : ℕ} {b : ArrayVariable V n} :
    a.subarray i n = some b ↔ i + n ≤ N ∧ b.data = Bytes.slice a.data i n := by
  rw [subarray]
  split
  · rename_i h
    constructor
    · rintro hb
      exact ⟨h, by rw [← Option.some.inj hb]⟩
    · rintro ⟨-, hb⟩
      exact congrArg some (ArrayVariable.ext hb.symm)
  · rename_i h
    constructor
    · intro hb
      exact absurd hb (by simp)
    · rintro ⟨h', -⟩
      exact absurd h' h

theorem exists_subarray (a : ArrayVariable V N) {i n : ℕ} (h : i + n ≤ N) :
    ∃ b : ArrayVariable V n, a.subarray i n = some b ∧ b.data = Bytes.slice a.data i n := by
  refine ⟨⟨Bytes.slice a.data i n, ?_⟩, subarray_eq_some_iff.mpr ⟨h, rfl⟩, rfl⟩
  exact Bytes.length_slice (a.length_data.symm ▸ h)

end ArrayVariable

/-- The 32 zero bytes. -/
def emptyBytes32 : Bytes32Variable := ArrayVariable.replicate 32 0

end Plonky2x
