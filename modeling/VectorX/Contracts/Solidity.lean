import VectorX.Plonky2x.Vars
import Mathlib.Order.Basic

/-!
# Solidity

Checks that revert, mappings as functions, and the parts of the ABI that contracts without dynamic
types use. All integers are encoded in big-endian order.
-/

universe u

namespace Solidity

open Plonky2x
open Bytes (slice beBytes)

abbrev Bytes32 := Bytes32Variable

abbrev Address := BytesVariable 20

instance instPreorderUInt32 : Preorder UInt32 where
  le_refl := UInt32.le_refl
  le_trans _ _ _ := UInt32.le_trans
  lt_iff_le_not_ge a b := by
    rw [UInt32.lt_iff_toNat_lt, UInt32.le_iff_toNat_le, UInt32.le_iff_toNat_le]
    omega

/-! ## Checks -/

section Checks

variable {ε : Type*} {α β : Type u}

/-- Revert unless the condition holds. -/
def require (c : Prop) [Decidable c] (e : ε) : Except ε Unit := if c then .ok () else .error e

/-- Revert if the condition holds. -/
def revertIf (c : Prop) [Decidable c] (e : ε) : Except ε Unit := if c then .error e else .ok ()

/-- Revert if there is no value. -/
def orRevert (x : Option α) (e : ε) : Except ε α :=
  match x with
  | some a => .ok a
  | none => .error e

@[simp] theorem require_eq_ok {c : Prop} [Decidable c] {e : ε} {u : Unit} :
    require c e = .ok u ↔ c := by
  rw [require]
  split <;> simp [*]

@[simp] theorem revertIf_eq_ok {c : Prop} [Decidable c] {e : ε} {u : Unit} :
    revertIf c e = .ok u ↔ ¬c := by
  rw [revertIf]
  split <;> simp [*]

@[simp] theorem orRevert_eq_ok {x : Option α} {e : ε} {a : α} :
    orRevert x e = .ok a ↔ x = some a := by
  rcases x with - | b <;> simp [orRevert]

/-- A sequence of two steps succeeds if both do. -/
@[simp] theorem bind_eq_ok {x : Except ε α} {f : α → Except ε β} {b : β} :
    x >>= f = .ok b ↔ ∃ a, x = .ok a ∧ f a = .ok b := by
  rcases x with e | a
  · simp [bind, Except.bind]
  · simp [bind, Except.bind]

end Checks

/-! ## ABI -/

/-- `abi.encode` of an unsigned integer of any width. -/
def encodeUint (n : ℕ) : List UInt8 := beBytes 32 n

/-- Word `i` of ABI-encoded data. -/
def decodeWord (data : List UInt8) (i : ℕ) : Option Bytes32 :=
  if h : 32 * i + 32 ≤ data.length then some ⟨slice data (32 * i) 32, Bytes.length_slice h⟩ else none

@[simp] theorem length_encodeUint (n : ℕ) : (encodeUint n).length = 32 := Bytes.length_beBytes 32 n

/-- A word of ABI-encoded data, after the words before it. -/
theorem decodeWord_append (l : List UInt8) (w : Bytes32) (r : List UInt8) {i : ℕ}
    (hl : l.length = 32 * i) : decodeWord (l ++ w.data ++ r) i = some w := by
  have hlen : 32 * i + 32 ≤ (l ++ w.data ++ r).length := by
    rw [List.length_append, List.length_append, w.length_data, hl]
    exact Nat.le_add_right _ _
  rw [decodeWord, dif_pos hlen]
  exact congrArg some (ArrayVariable.ext (Bytes.slice_append_middle hl w.length_data r))

/-- The function selector of a signature. -/
def selector (keccak256 : List UInt8 → Bytes32) (signature : String) : List UInt8 :=
  (keccak256 signature.toUTF8.toList).data.take 4

end Solidity
