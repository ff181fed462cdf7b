import Mathlib.Data.List.Basic
import Mathlib.Tactic.Common
import Mathlib.Tactic.Linarith
import Mathlib.Tactic.Ring

/-!
# Byte strings

Slices of lists, and fixed-width natural numbers in little-endian and big-endian order.
Codecs read a field as a slice at a computed offset, so the lemmas here say when a slice of a
longer list is a slice of one of its parts.
-/

namespace Bytes

/-! ## Slices -/

section Slice

variable {α : Type*}

/-- The `n` elements of `l` from index `i` on. -/
def slice (l : List α) (i n : ℕ) : List α := (l.drop i).take n

/-- A slice inside the list has the requested length. -/
theorem length_slice {l : List α} {i n : ℕ} (h : i + n ≤ l.length) : (slice l i n).length = n := by
  simp only [slice, List.length_take, List.length_drop]
  omega

/-- Element `j` of a slice is element `i + j` of the list. -/
theorem getElem?_slice (l : List α) (i n j : ℕ) :
    (slice l i n)[j]? = if j < n then l[i + j]? else none := by
  simp only [slice, List.getElem?_take, List.getElem?_drop]

/-- A slice of the first part of an append. -/
theorem slice_append_left {l r : List α} {i n : ℕ} (h : i + n ≤ l.length) :
    slice (l ++ r) i n = slice l i n := by
  apply List.ext_getElem?
  intro j
  rw [getElem?_slice, getElem?_slice]
  split
  · rw [List.getElem?_append_left (by omega)]
  · rfl

/-- A slice that starts after the first part of an append. -/
theorem slice_append_right (l r : List α) (i n : ℕ) :
    slice (l ++ r) (l.length + i) n = slice r i n := by
  simp only [slice, List.drop_append, List.drop_of_length_le (Nat.le_add_right _ _),
    List.nil_append, Nat.add_sub_cancel_left]

/-- The slice of an append that is exactly its second part. -/
theorem slice_append_middle {l m : List α} {i n : ℕ} (hl : l.length = i) (hm : m.length = n)
    (r : List α) : slice (l ++ m ++ r) i n = m := by
  subst hl hm
  rw [List.append_assoc, ← Nat.add_zero l.length, slice_append_right]
  simp [slice]

/-- The whole list as a slice. -/
theorem slice_zero_length (l : List α) : slice l 0 l.length = l := by
  simp [slice]

/-- Truncating the list after the slice changes nothing. -/
theorem slice_take {l : List α} {i n k : ℕ} (h : i + n ≤ k) :
    slice (l.take k) i n = slice l i n := by
  apply List.ext_getElem?
  intro j
  rw [getElem?_slice, getElem?_slice]
  split
  · rw [List.getElem?_take_of_lt (by omega)]
  · rfl

/-- A slice of a slice. -/
theorem slice_slice {l : List α} {i n j m : ℕ} (h : j + m ≤ n) :
    slice (slice l i n) j m = slice l (i + j) m := by
  apply List.ext_getElem?
  intro t
  rw [getElem?_slice, getElem?_slice, getElem?_slice]
  split
  · rw [if_pos (by omega), Nat.add_assoc]
  · rfl

/-- Two adjacent slices make one. -/
theorem slice_add (l : List α) (i n m : ℕ) :
    slice l i (n + m) = slice l i n ++ slice l (i + n) m := by
  simp only [slice, List.take_add, List.drop_drop]

/-- The first elements of a slice. -/
theorem take_slice (l : List α) {i n k : ℕ} (h : k ≤ n) : (slice l i n).take k = slice l i k := by
  rw [slice, List.take_take, Nat.min_eq_left h, slice]

/-- A slice is an append if its parts are adjacent slices. -/
theorem slice_eq_append_iff {l a b : List α} {i : ℕ} :
    slice l i (a ++ b).length = a ++ b ↔
      slice l i a.length = a ∧ slice l (i + a.length) b.length = b := by
  rw [List.length_append]
  constructor
  · intro h
    have hfirst : slice l i a.length = a := by
      rw [← take_slice l (Nat.le_add_right a.length b.length), h, List.take_left]
    rw [slice_add, hfirst] at h
    exact ⟨hfirst, List.append_cancel_left h⟩
  · rintro ⟨ha, hb⟩
    rw [slice_add, ha, hb]

/-- A slice of length one is an element. -/
theorem slice_one_eq_iff {l : List α} {i : ℕ} {a : α} : slice l i 1 = [a] ↔ l[i]? = some a := by
  have hhead : (slice l i 1)[0]? = l[i]? := by rw [getElem?_slice, if_pos (by decide), Nat.add_zero]
  constructor
  · intro h
    rw [← hhead, h]
    rfl
  · intro h
    have hi : i < l.length := (List.getElem?_eq_some_iff.mp h).1
    obtain ⟨b, hb⟩ := List.length_eq_one_iff.mp (length_slice (l := l) (i := i) (n := 1) hi)
    rw [hb, List.getElem?_cons_zero, h] at hhead
    rw [hb, Option.some.inj hhead]

end Slice

/-! ## Fixed-width natural numbers -/

/-- The number with the given little-endian bytes. -/
def leNat : List UInt8 → ℕ
  | [] => 0
  | b :: bs => b.toNat + 256 * leNat bs

/-- The `width` low bytes of `n`, least significant first. -/
def leBytes : ℕ → ℕ → List UInt8
  | 0, _ => []
  | width + 1, n => UInt8.ofNat n :: leBytes width (n / 256)

/-- The number with the given big-endian bytes. -/
def beNat (bs : List UInt8) : ℕ := leNat bs.reverse

/-- The `width` low bytes of `n`, most significant first. -/
def beBytes (width n : ℕ) : List UInt8 := (leBytes width n).reverse

@[simp] theorem length_leBytes (width n : ℕ) : (leBytes width n).length = width := by
  induction width generalizing n with
  | zero => rfl
  | succ width ih => simp [leBytes, ih]

@[simp] theorem length_beBytes (width n : ℕ) : (beBytes width n).length = width := by
  simp [beBytes]

/-- `w` little-endian bytes denote a number below `256 ^ w`. -/
theorem leNat_lt (bs : List UInt8) : leNat bs < 256 ^ bs.length := by
  induction bs with
  | nil => simp [leNat]
  | cons b bs ih =>
    have hb : b.toNat < 256 := b.toNat_lt
    simp only [leNat, List.length_cons, Nat.pow_succ]
    omega

theorem leNat_append (bs cs : List UInt8) :
    leNat (bs ++ cs) = leNat bs + 256 ^ bs.length * leNat cs := by
  induction bs with
  | nil => simp [leNat]
  | cons b bs ih =>
    simp only [List.cons_append, leNat, ih, List.length_cons, Nat.pow_succ]
    ring

/-- The first bytes are the low part of the number. -/
theorem leNat_take {bs : List UInt8} {k : ℕ} (h : k ≤ bs.length) :
    leNat (bs.take k) = leNat bs % 256 ^ k := by
  have hlen : (bs.take k).length = k := by rw [List.length_take, Nat.min_eq_left h]
  have hsplit := leNat_append (bs.take k) (bs.drop k)
  have hlt := leNat_lt (bs.take k)
  rw [List.take_append_drop, hlen] at hsplit
  rw [hlen] at hlt
  rw [hsplit, Nat.add_mul_mod_self_left, Nat.mod_eq_of_lt hlt]

/-- Decoding the little-endian bytes of `n` truncates it to the width. -/
theorem leNat_leBytes (width n : ℕ) : leNat (leBytes width n) = n % 256 ^ width := by
  induction width generalizing n with
  | zero => simp [leBytes, leNat, Nat.mod_one]
  | succ width ih =>
    have hhead : (UInt8.ofNat n).toNat = n % 256 := UInt8.toNat_ofNat'
    rw [leBytes, leNat, ih, hhead, Nat.pow_succ, Nat.mul_comm (256 ^ width) 256, Nat.mod_mul]

/-- Bytes are determined by the number they denote. -/
theorem leBytes_leNat (bs : List UInt8) : leBytes bs.length (leNat bs) = bs := by
  induction bs with
  | nil => rfl
  | cons b bs ih =>
    have hb : b.toNat < 256 := b.toNat_lt
    have hhead : UInt8.ofNat (b.toNat + 256 * leNat bs) = b := by
      apply UInt8.toNat_inj.mp
      rw [UInt8.toNat_ofNat']
      omega
    have htail : (b.toNat + 256 * leNat bs) / 256 = leNat bs := by omega
    rw [List.length_cons, leNat, leBytes, hhead, htail, ih]

theorem beNat_beBytes (width n : ℕ) : beNat (beBytes width n) = n % 256 ^ width := by
  rw [beNat, beBytes, List.reverse_reverse, leNat_leBytes]

/-- A number that fits is determined by its bytes. -/
theorem beBytes_inj {width a b : ℕ} (ha : a < 256 ^ width) (hb : b < 256 ^ width)
    (h : beBytes width a = beBytes width b) : a = b := by
  have hnat := congrArg beNat h
  rwa [beNat_beBytes, beNat_beBytes, Nat.mod_eq_of_lt ha, Nat.mod_eq_of_lt hb] at hnat

end Bytes
