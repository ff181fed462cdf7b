import VectorX.Common.Bytes

/-!
# Patterns with holes

A pattern prescribes some of the elements of a list from a position on and leaves the others open. A
list that ends inside a pattern agrees with it as far as it reaches, and can then be completed to
one that agrees with all of it.
-/

namespace Pattern

open Bytes (slice)

variable {α : Type*}

/-- The list has the prescribed elements from position `p` on, as far as it reaches. -/
def Agrees (pattern : List (Option α)) (l : List α) (p : ℕ) : Prop :=
  ∀ i a b, pattern[i]? = some (some a) → l[p + i]? = some b → b = a

/-! ## Agreement with composed patterns -/

theorem agrees_append {P Q : List (Option α)} {l : List α} {p : ℕ} :
    Agrees (P ++ Q) l p ↔ Agrees P l p ∧ Agrees Q l (p + P.length) := by
  constructor
  · intro h
    refine ⟨fun i a b hi hb => ?_, fun i a b hi hb => ?_⟩
    · have hlt : i < P.length := (List.getElem?_eq_some_iff.mp hi).1
      exact h i a b (by rw [List.getElem?_append_left hlt, hi]) hb
    · refine h (P.length + i) a b ?_ (by rw [← Nat.add_assoc]; exact hb)
      rw [List.getElem?_append_right (Nat.le_add_right _ _), Nat.add_sub_cancel_left, hi]
  · rintro ⟨hP, hQ⟩ i a b hi hb
    by_cases hlt : i < P.length
    · rw [List.getElem?_append_left hlt] at hi
      exact hP i a b hi hb
    · rw [List.getElem?_append_right (Nat.not_lt.mp hlt)] at hi
      refine hQ (i - P.length) a b hi ?_
      rw [Nat.add_assoc, Nat.add_sub_cancel' (Nat.not_lt.mp hlt)]
      exact hb

/-- Cutting a list keeps the agreement. -/
theorem Agrees.take {P : List (Option α)} {l : List α} {p : ℕ} (h : Agrees P l p) (k : ℕ) :
    Agrees P (l.take k) p := by
  intro i a b hi hb
  have hget : l[p + i]? = some b := by
    rw [List.getElem?_take] at hb
    split at hb
    · exact hb
    · exact absurd hb (by simp)
  exact h i a b hi hget

theorem agrees_replicate_none (n : ℕ) (l : List α) (p : ℕ) :
    Agrees (List.replicate n none) l p := by
  intro i a b hi _
  have hnone := (List.getElem?_replicate (a := (none : Option α)) (n := n) (i := i)).symm.trans hi
  split at hnone <;> exact absurd hnone (by simp)

/-- A pattern without holes prescribes a slice. -/
theorem agrees_map_some {m l : List α} {p : ℕ} (h : p + m.length ≤ l.length) :
    Agrees (m.map some) l p ↔ slice l p m.length = m := by
  constructor
  · intro hagrees
    apply List.ext_getElem?
    intro i
    rw [Bytes.getElem?_slice]
    by_cases hi : i < m.length
    · have hl : p + i < l.length := by omega
      rw [if_pos hi, List.getElem?_eq_getElem hl, List.getElem?_eq_getElem hi]
      refine congrArg some (hagrees i m[i] l[p + i] ?_ (List.getElem?_eq_getElem hl))
      rw [List.getElem?_map, List.getElem?_eq_getElem hi, Option.map_some]
    · rw [if_neg hi, List.getElem?_eq_none (Nat.not_lt.mp hi)]
  · intro hslice i a b hi hb
    rw [List.getElem?_map, Option.map_eq_some_iff] at hi
    obtain ⟨c, hc, hca⟩ := hi
    have hlt : i < m.length := (List.getElem?_eq_some_iff.mp hc).1
    have hb' : m[i]? = some b := by rw [← hslice, Bytes.getElem?_slice, if_pos hlt, hb]
    rw [hc] at hb'
    rw [← Option.some.inj hca, Option.some.inj hb']

/-- Copies of a pattern prescribe consecutive slices. -/
theorem agrees_flatten_replicate {P : List (Option α)} {l : List α} (n : ℕ) {p : ℕ} :
    Agrees (List.replicate n P).flatten l p ↔ ∀ i, i < n → Agrees P l (p + i * P.length) := by
  induction n generalizing p with
  | zero => exact ⟨fun _ i hi => absurd hi (Nat.not_lt_zero i), fun _ i a b hi => by simp at hi⟩
  | succ n ih =>
    rw [List.replicate_succ, List.flatten_cons, agrees_append, ih]
    constructor
    · rintro ⟨hfirst, hrest⟩ i hi
      rcases i with - | i
      · simpa using hfirst
      · have hpos : p + (i + 1) * P.length = p + P.length + i * P.length := by ring
        rw [hpos]
        exact hrest i (by omega)
    · intro h
      refine ⟨by simpa using h 0 (by omega), fun i hi => ?_⟩
      have hpos : p + P.length + i * P.length = p + (i + 1) * P.length := by ring
      rw [hpos]
      exact h (i + 1) (by omega)

/-! ## Completion -/

/-- Extend `l` to length `n` with what the pattern prescribes from position `p` on, and with `d`
elsewhere. -/
def complete (pattern : List (Option α)) (l : List α) (p n : ℕ) (d : α) : List α :=
  l ++ (List.range (n - l.length)).map fun i => (pattern[l.length + i - p]?.join).getD d

theorem length_complete (pattern : List (Option α)) {l : List α} (p : ℕ) {n : ℕ} (d : α)
    (h : l.length ≤ n) : (complete pattern l p n d).length = n := by
  rw [complete, List.length_append, List.length_map, List.length_range, Nat.add_sub_cancel' h]

theorem take_complete (pattern : List (Option α)) (l : List α) (p n : ℕ) (d : α) :
    (complete pattern l p n d).take l.length = l := List.take_left

/-- A list that agrees with a pattern as far as it reaches is completed to one that agrees. -/
theorem agrees_complete {pattern : List (Option α)} {l : List α} {p n : ℕ} {d : α}
    (h : Agrees pattern l p) : Agrees pattern (complete pattern l p n d) p := by
  intro i a b hi hb
  rw [complete] at hb
  by_cases hlt : p + i < l.length
  · rw [List.getElem?_append_left hlt] at hb
    exact h i a b hi hb
  · rw [List.getElem?_append_right (Nat.not_lt.mp hlt), List.getElem?_map,
      Option.map_eq_some_iff] at hb
    obtain ⟨j, hj, rfl⟩ := hb
    obtain ⟨hjlt, hj⟩ := List.getElem?_eq_some_iff.mp hj
    rw [List.getElem_range] at hj
    have hidx : l.length + j - p = i := by omega
    rw [hidx, hi]
    rfl

end Pattern
