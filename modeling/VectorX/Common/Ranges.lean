import Mathlib.Algebra.Order.Ring.Nat
import Mathlib.Data.List.Chain
import Mathlib.Data.List.Nodup

/-!
# Contiguous ranges

A list of half-open ranges that starts at one point, ends at another, and whose ranges follow each
other without gap or overlap. An interval of numbers is cut into ranges of one length and a shorter
one at the end.
-/

namespace Ranges

variable {α : Type*}

/-- The end points of the ranges, after the first point. -/
def heights (a : α) (rs : List (α × α)) : List α := a :: rs.map Prod.snd

theorem heights_append (a : α) (rs rs' : List (α × α)) :
    heights a (rs ++ rs') = heights a rs ++ rs'.map Prod.snd := by
  simp [heights]

variable [Preorder α]

/-- The ranges `(a, e₁], (e₁, e₂], …, (eₖ₋₁, c]`, in order. -/
def Contiguous : α → List (α × α) → α → Prop
  | a, [], c => c = a
  | a, r :: rs, c => r.1 = a ∧ a < r.2 ∧ Contiguous r.2 rs c

/-- A further range is added at the end. -/
theorem contiguous_concat {a b c : α} {rs : List (α × α)} (h : Contiguous a rs b) (hlt : b < c) :
    Contiguous a (rs ++ [(b, c)]) c := by
  induction rs generalizing a with
  | nil =>
    obtain rfl : b = a := h
    exact ⟨rfl, hlt, rfl⟩
  | cons r rs ih =>
    obtain ⟨hfirst, hr, hrest⟩ := h
    exact ⟨hfirst, hr, ih hrest⟩

theorem Contiguous.le {a c : α} {rs : List (α × α)} (h : Contiguous a rs c) : a ≤ c := by
  induction rs generalizing a with
  | nil => exact le_of_eq (Eq.symm h)
  | cons r rs ih => exact le_trans (le_of_lt h.2.1) (ih h.2.2)

/-- Ranges up to `b` and ranges from `b` on. -/
theorem Contiguous.append {a b c : α} {rs rs' : List (α × α)} (h : Contiguous a rs b)
    (h' : Contiguous b rs' c) : Contiguous a (rs ++ rs') c := by
  induction rs generalizing a with
  | nil =>
    obtain rfl : b = a := h
    exact h'
  | cons r rs ih => exact ⟨h.1, h.2.1, ih h.2.2⟩

/-- Every range lies between the two points. -/
theorem Contiguous.mem {a c : α} {rs : List (α × α)} (h : Contiguous a rs c) {r : α × α}
    (hr : r ∈ rs) : a ≤ r.1 ∧ r.1 < r.2 ∧ r.2 ≤ c := by
  induction rs generalizing a with
  | nil => exact absurd hr (by simp)
  | cons r' rs ih =>
    obtain ⟨rfl, hlt, hrest⟩ := h
    rcases List.mem_cons.mp hr with rfl | hr
    · exact ⟨le_refl _, hlt, hrest.le⟩
    · obtain ⟨hle, hlt', hle'⟩ := ih hrest hr
      exact ⟨le_trans (le_of_lt hlt) hle, hlt', hle'⟩

theorem Contiguous.mem_heights {a c h : α} {rs : List (α × α)} (hrs : Contiguous a rs c)
    (hh : h ∈ heights a rs) : a ≤ h ∧ h ≤ c := by
  rcases List.mem_cons.mp hh with rfl | hh
  · exact ⟨le_refl _, hrs.le⟩
  · obtain ⟨r, hr, rfl⟩ := List.mem_map.mp hh
    obtain ⟨hle, hlt, hle'⟩ := hrs.mem hr
    exact ⟨le_trans hle (le_of_lt hlt), hle'⟩

/-- The end points increase. -/
theorem Contiguous.pairwise_heights {a c : α} {rs : List (α × α)} (h : Contiguous a rs c) :
    (heights a rs).Pairwise (· < ·) := by
  induction rs generalizing a with
  | nil => exact List.pairwise_singleton _ _
  | cons r rs ih =>
    obtain ⟨rfl, hlt, hrest⟩ := h
    refine List.pairwise_cons.mpr ⟨fun x hx => ?_, ih hrest⟩
    exact lt_of_lt_of_le hlt (hrest.mem_heights hx).1

/-- Ranges that start at `a` and follow each other are contiguous if their end points increase. -/
theorem contiguous_of_isChain {a c : α} {rs : List (α × α)} (hfirst : ∀ r ∈ rs.head?, r.1 = a)
    (hchain : rs.IsChain fun r r' => r.2 = r'.1) (hlt : (heights a rs).Pairwise (· < ·))
    (hlast : (heights a rs).getLast? = some c) : Contiguous a rs c := by
  induction rs generalizing a with
  | nil => exact (Option.some.inj hlast).symm
  | cons r rs ih =>
    obtain ⟨hr, hrest⟩ := List.pairwise_cons.mp hlt
    have hnext : ∀ r' ∈ rs.head?, r'.1 = r.2 := fun r' hr' =>
      ((List.isChain_cons.mp hchain).1 r' hr').symm
    have hlast' : (heights r.2 rs).getLast? = some c := by
      rw [heights, List.map_cons, List.getLast?_cons_cons] at hlast
      exact hlast
    exact ⟨hfirst r rfl, hr r.2 List.mem_cons_self, ih hnext hchain.tail hrest hlast'⟩

/-- Neighbours share an end point. -/
theorem Contiguous.isChain {a c : α} {rs : List (α × α)} (h : Contiguous a rs c) :
    rs.IsChain fun r r' => r.2 = r'.1 := by
  induction rs generalizing a with
  | nil => exact List.isChain_nil
  | cons r rs ih =>
    obtain ⟨-, -, hrest⟩ := h
    refine List.isChain_cons.mpr ⟨fun r' hr' => ?_, ih hrest⟩
    cases rs with
    | nil => exact absurd hr' (by simp)
    | cons _ _ =>
      obtain rfl := Option.some.inj hr'
      exact hrest.1.symm

theorem Contiguous.ne_nil {a c : α} {rs : List (α × α)} (h : Contiguous a rs c) (hlt : a < c) :
    rs ≠ [] := by
  rintro rfl
  exact absurd (h ▸ hlt) (lt_irrefl _)

/-- The first range starts at the first point. -/
theorem Contiguous.head?_starts {a c : α} {rs : List (α × α)} (h : Contiguous a rs c) (hlt : a < c) :
    (rs.map Prod.fst).head? = some a := by
  cases rs with
  | nil => exact absurd rfl (h.ne_nil hlt)
  | cons r rs => exact congrArg some h.1

/-- The last range ends at the last point. -/
theorem Contiguous.getLast?_ends {a c : α} {rs : List (α × α)} (h : Contiguous a rs c) (hlt : a < c) :
    (rs.map Prod.snd).getLast? = some c := by
  induction rs generalizing a with
  | nil => exact absurd rfl (h.ne_nil hlt)
  | cons r rs ih =>
    obtain ⟨-, -, hrest⟩ := h
    cases rs with
    | nil => exact congrArg some (Eq.symm hrest)
    | cons r' rs => exact ih hrest (lt_of_lt_of_le hrest.2.1 hrest.2.2.le)

/-- Two different ranges end at different points. -/
theorem Contiguous.nodup_ends {a c : α} {rs : List (α × α)} (h : Contiguous a rs c) :
    (rs.map Prod.snd).Nodup :=
  (List.pairwise_cons.mp h.pairwise_heights).2.imp ne_of_lt

/-- A map that is strictly monotone between the two points keeps the ranges contiguous. -/
theorem Contiguous.map {β : Type*} [Preorder β] {f : α → β} {a c : α} {rs : List (α × α)}
    (h : Contiguous a rs c) (hf : ∀ x y, a ≤ x → y ≤ c → x < y → f x < f y) :
    Contiguous (f a) (rs.map fun r => (f r.1, f r.2)) (f c) := by
  induction rs generalizing a with
  | nil => exact congrArg f h
  | cons r rs ih =>
    obtain ⟨hfirst, hlt, hrest⟩ := h
    refine ⟨congrArg f hfirst, hf a r.2 (le_refl a) hrest.le hlt, ih hrest fun x y hx hy hxy => ?_⟩
    exact hf x y (le_trans (le_of_lt hlt) hx) hy hxy

/-! ## Cutting an interval -/

/-- The points `a, a + n, a + 2 * n, …` below `b`. -/
def strides (a b n : ℕ) : List ℕ := List.range' a ((b - a + n - 1) / n) n

theorem mem_strides {a b n i : ℕ} (hn : 0 < n) :
    i ∈ strides a b n ↔ ∃ t, i = a + n * t ∧ i < b := by
  rw [strides, List.mem_range']
  refine exists_congr fun t => ?_
  rw [and_comm]
  refine and_congr_right fun hi => ?_
  rw [Nat.lt_iff_add_one_le, Nat.le_div_iff_mul_le hn, Nat.add_mul, Nat.one_mul, Nat.mul_comm t n]
  omega

/-- The last of the points. -/
theorem last_mem_strides {a b n : ℕ} (hn : 0 < n) (hab : a < b) :
    a + n * ((b - a - 1) / n) ∈ strides a b n := by
  have hle := Nat.mul_div_le (b - a - 1) n
  exact (mem_strides hn).mpr ⟨_, rfl, by omega⟩

/-- No point lies after the last one. -/
theorem le_last_of_mem_strides {a b n i : ℕ} (hn : 0 < n) (hi : i ∈ strides a b n) :
    i ≤ a + n * ((b - a - 1) / n) := by
  obtain ⟨t, rfl, hlt⟩ := (mem_strides hn).mp hi
  have ht : t ≤ (b - a - 1) / n := by
    rw [Nat.le_div_iff_mul_le hn, Nat.mul_comm]
    omega
  exact Nat.add_le_add_left (Nat.mul_le_mul_left n ht) a

/-- The ranges of length `n` from `a` on, the last one up to `b`. -/
def chunks (a b n : ℕ) : List (ℕ × ℕ) := (strides a b n).map fun i => (i, min (i + n) b)

/-- The induction is on the number of ranges: the next one starts where this one ends, or nothing is
left. -/
theorem contiguous_range'_chunks {b n : ℕ} (hn : 0 < n) : ∀ m a : ℕ, b ≤ a + m * n →
    (0 < m → a + m * n < b + n) →
    Contiguous (min a b) ((List.range' a m n).map fun i => (i, min (i + n) b)) b
  | 0, a, hle, _ => (Nat.min_eq_right (by omega)).symm
  | m + 1, a, hle, hlt => by
    rw [Nat.succ_mul] at hle hlt
    have hm := hlt (Nat.succ_pos m)
    rw [List.range'_succ, List.map_cons]
    exact ⟨(Nat.min_eq_left (by omega)).symm, by omega,
      contiguous_range'_chunks hn m (a + n) (by omega) fun _ => by omega⟩

theorem contiguous_chunks {a b n : ℕ} (hn : 0 < n) (hab : a ≤ b) :
    Contiguous a (chunks a b n) b := by
  have hle := Nat.div_mul_le_self (b - a + n - 1) n
  have hlt := Nat.lt_div_mul_add (a := b - a + n - 1) hn
  have hpos : 0 < (b - a + n - 1) / n → 1 * n ≤ (b - a + n - 1) / n * n := Nat.mul_le_mul_right n
  have hchunks := contiguous_range'_chunks (b := b) hn ((b - a + n - 1) / n) a (by omega)
    fun hm => by have := hpos hm; omega
  rwa [Nat.min_eq_left hab] at hchunks

end Ranges
