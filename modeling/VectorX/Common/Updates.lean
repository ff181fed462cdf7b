import Mathlib.Data.List.Induction
import Mathlib.Data.List.Nodup

/-!
# Sequences of writes

A mapping after a list of writes, in order. A key that is not written keeps its value, and a key
that is written once holds what was written.
-/

namespace Updates

variable {κ ν : Type*} [DecidableEq κ]

/-- The mapping after the writes. -/
def updates (m : κ → ν) (ws : List (κ × ν)) : κ → ν :=
  ws.foldl (fun m w => Function.update m w.1 w.2) m

@[simp] theorem updates_nil (m : κ → ν) : updates m [] = m := rfl

@[simp] theorem updates_cons (m : κ → ν) (w : κ × ν) (ws : List (κ × ν)) :
    updates m (w :: ws) = updates (Function.update m w.1 w.2) ws := rfl

theorem updates_append (m : κ → ν) (ws vs : List (κ × ν)) :
    updates m (ws ++ vs) = updates (updates m ws) vs := List.foldl_append

/-- **Frame rule.** A key that is not written keeps its value. -/
theorem updates_of_notMem (m : κ → ν) {ws : List (κ × ν)} {k : κ} (hk : k ∉ ws.map Prod.fst) :
    updates m ws k = m k := by
  induction ws generalizing m with
  | nil => rfl
  | cons w ws ih =>
    rw [List.map_cons, List.mem_cons, not_or] at hk
    rw [updates_cons, ih _ hk.2, Function.update_of_ne hk.1]

/-- Without repeated keys, every write is read back. -/
theorem updates_of_mem (m : κ → ν) {ws : List (κ × ν)} (hnodup : (ws.map Prod.fst).Nodup) {w : κ × ν}
    (hw : w ∈ ws) : updates m ws w.1 = w.2 := by
  induction ws generalizing m with
  | nil => exact absurd hw List.not_mem_nil
  | cons w' ws ih =>
    rw [List.map_cons, List.nodup_cons] at hnodup
    rw [updates_cons]
    rcases List.mem_cons.mp hw with rfl | hw
    · rw [updates_of_notMem _ hnodup.1, Function.update_self]
    · exact ih _ hnodup.2 hw

/-- The last write of a key is read back. -/
theorem updates_eq_getLast? (m : κ → ν) (ws : List (κ × ν)) (k : κ) :
    updates m ws k = (((ws.filter fun w => w.1 = k).map Prod.snd).getLast?).getD (m k) := by
  induction ws using List.reverseRecOn with
  | nil => rfl
  | append_singleton ws w ih =>
    rw [updates_append, updates_cons, updates_nil, List.filter_append, List.map_append]
    by_cases hk : w.1 = k
    · subst hk
      simp [Function.update_self]
    · rw [Function.update_of_ne (Ne.symm hk), ih, List.filter_singleton]
      simp [hk]

/-- The last of all writes is read back. -/
theorem updates_of_getLast? (m : κ → ν) {ws : List (κ × ν)} {w : κ × ν}
    (hw : ws.getLast? = some w) : updates m ws w.1 = w.2 := by
  obtain ⟨ws', rfl⟩ := List.getLast?_eq_some_iff.mp hw
  rw [updates_append, updates_cons, updates_nil, Function.update_self]

/-- What holds of all entries but `e` also holds after a write for which it holds. -/
theorem forall_update {e : ν} {P : κ → ν → Prop} {m : κ → ν} (hm : ∀ k, m k ≠ e → P k (m k)) {k₀ : κ}
    {v : ν} (hv : P k₀ v) :
    ∀ k, Function.update m k₀ v k ≠ e → P k (Function.update m k₀ v k) := by
  intro k hk
  by_cases heq : k = k₀
  · subst heq
    rw [Function.update_self]
    exact hv
  · rw [Function.update_of_ne heq] at hk ⊢
    exact hm k hk

end Updates
