import VectorX.Common.Bytes

/-!
# Runs of a state machine that logs events

A step maps a state and an input to the next state and the events it emits; a run feeds a list of
inputs and collects the events. The rules below lift a property of one step to all runs.
-/

namespace Run

variable {σ ι ε : Type*} (step : σ → ι → σ × List ε)

/-- Feed the inputs in order, from `s`. -/
def run (s : σ) : List ι → σ × List ε
  | [] => (s, [])
  | i :: is =>
    let (s', es) := step s i
    let (s'', es') := run s' is
    (s'', es ++ es')

@[simp] theorem run_nil (s : σ) : run step s [] = (s, []) := rfl

theorem run_cons (s : σ) (i : ι) (is : List ι) :
    run step s (i :: is) =
      ((run step (step s i).1 is).1, (step s i).2 ++ (run step (step s i).1 is).2) := rfl

/-- A run of two input lists one after the other. -/
theorem run_append (s : σ) (is js : List ι) :
    run step s (is ++ js) =
      ((run step (run step s is).1 js).1,
        (run step s is).2 ++ (run step (run step s is).1 js).2) := by
  induction is generalizing s with
  | nil => rfl
  | cons i is ih => simp only [List.cons_append, run_cons, ih, List.append_assoc]

/-- Runs of two machines with the same states. -/
theorem run_fst_congr {ε' : Type*} {step' : σ → ι → σ × List ε'}
    (h : ∀ s i, (step' s i).1 = (step s i).1) (s : σ) (is : List ι) :
    (run step' s is).1 = (run step s is).1 := by
  induction is generalizing s with
  | nil => rfl
  | cons i is ih => rw [run_cons, run_cons, ih, h]

variable {step}

/-- **Invariant rule.** A relation between the state and the events so far that every allowed step
preserves holds after every run of allowed inputs. -/
theorem run_invariant (Inv : σ → List ε → Prop) (Allowed : ι → Prop)
    (hstep : ∀ s es i, Allowed i → Inv s es → Inv (step s i).1 (es ++ (step s i).2))
    {s : σ} {es : List ε} (hinit : Inv s es) {is : List ι} (his : ∀ i ∈ is, Allowed i) :
    Inv (run step s is).1 (es ++ (run step s is).2) := by
  induction is generalizing s es with
  | nil => simpa using hinit
  | cons i is ih =>
    have hhead := hstep s es i (his i (by simp)) hinit
    have htail := ih hhead fun j hj => his j (by simp [hj])
    rw [run_cons, ← List.append_assoc]
    exact htail

/-- **Invariant rule for states.** A property of the state that every allowed step preserves. -/
theorem run_invariant_state (Inv : σ → Prop) (Allowed : ι → Prop)
    (hstep : ∀ s i, Allowed i → Inv s → Inv (step s i).1) {s : σ} (hinit : Inv s) {is : List ι}
    (his : ∀ i ∈ is, Allowed i) : Inv (run step s is).1 := by
  induction is generalizing s with
  | nil => exact hinit
  | cons i is ih =>
    rw [run_cons]
    exact ih (hstep s i (his i (by simp)) hinit) fun j hj => his j (by simp [hj])

/-- **Composition rule.** A relation between two states and the events in between, that holds of no
step, of every allowed step and of one run after another, holds of every run of allowed inputs. -/
theorem run_rel (R : σ → List ε → σ → Prop) (Allowed : ι → Prop) (hrefl : ∀ s, R s [] s)
    (htrans : ∀ s es s' es' s'', R s es s' → R s' es' s'' → R s (es ++ es') s'')
    (hstep : ∀ s i, Allowed i → R s (step s i).2 (step s i).1) (s : σ) {is : List ι}
    (his : ∀ i ∈ is, Allowed i) : R s (run step s is).2 (run step s is).1 :=
  run_invariant (fun s' es => R s es s') Allowed
    (fun s' es i hi h => htrans s es s' _ _ h (hstep s' i hi)) (hrefl s) his

/-- **Resource rule.** An event is spent in the state after the step that emits it, and stays spent.
If a step emits only events that are related to all spent ones, then the events of a run are related
pairwise. -/
theorem run_pairwise (Spent : σ → ε → Prop) (R : ε → ε → Prop) (Allowed : ι → Prop)
    (hkeep : ∀ s i e, Allowed i → Spent s e → Spent (step s i).1 e)
    (hspend : ∀ s i, Allowed i → ∀ e ∈ (step s i).2, Spent (step s i).1 e)
    (hfresh : ∀ s i e, Allowed i → Spent s e → ∀ e' ∈ (step s i).2, R e e')
    (hone : ∀ s i, Allowed i → (step s i).2.Pairwise R) (s : σ) {is : List ι}
    (his : ∀ i ∈ is, Allowed i) : (run step s is).2.Pairwise R := by
  have hstep : ∀ s es i, Allowed i → (es.Pairwise R ∧ ∀ e ∈ es, Spent s e) →
      (es ++ (step s i).2).Pairwise R ∧ ∀ e ∈ es ++ (step s i).2, Spent (step s i).1 e := by
    intro s es i hi h
    refine ⟨List.pairwise_append.mpr ⟨h.1, hone s i hi, fun e he => hfresh s i e hi (h.2 e he)⟩, ?_⟩
    intro e he
    rcases List.mem_append.mp he with he | he
    · exact hkeep s i e hi (h.2 e he)
    · exact hspend s i hi e he
  exact (run_invariant (fun s es => es.Pairwise R ∧ ∀ e ∈ es, Spent s e) Allowed hstep
    ⟨.nil, by simp⟩ his).1

/-- A condition on the state and the input, at every step of a run. -/
def Along (step : σ → ι → σ × List ε) (P : σ → ι → Prop) : σ → List ι → Prop
  | _, [] => True
  | s, i :: is => P s i ∧ Along step P (step s i).1 is

/-- **Progress rule.** Every step keeps an invariant and does not raise the rank, and a step on a
marked input lowers it, unless it is 0. Then a run lowers the rank by the number of marked
inputs. -/
theorem run_rank (P : σ → ι → Prop) (Inv : σ → Prop) (rank : σ → ℕ) (marked : ι → Bool)
    (hstep : ∀ s i, P s i → Inv s →
      Inv (step s i).1 ∧ rank (step s i).1 ≤ rank s - (marked i).toNat)
    {s : σ} {is : List ι} (hs : Inv s) (his : Along step P s is) :
    Inv (run step s is).1 ∧ rank (run step s is).1 ≤ rank s - is.countP marked := by
  induction is generalizing s with
  | nil => exact ⟨hs, Nat.le_refl _⟩
  | cons i is ih =>
    obtain ⟨hinv, hle⟩ := hstep s i his.1 hs
    obtain ⟨hinv', hle'⟩ := ih hinv his.2
    rw [run_cons, List.countP_cons]
    refine ⟨hinv', hle'.trans ?_⟩
    cases hmarked : marked i <;> rw [hmarked] at hle <;>
      simp only [Bool.toNat_false, Bool.toNat_true, Bool.false_eq_true, if_false, if_true] at hle ⊢ <;>
      omega

end Run
