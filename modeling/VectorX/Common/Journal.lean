import VectorX.Common.Bytes
import Mathlib.Logic.Function.Basic

/-!
# Writes of processes that may stop

A process performs writes one after the other, and may stop between any two of them. What holds
after every write holds wherever it stops. Several processes may take turns, if their writes do not
take away what the others rely on.
-/

namespace Journal

variable {σ ω : Type*} (write : σ → ω → σ) (Ok : σ → ω → Prop)

/-- Each write is allowed in the store that the writes before it leave. -/
def Allowed : σ → List ω → Prop
  | _, [] => True
  | s, w :: ws => Ok s w ∧ Allowed (write s w) ws

variable {write Ok} {s : σ} {ws vs : List ω}

/-- Writes one after the other. -/
theorem allowed_append :
    Allowed write Ok s (ws ++ vs) ↔ Allowed write Ok s ws ∧ Allowed write Ok (ws.foldl write s) vs := by
  induction ws generalizing s with
  | nil => exact (and_iff_right trivial).symm
  | cons w ws ih => rw [List.cons_append, Allowed, Allowed, ih, and_assoc, List.foldl_cons]

/-- Writes that are allowed everywhere. -/
theorem allowed_of_forall (h : ∀ w ∈ ws, ∀ s, Ok s w) : Allowed write Ok s ws := by
  induction ws generalizing s with
  | nil => trivial
  | cons w ws ih =>
    exact ⟨h w List.mem_cons_self s, ih fun w' hw' => h w' (List.mem_cons_of_mem _ hw')⟩

/-- A process that stops has performed some of its writes. -/
theorem Allowed.take (h : Allowed write Ok s ws) (k : ℕ) : Allowed write Ok s (ws.take k) := by
  rw [← List.take_append_drop k ws] at h
  exact (allowed_append.mp h).1

/-- **Invariant rule.** What every allowed write keeps holds after the writes. -/
theorem Allowed.invariant (h : Allowed write Ok s ws) (Inv : σ → Prop)
    (hwrite : ∀ s w, Inv s → Ok s w → Inv (write s w)) (hinit : Inv s) : Inv (ws.foldl write s) := by
  induction ws generalizing s with
  | nil => exact hinit
  | cons w ws ih => exact ih h.2 (hwrite s w hinit h.1)

/-! ## Several processes -/

/-- A store and the writes that each process has left. -/
structure Processes (σ ω : Type*) where
  store : σ
  pending : ℕ → List ω

/-- A process starts its writes, performs the next one, or stops. -/
inductive Turn (ω : Type*)
  | start (p : ℕ) (ws : List ω)
  | write (p : ℕ)
  | stop (p : ℕ)

variable (write) in
/-- A process only starts when nothing is left. -/
def turn (ps : Processes σ ω) : Turn ω → Processes σ ω
  | .start p ws =>
    if ps.pending p = [] then { ps with pending := Function.update ps.pending p ws } else ps
  | .write p =>
    match ps.pending p with
    | [] => ps
    | w :: ws => { store := write ps.store w, pending := Function.update ps.pending p ws }
  | .stop p => { ps with pending := Function.update ps.pending p [] }

section Processes

variable {le : σ → σ → Prop}

/-- What is allowed stays allowed in a larger store. -/
theorem Allowed.mono (hOk : ∀ s s' w, le s s' → Ok s w → Ok s' w)
    (hmono : ∀ s s' w, le s s' → le (write s w) (write s' w)) {s' : σ} (hle : le s s')
    (h : Allowed write Ok s ws) : Allowed write Ok s' ws := by
  induction ws generalizing s s' with
  | nil => trivial
  | cons w ws ih => exact ⟨hOk s s' w hle h.1, ih (hmono s s' w hle) h.2⟩

/-- The invariant of the store, and what is left of the writes is allowed. -/
def TurnInv (write : σ → ω → σ) (Ok : σ → ω → Prop) (Inv : σ → Prop) (ps : Processes σ ω) : Prop :=
  Inv ps.store ∧ ∀ p, Allowed write Ok ps.store (ps.pending p)

/-- **Interleaving rule.** Let allowed writes enlarge the store, and keep the invariant. If what is
allowed stays allowed in larger stores, and all processes start writes that are allowed in any
store, then the invariant holds after any turns of the processes, and each turn enlarges the
store. -/
theorem turns_invariant (Inv : σ → Prop) (hrefl : ∀ s, le s s)
    (htrans : ∀ s s' s'', le s s' → le s' s'' → le s s'')
    (hOk : ∀ s s' w, le s s' → Ok s w → Ok s' w)
    (hmono : ∀ s s' w, le s s' → le (write s w) (write s' w))
    (hle : ∀ s w, Ok s w → le s (write s w)) (hwrite : ∀ s w, Inv s → Ok s w → Inv (write s w))
    {ps : Processes σ ω} (hinit : TurnInv write Ok Inv ps) {turns : List (Turn ω)}
    (hstart : ∀ p ws, Turn.start p ws ∈ turns → ∀ s, Allowed write Ok s ws) :
    TurnInv write Ok Inv (turns.foldl (turn write) ps) ∧
      le ps.store (turns.foldl (turn write) ps).store := by
  induction turns generalizing ps with
  | nil => exact ⟨hinit, hrefl _⟩
  | cons t ts ih =>
    have hstep : TurnInv write Ok Inv (turn write ps t) ∧ le ps.store (turn write ps t).store := by
      obtain ⟨hinv, hpending⟩ := hinit
      have hupdate : ∀ (s : σ) (p : ℕ) (ws : List ω), (∀ q, Allowed write Ok s (ps.pending q)) →
          Allowed write Ok s ws → ∀ q, Allowed write Ok s (Function.update ps.pending p ws q) :=
        fun s p ws hold hnew => (Function.forall_update_iff ps.pending
          (fun _ l => Allowed write Ok s l)).mpr ⟨hnew, fun q _ => hold q⟩
      cases t with
      | start p ws =>
        rw [turn]
        split
        · exact ⟨⟨hinv, hupdate _ p ws hpending (hstart p ws List.mem_cons_self _)⟩, hrefl _⟩
        · exact ⟨⟨hinv, hpending⟩, hrefl _⟩
      | write p =>
        rw [turn]
        split
        · exact ⟨⟨hinv, hpending⟩, hrefl _⟩
        · rename_i w ws hp
          have hnext := hpending p
          rw [hp] at hnext
          have hlarger := hle _ _ hnext.1
          exact ⟨⟨hwrite _ _ hinv hnext.1, hupdate _ p ws
            (fun q => (hpending q).mono hOk hmono hlarger) hnext.2⟩, hlarger⟩
      | stop p => exact ⟨⟨hinv, hupdate _ p [] hpending trivial⟩, hrefl _⟩
    obtain ⟨hinv, hlarger⟩ := ih hstep.1 fun p ws hmem => hstart p ws (List.mem_cons_of_mem _ hmem)
    exact ⟨hinv, htrans _ _ _ hstep.2 hlarger⟩

end Processes

end Journal
