import VectorX.Bin.Events
import VectorX.Common.Journal
import VectorX.Common.SortedSet

/-!
# The loop of the event indexer

Reference: `bin/events.rs`, with the Redis client of `circuits/input/mod.rs`. For each deployment
the loop scans the blocks from the stored cursor to the head in batches, adds the range of every log
to a sorted set, and stores the head as the new cursor.
-/

namespace VectorX

open Plonky2x Solidity
open Bytes (beBytes)

/-! ## The scan -/

section Scan

/-- How a scan ends. A panic stops the process. -/
inductive ScanEnd
  | returned
  | panicked
  | outOfFuel
deriving DecidableEq

/-- What `store_events` does: the queries, the ranges it adds, and how it ends. -/
structure Scan where
  queries : List Filter
  added : List DataCommitmentRange
  ending : ScanEnd

/-- The ranges that the loop over the logs adds, up to a log that does not decode, and whether there
is none. -/
def addedRanges : List Log → List DataCommitmentRange × Bool
  | [] => ([], true)
  | log :: logs =>
    match decodeRange log with
    | none => ([], false)
    | some range =>
      let (ranges, decoded) := addedRanges logs
      (range :: ranges, decoded)

variable (keccak256 : List UInt8 → Bytes32) (logs : List Log) (contractAddress : Address)

/-- The last block of a batch. -/
def batchEnd (currStartBlock endBlock : UInt64) : Option UInt64 := do
  let batchEndBlock ← checkedAdd64 currStartBlock 50000
  some (if batchEndBlock > endBlock then endBlock else batchEndBlock)

/-- One batch of `store_events` up to its last block, if this does not overflow, and the scan of the
rest. -/
def scanBatch (scanRest : UInt64 → Scan) (currStartBlock : UInt64) : Option UInt64 → Scan
  | none => ⟨[], [], .panicked⟩
  | some batchEndBlock =>
    let filter := headerRangeFilter keccak256 contractAddress currStartBlock batchEndBlock
    let (ranges, decoded) := addedRanges (logs.filter fun log => filter.Selects log)
    if decoded then
      let rest := scanRest batchEndBlock
      ⟨filter :: rest.queries, ranges ++ rest.added, rest.ending⟩
    else ⟨[filter], ranges, .panicked⟩

/-- The loop of `store_events`, for at most `fuel` batches. -/
def scanLoop (endBlock : UInt64) : ℕ → UInt64 → Scan
  | 0, _ => ⟨[], [], .outOfFuel⟩
  | fuel + 1, currStartBlock =>
    if currStartBlock < endBlock then
      scanBatch keccak256 logs contractAddress (scanLoop endBlock fuel) currStartBlock
        (batchEnd currStartBlock endBlock)
    else ⟨[], [], .returned⟩

/-- `store_events`. -/
def scan (startBlock endBlock : UInt64) : Scan :=
  scanLoop keccak256 logs contractAddress endBlock (endBlock.toNat - startBlock.toNat + 1) startBlock

end Scan

section ScanLemmas

/-- All logs decode, and all ranges are added, if none panics. -/
theorem mapM_decodeRange (logs : List Log) :
    logs.mapM decodeRange = if (addedRanges logs).2 then some (addedRanges logs).1 else none := by
  induction logs with
  | nil => rfl
  | cons log logs ih =>
    rw [List.mapM_cons, ih, addedRanges]
    rcases decodeRange log with - | range
    · rfl
    · rcases (addedRanges logs).2 <;> simp

/-- An added range is the range of a log. -/
theorem exists_of_mem_addedRanges {logs : List Log} {range : DataCommitmentRange}
    (h : range ∈ (addedRanges logs).1) : ∃ log ∈ logs, decodeRange log = some range := by
  induction logs with
  | nil => exact absurd h List.not_mem_nil
  | cons log logs ih =>
    rw [addedRanges] at h
    rcases hdecode : decodeRange log with - | range'
    · rw [hdecode] at h
      exact absurd h List.not_mem_nil
    · rw [hdecode] at h
      rcases List.mem_cons.mp h with rfl | h
      · exact ⟨log, List.mem_cons_self, hdecode⟩
      · obtain ⟨log', hlog', hrange⟩ := ih h
        exact ⟨log', List.mem_cons_of_mem _ hlog', hrange⟩

/-- Without a panic the range of every log is added. -/
theorem mem_addedRanges {logs : List Log} (hall : (addedRanges logs).2 = true) {log : Log}
    (hlog : log ∈ logs) : ∃ range ∈ (addedRanges logs).1, decodeRange log = some range := by
  induction logs with
  | nil => exact absurd hlog List.not_mem_nil
  | cons log' logs ih =>
    rw [addedRanges] at hall ⊢
    rcases hdecode : decodeRange log' with - | range'
    · rw [hdecode] at hall
      exact absurd hall (by simp)
    · rw [hdecode] at hall
      rcases List.mem_cons.mp hlog with rfl | hlog
      · exact ⟨range', List.mem_cons_self, hdecode⟩
      · obtain ⟨range, hmem, hrange⟩ := ih hall hlog
        exact ⟨range, List.mem_cons_of_mem _ hmem, hrange⟩

variable {keccak256 : List UInt8 → Bytes32} {logs : List Log} {address : Address} {endBlock : UInt64}

/-- A batch is not empty, and ends at most 50000 blocks after its start. -/
theorem batchEnd_eq_some {start next : UInt64} (hlt : start.toNat < endBlock.toNat)
    (h : batchEnd start endBlock = some next) :
    start.toNat < next.toNat ∧ next.toNat ≤ endBlock.toNat ∧ next.toNat ≤ start.toNat + 50000 := by
  rw [batchEnd, Option.bind_eq_bind, Option.bind_eq_some_iff] at h
  obtain ⟨sum, hadd, h⟩ := h
  have hval : (50000 : UInt64).toNat = 50000 := rfl
  have hsum := checkedAdd64_eq_some hadd
  rw [hval] at hsum
  obtain rfl := Option.some.inj h
  split <;> rename_i hgt <;> rw [gt_iff_lt, UInt64.lt_iff_toNat_lt] at hgt <;> omega

/-- The scan adds what `store_events` returns. -/
theorem scanLoop_eq (fuel : ℕ) (start : UInt64) :
    storeEventsLoop keccak256 logs address endBlock fuel start =
      if (scanLoop keccak256 logs address endBlock fuel start).ending = .returned then
        some (scanLoop keccak256 logs address endBlock fuel start).added
      else none := by
  induction fuel generalizing start with
  | zero => rfl
  | succ fuel ih =>
    rw [storeEventsLoop, scanLoop]
    by_cases hlt : start < endBlock
    · rw [if_pos hlt, if_pos hlt]
      rw [batchEnd]
      generalize checkedAdd64 start 50000 = sum
      rcases sum with - | sum
      · rfl
      simp only [Option.bind_eq_bind, Option.bind_some, mapM_decodeRange, ih, scanBatch]
      generalize (if sum > endBlock then endBlock else sum) = next
      rcases addedRanges (logs.filter fun log =>
        (headerRangeFilter keccak256 address start next).Selects log) with ⟨ranges, - | -⟩
      · rfl
      · simp only [if_true, Option.bind_some]
        by_cases hend : (scanLoop keccak256 logs address endBlock fuel next).ending = .returned
        · rw [if_pos hend, if_pos hend, Option.bind_some]
        · rw [if_neg hend, if_neg hend, Option.bind_none]
    · rw [if_neg hlt, if_neg hlt, if_pos rfl]

variable (keccak256 logs address) in
/-- What a scan from `start` does. The queries are short and stay between the bounds, what is added
comes from the logs between them, and nothing is left out if the scan returns. -/
structure ScanSpec (scan : Scan) (start endBlock : UInt64) : Prop where
  queries : ∀ q ∈ scan.queries, start.toNat ≤ q.fromBlock.toNat ∧ q.toBlock.toNat ≤ endBlock.toNat ∧
    q.toBlock.toNat - q.fromBlock.toNat + 1 ≤ 50001
  added : ∀ range ∈ scan.added, ∃ log ∈ logs,
    (headerRangeFilter keccak256 address start endBlock).Selects log ∧ decodeRange log = some range
  complete : scan.ending = .returned → start.toNat < endBlock.toNat → ∀ log ∈ logs,
    (headerRangeFilter keccak256 address start endBlock).Selects log →
      ∃ range ∈ scan.added, decodeRange log = some range

/-- A filter with wider bounds selects more. -/
theorem selects_of_le {a b c d : UInt64} (hca : c.toNat ≤ a.toNat) (hbd : b.toNat ≤ d.toNat) {log : Log}
    (h : (headerRangeFilter keccak256 address a b).Selects log) :
    (headerRangeFilter keccak256 address c d).Selects log := by
  obtain ⟨haddress, hfrom, hto, htopic⟩ := h
  refine ⟨haddress, ?_, ?_, htopic⟩
  · exact UInt64.le_iff_toNat_le.mpr (Nat.le_trans hca (UInt64.le_iff_toNat_le.mp hfrom))
  · exact UInt64.le_iff_toNat_le.mpr (Nat.le_trans (UInt64.le_iff_toNat_le.mp hto) hbd)

/-- The blocks of a filter are those up to some block and those from it on. -/
theorem selects_or {a b : UInt64} (c : UInt64) {log : Log}
    (h : (headerRangeFilter keccak256 address a b).Selects log) :
    (headerRangeFilter keccak256 address a c).Selects log ∨
      (headerRangeFilter keccak256 address c b).Selects log := by
  obtain ⟨haddress, hfrom, hto, htopic⟩ := h
  rcases UInt64.le_total log.blockNumber c with hle | hle
  · exact Or.inl ⟨haddress, hfrom, hle, htopic⟩
  · exact Or.inr ⟨haddress, hle, hto, htopic⟩

/-- **Step.** A batch up to `next` before a scan of the rest. -/
theorem ScanSpec.scanBatch {scanRest : UInt64 → Scan} {start next : UInt64}
    (hrest : ScanSpec keccak256 logs address (scanRest next) next endBlock)
    (hlt : start.toNat < next.toNat) (hle : next.toNat ≤ endBlock.toNat)
    (hspan : next.toNat ≤ start.toNat + 50000) :
    ScanSpec keccak256 logs address (scanBatch keccak256 logs address scanRest start (some next)) start
      endBlock := by
  rw [VectorX.scanBatch]
  have hquery : start.toNat ≤ (headerRangeFilter keccak256 address start next).fromBlock.toNat ∧
      (headerRangeFilter keccak256 address start next).toBlock.toNat ≤ endBlock.toNat ∧
      (headerRangeFilter keccak256 address start next).toBlock.toNat -
        (headerRangeFilter keccak256 address start next).fromBlock.toNat + 1 ≤ 50001 :=
    ⟨Nat.le_refl _, hle, show next.toNat - start.toNat + 1 ≤ 50001 by omega⟩
  have hadded : ∀ range ∈ (addedRanges (logs.filter fun log =>
      (headerRangeFilter keccak256 address start next).Selects log)).1, ∃ log ∈ logs,
      (headerRangeFilter keccak256 address start endBlock).Selects log ∧
        decodeRange log = some range := by
    intro range hrange
    obtain ⟨log, hlog, hdecode⟩ := exists_of_mem_addedRanges hrange
    obtain ⟨hmem, hselects⟩ := List.mem_filter.mp hlog
    exact ⟨log, hmem, selects_of_le (Nat.le_refl _) hle (of_decide_eq_true hselects), hdecode⟩
  have hbatch := fun h => @mem_addedRanges (logs.filter fun log =>
    (headerRangeFilter keccak256 address start next).Selects log) h
  generalize addedRanges (logs.filter fun log =>
    (headerRangeFilter keccak256 address start next).Selects log) = batch at hadded hbatch ⊢
  obtain ⟨ranges, - | -⟩ := batch
  · refine ⟨fun q hq => ?_, hadded, fun h => absurd h (by simp)⟩
    rw [List.mem_singleton.mp hq]
    exact hquery
  · refine ⟨fun q hq => ?_, fun range hrange => ?_, fun hreturned _ log hlog hselects => ?_⟩
    · rcases List.mem_cons.mp hq with rfl | hq
      · exact hquery
      · obtain ⟨hfrom, hto, hshort⟩ := hrest.queries q hq
        exact ⟨by omega, hto, hshort⟩
    · rcases List.mem_append.mp hrange with hrange | hrange
      · exact hadded range hrange
      · obtain ⟨log, hlog, hselects, hdecode⟩ := hrest.added range hrange
        exact ⟨log, hlog, selects_of_le (by omega) (Nat.le_refl _) hselects, hdecode⟩
    · -- a log is in the batch, or in the rest, which then is not empty
      have hcases : (headerRangeFilter keccak256 address start next).Selects log ∨
          next.toNat < endBlock.toNat ∧
            (headerRangeFilter keccak256 address next endBlock).Selects log := by
        rcases selects_or next hselects with hfirst | hsecond
        · exact Or.inl hfirst
        · rcases Nat.lt_or_ge next.toNat endBlock.toNat with hmore | hdone
          · exact Or.inr ⟨hmore, hsecond⟩
          · exact Or.inl (selects_of_le (Nat.le_refl _) hdone hselects)
      rcases hcases with hfirst | ⟨hmore, hsecond⟩
      · obtain ⟨range, hmem, hdecode⟩ :=
          hbatch rfl (List.mem_filter.mpr ⟨hlog, decide_eq_true hfirst⟩)
        exact ⟨range, List.mem_append_left _ hmem, hdecode⟩
      · obtain ⟨range, hmem, hdecode⟩ := hrest.complete hreturned hmore log hlog hsecond
        exact ⟨range, List.mem_append_right _ hmem, hdecode⟩

/-- A scan without a batch, that is complete only if there is nothing to scan. -/
theorem scanSpec_empty {ending : ScanEnd} {start : UInt64}
    (hending : ending = .returned → ¬start.toNat < endBlock.toNat) :
    ScanSpec keccak256 logs address ⟨[], [], ending⟩ start endBlock :=
  ⟨fun _ hq => absurd hq List.not_mem_nil, fun _ hrange => absurd hrange List.not_mem_nil,
    fun h hlt => absurd hlt (hending h)⟩

/-- One round of the loop: it returns, it overflows, or it scans a batch before the rest. -/
theorem scanLoop_cases (fuel : ℕ) (start : UInt64) :
    (¬start.toNat < endBlock.toNat ∧
        scanLoop keccak256 logs address endBlock (fuel + 1) start = ⟨[], [], .returned⟩) ∨
      scanLoop keccak256 logs address endBlock (fuel + 1) start = ⟨[], [], .panicked⟩ ∨
      ∃ next, start.toNat < next.toNat ∧ next.toNat ≤ endBlock.toNat ∧
        next.toNat ≤ start.toNat + 50000 ∧
        scanLoop keccak256 logs address endBlock (fuel + 1) start =
          scanBatch keccak256 logs address (scanLoop keccak256 logs address endBlock fuel) start
            (some next) := by
  rw [scanLoop]
  by_cases hlt : start < endBlock
  · rw [if_pos hlt]
    rw [UInt64.lt_iff_toNat_lt] at hlt
    rcases hbatch : batchEnd start endBlock with - | next
    · exact Or.inr (Or.inl rfl)
    · obtain ⟨hnext, hle, hspan⟩ := batchEnd_eq_some hlt hbatch
      exact Or.inr (Or.inr ⟨next, hnext, hle, hspan, rfl⟩)
  · rw [if_neg hlt]
    exact Or.inl ⟨by rwa [← UInt64.lt_iff_toNat_lt], rfl⟩

/-- **Run.** A scan of the batches from `start` on. -/
theorem scanSpec_scanLoop (fuel : ℕ) (start : UInt64) :
    ScanSpec keccak256 logs address (scanLoop keccak256 logs address endBlock fuel start) start
      endBlock := by
  induction fuel generalizing start with
  | zero => exact scanSpec_empty fun h => absurd h (by simp)
  | succ fuel ih =>
    rcases scanLoop_cases fuel start with ⟨hdone, heq⟩ | heq | ⟨next, hnext, hle, hspan, heq⟩
    · rw [heq]
      exact scanSpec_empty fun _ => hdone
    · rw [heq]
      exact scanSpec_empty fun h => absurd h (by simp)
    · rw [heq]
      exact ScanSpec.scanBatch (ih next) hnext hle hspan

/-- The scan ends before the fuel does. -/
theorem scanLoop_ending_ne (fuel : ℕ) (start : UInt64)
    (hfuel : endBlock.toNat - start.toNat < fuel) :
    (scanLoop keccak256 logs address endBlock fuel start).ending ≠ .outOfFuel := by
  induction fuel generalizing start with
  | zero => exact absurd hfuel (Nat.not_lt_zero _)
  | succ fuel ih =>
    rcases scanLoop_cases fuel start with ⟨-, heq⟩ | heq | ⟨next, hnext, hle, -, heq⟩
    · rw [heq]
      exact ScanEnd.noConfusion
    · rw [heq]
      exact ScanEnd.noConfusion
    · rw [heq, scanBatch]
      rcases addedRanges (logs.filter fun log =>
        (headerRangeFilter keccak256 address start next).Selects log) with ⟨ranges, - | -⟩
      · exact ScanEnd.noConfusion
      · exact ih next (by omega)

end ScanLemmas

end VectorX
