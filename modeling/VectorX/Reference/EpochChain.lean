import VectorX.Input.AuthoritySet
import VectorX.Reference.Chain

/-!
# Reference chains with epochs

The headers of the reference chain with given logs, from block 0 on, together with given set ids and
authorities.
-/

namespace Reference

open VectorX Plonky2x

/-- A chain with the given set ids, authorities and logs. -/
def epochChain (signed : List SignedMessage) (ids : SetIds)
    (authorities : ℕ → List (Bytes32Variable × UInt64)) (logs : ℕ → List DigestItem) :
    EpochChain (crypto signed) where
  first := 0
  head := ids.head
  header := logHeader logs
  number_eq n _ hn := by
    have hlt : ids.head.toNat < 2 ^ 32 := ids.head.toNat_lt
    rw [number_logHeader, UInt32.toNat_ofNat', Nat.mod_eq_of_lt (by omega)]
  parentHash_eq _ _ _ := rfl
  setId := ids.setId
  setId_zero := ids.setId_zero
  setId_succ := ids.setId_succ
  first_eq := rfl
  grandpaAuthorities := authorities

/-- The first authority in the first epoch, and the second one from block 2 on. -/
def twoAuthorities (n : ℕ) : List (Bytes32Variable × UInt64) :=
  if n < 2 then [(pubkey₁, 1)] else [(pubkey₂, 1)]

/-- Two epochs, with the given logs at the end of the first one. -/
def twoEpochChain (signed : List SignedMessage) (logs : List DigestItem) : EpochChain (crypto signed) :=
  epochChain signed twoEpochs twoAuthorities fun n => if n = 2 then logs else []

theorem isEpochEnd_twoEpochs : twoEpochs.IsEpochEnd 0 2 :=
  ⟨by decide, by decide, by decide, by decide⟩

end Reference
