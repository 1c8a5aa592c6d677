import Mathlib.Tactic.Common
import WorkerHost.Numeric.Binary64

/-!
# Counters

Calls, runs, workers and handles are numbered by counters of sixty-four bits that start at one and
wrap around. `counterAt k` is where such a counter stands after `k` steps, so that the numbers given
out are `counterAt 0`, `counterAt 1` and so on. They differ as long as no more than `2 ^ 64` are
given out.
-/

namespace WorkerHost
variable {k l : ℕ}

/-- Where a counter stands after so many steps. -/
def counterAt (k : ℕ) : UInt64 :=
  UInt64.ofNat (k + 1)

lemma counterAt_succ (k : ℕ) : counterAt (k + 1) = counterAt k + 1 := by
  rw [counterAt, counterAt, UInt64.ofNat_add (k + 1) 1, UInt64.ofNat_one]

/-- The first `2 ^ 64` numbers differ. -/
lemma counterAt_inj (hk : k < 2 ^ 64) (hl : l < 2 ^ 64) (heq : counterAt k = counterAt l) :
    k = l := by
  have hnat := congrArg UInt64.toNat heq
  rw [counterAt, counterAt, UInt64.toNat_ofNat', UInt64.toNat_ofNat'] at hnat
  omega

/-- They grow until the counter wraps around. -/
lemma counterAt_lt (hkl : k < l) (hl : l + 1 < 2 ^ 64) : counterAt k < counterAt l := by
  rw [UInt64.lt_iff_toNat_lt, counterAt, counterAt, UInt64.toNat_ofNat', UInt64.toNat_ofNat']
  omega

/-- A number that was given out is not given out again. -/
lemma counterAt_ne (hkl : k < l) (hl : l < 2 ^ 64) : counterAt k ≠ counterAt l :=
  fun heq => Nat.ne_of_lt hkl (counterAt_inj (Nat.lt_trans hkl hl) hl heq)

end WorkerHost
