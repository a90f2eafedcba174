/-
# Theory.LeakyBuckets -- buckets that leak at a constant rate

A bucket's level falls by its rate times the time that passes, down to nothing.  One bucket
that leaks as fast as `n` others together never holds more than they do, as long as there are
at most `n` of them (`leak_sum_le`): it runs dry where they only may.
-/
import Mathlib.Algebra.Order.BigOperators.Group.Finset
import Mathlib.Algebra.Order.Field.Basic
import Mathlib.Tactic.Linarith

namespace OpaqueDb.Theory

set_option autoImplicit false

universe u v

section Leak

variable {K : Type u} [Field K] [LinearOrder K] [IsStrictOrderedRing K]

/-- What is left of a level after some time. -/
def leak (rate time level : K) : K :=
  max 0 (level - time * rate)

omit [IsStrictOrderedRing K] in
theorem leak_nonneg (rate time level : K) : 0 ≤ leak rate time level :=
  le_max_left _ _

theorem leak_le {rate time level : K} (flows : 0 ≤ rate) (later : 0 ≤ time) (some_ : 0 ≤ level) :
    leak rate time level ≤ level := by
  have lost := mul_nonneg later flows
  exact max_le some_ (by linarith)

theorem leak_mono {rate time level level' : K} (le : level ≤ level') :
    leak rate time level ≤ leak rate time level' :=
  max_le_max le_rfl (by linarith)

/-- **One bucket that leaks for `n` holds no more than they do**, if there are at most `n`. -/
theorem leak_sum_le {ι : Type v} {s : Finset ι} {n : Nat} (few : s.card ≤ n) {rate time : K}
    (flows : 0 ≤ rate) (later : 0 ≤ time) (levels : ι → K) :
    leak (n * rate) time (∑ i ∈ s, levels i) ≤ ∑ i ∈ s, leak rate time (levels i) := by
  refine max_le (Finset.sum_nonneg fun i _ => leak_nonneg _ _ _) ?_
  have each : ∑ i ∈ s, (levels i - time * rate) ≤ ∑ i ∈ s, leak rate time (levels i) :=
    Finset.sum_le_sum fun i _ => le_max_right _ _
  rw [Finset.sum_sub_distrib, Finset.sum_const, nsmul_eq_mul] at each
  have lost := mul_le_mul_of_nonneg_right (Nat.cast_le.2 few) (mul_nonneg later flows)
  calc ∑ i ∈ s, levels i - time * (n * rate)
    _ ≤ ∑ i ∈ s, levels i - s.card * (time * rate) := by linarith
    _ ≤ ∑ i ∈ s, leak rate time (levels i) := each

end Leak

end OpaqueDb.Theory
