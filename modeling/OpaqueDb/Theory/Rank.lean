/-
# Theory.Rank -- the place of an entry among its equals

A sequence visited in order gives every entry a rank: how many earlier entries are
equal to it.  A loop that keeps one counter per value computes exactly this, and the
pair of value and rank identifies the entry (`rank_inj`).  The ranks of one value
among the first `n` entries are the numbers below its multiplicity (`rank_lt_count`,
`exists_rank`).
-/
import Mathlib.Data.Nat.Count

namespace OpaqueDb.Theory

open List

set_option autoImplicit false

universe u v w

variable {α : Type u} [DecidableEq α] (f : Nat → α)

/-- How many entries before `r` equal entry `r`. -/
def rank (r : Nat) : Nat :=
  Nat.count (fun i => f i = f r) r

variable {f}

theorem rank_eq_count {r : Nat} {a : α} (value : f r = a) :
    rank f r = Nat.count (fun i => f i = a) r := by
  subst value
  rfl

/-- Value and rank identify the entry. -/
theorem rank_inj {r s : Nat} (value : f r = f s) (same : rank f r = rank f s) : r = s := by
  rw [rank_eq_count value] at same
  exact Nat.count_injective (p := fun i => f i = f s) value rfl same

theorem rank_lt_count {r n : Nat} (inside : r < n) :
    rank f r < Nat.count (fun i => f i = f r) n :=
  Nat.count_strict_mono (p := fun i => f i = f r) rfl inside

/-- Every number below the multiplicity of `a` is the rank of some entry `a`. -/
theorem exists_rank {a : α} {n k : Nat} (below : k < Nat.count (fun i => f i = a) n) :
    ∃ r < n, f r = a ∧ rank f r = k := by
  induction n with
  | zero => simp at below
  | succ n ih =>
    rw [Nat.count_succ] at below
    by_cases earlier : k < Nat.count (fun i => f i = a) n
    · obtain ⟨r, inside, value, ranked⟩ := ih earlier
      exact ⟨r, by omega, value, ranked⟩
    · split at below
      · rename_i value
        exact ⟨n, by omega, value, by rw [rank_eq_count value]; omega⟩
      · omega

/-- The ranks below a given one are taken by earlier entries. -/
theorem exists_earlier_rank {r k : Nat} (below : k < rank f r) :
    ∃ s < r, f s = f r ∧ rank f s = k :=
  exists_rank below

/-! ## Ranks by a key -/

section Keyed

variable {β : Type v} {κ : Type w} [DecidableEq κ] (key : β → κ)

/-- The entries with their ranks, after keys already seen. -/
def rankedFrom : List κ → List β → List (β × Nat)
  | _, [] => []
  | seen, x :: l => (x, seen.count (key x)) :: rankedFrom (key x :: seen) l

/-- Dropping whole classes of keys leaves the ranks of the others as they were. -/
theorem rankedFrom_filter (p : κ → Bool) (seen : List κ) (l : List β) :
    rankedFrom key (seen.filter p) (l.filter fun x => p (key x)) =
      (rankedFrom key seen l).filter fun x => p (key x.1) := by
  induction l generalizing seen with
  | nil => rfl
  | cons x l ih =>
    have next := ih (key x :: seen)
    by_cases kept : p (key x) = true
    · simp only [rankedFrom, filter_cons, kept, if_true, count_filter kept] at next ⊢
      rw [next]
    · simp only [rankedFrom, filter_cons, kept] at next ⊢
      exact next

/-- The ranks by position, as `rank` counts them. -/
theorem rankedFrom_eq (seen : List κ) (l : List β) (default : β) :
    rankedFrom key seen l = (range l.length).map fun r => (l.getD r default,
      seen.count (key (l.getD r default)) + rank (fun i => key (l.getD i default)) r) := by
  induction l generalizing seen with
  | nil => rfl
  | cons x l ih =>
    rw [rankedFrom, ih, length_cons, range_succ_eq_map, map_cons, map_map]
    congr 1
    apply map_congr_left
    intro r _
    simp only [Function.comp_apply, getD_cons_succ, rank, Nat.count_succ', getD_cons_zero,
      count_cons, beq_iff_eq]
    congr 1
    omega

end Keyed

/-! ## Ranks in an ascending list -/

/-- An entry of an ascending list is outside the top `keep` exactly if `keep` entries are
above it. -/
theorem mem_take_sub_iff {γ : Type u} [LinearOrder γ] {l : List γ} (sorted : l.SortedLT) {c : γ}
    (member : c ∈ l) (keep : Nat) : c ∈ l.take (l.length - keep) ↔ keep ≤ l.countP (c < ·) := by
  obtain ⟨below, above, rfl⟩ := append_of_mem member
  obtain ⟨_, rest, apart⟩ := pairwise_append.1 sorted.pairwise
  have lower : ∀ b ∈ below, b < c := fun b inside => apart b inside c mem_cons_self
  have upper : ∀ b ∈ above, c < b := fun b inside => rel_of_pairwise_cons rest inside
  have absent : c ∉ below := fun inside => lt_irrefl c (lower c inside)
  have count : (below ++ c :: above).countP (c < ·) = above.length := by
    rw [countP_append, countP_eq_zero.2 fun b inside => by simpa using (lower b inside).le,
      countP_cons_of_neg (by simp), countP_eq_length.2 fun b inside => by
        simpa using upper b inside, Nat.zero_add]
  have reach : c ∈ (below ++ c :: above).take ((below ++ c :: above).length - keep) ↔
      below.length < (below ++ c :: above).length - keep := by
    rw [take_append, mem_append]
    rcases gap : (below ++ c :: above).length - keep - below.length with _ | n
    · have outside : c ∉ below.take ((below ++ c :: above).length - keep) :=
        fun inside => absent (mem_of_mem_take inside)
      simp only [outside, take_zero, not_mem_nil, or_self, false_iff]
      omega
    · simp only [take_succ_cons, mem_cons, true_or, or_true, true_iff]
      omega
  rw [reach, length_append, length_cons]
  omega

end OpaqueDb.Theory
