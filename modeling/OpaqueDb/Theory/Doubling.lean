/-
# Theory.Doubling -- folding a window in a logarithmic number of steps

A vector machine that can combine a vector with a moved copy of itself folds a
window of `2 ^ n` entries in `n` steps: after each step the window has doubled.
`doubling op move s n` is that computation for an arbitrary operation and an
arbitrary index motion; `doubling_eq_fold` says the result at `x` is the fold of
the `2 ^ n` entries at `x`, `move x`, `move (move x)`, and so on.  Associativity
and an identity are all it needs, so the same lemma serves a product, a sum and a
conjunction.
-/
import Mathlib.Algebra.BigOperators.Fin

namespace OpaqueDb.Theory

set_option autoImplicit false

universe u v

section Doubling

variable {X : Type u} {M : Type v}

/-- Combine `s` with its copy moved by `2 ^ 0`, then `2 ^ 1`, ... `n` times. -/
def doubling (op : M → M → M) (move : X → X) (s : X → M) : Nat → X → M
  | 0, x => s x
  | n + 1, x => op (doubling op move s n x) (doubling op move s n (move^[2 ^ n] x))

/-- The entries a window of width `w` at `x` sees, nearest first. -/
def window (move : X → X) (s : X → M) (w : Nat) (x : X) : List M :=
  (List.range w).map fun d => s (move^[d] x)

theorem window_add (move : X → X) (s : X → M) (v w : Nat) (x : X) :
    window move s (v + w) x = window move s v x ++ window move s w (move^[v] x) := by
  unfold window
  rw [List.range_add, List.map_append, List.map_map]
  congr 1
  apply List.map_congr_left
  intro d _
  simp only [Function.comp_apply]
  rw [Nat.add_comm v d, Function.iterate_add_apply]

theorem foldr_append_op (op : M → M → M) (e : M) [assoc : Std.Associative op]
    [ident : Std.LawfulIdentity op e] (l r : List M) :
    (l ++ r).foldr op e = op (l.foldr op e) (r.foldr op e) := by
  induction l with
  | nil => simp [ident.left_id]
  | cons m l ih => simp [ih, assoc.assoc]

/-- **Doubling folds a window.** -/
theorem doubling_eq_fold (op : M → M → M) (e : M) [Std.Associative op]
    [ident : Std.LawfulIdentity op e] (move : X → X) (s : X → M) (n : Nat) (x : X) :
    doubling op move s n x = (window move s (2 ^ n) x).foldr op e := by
  induction n generalizing x with
  | zero => simp [doubling, window, ident.right_id]
  | succ n ih =>
    have width : 2 ^ (n + 1) = 2 ^ n + 2 ^ n := by omega
    rw [doubling, ih, ih, width, window_add, foldr_append_op]

/-- Products: an AND tree over a window. -/
theorem doubling_mul {R : Type v} [Monoid R] (move : X → X) (s : X → R) (n : Nat) (x : X) :
    doubling (· * ·) move s n x = (window move s (2 ^ n) x).prod :=
  doubling_eq_fold (· * ·) 1 move s n x

/-- Sums: a moving total over a window. -/
theorem doubling_add {R : Type v} [AddMonoid R] (move : X → X) (s : X → R) (n : Nat) (x : X) :
    doubling (· + ·) move s n x = (window move s (2 ^ n) x).sum :=
  doubling_eq_fold (· + ·) 0 move s n x

end Doubling

/-! ## Windows with at most one interesting entry -/

section Sparse

variable {X : Type u} {R : Type v}

/-- A product of zero-one entries is one exactly when every entry is one. -/
theorem window_prod_ite [MonoidWithZero R] (move : X → X) (s : X → R) (hit : X → Prop)
    [DecidablePred hit] (w : Nat) (x : X)
    (zeroOne : ∀ d < w, s (move^[d] x) = if hit (move^[d] x) then 1 else 0) :
    (window move s w x).prod = if ∀ d < w, hit (move^[d] x) then 1 else 0 := by
  induction w with
  | zero => simp [window]
  | succ w ih =>
    have head := ih fun d hd => zeroOne d (by omega)
    have last := zeroOne w (by omega)
    unfold window at head ⊢
    rw [List.range_succ, List.map_append, List.prod_append, head]
    simp only [List.map_cons, List.map_nil, List.prod_singleton, last]
    by_cases earlier : ∀ d < w, hit (move^[d] x)
    · by_cases here : hit (move^[w] x)
      · have all : ∀ d < w + 1, hit (move^[d] x) := fun d hd => by
          rcases Nat.lt_succ_iff_lt_or_eq.1 hd with h | rfl
          · exact earlier d h
          · exact here
        rw [if_pos earlier, if_pos here, if_pos all, one_mul]
      · have not_all : ¬ ∀ d < w + 1, hit (move^[d] x) := fun all => here (all w (by omega))
        rw [if_neg here, if_neg not_all, mul_zero]
    · have not_all : ¬ ∀ d < w + 1, hit (move^[d] x) :=
        fun all => earlier fun d hd => all d (by omega)
      rw [if_neg earlier, if_neg not_all, zero_mul]

/-- A window total as a finite sum. -/
theorem window_sum [AddCommMonoid R] (move : X → X) (s : X → R) (w : Nat) (x : X) :
    (window move s w x).sum = ∑ d ∈ Finset.range w, s (move^[d] x) := rfl

/-- A window in which only offset `k` can be nonzero sums to that entry. -/
theorem window_sum_single [AddCommMonoid R] (move : X → X) (s : X → R) (w k : Nat) (x : X)
    (inside : k < w) (others : ∀ d < w, d ≠ k → s (move^[d] x) = 0) :
    (window move s w x).sum = s (move^[k] x) := by
  apply Finset.sum_eq_single_of_mem k (Finset.mem_range.2 inside)
  intro d member ne
  exact others d (Finset.mem_range.1 member) ne

end Sparse

end OpaqueDb.Theory
