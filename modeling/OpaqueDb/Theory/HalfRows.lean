/-
# Theory.HalfRows -- packed vectors of two cyclic half-rows

A packed vector of `2 * row` slots is two half-rows of `row` slots, and the one
motion it has is a cyclic rotation inside each half-row.  `turn k` is that motion
on indices: it keeps the half and moves the column by `k` modulo `row`.

The lemmas say when a rotation does not wrap (`turn_val_add`, `turn_val_sub`), that
rotations compose and iterate (`turn_turn`, `turn_iterate`), and that a block width
dividing the row sees exactly one block start in any window of its own width
(`block_start_in_window`).  The two doubling loops of such a machine, a product over
a window to the right and a sum over a window to either side, are `doubling` with
`turn` as the motion (`rotate_loop`).
-/
import OpaqueDb.Theory.Doubling
import Mathlib.Algebra.Ring.Pi
import Mathlib.Data.Int.ModEq

namespace OpaqueDb.Theory

set_option autoImplicit false

universe u

/-- Two half-rows of `row` slots each, stored flat. -/
abbrev HalfRows (row : Nat) (R : Type u) := Fin (2 * row) → R

namespace HalfRows

variable {row : Nat}

/-- The flat index `k` columns further in the same half-row, cyclically. -/
def turnIndex (row : Nat) (k : Int) (j : Nat) : Nat :=
  j / row * row + (((j % row : Nat) + k) % (row : Int)).toNat

theorem pos_of_index (j : Fin (2 * row)) : 0 < row := by
  have := j.isLt
  omega

theorem column_lt (row : Nat) (k : Int) (j : Nat) (pos : 0 < row) :
    (((j % row : Nat) + k) % (row : Int)).toNat < row := by
  have lt := Int.emod_lt_of_pos ((j % row : Nat) + k) (b := row) (by omega)
  omega

theorem turnIndex_div (k : Int) (j : Nat) (pos : 0 < row) : turnIndex row k j / row = j / row := by
  have := column_lt row k j pos
  rw [turnIndex, Nat.mul_comm, Nat.mul_add_div pos, Nat.div_eq_of_lt this, Nat.add_zero]

theorem turnIndex_mod (k : Int) (j : Nat) (pos : 0 < row) :
    ((turnIndex row k j % row : Nat) : Int) = ((j % row : Nat) + k) % (row : Int) := by
  have lt := column_lt row k j pos
  have nonneg := Int.emod_nonneg ((j % row : Nat) + k) (b := row) (by omega)
  rw [turnIndex, Nat.mul_comm, Nat.mul_add_mod, Nat.mod_eq_of_lt lt, Int.toNat_of_nonneg nonneg]

theorem turnIndex_lt (k : Int) (j : Fin (2 * row)) : turnIndex row k j < 2 * row := by
  have pos := pos_of_index j
  have half : (j : Nat) / row ≤ 1 := by
    have : (j : Nat) / row < 2 := Nat.div_lt_of_lt_mul (by have := j.isLt; omega)
    omega
  have column := column_lt row k j pos
  have start : (j : Nat) / row * row ≤ 1 * row := Nat.mul_le_mul_right row half
  unfold turnIndex
  omega

/-- The index a rotation by `k` reads at `j`. -/
def turn (k : Int) (j : Fin (2 * row)) : Fin (2 * row) :=
  ⟨turnIndex row k j, turnIndex_lt k j⟩

/-- The rotated vector: positive `k` moves the contents left. -/
def rotate {R : Type u} (k : Int) (s : HalfRows row R) : HalfRows row R :=
  fun j => s (turn k j)

theorem turn_zero (j : Fin (2 * row)) : turn 0 j = j := by
  have pos := pos_of_index j
  apply Fin.ext
  have column : (((j : Nat) % row : Nat) + (0 : Int)) % (row : Int) = ((j : Nat) % row : Nat) := by
    exact Int.emod_eq_of_lt (by omega) (by exact_mod_cast Nat.mod_lt _ pos)
  show turnIndex row 0 j = j
  rw [turnIndex, column, Int.toNat_natCast, Nat.mul_comm, Nat.div_add_mod]

theorem turn_turn (a b : Int) (j : Fin (2 * row)) : turn a (turn b j) = turn (b + a) j := by
  have pos := pos_of_index j
  apply Fin.ext
  show turnIndex row a (turnIndex row b j) = turnIndex row (b + a) j
  have half := turnIndex_div b (j : Nat) pos
  have column := turnIndex_mod b (j : Nat) pos
  rw [turnIndex, half, column, Int.emod_add_emod, add_assoc, turnIndex]

theorem turn_iterate (a : Int) (n : Nat) (j : Fin (2 * row)) :
    (turn a)^[n] j = turn (n * a) j := by
  induction n with
  | zero => simp [turn_zero]
  | succ n ih =>
    rw [Function.iterate_succ_apply', ih, turn_turn]
    rw [Nat.cast_succ, add_mul, one_mul]

/-- The doubling loop of the machine: each step combines the vector with its copy
rotated by the next power of two times `a`. -/
theorem rotate_loop {R : Type u} (op : R → R → R) (a : Int) (s : HalfRows row R) (n : Nat) :
    (List.range n).foldl
      (fun acc i => fun j => op (acc j) (rotate ((2 ^ i : Nat) * a) acc j)) s =
      doubling op (turn a) s n := by
  induction n with
  | zero => rfl
  | succ n ih =>
    rw [List.range_succ, List.foldl_append, ih]
    simp [doubling, rotate, turn_iterate]

/-- A rotation to the right inside the half-row adds. -/
theorem turn_val_add (k : Nat) (j : Fin (2 * row)) (fits : (j : Nat) % row + k < row) :
    (turn (k : Int) j : Nat) = j + k := by
  have column : (((j : Nat) % row : Nat) + (k : Int)) % (row : Int) =
      (((j : Nat) % row + k : Nat) : Int) := by
    exact Int.emod_eq_of_lt (by omega) (by exact_mod_cast fits)
  show turnIndex row k j = j + k
  have split := Nat.div_add_mod (j : Nat) row
  rw [turnIndex, Nat.mul_comm]
  omega

/-- A rotation to the left inside the half-row subtracts. -/
theorem turn_val_sub (k : Nat) (j : Fin (2 * row)) (fits : k ≤ (j : Nat) % row) :
    (turn (-(k : Int)) j : Nat) = j - k := by
  have pos := pos_of_index j
  have below := Nat.mod_lt (j : Nat) pos
  have column : (((j : Nat) % row : Nat) + -(k : Int)) % (row : Int) =
      (((j : Nat) % row - k : Nat) : Int) := by
    rw [← sub_eq_add_neg, ← Nat.cast_sub fits]
    exact Int.emod_eq_of_lt (by omega) (by exact_mod_cast (by omega))
  show turnIndex row (-(k : Int)) j = j - k
  have split := Nat.div_add_mod (j : Nat) row
  rw [turnIndex, Nat.mul_comm]
  omega

/-! ## Blocks -/

/-- Reducing a rotated index modulo a divisor of the row forgets the wrap. -/
theorem turn_mod_block {width : Nat} (divides : width ∣ row) (k : Int) (j : Fin (2 * row)) :
    (((turn k j : Nat) % width : Nat) : Int) = ((j : Nat) + k) % (width : Int) := by
  have pos := pos_of_index j
  have column := turnIndex_mod k (j : Nat) pos
  have byRow : (turn k j : Nat) % width = (turn k j : Nat) % row % width :=
    (Nat.mod_mod_of_dvd _ divides).symm
  have intDivides : (width : Int) ∣ (row : Int) := Int.natCast_dvd_natCast.2 divides
  rw [byRow]
  show ((turnIndex row k j % row : Nat) : Int) % (width : Int) = _
  rw [column, Int.emod_emod_of_dvd _ intDivides, Int.add_emod, Int.natCast_mod,
    Int.emod_emod_of_dvd _ intDivides, ← Int.add_emod]

/-- A window of one block width, read to the left, holds exactly one multiple of
the width: the start of the block `j` lies in. -/
theorem block_start_in_window {width : Nat} (divides : width ∣ row) (j : Fin (2 * row))
    {d : Nat} (inside : d < width) (ne : d ≠ (j : Nat) % width) :
    (turn (-(d : Int)) j : Nat) % width ≠ 0 := by
  intro aligned
  have reduced := turn_mod_block divides (-(d : Int)) j
  rw [aligned] at reduced
  have congruent : (j : Nat) % width = d % width := by
    have modEq := Int.emod_eq_emod_iff_emod_sub_eq_zero.2 reduced.symm
    exact_mod_cast modEq
  rw [Nat.mod_eq_of_lt inside] at congruent
  exact ne congruent.symm

end HalfRows

end OpaqueDb.Theory
