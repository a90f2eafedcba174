/-
# Theory.Radix -- little-endian bytes

`leValue` reads a byte list as a little-endian number and `leBytes n` writes one.
The two are inverse on numbers below `256 ^ n` (`leValue_leBytes`) and on lists of
length `n` (`leBytes_leValue`).  Programs build the number with a loop of shifts and
ORs; `orBytes` is that loop and `orBytes_eq` says it is `leValue`.

Data cut into chunks of equal width, the last one padded, is the data padded at its
end (`chunks_flatMap`).  `isPowerOfTwo` is the usual mask test.
-/
import Mathlib.Data.List.Basic
import Mathlib.Data.Nat.Bitwise
import Mathlib.Tactic.NormNum
import Mathlib.Tactic.Ring

namespace OpaqueDb.Theory

open List

set_option autoImplicit false

variable (n : Nat)

/-- A nonzero number without a second bit. -/
def isPowerOfTwo : Bool :=
  n != 0 && n &&& (n - 1) == 0

theorem isPowerOfTwo_iff : isPowerOfTwo n = true ↔ n.isPowerOfTwo := by
  rw [← Nat.ne_zero_and_sub_one_eq_zero_iff_isPowerOfTwo]
  simp [isPowerOfTwo]

/-! ## Padding and chunks -/

/-- `l` followed by zeros up to length `n`. -/
def padTo (l : List UInt8) : List UInt8 :=
  l ++ replicate (n - l.length) 0

theorem padTo_length {n : Nat} {l : List UInt8} (fits : l.length ≤ n) : (padTo n l).length = n := by
  rw [padTo, length_append, length_replicate]
  omega

/-- Padding every chunk of width `w` pads the whole. -/
theorem chunks_flatMap (w n : Nat) :
    ∀ l : List UInt8, l.length ≤ n * w →
      ((range n).flatMap fun s => padTo w ((l.drop (s * w)).take w)) = padTo (n * w) l := by
  induction n with
  | zero =>
    intro l fits
    have empty : l = [] := length_eq_zero_iff.1 (by omega)
    simp [empty, padTo]
  | succ n ih =>
    intro l fits
    rw [Nat.succ_mul] at fits
    have later := ih (l.drop w) (by rw [length_drop]; omega)
    have reindex : ((range n).map Nat.succ).flatMap
        (fun s => padTo w ((l.drop (s * w)).take w)) = padTo (n * w) (l.drop w) := by
      rw [← later, flatMap_map]
      congr 1
      funext s
      rw [drop_drop, Nat.succ_mul, Nat.add_comm]
    rw [range_succ_eq_map, flatMap_cons, reindex, Nat.zero_mul, drop_zero, padTo, padTo,
      length_take, length_drop, Nat.succ_mul]
    -- A full first chunk has no padding; a partial one leaves nothing for the rest.
    rcases Nat.le_total w l.length with full | short
    · rw [Nat.min_eq_left full, Nat.sub_self, replicate_zero, append_nil, ← append_assoc,
        take_append_drop]
      congr 2
      omega
    · rw [take_of_length_le short, drop_eq_nil_of_le short, nil_append,
        append_assoc, ← replicate_add]
      congr 2
      omega

/-! ## Values -/

/-- The number a little-endian byte list stands for. -/
def leValue : List UInt8 → Nat
  | [] => 0
  | b :: rest => b.toNat + 256 * leValue rest

variable (v : Nat)

/-- Byte `i` of a number: shift, then keep the low eight bits. -/
def byteAt (i : Nat) : UInt8 :=
  UInt8.ofNat (v >>> (8 * i))

/-- The low `n` bytes of a number. -/
def leBytes : List UInt8 :=
  (range n).map (byteAt v)

/-- The shift-and-OR loop over the bytes and their positions. -/
def orBytes (l : List UInt8) : Nat :=
  l.zipIdx.foldl (fun value p => value ||| p.1.toNat <<< (8 * p.2)) 0

variable (l : List UInt8)

theorem leValue_lt : leValue l < 256 ^ l.length := by
  induction l with
  | nil => simp [leValue]
  | cons b rest ih =>
    have := b.toNat_lt
    rw [leValue, length_cons]
    omega

theorem leValue_append (r : List UInt8) :
    leValue (l ++ r) = leValue l + 256 ^ l.length * leValue r := by
  induction l with
  | nil => simp [leValue]
  | cons b rest ih =>
    rw [cons_append, leValue, ih, leValue, length_cons]
    ring

theorem leValue_replicate_zero : leValue (replicate n 0) = 0 := by
  induction n with
  | zero => rfl
  | succ n ih => simp [replicate_succ, leValue, ih]

theorem orBytes_from (k value : Nat) (small : value < 2 ^ (8 * k)) :
    (l.zipIdx k).foldl (fun value p => value ||| p.1.toNat <<< (8 * p.2)) value =
      value + 2 ^ (8 * k) * leValue l := by
  induction l generalizing k value with
  | nil => simp [leValue]
  | cons b rest ih =>
    have disjoint : value ||| b.toNat <<< (8 * k) = value + 2 ^ (8 * k) * b.toNat := by
      rw [Nat.or_comm, ← Nat.shiftLeft_add_eq_or_of_lt small, Nat.shiftLeft_eq]
      ring
    have next : value + 2 ^ (8 * k) * b.toNat < 2 ^ (8 * (k + 1)) := by
      have byte := b.toNat_lt
      have width : 2 ^ (8 * (k + 1)) = 2 ^ (8 * k) * 256 := by
        rw [Nat.mul_add, pow_add]
        norm_num
      have bound : 2 ^ (8 * k) * b.toNat ≤ 2 ^ (8 * k) * 255 := Nat.mul_le_mul_left _ (by omega)
      omega
    rw [zipIdx_cons, foldl_cons, disjoint, ih (k + 1) _ next, leValue]
    ring

/-- The loop computes the little-endian value. -/
theorem orBytes_eq : orBytes l = leValue l := by
  rw [orBytes, orBytes_from l 0 0 (by simp)]
  simp

theorem byteAt_eq (i : Nat) : byteAt v i = UInt8.ofNat (v / 256 ^ i) := by
  rw [byteAt, Nat.shiftRight_eq_div_pow, pow_mul]
  norm_num

variable (b : UInt8)

theorem byteAt_zero (v : Nat) : byteAt (b.toNat + 256 * v) 0 = b := by
  apply UInt8.toNat_inj.1
  have := b.toNat_lt
  rw [byteAt_eq, UInt8.toNat_ofNat']
  omega

theorem byteAt_succ (v i : Nat) : byteAt (b.toNat + 256 * v) (i + 1) = byteAt v i := by
  have := b.toNat_lt
  rw [byteAt_eq, byteAt_eq, pow_succ', ← Nat.div_div_eq_div_mul]
  congr 2
  omega

theorem byteAt_leValue (i : Nat) (h : i < l.length) : byteAt (leValue l) i = l[i] := by
  induction l generalizing i with
  | nil => simp at h
  | cons b rest ih =>
    cases i with
    | zero => simp [leValue, byteAt_zero]
    | succ i =>
      rw [leValue, byteAt_succ]
      simpa using ih i (by simpa using h)

theorem leBytes_leValue : leBytes l.length (leValue l) = l := by
  apply ext_getElem
  · simp [leBytes]
  · intro i h₁ h₂
    simp [leBytes, byteAt_leValue l i h₂]

/-- Writing the value of a shorter list pads it with zero bytes. -/
theorem leBytes_leValue_pad (l : List UInt8) (fits : l.length ≤ n) :
    leBytes n (leValue l) = padTo n l := by
  have same : leValue (padTo n l) = leValue l := by
    rw [padTo, leValue_append, leValue_replicate_zero, Nat.mul_zero, Nat.add_zero]
  have := leBytes_leValue (padTo n l)
  rwa [padTo_length fits, same] at this

theorem leBytes_length : (leBytes n v).length = n := by
  simp [leBytes]

theorem leValue_leBytes : leValue (leBytes n v) = v % 256 ^ n := by
  induction n generalizing v with
  | zero => simp [leBytes, leValue, Nat.mod_one]
  | succ n ih =>
    have shifted : (range n).map (byteAt v ∘ Nat.succ) = leBytes n (v / 256) := by
      apply map_congr_left
      intro i _
      simp only [Function.comp_apply, byteAt_eq]
      rw [Nat.div_div_eq_div_mul, pow_succ']
    have low : (byteAt v 0).toNat = v % 256 := by
      rw [byteAt_eq, UInt8.toNat_ofNat', pow_zero, Nat.div_one]
    rw [leBytes, range_succ_eq_map, map_cons, map_map, shifted, leValue, ih, low, pow_succ',
      Nat.mod_mul]

theorem leBytes_inj {n v w : Nat} (small : v < 256 ^ n) (small' : w < 256 ^ n)
    (same : leBytes n v = leBytes n w) : v = w := by
  have values := congrArg leValue same
  rwa [leValue_leBytes, leValue_leBytes, Nat.mod_eq_of_lt small, Nat.mod_eq_of_lt small'] at values

end OpaqueDb.Theory
