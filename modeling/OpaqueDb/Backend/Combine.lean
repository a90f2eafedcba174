/-
# Backend.Combine -- the planes of several shards added

A shard answers with its planes or, when it holds no row, with nothing.  `combine`
adds the planes of the shards that answered (`combine_eq`), so what two results hold
by bucket and half-row, their sum holds appended (`Holds.add`).
-/
import OpaqueDb.Backend.EndToEnd
import Mathlib.Data.List.ReduceOption

namespace OpaqueDb.Backend

open OpaqueDb.Core Crypto Theory List

set_option autoImplicit false

variable {ctx : CryptoContext}

section Sum

variable {n i : Nat} (plane : i < n)
include plane

theorem addShardPlane_table (acc : Option (Ciphertext ctx)) (a : Nat → Ciphertext ctx) :
    addShardPlane i acc (shardPartials n (some a)) = some (acc.elim (a i) (· + a i)) := by
  cases acc <;> simp [addShardPlane, shardPartials, table, plane]

variable (shards : List (Option (Nat → Ciphertext ctx)))
include shards

/-- The running sum of one plane. -/
theorem combinePlane_from (sum : Ciphertext ctx) :
    (shards.map (shardPartials n)).foldl (addShardPlane i) (some sum) =
      some (sum + (shards.reduceOption.map fun a => a i).sum) := by
  induction shards generalizing sum with
  | nil => simp
  | cons shard shards ih =>
    rw [map_cons, foldl_cons]
    cases shard with
    | none => exact ih sum
    | some a =>
      rw [addShardPlane_table plane, reduceOption_cons_of_some, map_cons, sum_cons, ← add_assoc]
      exact ih (sum + a i)

theorem combinePlane_eq : combinePlane (shards.map (shardPartials n)) i =
      if shards.reduceOption = [] then none
      else some (shards.reduceOption.map fun a => a i).sum := by
  induction shards with
  | nil => rfl
  | cons shard shards ih =>
    cases shard with
    | none => exact ih
    | some a =>
      rw [combinePlane, map_cons, foldl_cons,
        addShardPlane_table plane]
      exact combinePlane_from plane shards (a i)

end Sum

theorem width_from {n : Nat} (shards : List (Option (Nat → Ciphertext ctx))) (width : Nat) :
    (shards.map (shardPartials n)).foldl (fun width shard => max width shard.length) width =
      if shards.reduceOption = [] then width else max width n := by
  induction shards generalizing width with
  | nil => rfl
  | cons shard shards ih =>
    rw [map_cons, foldl_cons, ih]
    cases shard with
    | none => simp [shardPartials]
    | some a =>
      rw [reduceOption_cons_of_some, if_neg (cons_ne_nil _ _)]
      simp only [shardPartials, Option.elim_some, table_length]
      split <;> omega

/-- **Combining shards** adds the planes of those that answered. -/
theorem combine_eq {n : Nat} (shards : List (Option (Nat → Ciphertext ctx))) :
    combine (shards.map (shardPartials n)) =
      .ok (if shards.reduceOption = [] then [] else table n shards.reduceOption.sum) := by
  have width := width_from (n := n) shards 0
  rw [Nat.zero_max] at width
  have agree : (shards.map (shardPartials n)).find? (fun shard => !shard.isEmpty &&
      shard.length != if shards.reduceOption = [] then 0 else n) = none := by
    rw [find?_eq_none]
    intro partials member
    obtain ⟨shard, listed, rfl⟩ := mem_map.1 member
    cases shard with
    | none => simp [shardPartials]
    | some a =>
      have answered : shards.reduceOption ≠ [] :=
        ne_nil_of_mem (reduceOption_mem_iff.2 listed)
      simp [shardPartials, answered]
  simp only [combine, width, agree]
  split
  · rfl
  · rename_i answered
    have planes : (range n).filterMap (combinePlane (shards.map (shardPartials n))) =
        (range n).filterMap (some ∘ shards.reduceOption.sum) := by
      apply filterMap_congr
      intro i member
      rw [combinePlane_eq (mem_range.1 member), if_neg answered, Function.comp_apply,
        Pi.list_sum_apply]
    rw [planes, filterMap_eq_map, table]

/-- One shard is handed on as it is. -/
theorem combine_single (n : Nat) (shard : Option (Nat → Ciphertext ctx)) :
    combine [shardPartials n shard] = .ok (shardPartials n shard) := by
  have combined := combine_eq (n := n) [shard]
  rw [map_singleton] at combined
  rw [combined]
  cases shard with
  | none => rfl
  | some a => simp [shardPartials]

/-! ## What the sum holds -/

theorem Holds.zero (g : Geometry ctx) : Holds g 0 fun _ _ => [] where
  cells := by simp
  whole := by simp

theorem Holds.add {g : Geometry ctx} {a b : Nat → Ciphertext ctx}
    {records records' : Nat → Nat → List Bytes} (first : Holds g a records)
    (second : Holds g b records') :
    Holds g (a + b) fun half bucket => records half bucket ++ records' half bucket where
  cells := by
    intro p half bucket i inside inHalf inBucket bit
    rw [map_append, sum_append, ← first.cells inside inHalf inBucket bit,
      ← second.cells inside inHalf inBucket bit]
    rfl
  whole := by
    intro half bucket record member
    rcases mem_append.1 member with h | h
    · exact first.whole half bucket record h
    · exact second.whole half bucket record h

/-- The planes of several results hold the records of all of them. -/
theorem Holds.sum {ι : Type*} {g : Geometry ctx} {a : ι → Nat → Ciphertext ctx}
    {records : ι → Nat → Nat → List Bytes} {l : List ι} (each : ∀ s ∈ l, Holds g (a s) (records s)) :
    Holds g (l.map a).sum fun half bucket => l.flatMap fun s => records s half bucket := by
  induction l with
  | nil => exact Holds.zero g
  | cons s l ih =>
    exact (each s mem_cons_self).add (ih fun t member => each t (mem_cons_of_mem _ member))

end OpaqueDb.Backend
