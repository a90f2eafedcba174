/-
# Backend.Shards -- a table split by its keys and combined again

A row's bucket depends on its key and on how many earlier rows have the same key, so a
split of the table that keeps all rows of one key together, in order, leaves every row in
its bucket (`bucketEntries_filter`).  Each shard packs its rows into batches of its own,
but the sum of the shards' planes holds, bucket by bucket, the records the whole table's
planes hold: `combine_decodes`.
-/
import OpaqueDb.Backend.Combine

namespace OpaqueDb.Backend

open OpaqueDb.Core Crypto Theory List

set_option autoImplicit false

universe u v

variable {ctx : CryptoContext} {β : Type u} (key : β → UInt64) (record : β → Bytes)

variable (buckets : Nat)

/-- The entries of a bucket that satisfy the predicate, with their ranks. -/
def bucketEntries (op : Op) (operands : List UInt64) (l : List β) (bucket : Nat) : List (β × Nat) :=
  (rankedFrom key [] l).filter fun x =>
    ((mix (key x.1)).toNat + x.2) % buckets = bucket ∧ satisfies op operands (key x.1)

/-- The records of a bucket's matching rows, in table order. -/
def bucketRecords (op : Op) (operands : List UInt64) (l : List β) (bucket : Nat) : List Bytes :=
  (bucketEntries key buckets op operands l bucket).map fun x => record x.1

/-- The rows of a bucket by number and by rank are the same. -/
theorem bucketRecords_eq (op : Op) (operands : List UInt64) (l : List β) (bucket : Nat) :
    (bucketRows buckets (l.map key) op operands bucket).map (rowAt (l.map record)) =
      bucketRecords key record buckets op operands l bucket := by
  cases l with
  | nil => rfl
  | cons first rest =>
    generalize whole : first :: rest = l
    have keys : ∀ r ∈ range l.length, keyAt (l.map key) r = key (l.getD r first) := by
      intro r member
      have inside := mem_range.1 member
      simp [keyAt, inside]
    have records : ∀ r ∈ range l.length, rowAt (l.map record) r = record (l.getD r first) := by
      intro r member
      have inside := mem_range.1 member
      simp [rowAt, inside]
    have ranks : ∀ r ∈ range l.length, rank (keyAt (l.map key)) r =
        rank (fun i => key (l.getD i first)) r := by
      intro r member
      have inside := mem_range.1 member
      rw [rank, rank, Nat.count_eq_card_filter_range, Nat.count_eq_card_filter_range]
      congr 1
      apply Finset.filter_congr
      intro i below
      have earlier := Finset.mem_range.1 below
      rw [keys r member, keys i (mem_range.2 (by omega))]
    rw [bucketRecords, bucketEntries, rankedFrom_eq key [] l first, filter_map, map_map,
      bucketRows, length_map]
    have chosen : (range l.length).filter (fun r => decide
        (rowBucket buckets (l.map key) r = bucket ∧ satisfies op operands (keyAt (l.map key) r))) =
        (range l.length).filter ((fun x : β × Nat => decide
          (((mix (key x.1)).toNat + x.2) % buckets = bucket ∧ satisfies op operands (key x.1))) ∘
          fun r => (l.getD r first, ([] : List UInt64).count (key (l.getD r first)) +
            rank (fun i => key (l.getD i first)) r)) := by
      apply filter_congr
      intro r member
      rw [Function.comp_apply, rowBucket, keys r member, ranks r member, count_nil, Nat.zero_add]
    rw [chosen]
    apply map_congr_left
    intro r member
    exact records r (mem_of_mem_filter member)

/-- **A shard's bucket** is the part of the table's bucket that the shard's keys are in. -/
theorem bucketEntries_filter (op : Op) (operands : List UInt64) (p : UInt64 → Bool) (l : List β)
    (bucket : Nat) : bucketEntries key buckets op operands (l.filter fun x => p (key x)) bucket =
      (bucketEntries key buckets op operands l bucket).filter fun x => p (key x.1) := by
  have ranked := rankedFrom_filter key p [] l
  rw [filter_nil] at ranked
  rw [bucketEntries, bucketEntries, ranked, filter_filter, filter_filter]
  apply filter_congr
  intro x _
  exact Bool.and_comm _ _

/-! ## Shards -/

section Shards

variable {κ : Type v} [DecidableEq κ] {owner : UInt64 → κ} {ids : List κ} (l : List β)
  (once : ids.Nodup) (covered : ∀ x ∈ l, owner (key x) ∈ ids)

/-- The rows of one owner, in table order. -/
def shardOf (owner : UInt64 → κ) (l : List β) (id : κ) : List β :=
  l.filter fun x => owner (key x) = id

include once covered

theorem bucketRecords_shards (buckets : Nat) (op : Op) (operands : List UInt64) (bucket : Nat) :
    (ids.flatMap fun id => bucketRecords key record buckets op operands (shardOf key owner l id)
      bucket).Perm (bucketRecords key record buckets op operands l bucket) := by
  have entries : ∀ id, bucketEntries key buckets op operands (shardOf key owner l id) bucket =
      (bucketEntries key buckets op operands l bucket).filter fun x => owner (key x.1) = id :=
    fun id => bucketEntries_filter key buckets op operands (fun k => decide (owner k = id)) l bucket
  have listed : ∀ x ∈ bucketEntries key buckets op operands l bucket, owner (key x.1) ∈ ids := by
    intro x member
    have ranked := mem_of_mem_filter member
    cases l with
    | nil => cases ranked
    | cons first rest =>
      rw [rankedFrom_eq key [] _ first] at ranked
      obtain ⟨r, inside, rfl⟩ := mem_map.1 ranked
      refine covered _ ?_
      rw [getD_eq_getElem _ _ (mem_range.1 inside)]
      exact getElem_mem _
  have classes := (classes_perm (f := fun x : β × Nat => owner (key x.1)) once listed).map
    fun x => record x.1
  rw [map_flatMap] at classes
  simpa only [bucketRecords, entries] using classes

omit once in
theorem shards_empty_iff : (∀ id ∈ ids, shardOf key owner l id = []) ↔ l = [] := by
  constructor
  · intro empty
    cases l with
    | nil => rfl
    | cons x rest =>
      have member : x ∈ shardOf key owner (x :: rest) (owner (key x)) :=
        mem_filter.2 ⟨mem_cons_self, by simp⟩
      rw [empty _ (covered x mem_cons_self)] at member
      cases member
  · rintro rfl id _
    rfl

/-- The planes of one owner's rows. -/
def ownerPlanes (g : Geometry ctx) (owner : UInt64 → κ) (op : Op) (operands : List UInt64)
    (l : List β) (id : κ) : Option (Nat → Ciphertext ctx) :=
  shardPlanes g ((shardOf key owner l id).map key) ((shardOf key owner l id).map record) op operands

omit once covered in
theorem reduceOption_ownerPlanes (g : Geometry ctx) (op : Op) (operands : List UInt64)
    (ids : List κ) :
    (ids.map (ownerPlanes key record g owner op operands l)).reduceOption =
      (ids.filter fun id => !(shardOf key owner l id).isEmpty).map fun id =>
        resultPlane g ((shardOf key owner l id).map key) ((shardOf key owner l id).map record) op
          operands := by
  induction ids with
  | nil => rfl
  | cons id ids ih =>
    rw [map_cons]
    by_cases empty : shardOf key owner l id = []
    · have none_ : ownerPlanes key record g owner op operands l id = none := by
        simp [ownerPlanes, shardPlanes, empty]
      rw [none_, reduceOption_cons_of_none, ih, filter_cons_of_neg (by simp [empty])]
    · have answered : ownerPlanes key record g owner op operands l id =
          some (resultPlane g ((shardOf key owner l id).map key)
            ((shardOf key owner l id).map record) op operands) := by
        simp [ownerPlanes, shardPlanes, empty]
      rw [answered, reduceOption_cons_of_some, ih, filter_cons_of_pos (by simpa using empty),
        map_cons]

omit once covered in
theorem columns_shard {g : Geometry ctx} (columns : Columns g (l.map key) (l.map record))
    (owner : UInt64 → κ) (id : κ) :
    Columns g ((shardOf key owner l id).map key) ((shardOf key owner l id).map record) where
  sameLength := by simp
  keysInside := by
    intro k member
    obtain ⟨x, kept, rfl⟩ := mem_map.1 member
    exact columns.keysInside _ (mem_map_of_mem (mem_of_mem_filter kept))
  whole := by
    intro row member
    obtain ⟨x, kept, rfl⟩ := mem_map.1 member
    exact columns.whole _ (mem_map_of_mem (mem_of_mem_filter kept))

end Shards

/-- The buckets of a table as the client reads them. -/
def tableBuckets (g : Geometry ctx) (op : Op) (operands : List UInt64) (l : List β) :
    List BucketResult :=
  (range g.buckets).map fun bucket =>
    bucketResult (bucketRecords key record g.buckets op operands l bucket)

variable {g : Geometry ctx} (carries : g.Carries) {op : Op} {operands : List UInt64} {l : List β}

include carries in
/-- Planes that hold the table's matching records, bucket by bucket and in any order, are
read as the table. -/
theorem decrypt_tableBuckets (few : ∀ bucket < g.buckets,
      (bucketRecords key record g.buckets op operands l bucket).length < ctx.plainModulus)
    {a : Nat → Ciphertext ctx} {records : Nat → Nat → List Bytes} (holds : Holds g a records)
    (perm : ∀ bucket < g.buckets, (records 0 bucket ++ records 1 bucket).Perm
      (bucketRecords key record g.buckets op operands l bucket)) :
    decryptResults ctx (table (g.planes + 1) a) g.keyBits g.recordBytes g.bytesPerSlot g.buckets 0
      g.buckets = .ok (tableBuckets key record g op operands l) := by
  rw [decryptResults_holds carries holds, windowBuckets_all]
  congr 1
  apply map_congr_left
  intro bucket member
  have inside := mem_range.1 member
  have count := few bucket inside
  rw [← (perm bucket inside).length_eq] at count
  rw [bucketRead_few carries (holds.whole_bucket bucket) count, bucketResult_perm (perm bucket inside)]

section Answers

variable (columns : Columns g (l.map key) (l.map record))
  (few : ∀ bucket < g.buckets,
    (bucketRecords key record g.buckets op operands l bucket).length < ctx.plainModulus)
include carries columns few

/-- The whole table on one node. -/
theorem single_decodes (some_ : l ≠ []) :
    decryptResults ctx (shardPartials (g.planes + 1) (shardPlanes g (l.map key) (l.map record) op
      operands)) g.keyBits g.recordBytes g.bytesPerSlot g.buckets 0 g.buckets =
        .ok (tableBuckets key record g op operands l) := by
  rw [shardPlanes, if_neg (by simpa using some_)]
  refine decrypt_tableBuckets key record carries few (evaluate_holds columns op operands) ?_
  intro bucket _
  rw [← bucketRecords_eq]
  exact matchedRecords_perm g _ _ op operands bucket

/-- **The shards combined.**  The table split by the owner of each key, evaluated shard by
shard and added up, is read as the whole table; nothing is sent when there is no row. -/
theorem combine_decodes {κ : Type v} [DecidableEq κ] {owner : UInt64 → κ} {ids : List κ}
    (once : ids.Nodup) (covered : ∀ x ∈ l, owner (key x) ∈ ids) :
    ∃ combined, combine (ids.map fun id =>
        shardPartials (g.planes + 1) (ownerPlanes key record g owner op operands l id)) =
          .ok combined ∧ (l = [] → combined = []) ∧
      (l ≠ [] → decryptResults ctx combined g.keyBits g.recordBytes g.bytesPerSlot g.buckets 0
        g.buckets = .ok (tableBuckets key record g op operands l)) := by
  have sum := combine_eq (n := g.planes + 1) (ids.map (ownerPlanes key record g owner op operands l))
  rw [map_map, reduceOption_ownerPlanes] at sum
  have empty : (ids.filter fun id => !(shardOf key owner l id).isEmpty) = [] ↔ l = [] := by
    rw [← shards_empty_iff key l covered]
    simp
  refine ⟨_, sum, fun none_ => ?_, fun some_ => ?_⟩
  · rw [empty.2 none_]
    rfl
  · rw [if_neg (by simpa using fun h => some_ (empty.1 h))]
    have holds := Holds.sum (l := ids.filter fun id => !(shardOf key owner l id).isEmpty)
      fun id _ => evaluate_holds (columns_shard key record l columns owner id) op operands
    refine decrypt_tableBuckets key record carries few holds ?_
    intro bucket _
    have halves : ∀ id, (matchedRecords g ((shardOf key owner l id).map key)
        ((shardOf key owner l id).map record) op operands 0 bucket ++
        matchedRecords g ((shardOf key owner l id).map key)
          ((shardOf key owner l id).map record) op operands 1 bucket).Perm
        (bucketRecords key record g.buckets op operands (shardOf key owner l id) bucket) := by
      intro id
      rw [← bucketRecords_eq]
      exact matchedRecords_perm g _ _ op operands bucket
    -- a shard without rows adds nothing
    have answered := flatMap_filter_of_nil (l := ids)
      (p := fun id => !(shardOf key owner l id).isEmpty)
      (f := fun id => bucketRecords key record g.buckets op operands (shardOf key owner l id) bucket)
      (by
        intro id _ none_
        have nothing : shardOf key owner l id = [] := by simpa using none_
        rw [nothing]
        rfl)
    refine (flatMap_append_perm _ _ _).trans ?_
    refine (List.Perm.flatMap_left _ fun id _ => halves id).trans ?_
    rw [answered]
    exact bucketRecords_shards key record l once covered g.buckets op operands bucket

end Answers

end OpaqueDb.Backend
