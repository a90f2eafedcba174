/-
# Backend.EndToEnd -- from operand values to decoded buckets

The client's operands, the node's evaluation and the client's decode composed.
`bucketRows` are the rows of one bucket that satisfy the predicate; the two half-rows
of the bucket hold them between them (`matchedRows_perm`).  `evaluate_decodes_buckets`
is the matcher's contract: count, presence, collision and record of every bucket.
-/
import OpaqueDb.Backend.Decode
import OpaqueDb.Theory.Partition
import Mathlib.Tactic.NormNum.Prime

namespace OpaqueDb.Backend

open OpaqueDb.Core Crypto Theory
open List hiding dedup

set_option autoImplicit false

variable {ctx : CryptoContext}

/-! ## Operands -/

variable (values distinct : List UInt64)

theorem dedup_from (fresh : (distinct ++ values).Nodup) : values.foldl (fun distinct value =>
      if distinct.contains value then distinct else distinct ++ [value]) distinct =
      distinct ++ values := by
  induction values generalizing distinct with
  | nil => simp
  | cons value values ih =>
    have absent : value ∉ distinct := by
      have := (nodup_append.1 fresh).2.2
      intro member
      exact this value member value mem_cons_self rfl
    have shifted : ((distinct ++ [value]) ++ values).Nodup := by
      rw [append_assoc]
      exact fresh
    rw [foldl_cons, if_neg (by simpa using absent), ih _ shifted, append_assoc]
    rfl

/-- The loop keeps no value twice, and no more than it was given. -/
theorem dedup_from_nodup (once : distinct.Nodup) : (values.foldl (fun distinct value =>
      if distinct.contains value then distinct else distinct ++ [value]) distinct).Nodup ∧
    ∃ kept, kept.Sublist values ∧ values.foldl (fun distinct value =>
      if distinct.contains value then distinct else distinct ++ [value]) distinct =
        distinct ++ kept := by
  induction values generalizing distinct with
  | nil => exact ⟨once, [], nil_sublist _, by simp⟩
  | cons value values ih =>
    rw [foldl_cons]
    by_cases seen : value ∈ distinct
    · rw [if_pos (by simpa using seen)]
      obtain ⟨nodup, kept, sublist, same⟩ := ih distinct once
      exact ⟨nodup, kept, sublist.cons value, same⟩
    · rw [if_neg (by simpa using seen)]
      have longer : (distinct ++ [value]).Nodup := by
        rw [nodup_append]
        exact ⟨once, nodup_singleton _, fun a member b same => by
          rintro rfl
          exact seen (mem_singleton.1 same ▸ member)⟩
      obtain ⟨nodup, kept, sublist, same⟩ := ih (distinct ++ [value]) longer
      exact ⟨nodup, value :: kept, sublist.cons_cons value, by rw [same, append_assoc]; rfl⟩

/-- Distinct operand values are all kept, in order. -/
theorem dedup_of_nodup {values : List UInt64} (distinct : values.Nodup) : dedup values = values :=
  dedup_from values [] distinct

/-- Nothing is dropped exactly when the values are distinct. -/
theorem dedup_length_iff : (dedup values).length = values.length ↔ values.Nodup := by
  constructor
  · intro whole
    obtain ⟨nodup, kept, sublist, same⟩ := dedup_from_nodup values [] nodup_nil
    rw [nil_append] at same
    have all : kept = values := sublist.eq_of_length (by rw [← same]; exact whole)
    rw [same, all] at nodup
    exact nodup
  · intro distinct
    rw [dedup_of_nodup distinct]

/-- The client sends one tiled ciphertext for each distinct value. -/
theorem buildEncryptedOperands_dedup {keyBits : Nat} (pos : 0 < keyBits) (small : keyBits ≤ 64)
    {operands : List UInt64} (some_ : operands ≠ []) :
    buildEncryptedOperands ctx operands keyBits = .ok ((dedup operands).map (tile keyBits)) := by
  rw [buildEncryptedOperands, if_neg (by omega), if_neg (by simpa using some_)]
  exact mapM_eq_ok fun value _ => encryptOperand_eq pos value

theorem buildEncryptedOperands_eq {g : Geometry ctx} (small : g.keyBits ≤ 64)
    {operands : List UInt64} (some_ : operands ≠ []) (distinct : operands.Nodup) :
    buildEncryptedOperands ctx operands g.keyBits = .ok (operands.map (tile g.keyBits)) := by
  rw [buildEncryptedOperands_dedup g.keyBits_pos small some_, dedup_of_nodup distinct]

/-! ## Acceptance -/

/-- A shard's partials: nothing, or `n` planes. -/
def shardPartials (n : Nat) (shard : Option (Nat → Ciphertext ctx)) : List (Ciphertext ctx) :=
  shard.elim [] (table n)

/-- The planes a shard with these rows answers with, if it has any row. -/
def shardPlanes (g : Geometry ctx) (keys : List UInt64) (rows : List Bytes) (op : Op)
    (operands : List UInt64) : Option (Nat → Ciphertext ctx) :=
  if keys = [] then none else some (resultPlane g keys rows op operands)

variable (g : Geometry ctx) (hardwareConcurrency : Nat)

variable {rows : List Bytes} (query : EncryptedQuery ctx)

/-- On an accepted geometry and a non-empty table the checks of `evaluate` pass. -/
theorem evaluate_eq_rows (equality : query.op = .eq ∨ query.op = .ne)
    (buckets : effectiveBuckets query.resultBuckets = g.buckets) {keys : List UInt64}
    (sameLength : keys.length = rows.length) (some_ : keys ≠ []) :
    evaluate hardwareConcurrency query ⟨g.keyBits, keys⟩ ⟨g.recordBytes, g.bytesPerSlot, rows⟩ =
      evaluateRows hardwareConcurrency g query keys rows := by
  have half : ctx.slotCount / 2 = ctx.row := Nat.mul_div_cancel_left _ (by decide)
  have supported : ¬ (query.op ≠ .eq ∧ query.op ≠ .ne) := by
    rcases equality with h | h <;> simp [h]
  have power := (isPowerOfTwo_iff _).2 g.keyBits_pow
  have several := (isPowerOfTwo_iff _).2 g.buckets_pow
  have payload := g.payload_pos
  have inRow : ¬ (g.keyBits > ctx.row ∨ ctx.row % g.keyBits ≠ 0) := by
    have := Nat.le_mul_of_pos_right g.keyBits g.buckets_pos
    have := g.room
    have := Nat.mod_eq_zero_of_dvd g.keyBits_dvd_row
    omega
  have inBlocks : ¬ (g.buckets > u32 (ctx.row / g.keyBits)) := by
    have le : g.buckets ≤ ctx.row / g.keyBits :=
      (Nat.le_div_iff_mul_le g.keyBits_pos).2 (by rw [Nat.mul_comm]; exact g.room)
    have := Nat.div_le_self ctx.row g.keyBits
    have := ctx.slots_lt
    rw [u32_of_lt (by omega)]
    omega
  have length : ¬ keys.length = 0 := by simpa using some_
  unfold evaluate acceptedGeometry
  simp only [half, buckets]
  rw [if_neg supported, if_neg (by simpa using sameLength), dif_neg (by simp [power]),
    dif_neg payload, if_neg length, if_neg inRow, dif_neg (by simp [several]; omega)]
  rfl

/-- An empty table is answered with no planes. -/
theorem evaluate_empty (equality : query.op = .eq ∨ query.op = .ne) :
    evaluate hardwareConcurrency query ⟨g.keyBits, []⟩ ⟨g.recordBytes, g.bytesPerSlot, []⟩ =
      .ok [] := by
  have supported : ¬ (query.op ≠ .eq ∧ query.op ≠ .ne) := by
    rcases equality with h | h <;> simp [h]
  have power := (isPowerOfTwo_iff _).2 g.keyBits_pow
  unfold evaluate acceptedGeometry
  rw [if_neg supported, if_neg (fun h => h rfl), dif_neg (by simp [power]), dif_neg g.payload_pos,
    if_pos length_nil]
  rfl

/-- **One shard's answer.**  On an accepted geometry the encrypted operands are evaluated
to the planes of the matching rows, or to nothing when there are no rows. -/
theorem evaluate_eq_partials {g : Geometry ctx} (carries : g.Carries) {keys : List UInt64}
    (columns : Columns g keys rows) {query : EncryptedQuery ctx}
    (equality : query.op = .eq ∨ query.op = .ne) {operands : List UInt64}
    (encrypts : Encrypts g query operands)
    (buckets : effectiveBuckets query.resultBuckets = g.buckets) (hardwareConcurrency : Nat) :
    evaluate hardwareConcurrency query ⟨g.keyBits, keys⟩ ⟨g.recordBytes, g.bytesPerSlot, rows⟩ =
      .ok (shardPartials (g.planes + 1) (shardPlanes g keys rows query.op operands)) := by
  by_cases none_ : keys = []
  · subst none_
    obtain rfl : rows = [] := length_eq_zero_iff.1 columns.sameLength.symm
    exact evaluate_empty g _ _ equality
  · rw [evaluate_eq_rows g _ _ equality buckets columns.sameLength none_,
      evaluateRows_eq carries columns encrypts, shardPlanes, if_neg none_]
    rfl

/-! ## The rows of a bucket -/

/-- The rows placed in a bucket that satisfy the predicate, in table order. -/
def bucketRows (buckets : Nat) (keys : List UInt64) (op : Op) (operands : List UInt64)
    (bucket : Nat) : List Nat :=
  (range keys.length).filter fun r =>
    rowBucket buckets keys r = bucket ∧ satisfies op operands (keyAt keys r)

variable (keys : List UInt64)

/-- The multiplicity of a key, counted by rows. -/
theorem count_keyAt (v : UInt64) :
    Nat.count (fun i => keyAt keys i = v) keys.length = keys.count v := by
  induction keys with
  | nil => rfl
  | cons key keys ih =>
    rw [length_cons, Nat.count_succ', count_cons]
    show Nat.count (fun i => keyAt keys i = v) keys.length + _ = _
    rw [ih]
    simp [keyAt]

/-- The rows that satisfy the predicate, in table order. -/
def matchingRows (keys : List UInt64) (op : Op) (operands : List UInt64) : List Nat :=
  (range keys.length).filter fun r => satisfies op operands (keyAt keys r)

theorem bucketRows_eq (buckets : Nat) (keys : List UInt64) (op : Op) (operands : List UInt64)
    (bucket : Nat) :
    bucketRows buckets keys op operands bucket =
      (matchingRows keys op operands).filter fun r => rowBucket buckets keys r = bucket := by
  rw [bucketRows, matchingRows]
  simp

variable (op : Op) (operands : List UInt64)

/-- The buckets hold every matching row, each once. -/
theorem bucketRows_perm :
    ((range g.buckets).flatMap (bucketRows g.buckets keys op operands)).Perm
      (matchingRows keys op operands) := by
  have classes := classes_perm (f := rowBucket g.buckets keys) (l := matchingRows keys op operands)
    (nodup_range (n := g.buckets)) fun r _ => mem_range.2 (rowBucket_lt g keys r)
  simpa only [← bucketRows_eq] using classes

/-- Rows of one key, no more than there are buckets, are in different buckets. -/
theorem bucketRows_point {g : Geometry ctx} {keys : List UInt64} {v : UInt64}
    (few : keys.count v ≤ g.buckets) (bucket : Nat) :
    (bucketRows g.buckets keys .eq [v] bucket).length ≤ 1 := by
  have key : ∀ r ∈ bucketRows g.buckets keys .eq [v] bucket,
      r < keys.length ∧ rowBucket g.buckets keys r = bucket ∧ keyAt keys r = v := by
    intro r member
    have facts := mem_filter.1 member
    simpa [satisfies] using facts
  have ranked : ∀ r ∈ bucketRows g.buckets keys .eq [v] bucket, rank (keyAt keys) r < g.buckets := by
    intro r member
    obtain ⟨inside, _, rfl⟩ := key r member
    refine lt_of_lt_of_le (rank_lt_count inside) ?_
    rwa [count_keyAt]
  have same : ∀ r ∈ bucketRows g.buckets keys .eq [v] bucket,
      ∀ s ∈ bucketRows g.buckets keys .eq [v] bucket, r = s := by
    intro r first s second
    obtain ⟨_, bucket_, value⟩ := key r first
    obtain ⟨_, bucket', value'⟩ := key s second
    rw [← bucket', rowBucket, rowBucket, value, value'] at bucket_
    have ranks := Nat.ModEq.eq_of_lt_of_lt (Nat.ModEq.add_left_cancel' _ bucket_) (ranked r first)
      (ranked s second)
    exact rank_inj (value.trans value'.symm) ranks
  have once : (bucketRows g.buckets keys .eq [v] bucket).Nodup := nodup_range.filter _
  rcases found : bucketRows g.buckets keys .eq [v] bucket with _ | ⟨r, _ | ⟨s, rest⟩⟩
  · simp
  · simp
  · rw [found] at once same
    have equal := same r mem_cons_self s (mem_cons_of_mem _ mem_cons_self)
    exact absurd (equal ▸ mem_cons_self) (nodup_cons.1 once).1

theorem matchedRows_perm (bucket : Nat) :
    (matchedRows g keys op operands 0 bucket ++ matchedRows g keys op operands 1 bucket).Perm
      (bucketRows g.buckets keys op operands bucket) := by
  have first : matchedRows g keys op operands 0 bucket =
      (bucketRows g.buckets keys op operands bucket).filter fun r => rowHalf g keys r = 0 := by
    rw [matchedRows, bucketRows]
    simp
  have second : matchedRows g keys op operands 1 bucket =
      (bucketRows g.buckets keys op operands bucket).filter fun r => !decide (rowHalf g keys r = 0) := by
    rw [bucketRows, filter_filter]
    apply filter_congr
    intro r _
    have half := rowHalf_lt g keys r
    have other : rowHalf g keys r = 1 ↔ ¬ rowHalf g keys r = 0 := by omega
    simp [other]
  rw [first, second]
  exact filter_append_perm _ _

/-- The two half-rows of a bucket hold the records of its matching rows. -/
theorem matchedRecords_perm (rows : List Bytes) (op : Op) (operands : List UInt64) (bucket : Nat) :
    (matchedRecords g keys rows op operands 0 bucket ++
        matchedRecords g keys rows op operands 1 bucket).Perm
      ((bucketRows g.buckets keys op operands bucket).map (rowAt rows)) := by
  rw [matchedRecords, matchedRecords, ← map_append]
  exact (matchedRows_perm g keys op operands bucket).map _

/-! ## The matcher's contract -/

/-- **The matcher end to end.**  On any accepted geometry the slots can carry, for any
non-empty table of keys inside the universe and any distinct operands, the client's
operands evaluate and decode, and every bucket with fewer matching rows than the
modulus reports exactly them. -/
theorem evaluate_decodes_buckets (g : Geometry ctx) (carries : g.Carries) {keys : List UInt64}
    {rows : List Bytes} (columns : Columns g keys rows) (someRow : keys ≠ []) {op : Op}
    (equality : op = .eq ∨ op = .ne) {operands : List UInt64} (someOperand : operands ≠ [])
    (distinct : operands.Nodup) (inside : ∀ value ∈ operands, value.toNat < 2 ^ g.keyBits)
    (resultBuckets : Nat) (buckets : effectiveBuckets resultBuckets = g.buckets)
    (hardwareConcurrency : Nat) :
    ∃ query extra ciphers results,
      buildEncryptedOperands ctx operands g.keyBits = .ok (query :: extra) ∧
      evaluate hardwareConcurrency ⟨op, query, extra, resultBuckets⟩ ⟨g.keyBits, keys⟩
        ⟨g.recordBytes, g.bytesPerSlot, rows⟩ = .ok ciphers ∧
      decryptResults ctx ciphers g.keyBits g.recordBytes g.bytesPerSlot g.buckets 0 g.buckets =
        .ok results ∧
      results.length = g.buckets ∧
      ∀ bucket (inBucket : bucket < results.length),
        let matching := bucketRows g.buckets keys op operands bucket
        matching.length < ctx.plainModulus →
          results[bucket].count = matching.length ∧
          (results[bucket].present = true ↔ 1 ≤ matching.length) ∧
          (results[bucket].collided = true ↔ 2 ≤ matching.length) ∧
          ∀ r, matching = [r] → results[bucket].record = rowAt rows r := by
  obtain ⟨query, extra, tiles⟩ : ∃ query extra,
      operands.map (tile g.keyBits) = (query :: extra : List (Ciphertext ctx)) := by
    cases operands with
    | nil => exact absurd rfl someOperand
    | cons value rest => exact ⟨_, _, rfl⟩
  have encrypts : Encrypts g ⟨op, query, extra, resultBuckets⟩ operands :=
    ⟨tiles.symm, distinct, inside⟩
  have holds := evaluate_holds columns op operands
  have decoded := decryptResults_holds carries holds 0 g.buckets
  rw [windowBuckets_all] at decoded
  refine ⟨query, extra, _, _, ?_, ?_, decoded, ?_, ?_⟩
  · rw [buildEncryptedOperands_eq carries.keyBits_le someOperand distinct, tiles]
  · rw [evaluate_eq_partials carries columns equality encrypts buckets, shardPlanes, if_neg someRow]
    rfl
  · rw [length_map, length_range]
  · intro bucket inBucket matching few
    have perm := matchedRecords_perm g keys rows op operands bucket
    have length := perm.length_eq
    rw [length_map] at length
    have entry : ((range g.buckets).map fun bucket =>
        bucketRead g (matchedRecords g keys rows op operands 0 bucket)
          (matchedRecords g keys rows op operands 1 bucket))[bucket] =
        bucketResult (matching.map (rowAt rows)) := by
      rw [getElem_map, getElem_range, bucketRead_few carries (holds.whole_bucket bucket)
        (by rw [length]; exact few), bucketResult_perm perm]
    rw [entry, bucketResult_count, bucketResult_present, bucketResult_collided, length_map]
    refine ⟨rfl, Iff.rfl, Iff.rfl, fun r single => ?_⟩
    rw [single]
    rfl

/-- The batching prime of the default degree and plaintext bits. -/
def defaultContext : CryptoContext where
  row := 8192
  plainModulus := 786433
  row_pow := ⟨13, rfl⟩
  slots_lt := by decide
  prime := by norm_num
  modulus_lt := by decide

/-- Two-bit keys, records of three bytes at two bytes a slot, two buckets. -/
def sampleGeometry : Geometry defaultContext where
  keyBits := 2
  bytesPerSlot := 2
  recordBytes := 3
  buckets := 2
  keyBits_pow := ⟨1, rfl⟩
  buckets_pow := ⟨1, rfl⟩
  payload_pos := by decide
  room := by decide

theorem sampleGeometry_carries : sampleGeometry.Carries where
  bytesPerSlot_le := by decide
  keyBits_le := by decide
  recordBytes_le := by decide
  modulus := by decide

theorem evaluate_decodes_three_rows :
    ∃ query extra ciphers results,
      buildEncryptedOperands defaultContext [1] 2 = .ok (query :: extra) ∧
      evaluate 4 ⟨.eq, query, extra, 2⟩ ⟨2, [1, 0, 1]⟩ ⟨3, 2, [[1, 2, 3], [4, 5, 6], [7, 8, 9]]⟩ =
        .ok ciphers ∧
      decryptResults defaultContext ciphers 2 3 2 2 0 2 = .ok results ∧ results.length = 2 := by
  obtain ⟨query, extra, ciphers, results, built, evaluated, decoded, length, _⟩ :=
    evaluate_decodes_buckets sampleGeometry sampleGeometry_carries
      (show Columns sampleGeometry [1, 0, 1] [[1, 2, 3], [4, 5, 6], [7, 8, 9]] from
        ⟨by decide, by simp [sampleGeometry], by decide⟩)
      (by decide) (Or.inl rfl) (show ([1] : List UInt64) ≠ [] by decide) (by decide)
      (by simp [sampleGeometry]) 2
      (by decide) 4
  exact ⟨query, extra, ciphers, results, built, evaluated, decoded, length⟩

end OpaqueDb.Backend
