/-
# Backend.Layout -- where the placement loop puts every row

`place` threads two families of counters and a growing batch list through the rows.
This module replaces it by closed forms: row `r` goes to bucket
`(Mix(key) + rank) % buckets`, where the rank counts the earlier rows of the same
key (`rowBucket`), and it is the `rowOrder`-th row of that bucket, which fixes its
batch, its half-row and its block.  `place_placed` is the invariant of the loop;
what the matcher needs follows from it:

* `batch_ne_nil`: every batch holds a row, so its occupancy plaintext is nonzero;
* `slotAt_inj`: two rows of one batch never share a block;
* `slotAt_eq`: the slot is half-row, bucket segment and block, each in range.
-/
import OpaqueDb.Backend.Reference
import OpaqueDb.Theory.Rank

namespace OpaqueDb.Backend

open OpaqueDb.Core Crypto Theory List Function

set_option autoImplicit false

variable {ctx : CryptoContext}

/-! ## The accepted geometry -/

theorem log2Loop_pow (e : Nat) : ∀ (fuel l : Nat), l ≤ e → e ≤ l + fuel →
    log2Loop (2 ^ e) fuel l = e
  | 0, l, le, enough => by
    rw [log2Loop]
    omega
  | fuel + 1, l, le, enough => by
    rw [log2Loop]
    split
    · rename_i more
      have : l < e := (Nat.pow_lt_pow_iff_right (by decide)).1 more
      exact log2Loop_pow e fuel (l + 1) (by omega) (by omega)
    · rename_i done
      have : ¬ l < e := fun lt => done (Nat.pow_lt_pow_right (by decide) lt)
      omega

theorem log2_pow (e : Nat) : log2 (2 ^ e) = e :=
  log2Loop_pow e _ 0 (by omega) (by have := e.lt_two_pow_self; omega)

namespace Geometry

variable (g : Geometry ctx)

theorem keyBits_eq : g.keyBits = 2 ^ g.levels := by
  obtain ⟨e, he⟩ := g.keyBits_pow
  rw [levels, he, log2_pow]

theorem keyBits_pos : 0 < g.keyBits := by
  rw [g.keyBits_eq]
  exact Nat.two_pow_pos _

theorem buckets_pos : 0 < g.buckets := by
  obtain ⟨b, hb⟩ := g.buckets_pow
  rw [hb]
  exact Nat.two_pow_pos b

/-- The bucket width in blocks is a power of two and the row is filled exactly. -/
theorem row_factors : ∃ s, g.seg = 2 ^ s ∧ ctx.row = g.buckets * (g.seg * g.keyBits) := by
  obtain ⟨r, hr⟩ := ctx.row_pow
  obtain ⟨b, hb⟩ := g.buckets_pow
  have hk := g.keyBits_eq
  have room := g.room
  rw [hr, hb, hk, ← pow_add] at room
  have le : g.levels + b ≤ r := (Nat.pow_le_pow_iff_right (by decide)).1 room
  have segment : g.seg = 2 ^ (r - g.levels - b) := by
    rw [seg, blocksPerRow, hr, hk, hb, Nat.pow_div (by omega) (by decide),
      Nat.pow_div (by omega) (by decide)]
  refine ⟨r - g.levels - b, segment, ?_⟩
  rw [segment, hr, hb, hk, ← pow_add, ← pow_add]
  congr 1
  omega

theorem row_eq : ctx.row = g.buckets * (g.seg * g.keyBits) := by
  obtain ⟨_, _, h⟩ := g.row_factors
  exact h

theorem seg_pos : 0 < g.seg := by
  obtain ⟨s, hs, _⟩ := g.row_factors
  rw [hs]
  exact Nat.two_pow_pos s

theorem stride_eq : g.stride = g.seg * g.keyBits := by
  have several := g.buckets_pos
  rw [stride, bucketStride, CryptoContext.slotCount, u32_of_lt ctx.slots_lt, if_neg (by omega),
    Nat.mul_div_cancel_left _ (by decide), g.row_eq, Nat.mul_div_cancel_left _ several]

theorem row_eq_stride : ctx.row = g.buckets * g.stride := by
  rw [g.stride_eq]
  exact g.row_eq

theorem keyBits_dvd_row : g.keyBits ∣ ctx.row := by
  rw [g.row_eq, ← Nat.mul_assoc]
  exact Nat.dvd_mul_left _ _

theorem keyBits_le_stride : g.keyBits ≤ g.stride := by
  rw [g.stride_eq]
  exact Nat.le_mul_of_pos_left _ g.seg_pos

theorem buckets_dvd_word : g.buckets ∣ 2 ^ 32 := by
  obtain ⟨b, hb⟩ := g.buckets_pow
  have small : 2 ^ b ≤ 2 ^ 32 := by
    have := g.room
    have := Nat.le_mul_of_pos_left g.buckets g.keyBits_pos
    have := ctx.slots_lt
    omega
  rw [hb]
  exact pow_dvd_pow 2 ((Nat.pow_le_pow_iff_right (by decide)).1 small)

end Geometry

/-! ## Closed forms of the placement -/

/-- The bucket of row `r`: its key's start bucket, moved on by the row's rank among
the rows of that key. -/
def rowBucket (buckets : Nat) (keys : List UInt64) (r : Nat) : Nat :=
  ((mix (keyAt keys r)).toNat + rank (keyAt keys) r) % buckets

/-- How many rows row `r`'s bucket received before it. -/
def rowOrder (buckets : Nat) (keys : List UInt64) (r : Nat) : Nat :=
  rank (rowBucket buckets keys) r

def batchAt (g : Geometry ctx) (keys : List UInt64) (r : Nat) : Nat :=
  rowOrder g.buckets keys r / g.slotsPerBucketCt

def slotAt (g : Geometry ctx) (keys : List UInt64) (r : Nat) : Nat :=
  slotOf g (rowBucket g.buckets keys r) (rowOrder g.buckets keys r)

/-- The half-row of row `r`. -/
def rowHalf (g : Geometry ctx) (keys : List UInt64) (r : Nat) : Nat :=
  rowOrder g.buckets keys r / g.seg % 2

variable (g : Geometry ctx) (keys : List UInt64)

theorem rowBucket_lt (r : Nat) : rowBucket g.buckets keys r < g.buckets :=
  Nat.mod_lt _ g.buckets_pos

theorem rowHalf_lt (r : Nat) : rowHalf g keys r < 2 :=
  Nat.mod_lt _ (by decide)

/-- The loop's 32-bit arithmetic and mask compute the closed form. -/
theorem bucketOf_eq (key : UInt64) (seq count : Nat) (counted : g.buckets > 1 → seq = u32 count) :
    bucketOf g.buckets key seq = ((mix key).toNat + count) % g.buckets := by
  rw [bucketOf]
  split
  · rename_i several
    rw [counted several]
    obtain ⟨b, hb⟩ := g.buckets_pow
    have divides := g.buckets_dvd_word
    rw [hb] at divides ⊢
    rw [Nat.and_two_pow_sub_one_eq_mod, u32, u32, u32, ← Nat.add_mod, Nat.mod_mod_of_dvd _ divides]
  · have one : g.buckets = 1 := by
      have := g.buckets_pos
      omega
    rw [one, Nat.mod_one]

/-- Slot `i` of a bucket's segment in one half-row. -/
def cell (g : Geometry ctx) (half bucket i : Nat) : Nat :=
  half * ctx.row + (bucket * g.stride + i)

section Cell

variable (g : Geometry ctx) {half bucket i : Nat}

theorem segment_lt (inBucket : bucket < g.buckets) (inSegment : i < g.stride) :
    bucket * g.stride + i < ctx.row := by
  rw [g.row_eq_stride]
  calc bucket * g.stride + i < (bucket + 1) * g.stride := by rw [Nat.succ_mul]; omega
    _ ≤ g.buckets * g.stride := Nat.mul_le_mul_right _ inBucket

theorem cell_lt (inHalf : half < 2) (inBucket : bucket < g.buckets) (inSegment : i < g.stride) :
    cell g half bucket i < 2 * ctx.row := by
  have := segment_lt g inBucket inSegment
  have : half * ctx.row ≤ 1 * ctx.row := Nat.mul_le_mul_right _ (by omega)
  rw [cell]
  omega

theorem cell_mod_row (half : Nat) (inBucket : bucket < g.buckets) (inSegment : i < g.stride) :
    cell g half bucket i % ctx.row = bucket * g.stride + i := by
  rw [cell, Nat.mul_comm half, Nat.mul_add_mod, Nat.mod_eq_of_lt (segment_lt g inBucket inSegment)]

/-- Half-row, bucket and slot are read back from the position. -/
theorem cell_inj {half' bucket' i' : Nat} (inBucket : bucket < g.buckets)
    (inSegment : i < g.stride) (inBucket' : bucket' < g.buckets) (inSegment' : i' < g.stride)
    (same : cell g half bucket i = cell g half' bucket' i') :
    half = half' ∧ bucket = bucket' ∧ i = i' := by
  have column := cell_mod_row g half inBucket inSegment
  rw [same, cell_mod_row g half' inBucket' inSegment'] at column
  have pos : 0 < ctx.row := by
    have := segment_lt g inBucket inSegment
    omega
  have halves : half * ctx.row = half' * ctx.row := by
    rw [cell, cell] at same
    omega
  have buckets : bucket' = bucket := by
    have read := congrArg (· / g.stride) column
    simp only [Nat.mul_comm _ g.stride, Nat.mul_add_div (by omega : 0 < g.stride),
      Nat.div_eq_of_lt inSegment, Nat.div_eq_of_lt inSegment'] at read
    omega
  subst buckets
  exact ⟨Nat.eq_of_mul_eq_mul_right pos halves, rfl, by omega⟩

end Cell

/-- Half-row, bucket segment and block of the `o`-th row of a bucket. -/
theorem slotOf_eq (bucket o : Nat) :
    slotOf g bucket o = cell g (o / g.seg % 2) bucket (o % g.seg * g.keyBits) := by
  have pos := g.seg_pos
  have half : o % g.slotsPerBucketCt = o / g.seg % 2 * g.seg + o % g.seg := by
    rw [Geometry.slotsPerBucketCt, Nat.mul_comm, Nat.mod_mul, Nat.mul_comm, Nat.add_comm]
  have column := Nat.mod_lt o pos
  unfold slotOf cell
  simp only [half, g.stride_eq]
  rcases Nat.mod_two_eq_zero_or_one (o / g.seg) with first | second
  · rw [first, Nat.zero_mul, Nat.zero_add, if_pos column, if_pos column]
    ring
  · rw [second, Nat.one_mul, if_neg (by omega), if_neg (by omega), Nat.add_sub_cancel_left]
    ring

theorem slotAt_eq (r : Nat) :
    slotAt g keys r = cell g (rowHalf g keys r) (rowBucket g.buckets keys r)
      (rowOrder g.buckets keys r % g.seg * g.keyBits) :=
  slotOf_eq g _ _

/-- A whole block fits between a block start and the end of the segment. -/
theorem block_in_stride {c i : Nat} (column : c < g.seg) (bit : i < g.keyBits) :
    c * g.keyBits + i < g.stride := by
  rw [g.stride_eq]
  calc c * g.keyBits + i < (c + 1) * g.keyBits := by rw [Nat.succ_mul]; omega
    _ ≤ g.seg * g.keyBits := Nat.mul_le_mul_right _ column

/-! ## The loop invariant -/

variable (batched : List (List (Nat × Nat)))

theorem pushBatch_getD (b c : Nat) (item : Nat × Nat) : (pushBatch batched b item).getD c [] =
      batched.getD c [] ++ if c = b then [item] else [] := by
  have grown : ∀ k, (batched ++ replicate (b + 1 - batched.length) []).getD k [] =
      batched.getD k [] := by
    intro k
    by_cases inside : k < batched.length
    · simp [getElem?_append_left inside]
    · simp only [getD_eq_getElem?_getD, getElem?_append_right (Nat.le_of_not_lt inside),
        getElem?_replicate]
      rw [getElem?_eq_none (Nat.le_of_not_lt inside)]
      split <;> rfl
  have long : b < (batched ++ replicate (b + 1 - batched.length) []).length := by
    rw [length_append, length_replicate]
    omega
  rw [pushBatch, ← grown c, getD_eq_getElem?_getD, getElem?_modify]
  by_cases here : c = b
  · subst here
    rw [getD_eq_getElem?_getD, getElem?_eq_getElem long]
    simp
  · have elsewhere : b ≠ c := fun h => here h.symm
    simp [here, elsewhere]

theorem pushBatch_length (b : Nat) (item : Nat × Nat) :
    (pushBatch batched b item).length = max batched.length (b + 1) := by
  rw [pushBatch, length_modify, length_append, length_replicate]
  omega

/-- The items batch `b` holds after `n` rows. -/
def batchItems (g : Geometry ctx) (keys : List UInt64) (n b : Nat) : List (Nat × Nat) :=
  ((range n).filter fun r => batchAt g keys r = b).map fun r => (r, slotAt g keys r)

/-- What the loop state says after the first `n` rows. -/
structure Placed (g : Geometry ctx) (keys : List UInt64) (n : Nat) (st : Placing) : Prop where
  seq : g.buckets > 1 → ∀ key, st.keySeq key = u32 (Nat.count (fun i => keyAt keys i = key) n)
  occ : ∀ b, st.occ b = Nat.count (fun i => rowBucket g.buckets keys i = b) n
  batch : ∀ b, st.batched.getD b [] = batchItems g keys n b
  used : ∀ b < st.batched.length, ∃ r < n, batchAt g keys r = b

theorem placed_start : Placed g keys 0 .start where
  seq := fun _ key => by simp [Placing.start, u32]
  occ := fun b => by simp [Placing.start]
  batch := fun b => by simp [Placing.start, batchItems]
  used := fun b inside => by simp [Placing.start] at inside

theorem batchItems_succ (n b : Nat) : batchItems g keys (n + 1) b =
      batchItems g keys n b ++ if b = batchAt g keys n then [(n, slotAt g keys n)] else [] := by
  rw [batchItems, range_succ, batchItems]
  by_cases here : batchAt g keys n = b
  · simp [here]
  · rw [if_neg (fun h => here h.symm)]
    simp [here]

/-- A bucket reaches a batch only after filling the ones before. -/
theorem exists_batch_below {g : Geometry ctx} {keys : List UInt64} {r b : Nat}
    (below : b < batchAt g keys r) : ∃ s < r, batchAt g keys s = b := by
  have pos : 0 < g.slotsPerBucketCt := Nat.mul_pos (by decide) g.seg_pos
  have reached := (Nat.le_div_iff_mul_le pos).1 below
  have earlier : b * g.slotsPerBucketCt < rowOrder g.buckets keys r := by
    rw [Nat.succ_mul] at reached
    omega
  obtain ⟨s, early, _, order⟩ := exists_earlier_rank earlier
  refine ⟨s, early, ?_⟩
  rw [batchAt, rowOrder, order, Nat.mul_div_cancel _ pos]

/-- One turn of the loop. -/
theorem placeRow_placed {g : Geometry ctx} {keys : List UInt64} {n : Nat} {st : Placing}
    (placed : Placed g keys n st) : Placed g keys (n + 1) (placeRow g st n (keyAt keys n)) := by
  have bucket : bucketOf g.buckets (keyAt keys n) (st.keySeq (keyAt keys n)) =
      rowBucket g.buckets keys n :=
    bucketOf_eq g _ _ _ fun several => placed.seq several _
  have order : st.occ (rowBucket g.buckets keys n) = rowOrder g.buckets keys n :=
    placed.occ _
  constructor
  · intro several key
    simp only [placeRow, if_pos several]
    rw [Nat.count_succ]
    by_cases same : keyAt keys n = key
    · subst same
      rw [update_self, placed.seq several, if_pos rfl, u32, u32, u32, Nat.mod_add_mod]
    · rw [update_of_ne (fun h => same h.symm), placed.seq several, if_neg same,
        Nat.add_zero]
  · intro b
    simp only [placeRow, bucket]
    rw [Nat.count_succ]
    by_cases same : rowBucket g.buckets keys n = b
    · subst same
      rw [update_self, placed.occ, if_pos rfl]
    · rw [update_of_ne (fun h => same h.symm), placed.occ, if_neg same, Nat.add_zero]
  · intro b
    simp only [placeRow, bucket, order]
    rw [pushBatch_getD, placed.batch, batchItems_succ]
    rfl
  · intro b inside
    simp only [placeRow, bucket, order, pushBatch_length] at inside
    by_cases old : b < st.batched.length
    · obtain ⟨r, early, batch⟩ := placed.used b old
      exact ⟨r, by omega, batch⟩
    · by_cases last : b = batchAt g keys n
      · exact ⟨n, by omega, last.symm⟩
      · have below : b < batchAt g keys n := by
          simp only [batchAt] at last ⊢
          omega
        obtain ⟨r, early, batch⟩ := exists_batch_below below
        exact ⟨r, by omega, batch⟩

theorem place_placed : Placed g keys keys.length (place g keys) := by
  suffices run : ∀ (rest : List UInt64) (n : Nat) (st : Placing),
      (∀ i, keyAt keys (n + i) = keyAt rest i) → Placed g keys n st →
      Placed g keys (n + rest.length)
        ((rest.zipIdx n).foldl (fun st p => placeRow g st p.2 p.1) st) by
    have whole := run keys 0 .start (fun i => by rw [Nat.zero_add]) (placed_start g keys)
    rwa [Nat.zero_add] at whole
  intro rest
  induction rest with
  | nil => intro n st _ placed; exact placed
  | cons key rest ih =>
    intro n st same placed
    have head : keyAt keys n = key := same 0
    have step := placeRow_placed placed
    rw [head] at step
    have tail := ih (n + 1) _ (fun i => by
      rw [Nat.add_assoc, Nat.add_comm 1 i]
      exact same (i + 1)) step
    rw [length_cons, Nat.add_comm rest.length 1, ← Nat.add_assoc]
    exact tail

/-! ## What the matcher uses -/

theorem batch_ne_nil : ∀ items ∈ (place g keys).batched, items ≠ [] := by
  intro items member
  obtain ⟨b, inside, rfl⟩ := mem_iff_getElem.1 member
  have placed := place_placed g keys
  obtain ⟨r, row, batch⟩ := placed.used b inside
  have contents := placed.batch b
  rw [getD_eq_getElem _ _ inside] at contents
  rw [contents]
  apply ne_nil_of_mem (a := (r, slotAt g keys r))
  exact mem_map.2 ⟨r, mem_filter.2 ⟨mem_range.2 row, by simpa using batch⟩, rfl⟩

/-- The batches, one by one. -/
theorem place_batched : (place g keys).batched =
      (range (place g keys).batched.length).map (batchItems g keys keys.length) := by
  have placed := place_placed g keys
  apply ext_getElem
  · simp
  · intro b inside _
    rw [getElem_map, getElem_range, ← placed.batch b, getD_eq_getElem _ _ inside]

theorem batchAt_lt {r : Nat} (row : r < keys.length) :
    batchAt g keys r < (place g keys).batched.length := by
  by_contra outside
  have contents := (place_placed g keys).batch (batchAt g keys r)
  rw [getD_eq_default _ _ (Nat.le_of_not_lt outside)] at contents
  have member : (r, slotAt g keys r) ∈ batchItems g keys keys.length (batchAt g keys r) :=
    mem_map.2 ⟨r, mem_filter.2 ⟨mem_range.2 row, by simp⟩, rfl⟩
  rw [← contents] at member
  exact not_mem_nil member

/-- Two rows of one batch sit in different blocks. -/
theorem slotAt_inj (g : Geometry ctx) (keys : List UInt64) {r s : Nat}
    (batch : batchAt g keys r = batchAt g keys s) (slot : slotAt g keys r = slotAt g keys s) :
    r = s := by
  have column : ∀ q, rowOrder g.buckets keys q % g.seg < g.seg := fun q => Nat.mod_lt _ g.seg_pos
  rw [slotAt_eq, slotAt_eq] at slot
  obtain ⟨half, bucket, block⟩ := cell_inj g (rowBucket_lt g keys r)
    (block_in_stride g (column r) g.keyBits_pos) (rowBucket_lt g keys s)
    (block_in_stride g (column s) g.keyBits_pos) slot
  have columns := Nat.eq_of_mul_eq_mul_right g.keyBits_pos block
  apply rank_inj bucket
  show rowOrder g.buckets keys r = rowOrder g.buckets keys s
  rw [batchAt, batchAt, Geometry.slotsPerBucketCt, Nat.mul_comm, ← Nat.div_div_eq_div_mul,
    ← Nat.div_div_eq_div_mul] at batch
  rw [rowHalf, rowHalf] at half
  have segments : rowOrder g.buckets keys r / g.seg = rowOrder g.buckets keys s / g.seg := by
    omega
  rw [← Nat.div_add_mod (rowOrder g.buckets keys r) g.seg, segments, columns, Nat.div_add_mod]

end OpaqueDb.Backend
