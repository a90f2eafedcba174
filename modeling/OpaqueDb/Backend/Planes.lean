/-
# Backend.Planes -- the result ciphertexts, bucket by bucket

From one batch to the whole evaluation.  A payload plane carries one chunk of every
record (`planeChunk`), and the presence plane carries a one per matching row; both
are `planeValue`.  A batch adds to plane `p` the block sum of indicator times plane
value (`processBatch_eq`), the batches add up whether they run serially or on
workers (`runBatches_eq`), and the placement's closed form turns the sum over batches
into a sum over rows.  `evaluateRows_eq` and `resultPlane_cell` are the result: at the
first block of each bucket and half-row, plane `p` holds the sum of the plane values
of the matching rows placed there.
-/
import OpaqueDb.Backend.Matcher

namespace OpaqueDb.Backend

open OpaqueDb.Core Crypto Theory List

set_option autoImplicit false

variable {ctx : CryptoContext}

/-- The payload geometry the slots can carry: slot values stay below the plaintext
modulus and the 32-bit sizes do not wrap. -/
structure Geometry.Carries (g : Geometry ctx) : Prop where
  bytesPerSlot_le : g.bytesPerSlot ≤ kMaxBytesPerSlot
  keyBits_le : g.keyBits ≤ 64
  recordBytes_le : g.recordBytes ≤ 2 ^ 31
  modulus : 2 ^ (8 * g.bytesPerSlot) ≤ ctx.plainModulus

/-! ## The chunk of a plane -/

/-- Bytes of one record in one plane. -/
def Geometry.per (g : Geometry ctx) : Nat := g.keyBits * g.bytesPerSlot

/-- The bytes of a record that plane `p` carries. -/
def planeChunk (g : Geometry ctx) (p : Nat) (record : Bytes) : Bytes :=
  (record.drop (p * g.per)).take g.per

/-- The slots of that chunk. -/
def planePacked (g : Geometry ctx) (p : Nat) (record : Bytes) : List Nat :=
  packLoop g.bytesPerSlot (planeChunk g p record).length (planeChunk g p record)

variable {p : Nat}

section Chunks

variable {g : Geometry ctx} (carries : g.Carries)
include carries

omit carries in
theorem per_pos (g : Geometry ctx) : 0 < g.per := by
  have := g.payload_pos
  exact Nat.mul_pos g.keyBits_pos (by omega)

theorem per_le : g.per ≤ 448 := by
  calc g.per ≤ 64 * 7 := Nat.mul_le_mul carries.keyBits_le carries.bytesPerSlot_le

theorem bytesPerBlock_eq : g.bytesPerBlock = g.per := by
  have := per_le carries
  exact u32_of_lt (by rw [← Geometry.per]; omega)

theorem planes_eq : g.planes = (g.recordBytes + g.per - 1) / g.per := by
  have small := per_le carries
  have pos := per_pos g
  have records := carries.recordBytes_le
  have per : payloadBytesPerBlock g.keyBits g.bytesPerSlot = g.per := bytesPerBlock_eq carries
  rw [Geometry.planes, payloadPlaneCount, per, if_neg (by omega), u32_of_lt (by omega)]

/-- Every plane starts inside the record, and the planes cover it. -/
theorem plane_in_record (plane : p < g.planes) : p * g.per < g.recordBytes := by
  have pos := per_pos g
  rw [planes_eq carries] at plane
  have := (Nat.le_div_iff_mul_le pos).1 plane
  rw [Nat.succ_mul] at this
  omega

theorem planes_cover : g.recordBytes ≤ g.planes * g.per := by
  have pos := per_pos g
  rw [planes_eq carries]
  have split := Nat.div_add_mod' (g.recordBytes + g.per - 1) g.per
  have := Nat.mod_lt (g.recordBytes + g.per - 1) pos
  omega

theorem planes_lt : g.planes < 2 ^ 32 := by
  have := per_le carries
  have := carries.recordBytes_le
  rw [planes_eq carries]
  exact lt_of_le_of_lt (Nat.div_le_self _ _) (by omega)

omit carries in
theorem planeChunk_length_le (g : Geometry ctx) (p : Nat) (record : Bytes) :
    (planeChunk g p record).length ≤ g.keyBits * g.bytesPerSlot := by
  rw [planeChunk, length_take]
  exact Nat.min_le_left _ _

theorem packChunk_eq (plane : p < g.planes) {record : Bytes} (whole : record.length = g.recordBytes)
    : packChunk g p record = .ok (some (planePacked g p record)) := by
  have inRecord := plane_in_record carries plane
  have records := carries.recordBytes_le
  have perSmall := per_le carries
  have planesSmall := planes_lt carries
  have lo : (planeRange g p).1 = p * g.per := by
    rw [planeRange, bytesPerBlock_eq carries]
    exact u32_of_lt (by omega)
  have hi : (planeRange g p).2 = min g.recordBytes ((p + 1) * g.per) := by
    rw [planeRange, bytesPerBlock_eq carries]
    simp only
    rw [u32_of_lt (n := p + 1) (by omega), u32_of_lt (by rw [Nat.succ_mul]; omega)]
  have stop : u32 (min (planeRange g p).2 (u32 record.length) + 2 ^ 32 - p * g.per) =
      min (g.recordBytes - p * g.per) g.per := by
    rw [hi, whole, u32_of_lt (n := g.recordBytes) (by omega), u32, Nat.succ_mul]
    omega
  have bytesOf : (record.drop (p * g.per)).take (min (g.recordBytes - p * g.per) g.per) =
      planeChunk g p record := by
    rw [planeChunk, ← whole, ← length_drop, Nat.min_comm, ← take_take, take_length]
  have legal : ¬ (g.bytesPerSlot = 0 ∨ g.bytesPerSlot > kMaxBytesPerSlot) := by
    have := g.payload_pos
    have := carries.bytesPerSlot_le
    omega
  unfold packChunk
  simp only [lo, stop]
  rw [if_neg (by omega), bytesOf, packBytesToSlots, if_neg legal]
  rfl

omit carries in
theorem planePacked_length (g : Geometry ctx) (p : Nat) (record : Bytes) :
    (planePacked g p record).length ≤ g.keyBits :=
  packLoop_length_le _ _ _ _ (planeChunk_length_le g p record)

theorem planePacked_lt (p : Nat) (record : Bytes) (i : Nat) :
    (planePacked g p record).getD i 0 < ctx.plainModulus := by
  have pos : 0 < g.bytesPerSlot := by
    have := g.payload_pos
    omega
  have small := packLoop_getD_lt g.bytesPerSlot pos (planeChunk g p record) i
  have modulus := carries.modulus
  rw [Nat.pow_mul] at modulus
  exact lt_of_lt_of_le small modulus

end Chunks

/-! ## One plane of one batch -/

def rowAt (rows : List Bytes) (r : Nat) : Bytes :=
  rows.getD r []

/-- What a row contributes to slot `i` of plane `p`: the packed chunk of its record
in a payload plane, a one in the presence plane. -/
def planeValue (g : Geometry ctx) (p : Nat) (record : Bytes) (i : Nat) : Nat :=
  if p < g.planes then (planePacked g p record).getD i 0 else 1

theorem blockSumLoop_zero (stride : Nat) :
    ∀ fuel step, blockSumLoop stride fuel step (0 : Ciphertext ctx) = 0
  | 0, _ => rfl
  | fuel + 1, step => by
    have still : (0 : Ciphertext ctx) + rotateRows 0 step = 0 := by
      exact add_zero 0
    rw [blockSumLoop, still, blockSumLoop_zero stride fuel, ite_self]

theorem blockSum_zero (g : Geometry ctx) : blockSum g (0 : Ciphertext ctx) = 0 :=
  blockSumLoop_zero _ _ _

section Batch

variable {g : Geometry ctx} (carries : g.Carries) {items : List (Nat × Nat)}
  (layout : BatchLayout g items) {rows : List Bytes}
  (whole : ∀ item ∈ items, (rowAt rows item.1).length = g.recordBytes)
include carries layout whole

omit whole in
theorem slots_lt {slots : List Nat} (contents : ∀ j, slots.getD j 0 =
      spread g.keyBits Prod.snd (fun item i => planeValue g p (rowAt rows item.1) i) items j)
    (j : Nat) : slots.getD j 0 < ctx.plainModulus := by
  rw [contents]
  rcases owned_or_off g.keyBits_pos Prod.snd items j with ⟨item, member, i, inside, rfl⟩ | unowned
  · rw [spread_at _ layout.toBlocks member inside, planeValue]
    split
    · exact planePacked_lt carries _ _ _
    · exact ctx.prime.one_lt
  · rw [spread_off unowned]
    exact ctx.prime.pos

/-- The payload slots of a plane. -/
theorem planeSlots_eq (plane : p < g.planes) :
    ∃ slots, planeSlots g rows items p = .ok slots ∧ slots.length = ctx.slotCount ∧
      ∀ j, slots.getD j 0 =
        spread g.keyBits Prod.snd (fun item i => planeValue g p (rowAt rows item.1) i) items j := by
  refine ⟨items.foldl (fun slots item =>
    writeBlock slots item.2 (planePacked g p (rowAt rows item.1)))
    (replicate ctx.slotCount 0), ?_, ?_, ?_⟩
  · apply foldlM_eq_ok
    intro slots item member
    rw [← rowAt, packChunk_eq carries plane (whole item member)]
    rfl
  · rw [fill_length Prod.snd _ (fun item => planePacked g p (rowAt rows item.1)), length_replicate]
  · intro j
    have filled := fill_getD g.keyBits_pos (fun item => planePacked g p (rowAt rows item.1)) j
      layout.toBlocks layout.room fun item _ => planePacked_length g p _
    simp only [planeValue, if_pos plane]
    exact filled

theorem addPlane_eq {n : Nat} (plane : p < g.planes) (a : Nat → Ciphertext ctx)
    (weight : Nat × Nat → ZMod ctx.plainModulus) :
    addPlane g rows items (fun j => spread g.keyBits Prod.snd (fun item _ => weight item) items j)
        (table n a) p =
      .ok (table n (a + Pi.single p (blockSum g fun j => spread g.keyBits Prod.snd
        (fun item i => weight item * planeValue g p (rowAt rows item.1) i) items j))) := by
  obtain ⟨slots, packed, size, contents⟩ := planeSlots_eq carries layout whole plane
  have product : (fun j => spread g.keyBits Prod.snd (fun item _ => weight item) items j :
        Ciphertext ctx) * (fun j => ((slots.getD j 0 : Nat) : ZMod ctx.plainModulus) :
        Plaintext ctx) =
      fun j : Fin (2 * ctx.row) => spread g.keyBits Prod.snd
        (fun item i => weight item * planeValue g p (rowAt rows item.1) i) items j := by
    funext j
    rw [Pi.mul_apply, contents, spread_natCast, spread_mul g.keyBits_pos layout.toBlocks]
  rw [addPlane, packed]
  simp only [bind, Except.bind]
  by_cases empty : slots.all (· == 0) = true
  · have zero : ∀ j, slots.getD j 0 = 0 := by
      intro j
      by_cases inside : j < slots.length
      · rw [getD_eq_getElem _ _ inside]
        simpa using all_eq_true.1 empty _ (getElem_mem inside)
      · exact getD_eq_default _ _ (Nat.le_of_not_lt inside)
    have nothing : (fun j : Fin (2 * ctx.row) => spread g.keyBits Prod.snd
        (fun item i => weight item * planeValue g p (rowAt rows item.1) i) items j) = 0 := by
      rw [← product]
      funext j
      rw [Pi.mul_apply, zero, Nat.cast_zero, mul_zero]
      rfl
    rw [if_pos empty, nothing, blockSum_zero, Pi.single_zero, add_zero]
    rfl
  · have nonzero : (fun j : Fin (2 * ctx.row) =>
        ((slots.getD j 0 : Nat) : ZMod ctx.plainModulus)) ≠ 0 := by
      intro zero
      apply empty
      rw [all_eq_true]
      intro value member
      obtain ⟨j, inside, rfl⟩ := mem_iff_getElem.1 member
      have slot := congrFun zero ⟨j, by rw [← CryptoContext.slotCount]; omega⟩
      have divides := (ZMod.natCast_eq_zero_iff _ _).1 slot
      have small := slots_lt carries layout contents j
      rw [getD_eq_getElem _ _ inside] at divides small
      simpa using Nat.eq_zero_of_dvd_of_lt divides small
    rw [if_neg empty, encodeBatch_eq size]
    simp only [multiplyPlain, if_neg nonzero]
    rw [product, ← table_modify_add]
    rfl

end Batch

/-! ## One batch -/

/-- What a batch adds to plane `p`. -/
def contribution (g : Geometry ctx) (keys : List UInt64) (rows : List Bytes) (op : Op)
    (operands : List UInt64) (items : List (Nat × Nat)) (p : Nat) : Ciphertext ctx :=
  blockSum g fun j => spread g.keyBits Prod.snd (fun item i =>
    indicator ctx op operands (keyAt keys item.1) * planeValue g p (rowAt rows item.1) i) items j

variable {operands keys : List UInt64} {query : EncryptedQuery ctx}

/-- **One batch.**  It fails on nothing and adds its contribution to every plane. -/
theorem processBatch_eq {g : Geometry ctx} (carries : g.Carries) {items : List (Nat × Nat)}
    (layout : BatchLayout g items) (occupied : items ≠ [])
    (keysInside : ∀ item ∈ items, (keyAt keys item.1).toNat < 2 ^ g.keyBits) {rows : List Bytes}
    (whole : ∀ item ∈ items, (rowAt rows item.1).length = g.recordBytes)
    (encrypts : Encrypts g query operands) (a : Nat → Ciphertext ctx) :
    processBatch g keys rows query 1 (table (g.planes + 1) a) items =
      .ok (table (g.planes + 1) (a + contribution g keys rows query.op operands items)) := by
  have planes := foldlM_add (a := a) (l := range g.planes) (table (g.planes + 1))
    fun a p member => addPlane_eq carries layout whole (mem_range.1 member) a
      fun item => indicator ctx query.op operands (keyAt keys item.1)
  rw [processBatch, selection_eq layout encrypts keysInside occupied]
  simp only [bind, Except.bind, planes]
  rw [table_modify_add]
  congr 1
  apply table_congr
  intro p inside
  rw [add_assoc, Pi.add_apply]
  congr 1
  have sums : ((range g.planes).map fun q => Pi.single (M := fun _ => Ciphertext ctx) q
      (contribution g keys rows query.op operands items q)).sum p =
      if p < g.planes then contribution g keys rows query.op operands items p else 0 := by
    rw [Pi.list_sum_apply, map_map]
    show ∑ q ∈ Finset.range g.planes, Pi.single (M := fun _ => Ciphertext ctx) q
      (contribution g keys rows query.op operands items q) p = _
    simp only [Pi.single_apply]
    rw [Finset.sum_ite_eq]
    simp
  refine Eq.trans (congrArg (· + _) sums) ?_
  by_cases plane : p < g.planes
  · rw [if_pos plane, Pi.single_eq_of_ne (by omega), add_zero]
  · have last : p = g.planes := by omega
    subst last
    rw [contribution]
    simp [planeValue]

/-! ## All batches -/

/-- Serial or spread over workers, the batches add up. -/
theorem runBatches_eq {n : Nat} (hardwareConcurrency : Nat) (batched : List (List (Nat × Nat)))
    (process : List (Ciphertext ctx) → List (Nat × Nat) → StatusOr (List (Ciphertext ctx)))
    (add : List (Nat × Nat) → Nat → Ciphertext ctx)
    (steps : ∀ a, ∀ items ∈ batched, process (table n a) items = .ok (table n (a + add items))) :
    runBatches hardwareConcurrency batched (table n 0) process =
      .ok (table n (batched.map add).sum) := by
  unfold runBatches
  generalize min batched.length (if hardwareConcurrency = 0 then 1 else hardwareConcurrency) =
    nthreads
  by_cases single : nthreads ≤ 1
  · simp only [if_pos single]
    rw [foldlM_add (table n) steps, zero_add]
  · have pos : 0 < nthreads := by omega
    have worker : ∀ t ∈ range nthreads,
        (threadBatches batched nthreads t).foldlM process (table n 0) =
          .ok (table n ((residue nthreads t batched.zipIdx).map add).sum) := by
      intro t _
      have own : ∀ a, ∀ items ∈ threadBatches batched nthreads t,
          process (table n a) items = .ok (table n (a + add items)) := by
        intro a items member
        apply steps
        obtain ⟨entry, kept, rfl⟩ := mem_map.1 member
        exact fst_mem_of_mem_zipIdx (mem_filter.1 kept).1
      rw [foldlM_add (table n) own, zero_add]
      rfl
    have reduced := foldl_add (a := (0 : Nat → Ciphertext ctx)) (l := range nthreads) (table n)
      (fun acc t => reduceLocal acc (table n ((residue nthreads t batched.zipIdx).map add).sum))
      fun a t _ => zipWith_table n a ((residue nthreads t batched.zipIdx).map add).sum
    rw [zero_add, sum_residues pos, zipIdx_map_fst] at reduced
    simp only [if_neg single]
    rw [mapM_eq_ok worker]
    show Except.ok _ = Except.ok _
    rw [foldl_map, reduced]

/-! ## The whole evaluation -/

/-- The rows that satisfy the predicate and were placed in one bucket and half-row. -/
def matchedRows (g : Geometry ctx) (keys : List UInt64) (op : Op) (operands : List UInt64)
    (half bucket : Nat) : List Nat :=
  (range keys.length).filter fun r =>
    rowHalf g keys r = half ∧ rowBucket g.buckets keys r = bucket ∧
      satisfies op operands (keyAt keys r)

/-- Plane `p` of the result. -/
def resultPlane (g : Geometry ctx) (keys : List UInt64) (rows : List Bytes) (op : Op)
    (operands : List UInt64) : Nat → Ciphertext ctx :=
  ((place g keys).batched.map (contribution g keys rows op operands)).sum

theorem batch_layout (g : Geometry ctx) (keys : List UInt64) :
    ∀ items ∈ (place g keys).batched, BatchLayout g items ∧ ∀ item ∈ items, item.1 < keys.length := by
  intro items member
  rw [place_batched] at member
  obtain ⟨b, _, rfl⟩ := mem_map.1 member
  have rowOf : ∀ item ∈ batchItems g keys keys.length b,
      ∃ r < keys.length, batchAt g keys r = b ∧ (r, slotAt g keys r) = item := by
    intro item mem
    obtain ⟨r, kept, rfl⟩ := mem_map.1 mem
    obtain ⟨inside, batch⟩ := mem_filter.1 kept
    exact ⟨r, mem_range.1 inside, by simpa using batch, rfl⟩
  have column : ∀ r, rowOrder g.buckets keys r % g.seg < g.seg := fun r => Nat.mod_lt _ g.seg_pos
  refine ⟨⟨⟨?_, ?_⟩, ?_⟩, ?_⟩
  · intro item mem
    obtain ⟨r, _, _, rfl⟩ := rowOf item mem
    have strides : g.keyBits ∣ g.stride := by
      rw [g.stride_eq]
      exact Nat.dvd_mul_left _ _
    rw [slotAt_eq]
    exact Nat.dvd_add (Dvd.dvd.mul_left g.keyBits_dvd_row _)
      (Nat.dvd_add (Dvd.dvd.mul_left strides _) (Nat.dvd_mul_left _ _))
  · rw [batchItems, pairwise_map, pairwise_filter]
    refine List.Pairwise.imp ?_ pairwise_lt_range
    intro r s lt hr hs same
    have := slotAt_inj g keys ((by simpa using hr : batchAt g keys r = b).trans
      (by simpa using hs : batchAt g keys s = b).symm) same
    omega
  · intro item mem
    obtain ⟨r, _, _, rfl⟩ := rowOf item mem
    rw [slotAt_eq]
    exact cell_lt g (rowHalf_lt g keys r) (rowBucket_lt g keys r)
      (block_in_stride g (column r) g.keyBits_pos)
  · intro item mem
    obtain ⟨r, inside, _, rfl⟩ := rowOf item mem
    exact inside

variable {r : Nat}

theorem keyAt_mem (inside : r < keys.length) : keyAt keys r ∈ keys := by
  rw [keyAt, getD_eq_getElem _ _ inside]
  exact getElem_mem inside

theorem rowAt_mem {rows : List Bytes} (inside : r < rows.length) : rowAt rows r ∈ rows := by
  rw [rowAt, getD_eq_getElem _ _ inside]
  exact getElem_mem inside

/-- A column of keys and the records of its rows, as `evaluate` is handed them. -/
structure Columns (g : Geometry ctx) (keys : List UInt64) (rows : List Bytes) : Prop where
  sameLength : keys.length = rows.length
  keysInside : ∀ key ∈ keys, key.toNat < 2 ^ g.keyBits
  whole : ∀ row ∈ rows, row.length = g.recordBytes

theorem encodeBatch_const (value : Nat) :
    encodeBatch ctx (replicate ctx.slotCount value) =
      .ok fun _ => (value : ZMod ctx.plainModulus) := by
  rw [encodeBatch_eq (by simp)]
  congr 1
  funext j
  have inside : (j : Nat) < ctx.slotCount := j.isLt
  simp [inside]

/-- **The evaluation** on any number of workers. -/
theorem evaluateRows_eq {g : Geometry ctx} (carries : g.Carries) {rows : List Bytes}
    (columns : Columns g keys rows) (encrypts : Encrypts g query operands)
    (hardwareConcurrency : Nat) : evaluateRows hardwareConcurrency g query keys rows =
      .ok (table (g.planes + 1) (resultPlane g keys rows query.op operands)) := by
  have ones : encodeBatch ctx (replicate ctx.slotCount 1) = .ok 1 := by
    rw [encodeBatch_const]
    exact congrArg Except.ok (funext fun _ => Nat.cast_one)
  have zeros : encodeBatch ctx (replicate ctx.slotCount 0) = .ok 0 := by
    rw [encodeBatch_const]
    exact congrArg Except.ok (funext fun _ => Nat.cast_zero)
  have seed : replicate (g.planes + 1) (encrypt (0 : Plaintext ctx)) =
      table (g.planes + 1) 0 := replicate_eq_table _ _
  rw [evaluateRows, ones, zeros]
  simp only [bind, Except.bind, seed]
  apply runBatches_eq
  intro a items member
  obtain ⟨layout, inside⟩ := batch_layout g keys items member
  exact processBatch_eq carries layout (batch_ne_nil g keys items member)
    (fun item mem => columns.keysInside _ (keyAt_mem (inside item mem)))
    (fun item mem => columns.whole _ (rowAt_mem (columns.sameLength ▸ inside item mem))) encrypts a

/-! ## The value at a bucket -/

theorem in_segment_iff (g : Geometry ctx) (keys : List UInt64) (r : Nat) {half bucket : Nat}
    (inBucket : bucket < g.buckets) :
    (cell g half bucket 0 ≤ slotAt g keys r ∧
        slotAt g keys r < cell g half bucket 0 + g.seg * g.keyBits) ↔
      rowHalf g keys r = half ∧ rowBucket g.buckets keys r = bucket := by
  have column := block_in_stride g (Nat.mod_lt (rowOrder g.buckets keys r) g.seg_pos) g.keyBits_pos
  rw [← g.stride_eq, slotAt_eq]
  constructor
  · rintro ⟨lower, upper⟩
    obtain ⟨i, hi⟩ := Nat.exists_eq_add_of_le lower
    have same : cell g (rowHalf g keys r) (rowBucket g.buckets keys r)
        (rowOrder g.buckets keys r % g.seg * g.keyBits) = cell g half bucket i := by
      rw [hi, cell, cell, Nat.add_zero, Nat.add_assoc]
    obtain ⟨halves, buckets, _⟩ := cell_inj g (rowBucket_lt g keys r) column inBucket
      (by omega) same
    exact ⟨halves, buckets⟩
  · rintro ⟨rfl, rfl⟩
    simp only [cell]
    omega

/-- **The value at a bucket**: the matching rows placed in that bucket and half-row
add up, and nothing else contributes. -/
theorem resultPlane_cell (g : Geometry ctx) (keys : List UInt64) (rows : List Bytes) (op : Op)
    (operands : List UInt64) (p : Nat) {half bucket i : Nat} (inBucket : bucket < g.buckets)
    (bit : i < g.keyBits) (inside : cell g half bucket i < 2 * ctx.row) :
    resultPlane g keys rows op operands p ⟨cell g half bucket i, inside⟩ =
      ((matchedRows g keys op operands half bucket).map fun r =>
        ((planeValue g p (rowAt rows r) i : Nat) : ZMod ctx.plainModulus)).sum := by
  have aligned : g.keyBits ∣ cell g half bucket 0 := by
    rw [cell, g.stride_eq]
    exact Nat.dvd_add (Dvd.dvd.mul_left g.keyBits_dvd_row _)
      (Dvd.dvd.mul_left (Nat.dvd_mul_left _ _) _)
  have batch : ∀ items ∈ (place g keys).batched,
      contribution g keys rows op operands items p ⟨cell g half bucket i, inside⟩ =
        (items.map fun item =>
          if cell g half bucket 0 ≤ item.2 ∧ item.2 < cell g half bucket 0 + g.seg * g.keyBits then
            indicator ctx op operands (keyAt keys item.1) * planeValue g p (rowAt rows item.1) i
          else 0).sum := by
    intro items member
    have layout := (batch_layout g keys items member).1
    rw [contribution, blockSum_cell g _ inBucket bit, sum_blocks g.keyBits_pos layout.toBlocks aligned bit]
  have weigh : ∀ r, (if cell g half bucket 0 ≤ slotAt g keys r ∧
        slotAt g keys r < cell g half bucket 0 + g.seg * g.keyBits then
        indicator ctx op operands (keyAt keys r) * planeValue g p (rowAt rows r) i else 0) =
      if rowHalf g keys r = half ∧ rowBucket g.buckets keys r = bucket ∧
        satisfies op operands (keyAt keys r) = true then
        ((planeValue g p (rowAt rows r) i : Nat) : ZMod ctx.plainModulus) else 0 := by
    intro r
    rw [if_congr (in_segment_iff g keys r inBucket) rfl rfl, indicator]
    by_cases placed : rowHalf g keys r = half ∧ rowBucket g.buckets keys r = bucket
    · cases satisfies op operands (keyAt keys r) <;> simp [placed]
    · rw [if_neg placed, if_neg (fun h => placed ⟨h.1, h.2.1⟩)]
  calc resultPlane g keys rows op operands p ⟨cell g half bucket i, inside⟩
      = ((place g keys).batched.map fun items =>
          contribution g keys rows op operands items p ⟨cell g half bucket i, inside⟩).sum := by
        rw [resultPlane, Pi.list_sum_apply, map_map, Pi.list_sum_apply, map_map]
        rfl
    _ = ((range (place g keys).batched.length).map fun b =>
          (((range keys.length).filter fun r => batchAt g keys r = b).map fun r =>
            if cell g half bucket 0 ≤ slotAt g keys r ∧
              slotAt g keys r < cell g half bucket 0 + g.seg * g.keyBits then
              indicator ctx op operands (keyAt keys r) * planeValue g p (rowAt rows r) i else 0).sum).sum := by
        rw [map_congr_left batch, place_batched, length_map, length_range]
        simp [Function.comp_def, batchItems]
    _ = ((range keys.length).map fun r =>
          if cell g half bucket 0 ≤ slotAt g keys r ∧
            slotAt g keys r < cell g half bucket 0 + g.seg * g.keyBits then
            indicator ctx op operands (keyAt keys r) * planeValue g p (rowAt rows r) i else 0).sum :=
        sum_classes (batchAt g keys) _ _ fun r member => batchAt_lt g keys (mem_range.1 member)
    _ = _ := by
        rw [matchedRows, sum_map_filter]
        congr 1
        apply map_congr_left
        intro r _
        rw [weigh]
        simp

end OpaqueDb.Backend
