/-
# Backend.Decode -- what the client reads in each bucket

`Holds` is the interface between the two sides: in each bucket and half-row the
result planes hold the sum over a list of records.  The decoder adds the half-rows
outside the plaintext modulus, so what it reads of a bucket is the sum of the two
half-rows, each reduced modulo the plaintext modulus (`bucketRead`, `decodeBucket_eq`).
When each half-row has fewer records than the modulus the decoded bucket is
`bucketResult` of its records (`bucketRead_eq`): empty, one clean record, or a
collision with its count.

`evaluate_holds` instantiates the interface for one evaluated key column.
-/
import OpaqueDb.Backend.Planes

namespace OpaqueDb.Backend

open OpaqueDb.Core Crypto Theory List

set_option autoImplicit false

variable {ctx : CryptoContext}

/-- The planes of a result hold the given records, by half-row and bucket. -/
structure Holds (g : Geometry ctx) (a : Nat → Ciphertext ctx)
    (records : Nat → Nat → List Bytes) : Prop where
  cells : ∀ {p half bucket i : Nat} (inside : cell g half bucket i < 2 * ctx.row),
    half < 2 → bucket < g.buckets → i < g.keyBits →
      a p ⟨cell g half bucket i, inside⟩ = ((records half bucket).map fun record =>
        ((planeValue g p record i : Nat) : ZMod ctx.plainModulus)).sum
  whole : ∀ half bucket, ∀ record ∈ records half bucket, record.length = g.recordBytes

theorem Holds.whole_bucket {g : Geometry ctx} {a : Nat → Ciphertext ctx}
    {records : Nat → Nat → List Bytes} (holds : Holds g a records) (bucket : Nat) :
    ∀ record ∈ records 0 bucket ++ records 1 bucket, record.length = g.recordBytes := by
  intro record member
  rcases mem_append.1 member with h | h
  · exact holds.whole 0 bucket record h
  · exact holds.whole 1 bucket record h

/-- What a bucket with these matching records is decoded to. -/
def bucketResult : List Bytes → BucketResult
  | [] => {}
  | [record] => { present := true, count := 1, record := record }
  | first :: second :: rest =>
    { present := true, collided := true, count := (first :: second :: rest).length }

variable (records : List Bytes)

theorem bucketResult_count : (bucketResult records).count = records.length := by
  match records with
  | [] => rfl
  | [_] => rfl
  | _ :: _ :: _ => rfl

theorem bucketResult_present : (bucketResult records).present = true ↔ 1 ≤ records.length := by
  match records with
  | [] => simp [bucketResult]
  | [_] => simp [bucketResult]
  | _ :: _ :: _ => simp [bucketResult]

theorem bucketResult_collided : (bucketResult records).collided = true ↔ 2 ≤ records.length := by
  match records with
  | [] => simp [bucketResult]
  | [_] => simp [bucketResult]
  | _ :: _ :: _ => simp [bucketResult]

/-- The order of a bucket's records does not show. -/
theorem bucketResult_perm {records records' : List Bytes} (perm : records.Perm records') :
    bucketResult records = bucketResult records' := by
  match records, records', perm.length_eq with
  | [], [], _ => rfl
  | [a], [b], _ => rw [perm_singleton.1 perm.symm]
  | a :: b :: l, c :: d :: l', length => simp only [bucketResult, length]

/-! ## What the client reads -/

/-- The count the decoder reads from a bucket. -/
def decodedCount (ctx : CryptoContext) (first second : Nat) : Nat :=
  (first % ctx.plainModulus + second % ctx.plainModulus) % 2 ^ 64

/-- Slot `i` of plane `p` in a bucket whose half-rows hold these records: the sum of
each half-row is reduced by the modulus, the two are added as words. -/
def readSlot (g : Geometry ctx) (first second : List Bytes) (p i : Nat) : Nat :=
  ((first.map fun record => planeValue g p record i).sum % ctx.plainModulus +
    (second.map fun record => planeValue g p record i).sum % ctx.plainModulus) % 2 ^ 64

/-- The record unpacked from a bucket. -/
def readRecord (g : Geometry ctx) (first second : List Bytes) : Bytes :=
  resize g.recordBytes ((range g.planes).flatMap fun p =>
    (range g.keyBits).flatMap fun i => leBytes g.bytesPerSlot (readSlot g first second p i))

/-- The decoded bucket, whatever the number of its records. -/
def bucketRead (g : Geometry ctx) (first second : List Bytes) : BucketResult :=
  let count := decodedCount ctx first.length second.length
  if count = 0 then {}
  else if count ≥ 2 then { present := true, collided := true, count := count }
  else { present := true, count := count, record := readRecord g first second }

section Flags

variable (g : Geometry ctx) (first second : List Bytes)

theorem bucketRead_count :
    (bucketRead g first second).count = decodedCount ctx first.length second.length := by
  unfold bucketRead
  simp only
  split_ifs with none_ many
  · exact none_.symm
  · rfl
  · rfl

theorem bucketRead_present :
    (bucketRead g first second).present = true ↔
      1 ≤ decodedCount ctx first.length second.length := by
  unfold bucketRead
  simp only
  split_ifs with none_ many
  · simp [none_]
  · simp only [true_iff]
    omega
  · simp only [true_iff]
    omega

theorem bucketRead_collided :
    (bucketRead g first second).collided = true ↔
      2 ≤ decodedCount ctx first.length second.length := by
  unfold bucketRead
  simp only
  split_ifs with none_ many
  · simp [none_]
  · simpa using many
  · simpa using many

end Flags

/-- **One record reads back byte for byte.** -/
theorem readRecord_single {g : Geometry ctx} (carries : g.Carries) {first second : List Bytes}
    {record : Bytes} (single : first ++ second = [record]) (whole : record.length = g.recordBytes) :
    readRecord g first second = record := by
  have slot : ∀ p < g.planes, ∀ i, readSlot g first second p i = (planePacked g p record).getD i 0 := by
    intro p plane i
    have small := planePacked_lt carries p record i
    have word := ctx.modulus_lt
    have value : planeValue g p record i = (planePacked g p record).getD i 0 := by
      rw [planeValue, if_pos plane]
    rw [readSlot]
    rcases append_eq_singleton_iff.1 single with ⟨none0, one1⟩ | ⟨one0, none1⟩
    · rw [none0, one1, map_nil, sum_nil, map_singleton, sum_singleton, value, Nat.zero_mod,
        Nat.mod_eq_of_lt small]
      omega
    · rw [one0, none1, map_nil, sum_nil, map_singleton, sum_singleton, value, Nat.zero_mod,
        Nat.mod_eq_of_lt small]
      omega
  have pos : 0 < g.bytesPerSlot := by
    have := g.payload_pos
    omega
  have block : ∀ p ∈ range g.planes,
      ((range g.keyBits).flatMap fun i => leBytes g.bytesPerSlot (readSlot g first second p i)) =
        padTo g.per (planeChunk g p record) := by
    intro p member
    rw [Geometry.per, ← chunks_flatMap _ _ _ (planeChunk_length_le g p record)]
    congr 1
    funext i
    rw [slot p (mem_range.1 member), planePacked, packLoop_getD _ pos _ _ i le_rfl,
      leBytes_leValue_pad]
    rw [length_take]
    exact Nat.min_le_left _ _
  have fits : record.length ≤ g.planes * g.per := whole ▸ planes_cover carries
  have joined : ((range g.planes).flatMap fun p => (range g.keyBits).flatMap fun i =>
      leBytes g.bytesPerSlot (readSlot g first second p i)) = padTo (g.planes * g.per) record := by
    rw [flatMap_congr block]
    exact chunks_flatMap g.per g.planes record fits
  rw [readRecord, joined, resize, padTo_length fits, padTo, ← whole, take_left,
    Nat.sub_eq_zero_of_le fits, replicate_zero, append_nil]

theorem decodedCount_eq {first second : Nat} (few : first < ctx.plainModulus)
    (few' : second < ctx.plainModulus) (word : first + second < 2 ^ 64) :
    decodedCount ctx first second = first + second := by
  rw [decodedCount, Nat.mod_eq_of_lt few, Nat.mod_eq_of_lt few', Nat.mod_eq_of_lt word]

/-- **A bucket whose half-rows stay below the modulus** reads as the result of its
records. -/
theorem bucketRead_eq {g : Geometry ctx} (carries : g.Carries) {first second : List Bytes}
    (whole : ∀ record ∈ first ++ second, record.length = g.recordBytes)
    (few : first.length < ctx.plainModulus) (few' : second.length < ctx.plainModulus)
    (word : (first ++ second).length < 2 ^ 64) :
    bucketRead g first second = bucketResult (first ++ second) := by
  have count := decodedCount_eq few few' (by rwa [length_append] at word)
  rw [← length_append] at count
  unfold bucketRead
  simp only [count]
  match found : first ++ second with
  | [] => rfl
  | [record] =>
    have length := whole record (by rw [found]; exact mem_singleton_self _)
    simp only [readRecord_single carries found length]
    rfl
  | a :: b :: rest => rfl

/-- In particular a bucket with fewer records than the modulus. -/
theorem bucketRead_few {g : Geometry ctx} (carries : g.Carries) {first second : List Bytes}
    (whole : ∀ record ∈ first ++ second, record.length = g.recordBytes)
    (few : (first ++ second).length < ctx.plainModulus) :
    bucketRead g first second = bucketResult (first ++ second) := by
  have word := ctx.modulus_lt
  have total : (first ++ second).length = first.length + second.length := length_append
  exact bucketRead_eq carries whole (by omega) (by omega) (by omega)

/-! ## Reading one bucket -/

variable {bucket : Nat}

section Block

variable {g : Geometry ctx} {a : Nat → Ciphertext ctx} {records : Nat → Nat → List Bytes}
  (holds : Holds g a records)
include holds

/-- The decoded slots of every plane, as the client has them. -/
def decodedSlots (g : Geometry ctx) (a : Nat → Ciphertext ctx) : List (List Nat) :=
  (table (g.planes + 1) a).map fun cipher => decodeBatch ctx (decrypt cipher)

omit holds in
theorem decodedSlots_getD {p : Nat} (plane : p ≤ g.planes) :
    (decodedSlots g a).getD p [] = decodeBatch ctx (a p) := by
  rw [decodedSlots, table, map_map, ← table, table_getD _ _ (by omega)]
  rfl

omit holds in
theorem decodeBatch_getD (plain : Plaintext ctx) {j : Nat} (inside : j < 2 * ctx.row) :
    (decodeBatch ctx plain).getD j 0 = (plain ⟨j, inside⟩).val := by
  rw [decodeBatch, List.getD_eq_getElem _ _ (by simpa using inside), List.getElem_ofFn]

/-- The value of one cell of the result. -/
theorem Holds.val {p half i : Nat} (inside : cell g half bucket i < 2 * ctx.row) (inHalf : half < 2)
    (inBucket : bucket < g.buckets) (bit : i < g.keyBits) :
    (a p ⟨cell g half bucket i, inside⟩).val =
      ((records half bucket).map fun record => planeValue g p record i).sum % ctx.plainModulus := by
  rw [holds.cells inside inHalf inBucket bit, ← ZMod.val_natCast, Nat.cast_list_sum, map_map]
  rfl

/-- One bucket's block of plane `p`. -/
theorem bucketBlock_eq {p : Nat} (plane : p ≤ g.planes) (inBucket : bucket < g.buckets) :
    bucketBlock ((decodedSlots g a).getD p []) ctx.row (bucket * g.stride) g.keyBits =
      (range g.keyBits).map (readSlot g (records 0 bucket) (records 1 bucket) p) := by
  rw [decodedSlots_getD plane]
  apply map_congr_left
  intro i member
  have bit := mem_range.1 member
  have inSegment := lt_of_lt_of_le bit g.keyBits_le_stride
  have first := cell_lt g (show 0 < 2 by decide) inBucket inSegment
  have second := cell_lt g (show 1 < 2 by decide) inBucket inSegment
  have at0 : bucket * g.stride + i = cell g 0 bucket i := by
    rw [cell, Nat.zero_mul, Nat.zero_add]
  have at1 : ctx.row + bucket * g.stride + i = cell g 1 bucket i := by
    rw [cell, Nat.one_mul, Nat.add_assoc]
  rw [at0, at1, decodeBatch_getD _ first, decodeBatch_getD _ second,
    holds.val first (by decide) inBucket bit, holds.val second (by decide) inBucket bit, readSlot]

/-- The presence block starts with the count. -/
theorem presence_eq (inBucket : bucket < g.buckets) :
    (bucketBlock ((decodedSlots g a).getD g.planes []) ctx.row (bucket * g.stride)
        g.keyBits).getD 0 0 =
      decodedCount ctx (records 0 bucket).length (records 1 bucket).length := by
  have ones : ∀ l : List Bytes,
      (l.map fun record => planeValue g g.planes record 0).sum = l.length := by
    intro l
    have each : (fun record => planeValue g g.planes record 0) = fun _ => 1 := by
      funext record
      rw [planeValue, if_neg (lt_irrefl _)]
    rw [each, map_const', sum_replicate, smul_eq_mul, mul_one]
  rw [bucketBlock_eq holds le_rfl inBucket, List.getD_eq_getElem _ _ (by simpa using g.keyBits_pos),
    getElem_map, getElem_range,
    readSlot, ones, ones, decodedCount]

omit holds in
/-- Unpacking a block writes out its slots. -/
theorem unpack_block (carries : g.Carries) (value : Nat → Nat) :
    unpackSlotsToBytes ((range g.keyBits).map value) g.bytesPerBlock g.bytesPerSlot =
      .ok ((range g.keyBits).flatMap fun i => leBytes g.bytesPerSlot (value i)) := by
  have := g.payload_pos
  have slots := carries.bytesPerSlot_le
  have small := per_le carries
  have needed : u32 (g.per + g.bytesPerSlot - 1) / g.bytesPerSlot = g.keyBits := by
    have seven : g.bytesPerSlot ≤ 7 := slots
    rw [u32_of_lt (by omega), Geometry.per, Nat.add_sub_assoc (by omega), Nat.mul_comm,
      Nat.mul_add_div (by omega), Nat.div_eq_of_lt (by omega), Nat.add_zero]
  have width : ((range g.keyBits).flatMap fun i => leBytes g.bytesPerSlot (value i)).length =
      g.per := by
    simp [length_flatMap, leBytes_length, Geometry.per]
  have taken : ((range g.keyBits).map value).take g.keyBits = (range g.keyBits).map value := by
    rw [take_of_length_le (by simp)]
  rw [bytesPerBlock_eq carries, unpackSlotsToBytes, if_neg (by omega)]
  simp only [needed, length_map, length_range, lt_irrefl, if_false, taken, flatMap_map]
  rw [take_of_length_le width.le]

theorem bucketRecord_eq (carries : g.Carries) (inBucket : bucket < g.buckets) :
    bucketRecord (decodedSlots g a) ctx.row (bucket * g.stride) g.keyBits g.recordBytes
      g.bytesPerSlot g.planes = .ok (readRecord g (records 0 bucket) (records 1 bucket)) := by
  have chunks : ∀ p ∈ range g.planes,
      unpackSlotsToBytes (bucketBlock ((decodedSlots g a).getD p []) ctx.row (bucket * g.stride)
        g.keyBits) g.bytesPerBlock g.bytesPerSlot =
      .ok ((range g.keyBits).flatMap fun i =>
        leBytes g.bytesPerSlot (readSlot g (records 0 bucket) (records 1 bucket) p i)) := by
    intro p member
    rw [bucketBlock_eq holds (mem_range.1 member).le inBucket]
    exact unpack_block carries _
  rw [bucketRecord, ← Geometry.bytesPerBlock, mapM_eq_ok chunks]
  rfl

/-- **One bucket**, decoded. -/
theorem decodeBucket_eq (carries : g.Carries) (inBucket : bucket < g.buckets) :
    decodeBucket (decodedSlots g a) ctx.row (bucket * g.stride) g.keyBits g.recordBytes
      g.bytesPerSlot g.planes = .ok (bucketRead g (records 0 bucket) (records 1 bucket)) := by
  rw [decodeBucket, bucketRead]
  simp only [presence_eq holds inBucket, bucketRecord_eq holds carries inBucket]
  split
  · rfl
  · split <;> rfl

end Block

/-! ## Reading the window -/

/-- The decoder's checks pass on the planes of an accepted geometry; it reads the
buckets of its window in order. -/
theorem decryptResults_eq {g : Geometry ctx} (carries : g.Carries) (a : Nat → Ciphertext ctx)
    (offset limit : Nat) :
    decryptResults ctx (table (g.planes + 1) a) g.keyBits g.recordBytes g.bytesPerSlot g.buckets
        offset limit =
      (List.range' (min offset g.buckets) (min limit (g.buckets - min offset g.buckets))).mapM
        fun bucket => decodeBucket (decodedSlots g a) ctx.row (bucket * g.stride) g.keyBits
          g.recordBytes g.bytesPerSlot g.planes := by
  have several := g.buckets_pos
  have expected : u32 (g.planes + 1) = g.planes + 1 := by
    have := plane_in_record carries (p := g.planes - 1)
    have := carries.recordBytes_le
    have pos := per_pos g
    apply u32_of_lt
    rcases Nat.eq_zero_or_pos g.planes with zero | some_
    · omega
    · have := Nat.le_mul_of_pos_right (g.planes - 1) pos
      omega
  have half : (((table (g.planes + 1) a).map fun cipher =>
      decodeBatch ctx (decrypt cipher)).getD 0 []).length / 2 = ctx.row := by
    have first := decodedSlots_getD (g := g) (a := a) (Nat.zero_le _)
    rw [decodedSlots] at first
    rw [first, decodeBatch, length_ofFn, Nat.mul_div_cancel_left _ (by decide)]
  have narrow : ¬ ctx.row < g.keyBits := by
    have := Nat.le_mul_of_pos_right g.keyBits several
    have := g.room
    omega
  have divides : ¬ (ctx.row % g.buckets ≠ 0) := by
    rw [g.row_eq]
    simp
  have stride : ctx.row / g.buckets = g.stride := by
    rw [g.row_eq_stride, Nat.mul_div_cancel_left _ several]
  have start : (if offset < g.buckets then offset else g.buckets) = min offset g.buckets := by
    rw [Nat.min_def]
    split <;> split <;> omega
  have window : (if limit < g.buckets - min offset g.buckets then limit
      else g.buckets - min offset g.buckets) = min limit (g.buckets - min offset g.buckets) := by
    rw [Nat.min_def]
    split <;> split <;> omega
  have received : deserializeCiphertexts ctx (table (g.planes + 1) a) (g.planes + 1) =
      .ok (table (g.planes + 1) a) := by
    rw [deserializeCiphertexts, table_length, if_neg (lt_irrefl _)]
  have planes : payloadPlaneCount g.recordBytes g.keyBits g.bytesPerSlot = g.planes := rfl
  rw [decryptResults, if_neg (by omega : ¬ g.buckets = 0)]
  simp only [planes, expected, received, bind, Except.bind, table_length, ne_eq]
  unfold decodeWindow
  simp only [half, if_neg narrow, if_neg divides, stride, start, window]
  rfl

/-- The buckets a window reads, in order. -/
def windowBuckets (buckets offset limit : Nat) : List Nat :=
  List.range' (min offset buckets) (min limit (buckets - min offset buckets))

theorem mem_windowBuckets {buckets offset limit : Nat}
    (member : bucket ∈ windowBuckets buckets offset limit) : bucket < buckets := by
  rw [windowBuckets, mem_range'_1] at member
  omega

theorem windowBuckets_all (buckets : Nat) : windowBuckets buckets 0 buckets = range buckets := by
  rw [windowBuckets, Nat.zero_min, Nat.sub_zero, Nat.min_self, range_eq_range']

/-- **Decoding a result.**  Every bucket of the window is read from the records it
holds. -/
theorem decryptResults_holds {g : Geometry ctx} (carries : g.Carries) {a : Nat → Ciphertext ctx}
    {records : Nat → Nat → List Bytes} (holds : Holds g a records) (offset limit : Nat) :
    decryptResults ctx (table (g.planes + 1) a) g.keyBits g.recordBytes g.bytesPerSlot g.buckets
        offset limit =
      .ok ((windowBuckets g.buckets offset limit).map fun bucket =>
        bucketRead g (records 0 bucket) (records 1 bucket)) := by
  rw [decryptResults_eq carries]
  exact mapM_eq_ok fun bucket member => decodeBucket_eq holds carries (mem_windowBuckets member)

/-! ## One evaluated column -/

/-- The records of the rows that match in one half-row of a bucket. -/
def matchedRecords (g : Geometry ctx) (keys : List UInt64) (rows : List Bytes) (op : Op)
    (operands : List UInt64) (half bucket : Nat) : List Bytes :=
  (matchedRows g keys op operands half bucket).map (rowAt rows)

theorem evaluate_holds {g : Geometry ctx} {keys : List UInt64} {rows : List Bytes}
    (columns : Columns g keys rows) (op : Op) (operands : List UInt64) :
    Holds g (resultPlane g keys rows op operands) (matchedRecords g keys rows op operands) where
  cells := by
    intro p half bucket i inside _ inBucket bit
    rw [resultPlane_cell g keys rows op operands p inBucket bit inside, matchedRecords, map_map]
    rfl
  whole := by
    intro half bucket record member
    obtain ⟨r, kept, rfl⟩ := mem_map.1 member
    have inside := mem_range.1 (mem_filter.1 kept).1
    exact columns.whole _ (rowAt_mem (columns.sameLength ▸ inside))

end OpaqueDb.Backend
