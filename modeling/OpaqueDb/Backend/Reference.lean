/-
# Backend.Reference -- the bit-sliced matcher

`evaluate` runs one encrypted equality over a key column and returns one ciphertext
per payload plane plus a trailing presence ciphertext.  The steps follow the source:

* the accepted geometry (`Geometry`), the local constants of `evaluate`;
* the placement loop (`placeRow`), which gives the `i`-th row of a key the bucket
  `(Mix(key) + i) % buckets` and the next free block slot of that bucket;
* one batch (`processBatch`): key and occupancy plaintexts, the equality indicator
  by an AND tree of rotations, the mask, the inversion for `<>`, the broadcast, the
  payload planes and the early-stopped block sum;
* the batches, serial or spread over worker threads (`runBatches`).

`combine` adds the partials of several shards plane by plane.
-/
import OpaqueDb.Crypto.Ops
import OpaqueDb.Theory.Blocks

namespace OpaqueDb.Backend

open OpaqueDb.Core Crypto Theory

set_option autoImplicit false

inductive Op where
  | eq
  | ne
  | in_
  | prefix_
  | range
  | substring
  deriving DecidableEq, Repr

def Op.toBytes : Op → Bytes
  | .eq => bytes "eq"
  | .ne => bytes "ne"
  | .in_ => bytes "in"
  | .prefix_ => bytes "prefix"
  | .range => bytes "range"
  | .substring => bytes "substring"

structure EncryptedQuery (ctx : CryptoContext) where
  op : Op := .eq
  query : Ciphertext ctx
  extraOperands : List (Ciphertext ctx) := []
  resultBuckets : Nat := 1

structure KeyColumn where
  keyBits : Nat
  keys : List UInt64
  deriving DecidableEq, Repr

structure PayloadColumns where
  recordBytes : Nat
  bytesPerSlot : Nat
  rows : List Bytes
  deriving DecidableEq, Repr

/-- The loop of `Log2`; `fuel` bounds the exponent. -/
def log2Loop (n : Nat) : Nat → Nat → Nat
  | 0, l => l
  | fuel + 1, l => if 2 ^ l < n then log2Loop n fuel (l + 1) else l

def log2 (n : Nat) : Nat :=
  log2Loop n n 0

/-- The splitmix64 finalizer. -/
def mix (x : UInt64) : UInt64 :=
  let x := x + 0x9E3779B97F4A7C15
  let x := (x ^^^ (x >>> 30)) * 0xBF58476D1CE4E5B9
  let x := (x ^^^ (x >>> 27)) * 0x94D049BB133111EB
  x ^^^ (x >>> 31)

/-- The bucket count of a query; an unset one means one bucket. -/
def effectiveBuckets (resultBuckets : Nat) : Nat :=
  if resultBuckets = 0 then 1 else resultBuckets

/-- The local constants of `evaluate`, with what its checks have established. -/
structure Geometry (ctx : CryptoContext) where
  keyBits : Nat
  bytesPerSlot : Nat
  recordBytes : Nat
  buckets : Nat
  keyBits_pow : keyBits.isPowerOfTwo
  buckets_pow : buckets.isPowerOfTwo
  payload_pos : ¬ (bytesPerSlot = 0 ∨ recordBytes = 0)
  room : keyBits * buckets ≤ ctx.row

variable {ctx : CryptoContext}

namespace Geometry

variable (g : Geometry ctx)

def blocksPerRow : Nat := ctx.row / g.keyBits

def levels : Nat := log2 g.keyBits

def bytesPerBlock : Nat := payloadBytesPerBlock g.keyBits g.bytesPerSlot

def planes : Nat := payloadPlaneCount g.recordBytes g.keyBits g.bytesPerSlot

/-- Blocks per bucket in one half-row. -/
def seg : Nat := g.blocksPerRow / g.buckets

/-- A bucket's capacity in one batch. -/
def slotsPerBucketCt : Nat := 2 * g.seg

def stride : Nat := bucketStride (u32 ctx.slotCount) g.buckets

end Geometry

/-! ## Placement -/

structure Placing where
  /-- How many rows of each key have been placed, a 32-bit counter. -/
  keySeq : UInt64 → Nat
  /-- How many rows each bucket has received. -/
  occ : Nat → Nat
  /-- Row and slot of every placed row, by batch. -/
  batched : List (List (Nat × Nat))

def Placing.start : Placing :=
  ⟨fun _ => 0, fun _ => 0, []⟩

variable (batched : List (List (Nat × Nat)))

/-- Append to batch `b`, growing the batch list to hold it. -/
def pushBatch (b : Nat) (item : Nat × Nat) : List (List (Nat × Nat)) :=
  let grown := batched ++ List.replicate (b + 1 - batched.length) []
  grown.modify b (· ++ [item])

/-- The bucket of a row that is the `i`-th of its key. -/
def bucketOf (buckets : Nat) (key : UInt64) (i : Nat) : Nat :=
  if buckets > 1 then u32 (u32 (mix key).toNat + i) &&& (buckets - 1) else 0

/-- The slot the `o`-th row of bucket `bucket` starts at inside its batch: the
first `seg` rows of a batch sit in half-row 0, the rest in half-row 1. -/
def slotOf (g : Geometry ctx) (bucket o : Nat) : Nat :=
  let k := o % g.slotsPerBucketCt
  let blk := bucket * g.seg + (if k < g.seg then k else k - g.seg)
  if k < g.seg then blk * g.keyBits else ctx.row + blk * g.keyBits

def placeRow (g : Geometry ctx) (st : Placing) (r : Nat) (key : UInt64) : Placing :=
  let bucket := bucketOf g.buckets key (st.keySeq key)
  let o := st.occ bucket
  { keySeq :=
      if g.buckets > 1 then Function.update st.keySeq key (u32 (st.keySeq key + 1)) else st.keySeq
    occ := Function.update st.occ bucket (o + 1)
    batched := pushBatch st.batched (o / g.slotsPerBucketCt) (r, slotOf g bucket o) }

def place (g : Geometry ctx) (keys : List UInt64) : Placing :=
  keys.zipIdx.foldl (fun st p => placeRow g st p.2 p.1) .start

/-! ## One batch -/

def keyAt (keys : List UInt64) (r : Nat) : UInt64 :=
  keys.getD r 0

def keySlots (g : Geometry ctx) (keys : List UInt64) (items : List (Nat × Nat)) : List Nat :=
  items.foldl (fun slots item => writeBlock slots item.2 (keyToBits (keyAt keys item.1) g.keyBits))
    (List.replicate ctx.slotCount 0)

variable (ctx) in
/-- A one at every occupied block start. -/
def startMask (items : List (Nat × Nat)) : List Nat :=
  items.foldl (fun slots item => slots.set item.2 1) (List.replicate ctx.slotCount 0)

/-- The record bytes plane `p` carries, as the 32-bit bounds of the source. -/
def planeRange (g : Geometry ctx) (p : Nat) : Nat × Nat :=
  (u32 (p * g.bytesPerBlock), min g.recordBytes (u32 (u32 (p + 1) * g.bytesPerBlock)))

/-- The packed chunk of one record in plane `p`; `none` when the record ends
before the plane. -/
def packChunk (g : Geometry ctx) (p : Nat) (record : Bytes) : StatusOr (Option (List Nat)) :=
  let lo := (planeRange g p).1
  if lo ≥ record.length then .ok none
  else
    let stop := min (planeRange g p).2 (u32 record.length)
    some <$> packBytesToSlots ((record.drop lo).take (u32 (stop + 2 ^ 32 - lo))) g.bytesPerSlot

def planeSlots (g : Geometry ctx) (rows : List Bytes) (items : List (Nat × Nat)) (p : Nat) :
    StatusOr (List Nat) :=
  items.foldlM (fun slots item => do
    match ← packChunk g p (rows.getD item.1 []) with
    | none => return slots
    | some packed => return writeBlock slots item.2 packed) (List.replicate ctx.slotCount 0)

/-- `1 - (operand - key) ^ 2`, multiplied across each block by the AND tree. -/
def equalityIndicator (g : Geometry ctx) (keyPt ones : Plaintext ctx) (operand : Ciphertext ctx) :
    Ciphertext ctx :=
  let s := operand - keyPt
  let s := s * s
  let s := -s
  let s := s + ones
  (List.range g.levels).foldl (fun s i => s * rotateRows s (2 ^ i : Nat)) s

/-- The union of the per-operand indicators. -/
def unionIndicator (g : Geometry ctx) (keyPt ones : Plaintext ctx) (query : EncryptedQuery ctx) :
    Ciphertext ctx :=
  query.extraOperands.foldl (fun sel extra => sel + equalityIndicator g keyPt ones extra)
    (equalityIndicator g keyPt ones query.query)

def broadcast (g : Geometry ctx) (sel : Ciphertext ctx) : Ciphertext ctx :=
  (List.range g.levels).foldl (fun sel i => sel + rotateRows sel (-((2 ^ i : Nat) : Int))) sel

/-- The doubling sum from one block up to the bucket width, with fuel. -/
def blockSumLoop (stride : Nat) : Nat → Nat → Ciphertext ctx → Ciphertext ctx
  | 0, _, out => out
  | fuel + 1, step, out =>
    if step < stride then blockSumLoop stride fuel (2 * step) (out + rotateRows out step) else out

def blockSum (g : Geometry ctx) (out : Ciphertext ctx) : Ciphertext ctx :=
  blockSumLoop g.stride g.stride g.keyBits out

def batchFailed (what : Bytes) : Status :=
  internalError [bytes "reference backend batch failed: ", what]

/-- A library call inside the batch: its exception becomes the batch's status. -/
def caught {α : Type} (x : Except Bytes α) : StatusOr α :=
  x.mapError batchFailed

/-- One payload plane of a batch, added to its accumulator.  A plane without data
contributes nothing and is skipped. -/
def addPlane (g : Geometry ctx) (rows : List Bytes) (items : List (Nat × Nat)) (sel : Ciphertext ctx)
    (acc : List (Ciphertext ctx)) (p : Nat) : StatusOr (List (Ciphertext ctx)) := do
  let paySlots ← planeSlots g rows items p
  if paySlots.all (· == 0) then
    return acc
  let payPt ← encodeBatch ctx paySlots
  let out ← caught (multiplyPlain sel payPt)
  return acc.modify p (· + blockSum g out)

/-- The broadcast match indicator of a batch. -/
def selection (g : Geometry ctx) (keys : List UInt64) (query : EncryptedQuery ctx)
    (ones : Plaintext ctx) (items : List (Nat × Nat)) : StatusOr (Ciphertext ctx) := do
  let keyPt ← encodeBatch ctx (keySlots g keys items)
  let startPt ← encodeBatch ctx (startMask ctx items)
  let sel := unionIndicator g keyPt ones query
  let sel ← caught (multiplyPlain sel startPt)
  let sel := if query.op = .ne then -sel + startPt else sel
  return broadcast g sel

def processBatch (g : Geometry ctx) (keys : List UInt64) (rows : List Bytes)
    (query : EncryptedQuery ctx) (ones : Plaintext ctx) (acc : List (Ciphertext ctx))
    (items : List (Nat × Nat)) : StatusOr (List (Ciphertext ctx)) := do
  let sel ← selection g keys query ones items
  let acc ← (List.range g.planes).foldlM (addPlane g rows items sel) acc
  return acc.modify g.planes (· + blockSum g sel)

/-! ## All batches -/

/-- The batches worker `t` of `n` runs: `t`, `t + n`, `t + 2n`, ... -/
def threadBatches (n t : Nat) : List (List (Nat × Nat)) :=
  (batched.zipIdx.filter fun p => p.2 % n == t).map Prod.fst

/-- Add a worker's accumulators to the result, plane by plane. -/
def reduceLocal (acc partials : List (Ciphertext ctx)) : List (Ciphertext ctx) :=
  List.zipWith (· + ·) acc partials

variable (hardwareConcurrency : Nat)

/-- Serial on one batch or one processor, else split over `nthreads` workers, each
with its own accumulators, and reduced in worker order. -/
def runBatches (batched : List (List (Nat × Nat))) (seed : List (Ciphertext ctx))
    (process : List (Ciphertext ctx) → List (Nat × Nat) → StatusOr (List (Ciphertext ctx))) :
    StatusOr (List (Ciphertext ctx)) := do
  let nthreads := min batched.length (if hardwareConcurrency = 0 then 1 else hardwareConcurrency)
  if nthreads ≤ 1 then
    batched.foldlM process seed
  else
    let locals ← (List.range nthreads).mapM fun t =>
      (threadBatches batched nthreads t).foldlM process seed
    return locals.foldl reduceLocal seed

/-- The body of `evaluate` once its checks have passed and there is a row. -/
def evaluateRows (g : Geometry ctx) (query : EncryptedQuery ctx) (keys : List UInt64)
    (rows : List Bytes) : StatusOr (List (Ciphertext ctx)) := do
  let ones ← encodeBatch ctx (List.replicate ctx.slotCount 1)
  let zeroPt ← encodeBatch ctx (List.replicate ctx.slotCount 0)
  let seed := List.replicate (g.planes + 1) (encrypt zeroPt)
  runBatches hardwareConcurrency (place g keys).batched seed (processBatch g keys rows query ones)

theorem room_of_checks {keyBits buckets : Nat}
    (inRow : ¬ (buckets > u32 (ctx.slotCount / 2 / keyBits))) : keyBits * buckets ≤ ctx.row := by
  have half : ctx.slotCount / 2 = ctx.row := Nat.mul_div_cancel_left _ (by decide)
  have bound : buckets ≤ ctx.row / keyBits := by
    have := Nat.mod_le (ctx.row / keyBits) (2 ^ 32)
    rw [half, u32] at inRow
    omega
  calc keyBits * buckets ≤ keyBits * (ctx.row / keyBits) := Nat.mul_le_mul_left _ bound
    _ ≤ ctx.row := Nat.mul_div_le ctx.row keyBits

/-- The checks of `evaluate`: the geometry it accepts, or none if there is no row. -/
def acceptedGeometry (query : EncryptedQuery ctx) (keys : KeyColumn) (payload : PayloadColumns) :
    StatusOr (Option (Geometry ctx)) :=
  let row := ctx.slotCount / 2
  let blocksPerRow := row / keys.keyBits
  let buckets := effectiveBuckets query.resultBuckets
  if query.op ≠ .eq ∧ query.op ≠ .ne then
    .error (unimplemented ["reference backend supports only '=' and '<>', got op ",
      query.op.toBytes])
  else if keys.keys.length ≠ payload.rows.length then
    .error (invalidArgument ["key column has ", dec keys.keys.length,
      " rows but payload has ", dec payload.rows.length])
  else if kb : ¬ isPowerOfTwo keys.keyBits then
    .error (invalidArgument ["key_bits must be a power of two, got ", dec keys.keyBits])
  else if geometry : payload.bytesPerSlot = 0 ∨ payload.recordBytes = 0 then
    .error (invalidArgument
      ["payload geometry (record_bytes, bytes_per_slot) must be positive"])
  else if keys.keys.length = 0 then
    .ok none
  else if keys.keyBits > row ∨ row % keys.keyBits ≠ 0 then
    .error (invalidArgument ["key_bits ", dec keys.keyBits,
      " does not divide the slot row size ", dec row])
  else if b : ¬ isPowerOfTwo buckets ∨ buckets > u32 blocksPerRow then
    .error (invalidArgument ["result_buckets must be a power of two in [1, ",
      dec blocksPerRow, "], got ", dec buckets])
  else
    .ok (some
      { keyBits := keys.keyBits
        bytesPerSlot := payload.bytesPerSlot
        recordBytes := payload.recordBytes
        buckets := buckets
        keyBits_pow := (isPowerOfTwo_iff _).1 (not_not.1 kb)
        buckets_pow := (isPowerOfTwo_iff _).1 (not_not.1 (not_or.1 b).1)
        payload_pos := geometry
        room := room_of_checks (not_or.1 b).2 })

def evaluate (query : EncryptedQuery ctx) (keys : KeyColumn) (payload : PayloadColumns) :
    StatusOr (List (Ciphertext ctx)) := do
  match ← acceptedGeometry query keys payload with
  | none => return []
  | some g => evaluateRows hardwareConcurrency g query keys.keys payload.rows

/-! ## Combining shards -/

/-- Add a shard's plane `i`, if it has one, to the accumulator. -/
def addShardPlane (i : Nat) (acc : Option (Ciphertext ctx)) (shard : List (Ciphertext ctx)) :
    Option (Ciphertext ctx) :=
  match shard[i]? with
  | none => acc
  | some cipher =>
    match acc with
    | none => some cipher
    | some sum => some (sum + cipher)

variable (partials : List (List (Ciphertext ctx)))

/-- Plane `i` summed over the shards that have it. -/
def combinePlane (i : Nat) : Option (Ciphertext ctx) :=
  partials.foldl (addShardPlane i) none

def combine : StatusOr (List (Ciphertext ctx)) :=
  let width := partials.foldl (fun width shard => max width shard.length) 0
  match partials.find? fun shard => !shard.isEmpty && shard.length != width with
  | some shard =>
    .error (invalidArgument ["reference backend combine: shards disagree on plane count (",
      dec width, " vs ", dec shard.length,
      "); the shards answered from inconsistent epochs"])
  | none => .ok ((List.range width).filterMap (combinePlane partials))

end OpaqueDb.Backend
