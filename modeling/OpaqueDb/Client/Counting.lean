/-
# Client.Counting -- when COUNT(*) is exact

Each half-row of a bucket counts its matching rows in a slot, which wraps at the
plaintext modulus; the client adds the two half-rows outside the modulus and then the
buckets.  The decoded count of a bucket is therefore never above the number of its
matching rows, and equal to it exactly when neither half-row has wrapped.

`count_exact_iff`: the total is right and every collision is reported exactly when, in
every bucket, each half-row has fewer matching rows than the modulus.
-/
import OpaqueDb.Client.Paging

namespace OpaqueDb.Client

open OpaqueDb.Core Crypto Theory Backend Sql Server List Storage Config

set_option autoImplicit false

variable {ctx : CryptoContext}

/-! ## Sums of counts -/

theorem countLoop_eq (buckets : List BucketResult) (total : Nat) :
    buckets.foldl (fun total br => (total + br.count) % 2 ^ 64) (total % 2 ^ 64) =
      (total + (buckets.map BucketResult.count).sum) % 2 ^ 64 := by
  induction buckets generalizing total with
  | nil => simp
  | cons br buckets ih =>
    rw [foldl_cons, Nat.mod_add_mod, ih, map_cons, sum_cons, Nat.add_assoc]

theorem decodedCount_le (ctx : CryptoContext) (first second : Nat) :
    decodedCount ctx first second ≤ first + second := by
  have := Nat.mod_le first ctx.plainModulus
  have := Nat.mod_le second ctx.plainModulus
  rw [decodedCount]
  omega

/-- A bucket's count is right only when neither half-row wrapped. -/
theorem lt_of_decodedCount_eq {first second : Nat}
    (same : decodedCount ctx first second = first + second) :
    first < ctx.plainModulus ∧ second < ctx.plainModulus := by
  have pos := ctx.prime.pos
  have first_ := Nat.mod_lt first pos
  have second_ := Nat.mod_lt second pos
  have := Nat.mod_le first ctx.plainModulus
  have := Nat.mod_le second ctx.plainModulus
  rw [decodedCount] at same
  omega

section Count

variable (d : Deployment ctx) (epoch : Epoch) (rank : Nat) (op : Op) (operands : List UInt64)

/-- Matching rows in one half-row of a bucket. -/
def halfCount (half bucket : Nat) : Nat :=
  (matchedRows d.geometry (epoch.keys rank) op operands half bucket).length

theorem selected_length (half bucket : Nat) :
    (selected d epoch rank op operands half bucket).length =
      halfCount d epoch rank op operands half bucket := by
  rw [selected, matchedRecords, length_map, halfCount]

theorem halfCount_add (bucket : Nat) :
    halfCount d epoch rank op operands 0 bucket + halfCount d epoch rank op operands 1 bucket =
      (rowsOf d epoch rank op operands bucket).length := by
  have perm := (matchedRows_perm d.geometry (epoch.keys rank) op operands bucket).length_eq
  rwa [length_append] at perm

/-- What the client reads as the count of a bucket. -/
def readCount (bucket : Nat) : Nat :=
  decodedCount ctx (halfCount d epoch rank op operands 0 bucket)
    (halfCount d epoch rank op operands 1 bucket)

theorem readCount_le (bucket : Nat) :
    readCount d epoch rank op operands bucket ≤ (rowsOf d epoch rank op operands bucket).length := by
  rw [← halfCount_add]
  exact decodedCount_le ctx _ _

theorem sum_rowsOf :
    ((range d.geometry.buckets).map fun bucket =>
      (rowsOf d epoch rank op operands bucket).length).sum =
      (matching epoch rank op operands).length := by
  have perm := (recordsOf_perm d epoch rank op operands).length_eq
  rw [length_flatMap] at perm
  simpa [recordsOf] using perm

theorem sum_readCount_le :
    ((range d.geometry.buckets).map (readCount d epoch rank op operands)).sum ≤
      (matching epoch rank op operands).length := by
  rw [← sum_rowsOf]
  exact sum_le_sum fun bucket _ => readCount_le d epoch rank op operands bucket

theorem matching_length_le : (matching epoch rank op operands).length ≤ epoch.rows.length := by
  rw [matching, length_map]
  exact length_filter_le _ _

theorem rowsOf_length_le (bucket : Nat) :
    (rowsOf d epoch rank op operands bucket).length ≤ epoch.rows.length := by
  have keys : (epoch.keys rank).length = epoch.rows.length := by simp [Epoch.keys]
  rw [← keys]
  exact (length_filter_le _ _).trans length_range.le

end Count

section Exact

variable {d : Deployment ctx} {request : Request} {prepared : PreparedQuery} {epoch : Epoch}
  {rank : Nat} {op : Op} {operands : List UInt64}

/-- The count of a question, as the client adds it up. -/
theorem queryCount_eq (asks : Asks d request prepared epoch rank op operands)
    (word : epoch.rows.length < 2 ^ 64) :
    queryCount ctx d.config d.engine request =
      .ok ((range d.geometry.buckets).map (readCount d epoch rank op operands)).sum := by
  have rows := le_trans (sum_readCount_le d epoch rank op operands)
    (matching_length_le epoch rank op operands)
  have below := lt_of_le_of_lt rows word
  have loop := fun buckets => countLoop_eq buckets 0
  simp only [Nat.zero_mod, Nat.zero_add] at loop
  rw [queryCount, runQuery_eq asks]
  simp only [bind, Except.bind, loop]
  by_cases none_ : epoch.rows = []
  · have zero : ((range d.geometry.buckets).map (readCount d epoch rank op operands)).sum = 0 := by
      rw [none_, length_nil] at rows
      omega
    rw [if_pos none_, zero]
    rfl
  · have counts : (readBuckets d epoch rank op operands).map BucketResult.count =
        (range d.geometry.buckets).map (readCount d epoch rank op operands) := by
      rw [readBuckets, map_map]
      apply map_congr_left
      intro bucket _
      rw [Function.comp_apply, bucketRead_count, selected_length, selected_length, readCount]
    rw [if_neg none_, counts, Nat.mod_eq_of_lt below]
    rfl

/-- In every bucket each half-row has fewer matching rows than the modulus. -/
def NoWrap (d : Deployment ctx) (epoch : Epoch) (rank : Nat) (op : Op) (operands : List UInt64) :
    Prop :=
  ∀ bucket < d.geometry.buckets, ∀ half < 2,
    halfCount d epoch rank op operands half bucket < ctx.plainModulus

theorem readCount_of_noWrap (noWrap : NoWrap d epoch rank op operands)
    (word : epoch.rows.length < 2 ^ 64) {bucket : Nat} (inBucket : bucket < d.geometry.buckets) :
    readCount d epoch rank op operands bucket = (rowsOf d epoch rank op operands bucket).length := by
  have total := halfCount_add d epoch rank op operands bucket
  have rows := rowsOf_length_le d epoch rank op operands bucket
  rw [readCount, decodedCount_eq (noWrap bucket inBucket 0 (by decide))
    (noWrap bucket inBucket 1 (by decide)) (by omega), total]

theorem noWrap_of_few (few : FewPerBucket d epoch rank op operands) :
    NoWrap d epoch rank op operands := by
  intro bucket inBucket half inHalf
  have total := halfCount_add d epoch rank op operands bucket
  have below := few bucket inBucket
  rcases (by omega : half = 0 ∨ half = 1) with rfl | rfl <;> omega

/-- **When COUNT(*) is exact.**  The total is the number of matching rows and every bucket
with two of them is reported as collided, exactly when no half-row of a bucket has as
many matching rows as the plaintext modulus. -/
theorem count_exact_iff (asks : Asks d request prepared epoch rank op operands)
    (word : epoch.rows.length < 2 ^ 64) :
    (queryCount ctx d.config d.engine request = .ok (matching epoch rank op operands).length ∧
      ∃ decoded, runQuery ctx d.config d.engine request = .ok decoded ∧
        ∀ bucket < d.geometry.buckets, 2 ≤ (rowsOf d epoch rank op operands bucket).length →
          ∃ br, decoded.buckets[bucket]? = some br ∧ br.present = true ∧ br.collided = true) ↔
      NoWrap d epoch rank op operands := by
  rw [queryCount_eq asks word]
  constructor
  · rintro ⟨total, _⟩
    have same := Except.ok.inj total
    rw [← sum_rowsOf d epoch rank op operands] at same
    have each := eq_of_sum_eq (fun bucket _ => readCount_le d epoch rank op operands bucket) same
    intro bucket inBucket half inHalf
    have right := each bucket (mem_range.2 inBucket)
    rw [← halfCount_add, readCount] at right
    obtain ⟨first, second⟩ := lt_of_decodedCount_eq right
    rcases (by omega : half = 0 ∨ half = 1) with rfl | rfl
    · exact first
    · exact second
  · intro noWrap
    have each : ∀ bucket ∈ range d.geometry.buckets, readCount d epoch rank op operands bucket =
        (rowsOf d epoch rank op operands bucket).length :=
      fun bucket member => readCount_of_noWrap noWrap word (mem_range.1 member)
    refine ⟨by rw [map_congr_left each, sum_rowsOf], _, runQuery_eq asks, ?_⟩
    intro bucket inBucket crowded
    have some_ : epoch.rows ≠ [] := by
      intro none_
      simp [rowsOf, bucketRows, Epoch.keys, none_] at crowded
    have count := each bucket (mem_range.2 inBucket)
    rw [readCount, ← selected_length, ← selected_length] at count
    refine ⟨_, by rw [if_neg some_, readBuckets, getElem?_map, getElem?_range inBucket]; rfl,
      ?_, ?_⟩
    · rw [bucketRead_present]
      omega
    · rw [bucketRead_collided]
      omega

end Exact

/-! ## A small deployment -/

variable (cells : List (UInt64 × UInt8 × UInt8))

/-- One bucket over the rows of the cells. -/
def oneBucket : Deployment defaultContext :=
  sampleDeployment 64 1 (by decide) cells

def sampleCount : Request where
  clientId := bytes "me"
  sqlTemplate := bytes "SELECT COUNT(*) FROM t WHERE k = 5"

def sampleCountPrepared : PreparedQuery where
  sqlTemplate := bytes "SELECT COUNT(*) FROM t WHERE k = :v"
  literals := [.int 5]
  count := true

theorem sampleCount_asks :
    Asks (oneBucket cells) sampleCount sampleCountPrepared (sampleEpoch 64 cells) 0 .eq [5] where
  lifted := by decide
  encoded := rfl
  distinct := by decide
  accepts := ⟨by decide, rfl, ⟨⟨bytes "t", bytes "reference", .eq, bytes "k", 0, bytes "v", 1, true,
    [], [], none, none⟩, rfl, rfl, rfl, rfl⟩, by decide⟩

theorem count_two_rows :
    queryCount defaultContext (sampleConfig 64 1) (sampleEngine 64 1 [(5, 0, 1), (5, 0, 2)]) sampleCount =
      .ok 2 := by
  have few : FewPerBucket (oneBucket [(5, 0, 1), (5, 0, 2)]) (sampleEpoch 64 [(5, 0, 1), (5, 0, 2)]) 0
      .eq [5] := fun bucket _ => lt_of_le_of_lt (rowsOf_length_le _ _ _ _ _ bucket) (by decide)
  have exact_ := (count_exact_iff (sampleCount_asks [(5, 0, 1), (5, 0, 2)]) (by decide)).2
    (noWrap_of_few few)
  rw [matching_point_length, sampleEpoch_keys] at exact_
  exact exact_.1

/-- Of the rows of a round, the first half go to the first half-row. -/
theorem half_of_round (s half : Nat) (inHalf : half < 2) :
    ((range (2 * s)).filter fun r => r / s % 2 = half).length = s := by
  have first : ∀ r ∈ range s, decide (r / s % 2 = half) = decide (0 = half) := fun r member => by
    rw [Nat.div_eq_of_lt (mem_range.1 member)]
  have second : ∀ r ∈ range s, decide ((s + r) / s % 2 = half) = decide (1 = half) :=
    fun r member => by
      have inside := mem_range.1 member
      rw [Nat.add_div_left r (by omega), Nat.div_eq_of_lt inside]
  rw [Nat.two_mul, range_add, filter_append, filter_map, length_append, length_map,
    filter_congr first]
  simp only [Function.comp_def]
  rw [filter_congr second]
  rcases (by omega : half = 0 ∨ half = 1) with rfl | rfl <;> simp

theorem half_of_rounds {s : Nat} (pos : 0 < s) (half : Nat) (inHalf : half < 2) (m : Nat) :
    ((range (2 * s * m)).filter fun r => r / s % 2 = half).length = s * m := by
  induction m with
  | zero => rfl
  | succ m ih =>
    have shifted : ∀ r, (2 * s * m + r) / s % 2 = r / s % 2 := by
      intro r
      rw [show 2 * s * m + r = r + s * (2 * m) by ring, Nat.add_mul_div_left _ _ pos,
        Nat.add_mul_mod_self_left]
    rw [Nat.mul_succ, range_add, filter_append, length_append, filter_map, length_map]
    simp only [Function.comp_def, shifted]
    rw [ih, half_of_round s half inHalf, Nat.mul_succ]

/-- One bucket and rows of one key: they fill the half-rows in turn. -/
theorem matchedRows_same (g : Geometry ctx) (single : g.buckets = 1) (n : Nat) (v : UInt64)
    (half : Nat) :
    matchedRows g (replicate n v) .eq [v] half 0 =
      (range n).filter fun r => r / g.seg % 2 = half := by
  have bucket : ∀ r, rowBucket g.buckets (replicate n v) r = 0 := by
    intro r
    rw [rowBucket, single, Nat.mod_one]
  have order : ∀ r, rowOrder g.buckets (replicate n v) r = r := by
    intro r
    rw [rowOrder, Theory.rank]
    simp only [bucket]
    exact Nat.count_true r
  rw [matchedRows, length_replicate]
  apply filter_congr
  intro r member
  have inside := mem_range.1 member
  simp only [rowHalf, order, bucket]
  simp [satisfies, keyAt, inside]

/-- `m` rounds of 256 rows of the key 5. -/
def rounds (m : Nat) : List (UInt64 × UInt8 × UInt8) :=
  replicate (2 * 128 * m) (5, 0, 1)

theorem rounds_keys (m : Nat) : (sampleEpoch 64 (rounds m)).keys 0 = replicate (2 * 128 * m) 5 := by
  rw [sampleEpoch_keys, rounds, map_replicate]

theorem rounds_halfCount (m half : Nat) (inHalf : half < 2) :
    halfCount (oneBucket (rounds m)) (sampleEpoch 64 (rounds m)) 0 .eq [5] half 0 = 128 * m := by
  have seg : (oneBucket (rounds m)).geometry.seg = 128 :=
    show 8192 / 64 / 1 = 128 by decide
  rw [halfCount, rounds_keys, matchedRows_same _ rfl, seg]
  exact half_of_rounds (by decide) half inHalf m

/-- As many full half-rows as the modulus wrap to nothing: the count of 201326848 matching
rows is 0, and their bucket reads as absent. -/
theorem count_wraps :
    (matching (sampleEpoch 64 (rounds 786433)) 0 .eq [5]).length = 201326848 ∧
    queryCount defaultContext (sampleConfig 64 1) (sampleEngine 64 1 (rounds 786433)) sampleCount =
      .ok 0 ∧
    runQuery defaultContext (sampleConfig 64 1) (sampleEngine 64 1 (rounds 786433)) sampleCount =
      .ok ⟨sampleCountPrepared, [{}]⟩ := by
  have asks := sampleCount_asks (rounds 786433)
  have length : (sampleEpoch 64 (rounds 786433)).rows.length = 201326848 := by
    rw [sampleEpoch, length_map, rounds, length_replicate]
  have some_ : (sampleEpoch 64 (rounds 786433)).rows ≠ [] := by
    intro none_
    rw [none_] at length
    cases length
  have wrapped : readCount (oneBucket (rounds 786433)) (sampleEpoch 64 (rounds 786433)) 0 .eq [5] 0 =
      0 := by
    rw [readCount, rounds_halfCount _ _ (by decide), rounds_halfCount _ _ (by decide)]
    rfl
  refine ⟨?_, ?_, ?_⟩
  · rw [matching_point_length, rounds_keys, count_replicate_self]
  · have counted := queryCount_eq asks (by rw [length]; decide)
    rw [show (oneBucket (rounds 786433)).geometry.buckets = 1 from rfl, range_one, map_singleton,
      sum_singleton, wrapped] at counted
    exact counted
  · have run := runQuery_eq asks
    rw [if_neg some_, readBuckets, show (oneBucket (rounds 786433)).geometry.buckets = 1 from rfl,
      range_one, map_singleton] at run
    rw [readCount, ← selected_length, ← selected_length] at wrapped
    rw [bucketRead, wrapped] at run
    exact run

end OpaqueDb.Client
