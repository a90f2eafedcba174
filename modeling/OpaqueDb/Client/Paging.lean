/-
# Client.Paging -- which rows the pages of a query return

The client keeps the buckets with exactly one matching row and cuts its row windows
out of them.  The order of the buckets is the same for every page, so the pages of
one question concatenate to the clean records (`pages_eq`).

* `point_query_complete`: a key held by no more rows than there are buckets puts each
  of them in a bucket of its own, so nothing collides and the pages return them all.
* `paging_complete_iff`: in general the pages return every matching row exactly when
  no bucket has two of them; a row whose bucket collided is on no page.
-/
import OpaqueDb.Client.QueryClient

namespace OpaqueDb.Client

open OpaqueDb.Core Crypto Theory Backend Sql Server List Storage Config

set_option autoImplicit false

variable {ctx : CryptoContext}

/-! ## Collecting -/

variable (buckets : List BucketResult)

theorem collectClean_from (matched : List Bytes) (collided : Nat) :
    buckets.foldl (fun (matched, collided) br =>
      if br.collided then (matched, u32 (collided + 1))
      else if br.present then (matched ++ [br.record], collided)
      else (matched, collided)) (matched, u32 collided) =
      (matched ++ (buckets.filter fun br => !br.collided && br.present).map BucketResult.record,
        u32 (collided + buckets.countP BucketResult.collided)) := by
  induction buckets generalizing matched collided with
  | nil => simp
  | cons br buckets ih =>
    rw [foldl_cons]
    by_cases crowded : br.collided = true
    · have step : u32 (u32 collided + 1) = u32 (collided + 1) := Nat.mod_add_mod _ _ _
      simp only [crowded, if_true, step]
      rw [ih, filter_cons_of_neg (by simp [crowded]), countP_cons_of_pos crowded]
      congr 2
      omega
    · by_cases found : br.present = true
      · simp only [crowded, found, if_true, Bool.false_eq_true, if_false]
        rw [ih, filter_cons_of_pos (by simp [crowded, found]), countP_cons_of_neg crowded]
        simp
      · simp only [crowded, found, Bool.false_eq_true, if_false]
        rw [ih, filter_cons_of_neg (by simp [found]), countP_cons_of_neg crowded]

/-- The loop of `collectClean` keeps the present buckets that did not collide. -/
theorem collectClean_eq : collectClean buckets =
      ((buckets.filter fun br => !br.collided && br.present).map BucketResult.record,
        u32 (buckets.countP BucketResult.collided)) := by
  have run := collectClean_from buckets [] 0
  rw [Nat.zero_add] at run
  exact run

variable {ι : Type} (f : ι → List Bytes) (l : List ι)

/-- Of buckets that report their records, those with a single record are kept. -/
theorem clean_bucketResult :
    ((l.map fun b => bucketResult (f b)).filter fun br => !br.collided && br.present).map
      BucketResult.record = l.flatMap fun b => sole (f b) := by
  induction l with
  | nil => rfl
  | cons b l ih =>
    rw [map_cons, flatMap_cons, ← ih]
    match f b with
    | [] => rfl
    | [_] => rfl
    | _ :: _ :: _ => rfl

theorem collided_bucketResult : (l.map fun b => bucketResult (f b)).countP BucketResult.collided =
      l.countP fun b => decide (2 ≤ (f b).length) := by
  rw [countP_map]
  apply countP_congr
  simp [bucketResult_collided]

/-! ## The matching rows -/

section Rows

variable (d : Deployment ctx) (epoch : Epoch) (rank : Nat) (op : Op) (operands : List UInt64)

/-- The records of the rows a question asks for, in table order. -/
def matching : List Bytes :=
  (epoch.rows.filter fun row => satisfies op operands (row.subKey epoch.manifest.keyBits rank)).map
    Row.payload

/-- The rows a question asks for in one bucket. -/
def rowsOf (bucket : Nat) : List Nat :=
  bucketRows d.geometry.buckets (epoch.keys rank) op operands bucket

def recordsOf (bucket : Nat) : List Bytes :=
  (rowsOf d epoch rank op operands bucket).map (rowAt epoch.records)

theorem matchingRows_records :
    (matchingRows (epoch.keys rank) op operands).map (rowAt epoch.records) =
      matching epoch rank op operands := by
  have whole : epoch.rows = (range epoch.rows.length).map fun r => epoch.rows.getD r ⟨[], []⟩ := by
    apply ext_getElem
    · simp
    · intro i inside _
      rw [getElem_map, getElem_range, getD_eq_getElem _ _ inside]
  have length : (epoch.keys rank).length = epoch.rows.length := by simp [Epoch.keys]
  rw [matching]
  conv_rhs => rw [whole]
  rw [filter_map, map_map, matchingRows, length]
  have kept : ∀ r ∈ range epoch.rows.length, keyAt (epoch.keys rank) r =
      (epoch.rows.getD r ⟨[], []⟩).subKey epoch.manifest.keyBits rank := by
    intro r member
    have inside := mem_range.1 member
    rw [keyAt, Epoch.keys, getD_eq_getElem _ _ (by simpa using inside), getElem_map,
      getD_eq_getElem _ _ inside]
  rw [filter_congr fun r member => by rw [kept r member]]
  apply map_congr_left
  intro r member
  have inside := mem_range.1 (mem_filter.1 member).1
  rw [rowAt, Epoch.records, getD_eq_getElem _ _ (by simpa using inside), getElem_map,
    Function.comp_apply, getD_eq_getElem _ _ inside]

/-- A point question asks for as many rows as hold the key. -/
theorem matching_point_length (v : UInt64) :
    (matching epoch rank .eq [v]).length = (epoch.keys rank).count v := by
  rw [matching, length_map, ← countP_eq_length_filter, Epoch.keys, List.count, countP_map]
  apply countP_congr
  simp [satisfies]

/-- The buckets hold the matching records, each once. -/
theorem recordsOf_perm :
    ((range d.geometry.buckets).flatMap (recordsOf d epoch rank op operands)).Perm
      (matching epoch rank op operands) := by
  have rows := (bucketRows_perm d.geometry (epoch.keys rank) op operands).map (rowAt epoch.records)
  rwa [map_flatMap, matchingRows_records] at rows

theorem selected_perm (bucket : Nat) :
    (selected d epoch rank op operands 0 bucket ++ selected d epoch rank op operands 1 bucket).Perm
      (recordsOf d epoch rank op operands bucket) :=
  matchedRecords_perm d.geometry (epoch.keys rank) epoch.records op operands bucket

/-- The records a query keeps, in bucket order. -/
def clean : List Bytes :=
  (range d.geometry.buckets).flatMap fun bucket => sole (recordsOf d epoch rank op operands bucket)

theorem clean_length_le : (clean d epoch rank op operands).length ≤
    (matching epoch rank op operands).length := by
  rw [← (recordsOf_perm d epoch rank op operands).length_eq]
  exact sole_flatMap_length_le _ _

/-- The clean records are all of them exactly when no bucket has two matching rows. -/
theorem clean_complete_iff :
    (matching epoch rank op operands).Subperm (clean d epoch rank op operands) ↔
      ∀ bucket < d.geometry.buckets, (rowsOf d epoch rank op operands bucket).length ≤ 1 := by
  rw [← (recordsOf_perm d epoch rank op operands).subperm_right, clean, sole_flatMap_iff]
  simp [recordsOf]

end Rows

/-! ## The answers of a question -/

section Answers

variable {d : Deployment ctx} {request : Request} {prepared : PreparedQuery} {epoch : Epoch}
  {rank : Nat} {op : Op} {operands : List UInt64}

/-- Fewer rows match in each bucket than the plaintext modulus. -/
def FewPerBucket (d : Deployment ctx) (epoch : Epoch) (rank : Nat) (op : Op)
    (operands : List UInt64) : Prop :=
  ∀ bucket < d.geometry.buckets, (rowsOf d epoch rank op operands bucket).length < ctx.plainModulus

theorem readBuckets_few (asks : Asks d request prepared epoch rank op operands)
    (few : FewPerBucket d epoch rank op operands) :
    readBuckets d epoch rank op operands =
      (range d.geometry.buckets).map fun bucket =>
        bucketResult (recordsOf d epoch rank op operands bucket) := by
  apply map_congr_left
  intro bucket member
  have perm := selected_perm d epoch rank op operands bucket
  have length := perm.length_eq
  rw [recordsOf, length_map] at length
  rw [bucketRead_few d.carries (asks.holds.whole_bucket bucket)
    (by rw [length]; exact few bucket (mem_range.1 member)), bucketResult_perm perm]

theorem recordsOf_empty {bucket : Nat} (none_ : epoch.rows = []) :
    recordsOf d epoch rank op operands bucket = [] := by
  simp [recordsOf, rowsOf, bucketRows, Epoch.keys, none_]

/-- **The clean rows of a question**, and how many of its buckets collided. -/
theorem collect_eq (asks : Asks d request prepared epoch rank op operands)
    (few : FewPerBucket d epoch rank op operands) :
    collectClean (if epoch.rows = [] then [] else readBuckets d epoch rank op operands) =
      (clean d epoch rank op operands, u32 ((range d.geometry.buckets).countP fun bucket =>
        decide (2 ≤ (recordsOf d epoch rank op operands bucket).length))) := by
  by_cases none_ : epoch.rows = []
  · rw [if_pos none_, collectClean_eq, clean]
    simp [recordsOf_empty none_, sole]
  · rw [if_neg none_, readBuckets_few asks few, collectClean_eq, clean_bucketResult,
      collided_bucketResult, clean]

theorem query_eq (asks : Asks d request prepared epoch rank op operands)
    (few : FewPerBucket d epoch rank op operands) :
    Prod.fst <$> query ctx d.config d.engine request =
      .ok (rowWindow (prepared.offset.getD 0) (prepared.limit.getD kDefaultSelectLimit)
        (clean d epoch rank op operands)) := by
  rw [query, runQuery_eq asks]
  simp only [bind, Except.bind, collect_eq asks few]
  rfl

/-- The `j`-th page of a question: LIMIT `n`, OFFSET `j * n`. -/
structure Page (d : Deployment ctx) (request : Request) (epoch : Epoch) (rank : Nat) (op : Op)
    (operands : List UInt64) (n j : Nat) : Prop where
  asks : ∃ prepared, Asks d request prepared epoch rank op operands ∧ prepared.limit = some n ∧
    prepared.offset.getD 0 = j * n

/-- **The pages of a question** concatenate to its clean records, as far as they reach. -/
theorem pages_eq {n pages : Nat} {page : Nat → Request}
    (asked : ∀ j < pages, Page d (page j) epoch rank op operands n j)
    (few : FewPerBucket d epoch rank op operands) :
    List.flatten <$> (range pages).mapM
        (fun j => Prod.fst <$> query ctx d.config d.engine (page j)) =
      .ok ((clean d epoch rank op operands).take (pages * n)) := by
  have each : ∀ j ∈ range pages, Prod.fst <$> query ctx d.config d.engine (page j) =
      .ok (((clean d epoch rank op operands).drop (j * n)).take n) := by
    intro j member
    obtain ⟨prepared, asks, limit, offset⟩ := (asked j (mem_range.1 member)).asks
    rw [query_eq asks few, limit, offset]
    rfl
  rw [mapM_eq_ok each]
  show Except.ok _ = _
  rw [← flatMap_def, windows_flatMap]

end Answers

/-! ## Pages of a small table -/

/-- Two buckets over the rows of the cells. -/
def twoBuckets (cells : List (UInt64 × UInt8 × UInt8)) : Deployment defaultContext :=
  sampleDeployment 64 2 (by decide) cells

/-- The `j`-th page of one row each. -/
def samplePage (j : Nat) : Request where
  clientId := bytes "me"
  sqlTemplate := strCat ["SELECT a FROM t WHERE k = 5 LIMIT 1 OFFSET ", dec j]

variable (cells : List (UInt64 × UInt8 × UInt8))

theorem samplePage_page :
    ∀ j < 3, Page (twoBuckets cells) (samplePage j) (sampleEpoch 64 cells) 0 .eq [5] 1 j := by
  have accepts : ∀ j < 3, Accepts (sampleEngine 64 2 cells) (bytes "me") []
      (strCat ["SELECT a FROM t WHERE k = :v LIMIT 1 OFFSET ", dec j]) [] (sampleEpoch 64 cells) 0
      .eq 1 := by
    intro j small
    refine ⟨by decide, rfl, ⟨⟨bytes "t", bytes "reference", .eq, bytes "k", 0, bytes "v", 1, false,
      [bytes "a"], [2], some 1, some j⟩, ?_, rfl, rfl, rfl⟩, by decide⟩
    match j, small with
    | 0, _ => rfl
    | 1, _ => rfl
    | 2, _ => rfl
  intro j small
  refine ⟨⟨strCat ["SELECT a FROM t WHERE k = :v LIMIT 1 OFFSET ", dec j], [.int 5], false,
    some 1, some j⟩, ⟨?_, ?_, by decide, accepts j small⟩, rfl, (Nat.mul_one j).symm⟩
  · match j, small with
    | 0, _ => decide
    | 1, _ => decide
    | 2, _ => decide
  · rfl

/-- The rows of each bucket, from the keys of the cells. -/
theorem twoBuckets_rowsOf (bucket : Nat) :
    rowsOf (twoBuckets cells) (sampleEpoch 64 cells) 0 .eq [5] bucket =
      bucketRows 2 (cells.map Prod.fst) .eq [5] bucket := by
  rw [rowsOf, sampleEpoch_keys]
  rfl

section Complete

variable {d : Deployment ctx} {request : Request} {prepared : PreparedQuery} {epoch : Epoch}
  {rank : Nat} {op : Op} {operands : List UInt64}

/-! ## One key -/

theorem few_of_point {v : UInt64} (held : (epoch.keys rank).count v ≤ d.config.crypto.resultBuckets) :
    ∀ bucket, (rowsOf d epoch rank .eq [v] bucket).length ≤ 1 :=
  fun bucket => bucketRows_point (g := d.geometry) held bucket

theorem clean_of_short (short : ∀ bucket < d.geometry.buckets,
    (rowsOf d epoch rank op operands bucket).length ≤ 1) :
    (clean d epoch rank op operands).Perm (matching epoch rank op operands) := by
  have kept : clean d epoch rank op operands =
      (range d.geometry.buckets).flatMap (recordsOf d epoch rank op operands) :=
    flatMap_congr fun bucket member => sole_of_length_le (by
      rw [recordsOf, length_map]
      exact short bucket (mem_range.1 member))
  rw [kept]
  exact recordsOf_perm d epoch rank op operands

/-- **Point queries lose nothing.**  A key held by no more rows than there are buckets is
answered without a collision by the records of exactly those rows, and the pages of any
size return them in the same order, up to where they reach. -/
theorem point_query_complete {v : UInt64} (asks : Asks d request prepared epoch rank .eq [v])
    (held : (epoch.keys rank).count v ≤ d.config.crypto.resultBuckets) :
    ∃ rows, queryClean ctx d.config d.engine request = .ok (rows, 0) ∧
      rows.Perm (matching epoch rank .eq [v]) ∧
      ∀ (n pages : Nat) (page : Nat → Request), 1 ≤ n →
        (∀ j < pages, Page d (page j) epoch rank .eq [v] n j) →
        ∃ windows, (range pages).mapM
            (fun j => Prod.fst <$> query ctx d.config d.engine (page j)) = .ok windows ∧
          windows.flatten = rows.take (pages * n) ∧
          ((epoch.keys rank).count v ≤ pages * n →
            windows.flatten.Perm (matching epoch rank .eq [v])) := by
  have short := few_of_point held
  have few : FewPerBucket d epoch rank .eq [v] :=
    fun bucket _ => lt_of_le_of_lt (short bucket) ctx.prime.one_lt
  have perm := clean_of_short fun bucket _ => short bucket
  have quiet : (range d.geometry.buckets).countP (fun bucket =>
      decide (2 ≤ (recordsOf d epoch rank .eq [v] bucket).length)) = 0 := by
    rw [countP_eq_zero]
    intro bucket _
    have := short bucket
    rw [recordsOf, length_map, decide_eq_true_eq]
    omega
  refine ⟨clean d epoch rank .eq [v], ?_, perm, ?_⟩
  · rw [queryClean, runQuery_eq asks]
    simp only [bind, Except.bind, collect_eq asks few, quiet]
    rfl
  · intro n pages page _ asked
    obtain ⟨windows, read, joined⟩ := map_eq_ok.1 (pages_eq asked few)
    refine ⟨windows, read, joined, fun enough => ?_⟩
    have length : (clean d epoch rank .eq [v]).length = (epoch.keys rank).count v := by
      rw [perm.length_eq, matching_point_length]
    rw [joined, take_of_length_le (by omega)]
    exact perm

/-- Two rows of one key and a row of another, in two buckets. -/
theorem point_query_two_rows :
    ∃ rows windows, queryClean defaultContext (sampleConfig 64 2)
        (sampleEngine 64 2 [(5, 0, 1), (6, 0, 2), (5, 0, 3)]) (samplePage 0) = .ok (rows, 0) ∧
      (range 2).mapM (fun j => Prod.fst <$> query defaultContext (sampleConfig 64 2)
        (sampleEngine 64 2 [(5, 0, 1), (6, 0, 2), (5, 0, 3)]) (samplePage j)) = .ok windows ∧
      windows.flatten.Perm (matching (sampleEpoch 64 [(5, 0, 1), (6, 0, 2), (5, 0, 3)]) 0 .eq [5]) := by
  have pages := samplePage_page [(5, 0, 1), (6, 0, 2), (5, 0, 3)]
  obtain ⟨_, asks, _⟩ := (pages 0 (by decide)).asks
  have held : ((sampleEpoch 64 [(5, 0, 1), (6, 0, 2), (5, 0, 3)]).keys 0).count 5 = 2 := by
    rw [sampleEpoch_keys]
    decide
  obtain ⟨rows, clean, _, paged⟩ := point_query_complete asks held.le
  obtain ⟨windows, read, _, complete⟩ :=
    paged 1 2 samplePage le_rfl fun j small => pages j (by omega)
  exact ⟨rows, windows, clean, read, complete (by rw [held])⟩

/-! ## Any question -/

/-- **When paging recovers every row.**  Pages that reach over all matching rows return
every one of them exactly when no bucket has two. -/
theorem paging_complete_iff {n pages : Nat} {page : Nat → Request}
    (asked : ∀ j < pages, Page d (page j) epoch rank op operands n j)
    (few : FewPerBucket d epoch rank op operands)
    (enough : (matching epoch rank op operands).length ≤ pages * n) :
    (∃ windows, (range pages).mapM
        (fun j => Prod.fst <$> query ctx d.config d.engine (page j)) = .ok windows ∧
      (matching epoch rank op operands).Subperm windows.flatten) ↔
      ∀ bucket < d.geometry.buckets, (rowsOf d epoch rank op operands bucket).length ≤ 1 := by
  obtain ⟨windows, read, joined⟩ := map_eq_ok.1 (pages_eq asked few)
  have reach := clean_length_le d epoch rank op operands
  rw [take_of_length_le (by omega)] at joined
  rw [← clean_complete_iff, ← joined]
  constructor
  · rintro ⟨windows', read', kept⟩
    cases Except.ok.inj (read'.symm.trans read)
    exact kept
  · intro kept
    exact ⟨windows, read, kept⟩

end Complete

theorem paging_recovers_two_rows :
    ∃ windows, (range 2).mapM (fun j => Prod.fst <$> query defaultContext (sampleConfig 64 2)
        (sampleEngine 64 2 [(5, 0, 1), (5, 0, 2)]) (samplePage j)) = .ok windows ∧
      (matching (sampleEpoch 64 [(5, 0, 1), (5, 0, 2)]) 0 .eq [5]).Subperm windows.flatten := by
  have short : ∀ bucket < 2, (bucketRows 2 [5, 5] .eq [5] bucket).length ≤ 1 := by decide
  refine (paging_complete_iff (d := twoBuckets [(5, 0, 1), (5, 0, 2)]) (n := 1)
    (fun j small => samplePage_page _ j (by omega)) (fun bucket inBucket => ?_) ?_).2
    fun bucket inBucket => ?_
  · rw [twoBuckets_rowsOf]
    exact lt_of_le_of_lt (short bucket inBucket) (by decide)
  · rw [matching_point_length, sampleEpoch_keys]
    decide
  · rw [twoBuckets_rowsOf]
    exact short bucket inBucket

/-- Three rows of one key in two buckets: the first and the third collide and are on
none of the pages. -/
theorem paging_loses_collided :
    (matching (sampleEpoch 64 [(5, 0, 1), (5, 0, 2), (5, 0, 3)]) 0 .eq [5]) =
      [sampleRecord 0 1, sampleRecord 0 2, sampleRecord 0 3] ∧
    (range 3).mapM (fun j => Prod.fst <$> query defaultContext (sampleConfig 64 2)
        (sampleEngine 64 2 [(5, 0, 1), (5, 0, 2), (5, 0, 3)]) (samplePage j)) = .ok [[sampleRecord 0 2], [], []] := by
  have clean_ : clean (twoBuckets [(5, 0, 1), (5, 0, 2), (5, 0, 3)])
      (sampleEpoch 64 [(5, 0, 1), (5, 0, 2), (5, 0, 3)]) 0 .eq [5] = [sampleRecord 0 2] := by
    simp only [clean, recordsOf, twoBuckets_rowsOf]
    decide
  have few : FewPerBucket (twoBuckets [(5, 0, 1), (5, 0, 2), (5, 0, 3)])
      (sampleEpoch 64 [(5, 0, 1), (5, 0, 2), (5, 0, 3)]) 0 .eq [5] := by
    intro bucket inBucket
    have small : ∀ bucket < 2, (bucketRows 2 [5, 5, 5] .eq [5] bucket).length < 786433 := by decide
    rw [twoBuckets_rowsOf]
    exact small bucket inBucket
  have each : ∀ j ∈ range 3, Prod.fst <$> query defaultContext (sampleConfig 64 2)
      (sampleEngine 64 2 [(5, 0, 1), (5, 0, 2), (5, 0, 3)]) (samplePage j) =
        .ok (rowWindow j 1 [sampleRecord 0 2]) := by
    intro j member
    obtain ⟨prepared, asks, limit, offset⟩ :=
      (samplePage_page [(5, 0, 1), (5, 0, 2), (5, 0, 3)] j (mem_range.1 member)).asks
    have page := query_eq asks few
    rwa [limit, offset, clean_, Nat.mul_one] at page
  refine ⟨by decide, ?_⟩
  rw [mapM_eq_ok each]
  rfl

end OpaqueDb.Client
