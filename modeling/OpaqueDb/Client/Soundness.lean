/-
# Client.Soundness -- the rows a query returns against the literal it asked for

The matcher compares encoded keys, a TEXT key is a truncated hash, and the client types a
literal by its syntax alone.  Nothing verifies the column's value in a returned record.
`clean_sound_iff` says when every clean record of `c = v` has the value `v` in `c`: when
the row alone in its bucket has it (`LoneRowsHave`), and when no crowded bucket wraps
around the modulus to read as one row of another value.
-/
import OpaqueDb.Client.Counting
import OpaqueDb.Server.Ingest

namespace OpaqueDb.Client

open OpaqueDb.Core Crypto Theory Backend Sql Server List Storage Config

set_option autoImplicit false

variable {ctx : CryptoContext}

/-- The record decodes to a row whose column has the value. -/
def HasValue (schema : Schema) (index : Nat) (v : Value) (record : Bytes) : Prop :=
  ∃ values, decodeRecord schema record = .ok values ∧
    values[payloadCount (schema.columns.take index)]? = some v

/-! ## Clean records, bucket by bucket -/

section Clean

variable {d : Deployment ctx} {request : Request} {prepared : PreparedQuery} {epoch : Epoch}
  {rank : Nat} {op : Op} {operands : List UInt64}

/-- A bucket is clean when its count reads as one, and then gives the record its slots
add up to. -/
theorem clean_bucketRead (g : Geometry ctx) (first second : List Bytes) :
    ((!(bucketRead g first second).collided && (bucketRead g first second).present) = true ↔
      decodedCount ctx first.length second.length = 1) ∧
    (decodedCount ctx first.length second.length = 1 →
      (bucketRead g first second).record = readRecord g first second) := by
  have crowded := bucketRead_collided g first second
  have found := bucketRead_present g first second
  constructor
  · rw [Bool.and_eq_true, found, Bool.not_eq_true', ← Bool.not_eq_true, crowded]
    omega
  · intro one
    simp [bucketRead, one]

variable (asks : Asks d request prepared epoch rank op operands)
include asks

/-- The clean records of a question, with no bound on the table. -/
theorem queryClean_mem_iff {records : List Bytes} {collided : Nat}
    (answered : queryClean ctx d.config d.engine request = .ok (records, collided)) (record : Bytes) :
    record ∈ records ↔ ∃ bucket < d.geometry.buckets, readCount d epoch rank op operands bucket = 1 ∧
      readRecord d.geometry (selected d epoch rank op operands 0 bucket)
        (selected d epoch rank op operands 1 bucket) = record := by
  rw [queryClean, runQuery_eq asks] at answered
  obtain ⟨rfl, _⟩ := Prod.mk.inj (Except.ok.inj ((congrArg _ (collectClean_eq _)).symm.trans answered))
  by_cases none_ : epoch.rows = []
  · have zero : ∀ bucket, readCount d epoch rank op operands bucket ≠ 1 := by
      intro bucket one
      have le := readCount_le d epoch rank op operands bucket
      simp [rowsOf, bucketRows, Epoch.keys, none_] at le
      omega
    simp [none_, zero]
  · have each := fun bucket => clean_bucketRead d.geometry (selected d epoch rank op operands 0 bucket)
      (selected d epoch rank op operands 1 bucket)
    simp only [selected_length] at each
    simp only [none_, if_false, readBuckets, mem_map, mem_filter, mem_range]
    constructor
    · rintro ⟨_, ⟨⟨bucket, inside, rfl⟩, kept⟩, rfl⟩
      have one := (each bucket).1.1 kept
      exact ⟨bucket, inside, one, ((each bucket).2 one).symm⟩
    · rintro ⟨bucket, inside, one, rfl⟩
      exact ⟨_, ⟨⟨bucket, inside, rfl⟩, (each bucket).1.2 one⟩, (each bucket).2 one⟩

/-- A row alone in its bucket is read as it was stored. -/
theorem readRecord_lone {bucket r : Nat} (lone : rowsOf d epoch rank op operands bucket = [r]) :
    readCount d epoch rank op operands bucket = 1 ∧
      readRecord d.geometry (selected d epoch rank op operands 0 bucket)
        (selected d epoch rank op operands 1 bucket) = rowAt epoch.records r := by
  have perm := selected_perm d epoch rank op operands bucket
  rw [recordsOf, lone] at perm
  have single := perm_singleton.1 perm
  have whole := asks.holds.whole_bucket bucket (rowAt epoch.records r) (by rw [single]; simp)
  have total := halfCount_add d epoch rank op operands bucket
  rw [lone, length_singleton] at total
  have more := ctx.prime.one_lt
  refine ⟨?_, readRecord_single d.carries single whole⟩
  rw [readCount, decodedCount_eq (by omega) (by omega) (by omega), total]

end Clean

/-! ## When the answer is sound -/

/-- In every bucket with a single matching row, that row has the value in the column. -/
def LoneRowsHave (d : Deployment ctx) (epoch : Epoch) (rows : List IngestRow) (rank index : Nat)
    (k : UInt64) (v : Value) : Prop :=
  ∀ bucket < d.geometry.buckets, ∀ r, rowsOf d epoch rank .eq [k] bucket = [r] →
    ∃ row, rows[r]? = some row ∧ row.value epoch.manifest.schema index = some v

/-- What the matching rows of one half-row of a bucket add up to in a slot, below the modulus. -/
def slotSum (d : Deployment ctx) (epoch : Epoch) (rank : Nat) (k : UInt64) (bucket half p i : Nat) :
    Nat :=
  ((selected d epoch rank .eq [k] half bucket).map fun record =>
    planeValue d.geometry p record i).sum % ctx.plainModulus

/-- The bytes of these sums, slot by slot. -/
def summedBytes (d : Deployment ctx) (epoch : Epoch) (rank : Nat) (k : UInt64) (bucket : Nat) : Bytes :=
  resize d.geometry.recordBytes ((range d.geometry.planes).flatMap fun p =>
    (range d.geometry.keyBits).flatMap fun i => leBytes d.geometry.bytesPerSlot
      ((slotSum d epoch rank k bucket 0 p i + slotSum d epoch rank k bucket 1 p i) % 2 ^ 64))

/-- Where a bucket has several matching rows and their numbers in its half-rows, below the modulus,
add up to one, the sums of their slots are the bytes of a record with the value in the column. -/
def WrappedRowsHave (d : Deployment ctx) (epoch : Epoch) (rank index : Nat) (k : UInt64)
    (v : Value) : Prop :=
  ∀ bucket < d.geometry.buckets, 2 ≤ (rowsOf d epoch rank .eq [k] bucket).length →
    (halfCount d epoch rank .eq [k] 0 bucket % ctx.plainModulus +
      halfCount d epoch rank .eq [k] 1 bucket % ctx.plainModulus) % 2 ^ 64 = 1 →
    HasValue epoch.manifest.schema index v (summedBytes d epoch rank k bucket)

/-- The request asks `c = v` for the searchable column at this index, with the literal `v`
encoded as `k`. -/
def AsksFor (d : Deployment ctx) (request : Request) (epoch : Epoch) (rank index : Nat) (v : Value)
    (k : UInt64) : Prop :=
  ∃ prepared, Asks d request prepared epoch rank .eq [k] ∧ prepared.literals = [v] ∧
    epoch.manifest.schema.searchableRank index = some rank

section Sound

variable {d : Deployment ctx} {request : Request} {prepared : PreparedQuery} {epoch : Epoch}
  {rank : Nat} {k : UInt64} {rows : List IngestRow} (ingested : Ingested epoch rows) {index : Nat}
  {column : Column} (known : epoch.manifest.schema.columns[index]? = some column)
include ingested known

/-- A stored record has the value its row was typed with. -/
theorem hasValue_stored (payload : column.encoding ≠ .eq) {r : Nat}
    (inside : r < epoch.rows.length) (v : Value) :
    HasValue epoch.manifest.schema index v (rowAt epoch.records r) ↔
      ∃ row, rows[r]? = some row ∧ row.value epoch.manifest.schema index = some v := by
  obtain ⟨row, typed, encoded⟩ := ingested.row inside
  obtain ⟨values, decoded, cell⟩ := encodeRow_decode encoded known payload
  have stored : rowAt epoch.records r = epoch.rows[r].payload := by
    rw [rowAt, Epoch.records, getD_eq_getElem _ _ (by simpa using inside), getElem_map]
  rw [HasValue, stored, decoded, typed]
  constructor
  · rintro ⟨_, ⟨⟩, found⟩
    exact ⟨row, rfl, cell ▸ found⟩
  · rintro ⟨_, ⟨⟩, found⟩
    exact ⟨values, rfl, cell.trans found⟩

omit ingested known in
/-- The rows of a point question hold the key. -/
theorem rowsOf_inside {bucket r : Nat} (member : r ∈ rowsOf d epoch rank .eq [k] bucket) :
    ∃ inside : r < epoch.rows.length, epoch.rows[r].subKey epoch.manifest.keyBits rank = k := by
  have facts := mem_filter.1 member
  have inside : r < epoch.rows.length := by simpa [Epoch.keys] using mem_range.1 facts.1
  refine ⟨inside, ?_⟩
  simpa [satisfies, keyAt, Epoch.keys, inside] using (of_decide_eq_true facts.2).2

/-- **When the rows of `c = v` have the value `v`.** -/
theorem clean_sound_iff (secondary : column.encoding = .index) {v : Value}
    (asked : AsksFor d request epoch rank index v k) :
    (∀ records collided, queryClean ctx d.config d.engine request = .ok (records, collided) →
      ∀ record ∈ records, HasValue epoch.manifest.schema index v record) ↔
      LoneRowsHave d epoch rows rank index k v ∧ WrappedRowsHave d epoch rank index k v := by
  obtain ⟨prepared, asks, _⟩ := asked
  have payload : column.encoding ≠ .eq := by simp [secondary]
  have lone_iff : ∀ bucket r, rowsOf d epoch rank .eq [k] bucket = [r] →
      (HasValue epoch.manifest.schema index v (rowAt epoch.records r) ↔
        ∃ row, rows[r]? = some row ∧ row.value epoch.manifest.schema index = some v) := by
    intro bucket r lone
    have member : r ∈ rowsOf d epoch rank .eq [k] bucket := by
      rw [lone]
      exact mem_singleton_self r
    obtain ⟨inside, _⟩ := rowsOf_inside member
    exact hasValue_stored ingested known payload inside v
  constructor
  · intro sound
    have every : ∀ bucket < d.geometry.buckets, readCount d epoch rank .eq [k] bucket = 1 →
        HasValue epoch.manifest.schema index v
          (readRecord d.geometry (selected d epoch rank .eq [k] 0 bucket)
            (selected d epoch rank .eq [k] 1 bucket)) := by
      intro bucket inside one
      obtain ⟨records, collided, answered⟩ : ∃ records collided,
          queryClean ctx d.config d.engine request = .ok (records, collided) := by
        rw [queryClean, runQuery_eq asks]
        exact ⟨_, _, rfl⟩
      exact sound records collided answered _
        ((queryClean_mem_iff asks answered _).2 ⟨bucket, inside, one, rfl⟩)
    refine ⟨?_, fun bucket inside _ one => every bucket inside one⟩
    intro bucket inside r lone
    obtain ⟨one, read⟩ := readRecord_lone asks lone
    rw [← lone_iff bucket r lone, ← read]
    exact every bucket inside one
  · rintro ⟨loneRows, wrappedRows⟩ records collided answered record member
    obtain ⟨bucket, inside, one, rfl⟩ := (queryClean_mem_iff asks answered record).1 member
    rcases found : rowsOf d epoch rank .eq [k] bucket with _ | ⟨r, _ | ⟨r', rest⟩⟩
    · have le := readCount_le d epoch rank .eq [k] bucket
      rw [found, length_nil] at le
      omega
    · rw [(readRecord_lone asks found).2, lone_iff bucket r found]
      exact loneRows bucket inside r found
    · exact wrappedRows bucket inside (by rw [found]; simp) one

end Sound

/-! ## One row under eight-bit keys -/

/-- Two buckets, keys of eight bits and the single row with key 5 and `c = 'x'`. -/
def oneRow : Deployment defaultContext :=
  sampleDeployment 8 2 (by decide) [(5, 120, 1)]

theorem oneRow_ingested :
    Ingested (sampleEpoch 8 [(5, 120, 1)]) [⟨.int 5, [.text (bytes "x"), .text [1]]⟩] where
  valid := by decide
  keyBits_le := by decide
  encoded := .cons (by decide) .nil

/-- The point query for a text in `c`. -/
def sampleText (text : Bytes) : Request where
  clientId := bytes "me"
  sqlTemplate := strCat ["SELECT a FROM t WHERE c = '", text, "'"]

/-- Both texts hash to 7 modulo 256. -/
theorem sampleText_asks {text : Bytes} (known : text = bytes "x" ∨ text = bytes "iy") :
    Asks oneRow (sampleText text) ⟨bytes "SELECT a FROM t WHERE c = :v", [.text text], false, none, none⟩
      (sampleEpoch 8 [(5, 120, 1)]) 1 .eq [7] where
  lifted := by rcases known with rfl | rfl <;> decide
  encoded := by rcases known with rfl | rfl <;> decide
  distinct := by decide
  accepts := ⟨show bytes "me" ≠ [] by decide, rfl, ⟨⟨bytes "t", bytes "reference", .eq, bytes "c", 1,
    bytes "v", 1, false, [bytes "a"], [2], none, none⟩, rfl, rfl, rfl, rfl⟩, by decide⟩

theorem oneRow_clean {text : Bytes} (known : text = bytes "x" ∨ text = bytes "iy") :
    queryClean defaultContext (sampleConfig 8 2) (sampleEngine 8 2 [(5, 120, 1)]) (sampleText text) =
      .ok ([sampleRecord 120 1], 0) := by
  have few : FewPerBucket oneRow (sampleEpoch 8 [(5, 120, 1)]) 1 .eq [7] :=
    fun bucket _ => lt_of_le_of_lt (rowsOf_length_le _ _ _ _ _ bucket) (by decide)
  have collected := collect_eq (sampleText_asks known) few
  have answered := runQuery_eq (sampleText_asks known)
  show (runQuery defaultContext oneRow.config oneRow.engine (sampleText text) >>= _) = _
  rw [answered]
  exact congrArg Except.ok collected

theorem clean_sound_x :
    queryClean defaultContext (sampleConfig 8 2) (sampleEngine 8 2 [(5, 120, 1)])
      (sampleText (bytes "x")) = .ok ([sampleRecord 120 1], 0) ∧
    HasValue sampleSchema 1 (.text (bytes "x")) (sampleRecord 120 1) := by
  have lone : LoneRowsHave oneRow (sampleEpoch 8 [(5, 120, 1)])
      [⟨.int 5, [.text (bytes "x"), .text [1]]⟩] 1 1 7 (.text (bytes "x")) := by
    intro bucket _ r found
    have member : r ∈ rowsOf oneRow (sampleEpoch 8 [(5, 120, 1)]) 1 .eq [7] bucket := by
      rw [found]
      exact mem_singleton_self r
    obtain ⟨inside, _⟩ := rowsOf_inside member
    obtain rfl : r = 0 := Nat.lt_one_iff.1 inside
    exact ⟨_, rfl, rfl⟩
  have wrapped : WrappedRowsHave oneRow (sampleEpoch 8 [(5, 120, 1)]) 1 1 7 (.text (bytes "x")) := by
    intro bucket _ crowded
    have le := rowsOf_length_le oneRow (sampleEpoch 8 [(5, 120, 1)]) 1 .eq [7] bucket
    exact absurd (le_trans crowded le) (by decide)
  have sound := (clean_sound_iff oneRow_ingested (show _ = some ⟨bytes "c", .index, .text⟩ from rfl)
    rfl ⟨_, sampleText_asks (.inl rfl), rfl, rfl⟩).2 ⟨lone, wrapped⟩
  have answered := oneRow_clean (.inl rfl)
  exact ⟨answered, sound _ _ answered _ (mem_singleton_self _)⟩

/-- The row of `'x'` is the answer to `c = 'iy'`. -/
theorem clean_returns_other_text :
    (sampleText (bytes "iy")).sqlTemplate = bytes "SELECT a FROM t WHERE c = 'iy'" ∧
    queryClean defaultContext (sampleConfig 8 2) (sampleEngine 8 2 [(5, 120, 1)])
      (sampleText (bytes "iy")) = .ok ([sampleRecord 120 1], 0) ∧
    decodeRecord sampleSchema (sampleRecord 120 1) = .ok [.text (bytes "x"), .text [1]] ∧
    Ingested (sampleEpoch 8 [(5, 120, 1)]) [⟨.int 5, [.text (bytes "x"), .text [1]]⟩] :=
  ⟨by decide, oneRow_clean (.inr rfl), by decide, oneRow_ingested⟩

end OpaqueDb.Client
