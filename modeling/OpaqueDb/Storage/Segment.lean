/-
# Storage.Segment -- files of fixed-size records

A segment is a 64-byte header and the records one after another.  The header repeats the
stride, the count and a CRC over the records, and the reader checks all of it against the
file's real size before it hands out a record; an expectation of zero is not checked.

`open_written`: what `segmentFile` lays out opens, and its records are the written ones.
-/
import OpaqueDb.Storage.Epoch

namespace OpaqueDb.Storage

open OpaqueDb.Core Theory List

set_option autoImplicit false

/-! ## CRC-32 -/

def crcShift (crc : UInt32) : UInt32 :=
  if crc &&& 1 ≠ 0 then (0xEDB88320 : UInt32) ^^^ (crc >>> 1) else crc >>> 1

/-- One entry of the reflected table. -/
def crcEntry (i : UInt32) : UInt32 :=
  crcShift (crcShift (crcShift (crcShift (crcShift (crcShift (crcShift (crcShift i)))))))

def crcByte (crc : UInt32) (byte : UInt8) : UInt32 :=
  crcEntry ((crc ^^^ byte.toUInt32) &&& 0xFF) ^^^ (crc >>> 8)

def crc32 (data : Bytes) : UInt32 :=
  data.foldl crcByte 0xFFFFFFFF ^^^ 0xFFFFFFFF

/-! ## Checked sizes -/

def checkedMul (a b : Nat) : Option Nat :=
  if a * b < 2 ^ 64 then some (a * b) else none

def checkedAdd (a b : Nat) : Option Nat :=
  if a + b < 2 ^ 64 then some (a + b) else none

theorem checkedMul_of_lt {a b : Nat} (small : a * b < 2 ^ 64) : checkedMul a b = some (a * b) :=
  if_pos small

theorem checkedAdd_of_lt {a b : Nat} (small : a + b < 2 ^ 64) : checkedAdd a b = some (a + b) :=
  if_pos small

/-! ## Writing -/

def kSegmentFormatVersion : Nat := 1

def kSegmentHeaderSize : Nat := 64

def kMagic : Bytes := bytes "OPQSEG1" ++ [0]

/-- The fields at their offsets 0, 8, 12, 16 and 24; the rest of the header is zero. -/
def segmentHeader (recordBytes recordCount : Nat) (crc : UInt32) : Bytes :=
  kMagic ++ (leBytes 4 kSegmentFormatVersion ++ (leBytes 4 recordBytes ++
    (leBytes 8 recordCount ++ (leBytes 4 crc.toNat ++ replicate 36 0))))

/-- The first record of another length than the stride, with its index. -/
def oddRecord (recordBytes : Nat) (records : List Bytes) : Option (Bytes × Nat) :=
  records.zipIdx.find? fun record => record.1.length ≠ recordBytes

/-- `WriteSegment` up to the write: the file and its CRC. -/
def segmentFile (recordBytes : Nat) (records : List Bytes) : StatusOr (Bytes × UInt32) :=
  if recordBytes = 0 then .error (invalidArgument ["segment: record_bytes is zero"])
  else
    match oddRecord recordBytes records with
    | some (record, i) => .error (invalidArgument ["segment: record ", dec i, " is ",
        dec record.length, " bytes, expected ", dec recordBytes])
    | none =>
      match checkedMul records.length recordBytes with
      | none => .error ⟨.outOfRange, bytes "segment: records region size overflows"⟩
      | some region =>
        match checkedAdd kSegmentHeaderSize region with
        | none => .error ⟨.outOfRange, bytes "segment: file size overflows"⟩
        | some _ =>
          let crc := crc32 records.flatten
          .ok (segmentHeader recordBytes records.length crc ++ records.flatten, crc)

/-! ## Reading -/

/-- A little-endian field of the header; the caller has checked that it is there. -/
def readLe (data : Bytes) (offset n : Nat) : Nat :=
  leValue ((data.drop offset).take n)

structure SegmentReader where
  data : Bytes
  recordBytes : Nat
  recordCount : Nat
  crc : UInt32
  deriving DecidableEq, Repr

def segmentLoss (path : Bytes) (what : String) : Status :=
  ⟨.dataLoss, strCat ["segment '", path, "' ", bytes what]⟩

/-- The header of a mapped file, checked against the file. -/
def checkSegment (path data : Bytes) : StatusOr SegmentReader :=
  if data.length < kSegmentHeaderSize then .error (segmentLoss path "shorter than its header")
  else if data.take 8 ≠ kMagic then .error (segmentLoss path "has a bad magic")
  else if readLe data 8 4 ≠ kSegmentFormatVersion then
    .error ⟨.failedPrecondition, strCat ["segment '", path, "' format version ",
      dec (readLe data 8 4), ", this build supports ", dec kSegmentFormatVersion]⟩
  else if readLe data 12 4 = 0 then .error (segmentLoss path "declares record_bytes 0")
  else
    match checkedMul (readLe data 16 8) (readLe data 12 4) with
    | none => .error (segmentLoss path "geometry overflows")
    | some region =>
      if (checkedAdd kSegmentHeaderSize region).all (· > data.length) then
        .error (segmentLoss path "declares more records than the file holds")
      else
        let crc := crc32 ((data.drop kSegmentHeaderSize).take region)
        if crc.toNat ≠ readLe data 24 4 then .error (segmentLoss path "failed its CRC check")
        else .ok ⟨data, readLe data 12 4, readLe data 16 8, crc⟩

/-- `SegmentReader::Open`.  `none` is a path that does not open. -/
def openSegment (path : Bytes) (file : Option Bytes) (expectBytes expectCount expectCrc : Nat) :
    StatusOr SegmentReader :=
  match file with
  | none => .error ⟨.notFound, strCat ["cannot open '", path,
      "': No such file or directory"]⟩
  | some [] => .error (invalidArgument ["'", path, "' is empty"])
  | some data => do
    let reader ← checkSegment path data
    if expectBytes ≠ 0 ∧ reader.recordBytes ≠ expectBytes then
      .error ⟨.failedPrecondition, strCat ["segment '", path, "' record_bytes ",
        dec reader.recordBytes, " does not match manifest ", dec expectBytes]⟩
    else if expectCount ≠ 0 ∧ reader.recordCount ≠ expectCount then
      .error ⟨.failedPrecondition, strCat ["segment '", path, "' record_count ",
        dec reader.recordCount, " does not match manifest ", dec expectCount]⟩
    else if expectCrc ≠ 0 ∧ reader.crc.toNat ≠ expectCrc then
      .error ⟨.failedPrecondition, strCat ["segment '", path,
        "' CRC does not match manifest"]⟩
    else .ok reader

def SegmentReader.record (reader : SegmentReader) (index : Nat) : StatusOr Bytes :=
  if index ≥ reader.recordCount then
    .error ⟨.outOfRange, strCat ["segment record ", dec index, " out of range (",
      dec reader.recordCount, ")"]⟩
  else
    .ok ((reader.data.drop (kSegmentHeaderSize + index * reader.recordBytes)).take
      reader.recordBytes)

/-! ## What an opened segment is -/

/-- The header's fields are the reader's, the region they describe lies inside the file, and the
checksum is that of the region. -/
structure SegmentReader.Fits (reader : SegmentReader) : Prop where
  stride : readLe reader.data 12 4 = reader.recordBytes
  count : readLe reader.data 16 8 = reader.recordCount
  stored : readLe reader.data 24 4 = reader.crc.toNat
  positive : reader.recordBytes ≠ 0
  inside : kSegmentHeaderSize + reader.recordCount * reader.recordBytes ≤ reader.data.length
  computed : reader.crc = crc32 ((reader.data.drop kSegmentHeaderSize).take
    (reader.recordCount * reader.recordBytes))

variable {reader : SegmentReader}

variable {data path : Bytes}

theorem checkSegment_ok (checked : checkSegment path data = .ok reader) :
    reader.data = data ∧ reader.Fits := by
  unfold checkSegment checkedMul at checked
  split_ifs at checked with short magic version zero region
  simp only at checked
  split_ifs at checked with outside crc
  cases checked
  refine ⟨rfl, rfl, rfl, (not_not.1 crc).symm, zero, ?_, rfl⟩
  -- a size that does not fit 64 bits is refused as well
  by_contra far
  refine outside ?_
  unfold checkedAdd
  split_ifs
  · simpa using far
  · rfl

/-- An expectation of zero says nothing. -/
def Expected (expect value : Nat) : Prop :=
  expect = 0 ∨ value = expect

theorem openSegment_ok {file : Option Bytes} {expectBytes expectCount expectCrc : Nat}
    (opened : openSegment path file expectBytes expectCount expectCrc = .ok reader) :
    file = some reader.data ∧ reader.Fits ∧ Expected expectBytes reader.recordBytes ∧
      Expected expectCount reader.recordCount ∧ Expected expectCrc reader.crc.toNat := by
  rcases file with _ | _ | ⟨first, others⟩
  · cases opened
  · cases opened
  change (checkSegment path (first :: others) >>= _) = _ at opened
  rcases checked : checkSegment path (first :: others) with status | found
  · rw [checked] at opened
    cases opened
  rw [checked] at opened
  simp only [bind, Except.bind] at opened
  split_ifs at opened with stride count crc
  cases opened
  obtain ⟨same, fits⟩ := checkSegment_ok checked
  rw [not_and_or, not_not, not_not] at stride count crc
  exact ⟨congrArg some same.symm, fits, stride, count, crc⟩

variable {i : Nat}

/-- Every record below the count is there, of the stride's length. -/
theorem SegmentReader.Fits.record (fits : reader.Fits) (below : i < reader.recordCount) :
    reader.record i =
      .ok ((reader.data.drop (kSegmentHeaderSize + i * reader.recordBytes)).take
        reader.recordBytes) ∧
      kSegmentHeaderSize + i * reader.recordBytes + reader.recordBytes ≤ reader.data.length := by
  have next : (i + 1) * reader.recordBytes ≤ reader.recordCount * reader.recordBytes :=
    Nat.mul_le_mul_right _ below
  have inside := fits.inside
  rw [Nat.succ_mul] at next
  exact ⟨if_neg (Nat.not_le.2 below), by omega⟩

/-! ## Reading back what was written -/

section Written

variable {recordBytes : Nat} {records : List Bytes}

theorem oddRecord_eq_none : oddRecord recordBytes records = none ↔
    ∀ record ∈ records, record.length = recordBytes := by
  simp only [oddRecord, find?_eq_none, decide_not, Bool.not_eq_true', decide_eq_false_iff_not,
    not_not]
  constructor
  · intro even record member
    obtain ⟨i, inside, rfl⟩ := getElem_of_mem member
    exact even (records[i], i) (mem_zipIdx_iff_getElem?.2 (getElem?_eq_getElem inside))
  · rintro even ⟨record, i⟩ member
    exact even record (mem_of_getElem? (mem_zipIdx_iff_getElem?.1 member))

variable {file : Bytes} {crc : UInt32}

/-- When a segment is laid out, and how. -/
theorem segmentFile_iff : segmentFile recordBytes records = .ok (file, crc) ↔
      recordBytes ≠ 0 ∧ (∀ record ∈ records, record.length = recordBytes) ∧
      kSegmentHeaderSize + records.length * recordBytes < 2 ^ 64 ∧ crc = crc32 records.flatten ∧
      file = segmentHeader recordBytes records.length crc ++ records.flatten := by
  unfold segmentFile
  by_cases zero : recordBytes = 0
  · simp [zero]
  rw [if_neg zero]
  rcases odd : oddRecord recordBytes records with _ | ⟨record, i⟩
  · have even := oddRecord_eq_none.1 odd
    by_cases region : records.length * recordBytes < 2 ^ 64
    · by_cases total : kSegmentHeaderSize + records.length * recordBytes < 2 ^ 64
      · simp only [checkedMul_of_lt region, checkedAdd_of_lt total, Except.ok.injEq, Prod.mk.injEq]
        constructor
        · rintro ⟨rfl, rfl⟩
          exact ⟨zero, even, total, rfl, rfl⟩
        · rintro ⟨_, _, _, rfl, rfl⟩
          exact ⟨rfl, rfl⟩
      · have overflows : checkedAdd kSegmentHeaderSize (records.length * recordBytes) = none :=
          if_neg total
        simp only [checkedMul_of_lt region, overflows, reduceCtorEq, total, false_and, and_false]
    · have total : ¬ kSegmentHeaderSize + records.length * recordBytes < 2 ^ 64 := by omega
      rw [checkedMul, if_neg region]
      simp only [reduceCtorEq, total, false_and, and_false]
  · have uneven : ¬ ∀ record ∈ records, record.length = recordBytes := fun even => by
      rw [oddRecord_eq_none.2 even] at odd
      cases odd
    simp [uneven]

section

variable (even : ∀ record ∈ records, record.length = recordBytes)
include even

theorem flatten_length_of_stride : records.flatten.length = records.length * recordBytes := by
  rw [length_flatten, map_congr_left even]
  simp

/-- Record `i` lies at `i` strides. -/
theorem slice_flatten {record : Bytes} (known : records[i]? = some record) :
    (records.flatten.drop (i * recordBytes)).take recordBytes = record := by
  obtain ⟨inside, rfl⟩ := List.getElem?_eq_some_iff.1 known
  have before : (records.take i).flatten.length = i * recordBytes := by
    rw [flatten_length_of_stride fun r member => even r (mem_of_mem_take member), length_take,
      Nat.min_eq_left (le_of_lt inside)]
  have split : records.flatten =
      (records.take i).flatten ++ (records[i] ++ (records.drop (i + 1)).flatten) := by
    rw [← flatten_cons, getElem_cons_drop, ← flatten_append, take_append_drop]
  rw [split, ← before, drop_left, take_append_of_le_length
    (by rw [even _ (getElem_mem inside)]), take_of_length_le
    (by rw [even _ (getElem_mem inside)])]

end

theorem segmentHeader_length (recordBytes recordCount : Nat) (crc : UInt32) :
    (segmentHeader recordBytes recordCount crc).length = kSegmentHeaderSize := by
  simp [segmentHeader, kMagic, bytes, leBytes_length, kSegmentHeaderSize]

theorem readLe_eq {n v : Nat} {after : Bytes} {offset : Nat} (before : Bytes)
    (placed : data = before ++ (leBytes n v ++ after)) (skipped : before.length = offset)
    (small : v < 256 ^ n) : readLe data offset n = v := by
  rw [readLe, placed, ← skipped, drop_left]
  have field : (leBytes n v ++ after).take n = leBytes n v := by
    rw [take_append_of_le_length (by rw [leBytes_length]), take_of_length_le
      (by rw [leBytes_length])]
  rw [field, leValue_leBytes, Nat.mod_eq_of_lt small]

/-- A field that is there is its value's bytes. -/
theorem leBytes_readLe {offset n : Nat} (inside : offset + n ≤ data.length) :
    leBytes n (readLe data offset n) = (data.drop offset).take n := by
  have length : ((data.drop offset).take n).length = n := by
    rw [length_take, length_drop]
    omega
  have field := leBytes_leValue ((data.drop offset).take n)
  rwa [length] at field

theorem readLe_lt (data : Bytes) (offset n : Nat) : readLe data offset n < 256 ^ n :=
  lt_of_lt_of_le (leValue_lt _) (Nat.pow_le_pow_right (by decide) (length_take_le ..))

/-- The fields of a header, read from the front of a file. -/
theorem header_fields {recordCount : Nat} {body : Bytes}
    (shape : data = segmentHeader recordBytes recordCount crc ++ body)
    (narrow : recordBytes < 2 ^ 32) (few : recordCount < 2 ^ 64) :
    data.take 8 = kMagic ∧ readLe data 8 4 = kSegmentFormatVersion ∧
      readLe data 12 4 = recordBytes ∧ readLe data 16 8 = recordCount ∧
      readLe data 24 4 = crc.toNat ∧ data.drop kSegmentHeaderSize = body := by
  have length := segmentHeader_length recordBytes recordCount crc
  subst shape
  refine ⟨?_, ?_, ?_, ?_, ?_, ?_⟩
  · have eight : kMagic.length = 8 := rfl
    rw [segmentHeader, append_assoc, ← eight, take_left]
  · exact readLe_eq kMagic (by rw [segmentHeader, append_assoc, append_assoc])
      rfl (by decide)
  · exact readLe_eq (kMagic ++ leBytes 4 kSegmentFormatVersion)
      (by rw [segmentHeader]; simp only [append_assoc]; rfl)
      (by simp [kMagic, bytes, leBytes_length]) (by omega)
  · exact readLe_eq (kMagic ++ (leBytes 4 kSegmentFormatVersion ++ leBytes 4 recordBytes))
      (by rw [segmentHeader]; simp only [append_assoc]; rfl)
      (by simp [kMagic, bytes, leBytes_length]) (by omega)
  · have small := crc.toNat_lt
    exact readLe_eq (kMagic ++ (leBytes 4 kSegmentFormatVersion ++
        (leBytes 4 recordBytes ++ leBytes 8 recordCount)))
      (by rw [segmentHeader]; simp only [append_assoc]; rfl)
      (by simp [kMagic, bytes, leBytes_length]) (by omega)
  · rw [← length, drop_left]

variable (written : segmentFile recordBytes records = .ok (file, crc))
include written

theorem checkSegment_written (narrow : recordBytes < 2 ^ 32) (path : Bytes) :
    checkSegment path file = .ok ⟨file, recordBytes, records.length, crc⟩ := by
  obtain ⟨positive, even, total, sum, shape⟩ := segmentFile_iff.1 written
  have region := flatten_length_of_stride even
  have few : records.length < 2 ^ 64 := by
    have := Nat.le_mul_of_pos_right records.length (Nat.pos_of_ne_zero positive)
    omega
  obtain ⟨magic, version, stride, count, crcField, body⟩ := header_fields shape narrow few
  have size : file.length = kSegmentHeaderSize + records.length * recordBytes := by
    rw [shape, length_append, segmentHeader_length, region]
  have intact : crc32 ((file.drop kSegmentHeaderSize).take (records.length * recordBytes)) = crc := by
    rw [body, ← region, take_length, sum]
  have holds : ((checkedAdd kSegmentHeaderSize (records.length * recordBytes)).all
      (· > file.length)) = false := by
    rw [checkedAdd_of_lt total, size]
    simp
  rw [checkSegment, if_neg (by rw [size]; omega), if_neg (not_not.2 magic),
    if_neg (not_not.2 version), stride, count, crcField, if_neg positive,
    checkedMul_of_lt (by omega)]
  simp [holds, intact]

/-- **A written segment opens**, whatever part of its description is expected of it. -/
theorem open_written (narrow : recordBytes < 2 ^ 32) (path : Bytes)
    {expectBytes expectCount expectCrc : Nat} (stride : expectBytes = 0 ∨ expectBytes = recordBytes)
    (count : expectCount = 0 ∨ expectCount = records.length)
    (sum : expectCrc = 0 ∨ expectCrc = crc.toNat) :
    openSegment path (some file) expectBytes expectCount expectCrc =
      .ok ⟨file, recordBytes, records.length, crc⟩ := by
  have checked := checkSegment_written written narrow path
  obtain ⟨first, others, rfl⟩ : ∃ first others, file = first :: others := by
    obtain ⟨_, _, _, _, shape⟩ := segmentFile_iff.1 written
    exact ⟨_, _, shape⟩
  show (checkSegment path (first :: others) >>= _) = _
  rw [checked]
  simp only [bind, Except.bind]
  rw [if_neg (by rcases stride with h | h <;> simp [h]),
    if_neg (by rcases count with h | h <;> simp [h]), if_neg (by rcases sum with h | h <;> simp [h])]

theorem record_written {record : Bytes} (known : records[i]? = some record) :
    SegmentReader.record ⟨file, recordBytes, records.length, crc⟩ i = .ok record := by
  obtain ⟨_, even, _, _, rfl⟩ := segmentFile_iff.1 written
  obtain ⟨inside, _⟩ := List.getElem?_eq_some_iff.1 known
  rw [SegmentReader.record, if_neg (by simpa using inside)]
  rw [← drop_drop, ← segmentHeader_length recordBytes records.length crc, drop_left,
    slice_flatten even known]

end Written

end OpaqueDb.Storage
