/-
# Storage.Checksum -- what the checksum of segments and log entries detects

The table's entries differ already in their top byte, so a state after a byte tells which
entry was taken and, with it, all but the low byte of the state before.  Going back over at
most four bytes recovers them (`rolled_short`); with the state known a byte can be undone as
well.  `local_corruption_detected`: a change inside four consecutive bytes is seen, by the
checksum, by whoever opens the segment and by whoever replays the log.
-/
import OpaqueDb.Storage.Wal
import OpaqueDb.Theory.Windows

namespace OpaqueDb.Storage

open OpaqueDb.Core Theory List

set_option autoImplicit false

/-! ## Going back a byte -/

/-- The state before a shift, as far as the top bits of the one after it tell. -/
def crcUnshift (crc : UInt32) : UInt32 :=
  if crc &&& 0x80000000 ≠ 0 then ((0xEDB88320 ^^^ crc) <<< 1) ||| 1 else crc <<< 1

/-- The place in the table of the entry with this top byte. -/
def crcPlace (top : Nat) : UInt32 :=
  crcUnshift (crcUnshift (crcUnshift (crcUnshift (crcUnshift (crcUnshift (crcUnshift (crcUnshift
    (UInt32.ofNat (top <<< 24))))))))) &&& 0xFF

theorem crcPlace_crcEntry : ∀ i : Fin 256,
    crcPlace ((crcEntry (UInt32.ofNat i)).toNat >>> 24) = UInt32.ofNat i := by
  decide +kernel

/-- The table's entries differ in the top byte. -/
theorem crcEntry_top {i j : UInt32} (small : i.toNat < 256) (small' : j.toNat < 256)
    (top : (crcEntry i).toNat >>> 24 = (crcEntry j).toNat >>> 24) : i = j := by
  have mine := crcPlace_crcEntry ⟨i.toNat, small⟩
  have other := crcPlace_crcEntry ⟨j.toNat, small'⟩
  simp only [UInt32.ofNat_toNat] at mine other
  rw [← mine, ← other, top]

/-- Where a byte looks the table up. -/
def crcAt (crc : UInt32) (byte : UInt8) : UInt32 :=
  (crc ^^^ byte.toUInt32) &&& 0xFF

theorem crcAt_toNat (crc : UInt32) (byte : UInt8) :
    (crcAt crc byte).toNat = crc.toNat % 2 ^ 8 ^^^ byte.toNat := by
  have low : (0xFF : UInt32).toNat = 2 ^ 8 - 1 := rfl
  rw [crcAt, UInt32.toNat_and, UInt32.toNat_xor, low, Nat.and_two_pow_sub_one_eq_mod,
    Nat.xor_mod_two_pow, UInt8.toNat_toUInt32, Nat.mod_eq_of_lt byte.toNat_lt]

theorem crcAt_lt (crc : UInt32) (byte : UInt8) : (crcAt crc byte).toNat < 256 := by
  rw [crcAt_toNat]
  exact Nat.xor_lt_two_pow (Nat.mod_lt _ (by decide)) byte.toNat_lt

theorem crcByte_toNat (crc : UInt32) (byte : UInt8) :
    (crcByte crc byte).toNat = (crcEntry (crcAt crc byte)).toNat ^^^ crc.toNat >>> 8 := by
  rfl

/-- The states agree from bit `n` on. -/
def HighBits (n : Nat) (crc crc' : UInt32) : Prop :=
  crc.toNat >>> n = crc'.toNat >>> n

variable {crc : UInt32} {n : Nat} {crc' : UInt32}

theorem HighBits.mono {m : Nat} (high : HighBits n crc crc') (le : n ≤ m) :
    HighBits m crc crc' := by
  obtain ⟨k, rfl⟩ := Nat.exists_eq_add_of_le le
  rw [HighBits, Nat.shiftRight_add, Nat.shiftRight_add, high]

/-- The top byte of a state is that of the entry its last byte took. -/
theorem crcByte_top (crc : UInt32) (byte : UInt8) :
    (crcByte crc byte).toNat >>> 24 = (crcEntry (crcAt crc byte)).toNat >>> 24 := by
  have gone : crc.toNat >>> 8 >>> 24 = 0 := by
    rw [← Nat.shiftRight_add, Nat.shiftRight_eq_div_pow]
    exact Nat.div_eq_of_lt crc.toNat_lt
  rw [crcByte_toNat, Nat.shiftRight_xor_distrib, gone, Nat.xor_zero]

/-- Back over a byte: the same entry was taken, and eight bits less are known. -/
theorem HighBits.back (top : n ≤ 24) {byte byte' : UInt8}
    (high : HighBits n (crcByte crc byte) (crcByte crc' byte')) :
    crcAt crc byte = crcAt crc' byte' ∧ HighBits (n + 8) crc crc' := by
  have entry : crcAt crc byte = crcAt crc' byte' := by
    refine crcEntry_top (crcAt_lt ..) (crcAt_lt ..) ?_
    rw [← crcByte_top, ← crcByte_top]
    exact high.mono top
  refine ⟨entry, ?_⟩
  rw [HighBits, crcByte_toNat, crcByte_toNat, entry, Nat.shiftRight_xor_distrib,
    Nat.shiftRight_xor_distrib, Nat.xor_right_inj] at high
  rw [HighBits, Nat.add_comm, Nat.shiftRight_add, Nat.shiftRight_add, high]

theorem byte_of_crcAt {byte byte' : UInt8} (same : crcAt crc byte = crcAt crc byte') :
    byte = byte' := by
  have values := congrArg UInt32.toNat same
  rw [crcAt_toNat, crcAt_toNat, Nat.xor_right_inj] at values
  exact UInt8.toNat_inj.1 values

/-- A byte that is known can be undone. -/
theorem crcByte_injective (byte : UInt8) : Function.Injective (crcByte · byte) := by
  intro crc crc' same
  have equal : HighBits 0 (crcByte crc byte) (crcByte crc' byte) := by
    exact congrArg (·.toNat >>> 0) same
  obtain ⟨entry, high⟩ := equal.back (by decide)
  have low := congrArg UInt32.toNat entry
  rw [crcAt_toNat, crcAt_toNat, Nat.xor_left_inj] at low
  rw [HighBits] at high
  exact UInt32.toNat_inj.1 (by omega)

/-- Back over several bytes, as long as one bit of the state is still known. -/
theorem rolled_back {mine other : Bytes} (lengths : mine.length = other.length)
    (room : n + 8 * mine.length ≤ 32)
    (high : HighBits n (mine.foldl crcByte crc) (other.foldl crcByte crc')) :
    HighBits (n + 8 * mine.length) crc crc' ∧ (crc = crc' → mine = other) := by
  induction mine generalizing other crc crc' with
  | nil =>
    obtain rfl := length_eq_zero_iff.1 lengths.symm
    exact ⟨high, fun _ => rfl⟩
  | cons byte mine ih =>
    cases other with
    | nil => cases lengths
    | cons byte' other =>
      rw [length_cons] at room ⊢
      obtain ⟨after, rest⟩ := ih (Nat.succ.inj lengths) (by omega) high
      obtain ⟨entry, before⟩ := after.back (by omega)
      refine ⟨by rw [Nat.mul_succ]; exact before, ?_⟩
      rintro rfl
      obtain rfl := byte_of_crcAt entry
      rw [rest rfl]

/-- Four bytes are recovered from the state they lead to. -/
theorem rolled_short (crc : UInt32) (mine other : Bytes) (lengths : mine.length = other.length)
    (short : mine.length ≤ 4) (same : mine.foldl crcByte crc = other.foldl crcByte crc) :
    mine = other := by
  have high : HighBits 0 (mine.foldl crcByte crc) (other.foldl crcByte crc) := by
    rw [same]
    rfl
  exact (rolled_back lengths (by omega) high).2 rfl

/-- The checksum sees a change inside four consecutive bytes. -/
theorem crc32_ne_of_window {a b : Bytes} (near : Window 4 a b) (differ : a ≠ b) :
    crc32 a ≠ crc32 b := fun same =>
  rolled_ne crcByte_injective rolled_short near differ _ (UInt32.xor_left_inj _ |>.1 same)

/-! ## Segments and logs -/

/-- Another region behind the header of a written file opens only under its checksum. -/
theorem crc32_of_opened {recordBytes : Nat} (narrow : recordBytes < 2 ^ 32) {records : List Bytes}
    {file : Bytes} (written : segmentFile recordBytes records = .ok (file, crc)) {region : Bytes}
    (length : region.length = records.flatten.length) {path : Bytes}
    {expectBytes expectCount expectCrc : Nat} {reader : SegmentReader}
    (opened : openSegment path (some (file.take kSegmentHeaderSize ++ region)) expectBytes
      expectCount expectCrc = .ok reader) : crc32 region = crc32 records.flatten := by
  obtain ⟨positive, even, total, sum, rfl⟩ := segmentFile_iff.1 written
  have few : records.length < 2 ^ 64 := by
    have := Nat.le_mul_of_pos_right records.length (Nat.pos_of_ne_zero positive)
    omega
  obtain ⟨same, fits, _⟩ := openSegment_ok opened
  have shape : reader.data = segmentHeader recordBytes records.length crc ++ region := by
    exact (Option.some.inj same).symm
  obtain ⟨_, _, stride, count, stored, body⟩ := header_fields shape narrow few
  have whole : region.take (records.length * recordBytes) = region := by
    refine take_of_length_le (le_of_eq ?_)
    rw [length, flatten_length_of_stride even]
  have computed := fits.computed
  rw [← fits.count, ← fits.stride, count, stride, body, whole] at computed
  rw [← computed, ← sum]
  exact UInt32.toNat_inj.1 (fits.stored.symm.trans stored)

theorem crc_of_field (same : leBytes 4 crc.toNat = leBytes 4 crc'.toNat) : crc = crc' :=
  UInt32.toNat_inj.1 (leBytes_inj crc.toNat_lt crc'.toNat_lt same)

/-- A payload without the checksum its header states is not taken for an entry. -/
theorem nextEntry_corrupt {entry payload : Bytes} (small : entry.length ≤ 0xFFFFFFFF)
    (length : payload.length = entry.length) (corrupt : crc32 payload ≠ crc32 entry)
    (rest : Bytes) : Wal.nextEntry (leBytes 4 entry.length ++
      (leBytes 4 (crc32 entry).toNat ++ (payload ++ rest))) = none := by
  refine Option.eq_none_iff_forall_not_mem.2 ?_
  rintro ⟨taken, after⟩ found
  obtain ⟨fits, front⟩ := Wal.nextEntry_iff.1 found
  rw [Wal.framed, append_assoc, append_assoc] at front
  obtain ⟨lengths, front⟩ := append_inj front (by rw [leBytes_length, leBytes_length])
  obtain ⟨sums, front⟩ := append_inj front (by rw [leBytes_length, leBytes_length])
  have size : entry.length = taken.length := leBytes_inj (by omega) (by omega) lengths
  obtain ⟨rfl, _⟩ := append_inj front (length.trans size)
  exact corrupt (crc_of_field sums).symm

/-- **A change inside four consecutive bytes is always detected.**  The checksum differs; a
written segment whose records region is changed that way does not open, whatever is expected of
it; and a log with such a change in the payload of an entry is replayed up to that entry. -/
theorem local_corruption_detected :
    (∀ a b : Bytes, Window 4 a b → a ≠ b → crc32 a ≠ crc32 b) ∧
    (∀ (recordBytes : Nat) (records : List Bytes) (file : Bytes) (crc : UInt32),
      recordBytes < 2 ^ 32 → segmentFile recordBytes records = .ok (file, crc) →
      ∀ region : Bytes, Window 4 records.flatten region → records.flatten ≠ region →
      ∀ path expectBytes expectCount expectCrc, ∃ status, openSegment path
        (some (file.take kSegmentHeaderSize ++ region)) expectBytes expectCount expectCrc =
          .error status) ∧
    (∀ (before : List Bytes) (entry payload rest : Bytes),
      (∀ e ∈ entry :: before, e.length ≤ 0xFFFFFFFF) → Window 4 entry payload → entry ≠ payload →
      Wal.replayWal (some ((before.map Wal.framed).flatten ++ (leBytes 4 entry.length ++
        (leBytes 4 (crc32 entry).toNat ++ (payload ++ rest))))) = before) := by
  refine ⟨fun a b => crc32_ne_of_window, ?_, ?_⟩
  · intro recordBytes records file crc narrow written region near differ path expectBytes
      expectCount expectCrc
    rcases opened : openSegment path (some (file.take kSegmentHeaderSize ++ region)) expectBytes
        expectCount expectCrc with status | reader
    · exact ⟨status, rfl⟩
    · have same := crc32_of_opened narrow written near.1.symm opened
      exact absurd same.symm (crc32_ne_of_window near differ)
  · intro before entry payload rest valid near differ
    have stop := nextEntry_corrupt (valid entry mem_cons_self) near.1.symm
      (crc32_ne_of_window near differ).symm rest
    refine (Wal.replayWal_frames (fun e member => valid e (mem_cons_of_mem _ member)) _).trans
      ?_
    rw [Wal.replayWal_stop stop, append_nil]

/-- Records `[1, 2]` and `[3, 4]` with the third byte changed, and a log with a changed second
entry. -/
theorem changed_byte_detected :
    (∃ file crc status, segmentFile 2 [[1, 2], [3, 4]] = .ok (file, crc) ∧
      openSegment (bytes "match.seg") (some (file.take kSegmentHeaderSize ++ [1, 2, 7, 4])) 2 2 0 =
        .error status) ∧
      Wal.replayWal (some ((([[5]] : List Bytes).map Wal.framed).flatten ++ (leBytes 4 1 ++
        (leBytes 4 (crc32 [6]).toNat ++ ([7] ++ Wal.framed [8]))))) = [[5]] := by
  obtain ⟨_, segments, logs⟩ := local_corruption_detected
  refine ⟨?_, ?_⟩
  · obtain ⟨status, refused⟩ := segments 2 [[1, 2], [3, 4]] _ _ (by decide) rfl [1, 2, 7, 4]
      (.of_short rfl (by decide)) (by decide) (bytes "match.seg") 2 2 0
    exact ⟨_, _, status, rfl, refused⟩
  · exact logs [[5]] [6] [7] (Wal.framed [8]) (by decide) (.of_short rfl (by decide)) (by decide)

end OpaqueDb.Storage
