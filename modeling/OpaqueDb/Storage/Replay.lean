/-
# Storage.Replay -- what a damaged log gives back

Rows go into the log as two counted strings.  A log of rows that is cut anywhere gives back
exactly the rows whose frames lie before the cut (`torn_tail_costs_torn_row`).

A crash can also leave the file longer than what was written, with zeros at its end.  Eight
zeros are a frame: the length of an empty entry and its checksum, which is zero.  So replay
invents nothing exactly when what the crash left behind the acknowledged frames is not taken
for one (`nothing_invented_iff`); up to four zeros never are (`few_zeros_invent_nothing`).
-/
import OpaqueDb.Storage.Checksum

namespace OpaqueDb.Storage.Wal

open OpaqueDb.Core Theory List

set_option autoImplicit false

/-! ## Rows as entries -/

def serializeRow (row : Row) : Bytes :=
  leBytes 4 row.match_.length ++ (row.match_ ++ (leBytes 4 row.payload.length ++ row.payload))

/-- `ReadU32LE`. -/
def readU32 (data : Bytes) (offset : Nat) : Option Nat :=
  if offset > data.length ∨ data.length - offset < 4 then none else some (readLe data offset 4)

def parseRow (data : Bytes) : StatusOr Row :=
  match readU32 data 0 with
  | none => .error (invalidArgument ["row: truncated match length"])
  | some matchLen =>
    if matchLen > data.length - 4 then
      .error (invalidArgument ["row: match length exceeds entry"])
    else
      let offset := 4 + matchLen
      match readU32 data offset with
      | none => .error (invalidArgument ["row: truncated payload length"])
      | some payloadLen =>
        let offset' := offset + 4
        if payloadLen > data.length - offset' then
          .error (invalidArgument ["row: payload length exceeds entry"])
        else if offset' + payloadLen ≠ data.length then
          .error (invalidArgument ["row: trailing bytes after payload"])
        else .ok ⟨(data.drop 4).take matchLen, (data.drop offset').take payloadLen⟩

theorem serializeRow_length (row : Row) :
    (serializeRow row).length = 8 + row.match_.length + row.payload.length := by
  simp only [serializeRow, length_append, leBytes_length]
  omega

theorem readU32_of_le {data : Bytes} {offset : Nat} (inside : offset + 4 ≤ data.length) :
    readU32 data offset = some (readLe data offset 4) :=
  if_neg (by omega)

/-- A row is parsed back, as long as its lengths have a field. -/
theorem parseRow_serializeRow {row : Row} (match_small : row.match_.length < 2 ^ 32)
    (payload_small : row.payload.length < 2 ^ 32) : parseRow (serializeRow row) = .ok row := by
  have length := serializeRow_length row
  have matchLen : readLe (serializeRow row) 0 4 = row.match_.length :=
    readLe_eq [] rfl rfl (by omega)
  have front : serializeRow row = leBytes 4 row.match_.length ++ row.match_ ++
      (leBytes 4 row.payload.length ++ row.payload) := by
    rw [serializeRow, append_assoc]
  have skipped : (leBytes 4 row.match_.length ++ row.match_).length = 4 + row.match_.length := by
    rw [length_append, leBytes_length]
  have payloadLen := readLe_eq _ front skipped (by omega)
  have matched : ((serializeRow row).drop 4).take row.match_.length = row.match_ := by
    rw [serializeRow, drop_left' (leBytes_length ..), take_left]
  have payload : ((serializeRow row).drop (4 + row.match_.length + 4)).take row.payload.length =
      row.payload := by
    rw [front, ← drop_drop, drop_left' skipped, drop_left' (leBytes_length ..), take_length]
  rw [parseRow, readU32_of_le (by omega), matchLen]
  simp only
  rw [if_neg (by omega), readU32_of_le (by omega), payloadLen]
  simp only
  rw [if_neg (by omega), if_neg (by omega), matched, payload]

theorem parseRows_serialized {rows : List Row}
    (short : ∀ row ∈ rows, (serializeRow row).length < 2 ^ 32) :
    (rows.map serializeRow).mapM parseRow = (.ok rows : StatusOr (List Row)) := by
  induction rows with
  | nil => rfl
  | cons row rows ih =>
    have first := short row mem_cons_self
    rw [serializeRow_length] at first
    rw [map_cons, mapM_cons, parseRow_serializeRow (by omega) (by omega),
      ih fun other member => short other (mem_cons_of_mem _ member)]
    rfl

/-! ## A torn log of rows -/

/-- The rows were appended one after another, and every append was acknowledged. -/
inductive Appended (path : Bytes) : Log → List Row → Log → Prop where
  | nil (log : Log) : Appended path log [] log
  | cons {log log' log'' : Log} {row : Row} {rows : List Row} {writes : List WriteAnswer}
      {sync : SyncAnswer}
      (first : log.append path (serializeRow row) writes sync = (some (.ok ()), log'))
      (later : Appended path log' rows log'') : Appended path log (row :: rows) log''

theorem Appended.content {path : Bytes} {log log' : Log} {rows : List Row}
    (appended : Appended path log rows log') :
    log'.content = log.content ++ framing.frames (rows.map serializeRow) := by
  induction appended with
  | nil log => exact (append_nil _).symm
  | @cons log log' log'' row rows writes sync first later ih =>
    rcases append_spec path _ writes sync log first with
      ⟨failed, _⟩ | ⟨_, n, _, written, outcome⟩
    · exact absurd rfl failed
    · rcases outcome with ⟨_, rfl, _⟩ | ⟨failed, _⟩
      · rw [ih, written, take_length, append_assoc]
        rfl
      · exact absurd rfl failed

/-- **A torn tail costs only the torn row.**  Of rows appended to an empty log, the first `n`
bytes of the file give back exactly those whose whole frame lies within them, in order. -/
theorem torn_tail_costs_torn_row {path : Bytes} {rows : List Row} {log : Log}
    (short : ∀ row ∈ rows, (serializeRow row).length < 2 ^ 32)
    (appended : Appended path (Log.openWriter {}) rows log) (n : Nat) :
    (replayWal (some (log.content.take n))).mapM parseRow =
      .ok (within (fun row => (framed (serializeRow row)).length) n rows) := by
  have valid : ∀ entry ∈ rows.map serializeRow, framing.Valid entry := by
    intro entry member
    obtain ⟨row, among, rfl⟩ := mem_map.1 member
    exact Nat.le_of_lt_succ (short row among)
  have content : log.content = framing.frames (rows.map serializeRow) := appended.content
  have replayed : replayWal (some (log.content.take n)) =
      within (fun entry => (framed entry).length) n (rows.map serializeRow) := by
    rw [content]
    exact replayWal_logOf (Framing.LogOf.take valid n)
  rw [replayed, within_map]
  refine parseRows_serialized fun row member => short row ?_
  obtain ⟨⟨other, i⟩, among, rfl⟩ := mem_map.1 member
  exact fst_mem_of_mem_zipIdx (mem_of_mem_filter among)

/-- Two rows of eighteen bytes each, cut after twenty. -/
theorem second_row_torn : ∃ log, Appended (bytes "wal") (Log.openWriter {}) [⟨[1], [2]⟩, ⟨[3], [4]⟩]
      log ∧ (replayWal (some (log.content.take 20))).mapM parseRow = .ok [⟨[1], [2]⟩] := by
  let halfway : Log := ⟨some (framed (serializeRow ⟨[1], [2]⟩)), 18, true⟩
  have first : (Log.openWriter {}).append (bytes "wal") (serializeRow ⟨[1], [2]⟩)
      [.wrote 5, .interrupted, .wrote 13] .synced = (some (.ok ()), halfway) := rfl
  have second : halfway.append (bytes "wal") (serializeRow ⟨[3], [4]⟩) [.wrote 18] .synced =
      (some (.ok ()), _) := rfl
  have appended := Appended.cons first (.cons second (.nil _))
  exact ⟨_, appended, torn_tail_costs_torn_row (by decide) appended 20⟩

/-! ## A log with zeros at its end -/

def zeros (n : Nat) : Bytes :=
  replicate n 0

/-- What a crash leaves behind the frames of the acknowledged entries: the first `written` bytes of
the frame that was being written, and zeros where the file had grown but its data did not arrive. -/
def leftover (entry : Bytes) (written extended : Nat) : Bytes :=
  (framed entry).take written ++ zeros extended

def crashed (acked : List Bytes) (entry : Bytes) (written extended : Nat) : Bytes :=
  (acked.map framed).flatten ++ leftover entry written extended

/-- The acknowledged entries are replayed, and at most the one in flight behind them. -/
def NothingInvented (acked : List Bytes) (entry : Bytes) (written extended : Nat) : Prop :=
  replayWal (some (crashed acked entry written extended)) = acked ∨
    replayWal (some (crashed acked entry written extended)) = acked ++ [entry]

/-- The leftover does not start with a frame, other than that of the entry in flight with less
than a header behind it. -/
def Harmless (entry : Bytes) (written extended : Nat) : Prop :=
  ∀ other rest, other.length ≤ 0xFFFFFFFF → leftover entry written extended = framed other ++ rest →
    other = entry ∧ rest.length < kEntryHeaderSize

theorem replayWal_short {data : Bytes} (short : data.length < kEntryHeaderSize) :
    replayWal (some data) = [] :=
  replayWal_stop (if_neg (Nat.not_le.2 short))

theorem replayWal_framed {entry : Bytes} (small : entry.length ≤ 0xFFFFFFFF) (rest : Bytes) :
    replayWal (some (framed entry ++ rest)) = entry :: replayWal (some rest) := by
  have one := replayWal_frames (forall_mem_singleton.2 small) rest
  rwa [Framing.frames_cons, Framing.frames_nil, append_nil] at one

/-- Eight zeros are an empty entry. -/
theorem zeros_add_eight (n : Nat) : zeros (kEntryHeaderSize + n) = framed [] ++ zeros n := by
  rw [zeros, replicate_add]
  rfl

theorem lt_of_replayWal_zeros {n : Nat} (nothing : replayWal (some (zeros n)) = []) :
    n < kEntryHeaderSize := by
  by_contra enough
  obtain ⟨more, rfl⟩ := Nat.exists_eq_add_of_le (Nat.not_lt.1 enough)
  rw [zeros_add_eight, replayWal_framed (Nat.zero_le _)] at nothing
  cases nothing

/-- Behind a whole frame of the entry in flight there are only zeros. -/
theorem zeros_of_leftover {entry rest : Bytes} {written extended : Nat}
    (front : leftover entry written extended = framed entry ++ rest) :
    rest = zeros rest.length := by
  refine eq_replicate_iff.2 ⟨rfl, fun byte member => ?_⟩
  have dropped : rest = (zeros extended).drop
      ((framed entry).length - ((framed entry).take written).length) := by
    have tail := congrArg (List.drop (framed entry).length) front
    rw [drop_left, leftover, drop_append, drop_of_length_le
      (length_take_le' ..)] at tail
    exact tail.symm
  rw [dropped] at member
  exact eq_of_mem_replicate (mem_of_mem_drop member)

theorem replayWal_leftover_iff {entry : Bytes} {written extended : Nat} :
    (replayWal (some (leftover entry written extended)) = [] ∨
      replayWal (some (leftover entry written extended)) = [entry]) ↔
        Harmless entry written extended := by
  constructor
  · intro replayed other rest small front
    rw [front, replayWal_framed small] at replayed
    rcases replayed with none_ | one
    · cases none_
    · obtain ⟨rfl, nothing⟩ := cons.inj one
      rw [zeros_of_leftover front] at nothing
      exact ⟨rfl, lt_of_replayWal_zeros nothing⟩
  · intro harmless
    rcases found : nextEntry (leftover entry written extended) with _ | ⟨other, rest⟩
    · exact .inl (replayWal_stop found)
    · obtain ⟨small, front⟩ := nextEntry_iff.1 found
      obtain ⟨rfl, short⟩ := harmless other rest small front
      rw [front, replayWal_framed small, replayWal_short short]
      exact .inr rfl

/-- **Replay invents no entries exactly when the leftover of the crash is harmless.** -/
theorem nothing_invented_iff {acked : List Bytes} {entry : Bytes}
    (valid : ∀ e ∈ entry :: acked, e.length ≤ 0xFFFFFFFF) (written extended : Nat) :
    NothingInvented acked entry written extended ↔ Harmless entry written extended := by
  have replayed : replayWal (some (crashed acked entry written extended)) =
      acked ++ replayWal (some (leftover entry written extended)) :=
    replayWal_frames (fun e member => valid e (mem_cons_of_mem _ member)) _
  rw [NothingInvented, replayed, ← replayWal_leftover_iff, append_right_eq_self,
    append_cancel_left_eq]

/-- A crash that leaves nothing but one zero of the frame invents nothing. -/
theorem one_zero_harmless : NothingInvented [[5]] [1] 0 1 := by
  refine (nothing_invented_iff (by decide) 0 1).2 fun other rest _ front => ?_
  have lengths := congrArg List.length front
  rw [length_append, framed_length, kEntryHeaderSize] at lengths
  have one : (leftover [1] 0 1).length = 1 := rfl
  omega

/-- Eight zeros behind an acknowledged entry, with nothing of the frame in flight written, are
replayed as an empty entry that was never appended. -/
theorem empty_entry_invented :
    replayWal (some (crashed [[5]] [1] 0 8)) = [[5], []] ∧ ¬ NothingInvented [[5]] [1] 0 8 := by
  have replayed : replayWal (some (crashed [[5]] [1] 0 8)) = [[5], []] := by decide +kernel
  refine ⟨replayed, ?_⟩
  rintro (none_ | one)
  · rw [replayed] at none_
    cases none_
  · rw [replayed] at one
    cases one

/-! ## Few zeros -/

section Few

variable {entry other rest : Bytes} {written extended : Nat}

/-- With the length field written, a frame at the front of the leftover is as long as that of the
entry in flight. -/
theorem length_eq_of_leftover (fits : entry.length ≤ 0xFFFFFFFF) (small : other.length ≤ 0xFFFFFFFF)
    (header : 4 ≤ written) (front : leftover entry written extended = framed other ++ rest) :
    other.length = entry.length := by
  have fields : ((framed entry).take written).take 4 = (framed other).take 4 := by
    have heads := congrArg (List.take 4) front
    have long := framed_length entry
    have long' := framed_length other
    rwa [leftover, take_append_of_le_length
      (by rw [length_take, long, kEntryHeaderSize]; omega),
      take_append_of_le_length (by rw [long', kEntryHeaderSize]; omega)] at heads
  rw [take_take, Nat.min_eq_left header, framed,
    take_left' (leBytes_length ..)] at fields
  exact (leBytes_inj (by omega) (by omega) fields).symm

/-- A payload that ends in up to four zeros instead of its last bytes fails its checksum. -/
theorem eq_of_payload {k : Nat} (few : extended ≤ 4) (length : other.length = entry.length)
    (crc : crc32 other = crc32 entry) (front : entry.take k ++ zeros extended = other ++ rest) :
    other = entry := by
  by_contra differ
  refine crc32_ne_of_window ⟨length, k, fun i out => ?_⟩ differ crc
  by_cases inside : i < entry.length
  · have lengths := congrArg List.length front
    simp only [length_append, length_take, zeros, length_replicate] at lengths
    have before : i < k := by omega
    have here := congrArg (·[i]?) front
    rw [getElem?_append_left (by rw [length_take]; omega),
      getElem?_take_of_lt before, getElem?_append_left (by omega)] at here
    exact here.symm
  · rw [getElem?_eq_none (by omega), getElem?_eq_none (by omega)]

/-- The header was written: the checksum is that of the entry in flight. -/
theorem eq_of_header_written (fits : entry.length ≤ 0xFFFFFFFF) (small : other.length ≤ 0xFFFFFFFF)
    (few : extended ≤ 4) (header : kEntryHeaderSize ≤ written)
    (front : leftover entry written extended = framed other ++ rest) : other = entry := by
  have length := length_eq_of_leftover fits small (by rw [kEntryHeaderSize] at header; omega) front
  have eight : (leBytes 4 entry.length ++ leBytes 4 (crc32 entry).toNat).length ≤ written := by
    exact header
  rw [leftover, framed, framed, ← append_assoc, take_append, take_of_length_le eight, append_assoc,
    ← append_assoc (leBytes 4 other.length), append_assoc _ other] at front
  obtain ⟨headers, payloads⟩ := append_inj front (by simp [leBytes_length])
  obtain ⟨_, sums⟩ := append_inj headers (by rw [leBytes_length, leBytes_length])
  exact eq_of_payload few length (crc_of_field sums).symm payloads

/-- The checksums of one, two and three zeros do not end in a zero byte. -/
theorem crc32_zeros_last : ∀ n : Fin 4, n ≠ 0 → (framed (zeros n))[7]? ≠ some 0 := by
  decide +kernel

/-- The header was not written completely: at most three bytes follow it, all of them zero. -/
theorem eq_of_header_torn (fits : entry.length ≤ 0xFFFFFFFF) (small : other.length ≤ 0xFFFFFFFF)
    (few : extended ≤ 4) (torn : written < kEntryHeaderSize)
    (front : leftover entry written extended = framed other ++ rest) : other = entry := by
  have long := framed_length entry
  have cut : ((framed entry).take written).length = written := by
    rw [length_take]
    omega
  have lengths := congrArg List.length front
  rw [leftover, length_append, length_append, zeros, length_replicate,
    framed_length] at lengths
  rw [kEntryHeaderSize] at torn lengths
  have length := length_eq_of_leftover fits small (by omega) front
  have last : (framed other)[7]? = some 0 := by
    have here := congrArg (·[7]?) front
    rw [leftover, getElem?_append_right (by omega), zeros, getElem?_replicate,
      if_pos (by omega)] at here
    exact here.symm
  have blank : other = zeros other.length := by
    refine eq_replicate_iff.2 ⟨rfl, fun byte member => ?_⟩
    have behind : other ++ rest = (zeros extended).drop (kEntryHeaderSize - written) := by
      have tails := congrArg (List.drop kEntryHeaderSize) front
      rw [leftover, drop_append, cut, drop_of_length_le (by rw [cut]; exact torn.le), framed] at tails
      exact tails.symm
    have among := behind ▸ mem_append_left rest member
    exact eq_of_mem_replicate (mem_of_mem_drop among)
  by_cases empty : other.length = 0
  · rw [length_eq_zero_iff.1 empty, length_eq_zero_iff.1 (length.symm.trans empty)]
  · rw [blank] at last
    exact absurd last (crc32_zeros_last ⟨other.length, by omega⟩ (by simpa using empty))

/-- Up to four zeros are never taken for an entry. -/
theorem harmless_of_few (fits : entry.length ≤ 0xFFFFFFFF) (few : extended ≤ 4) :
    Harmless entry written extended := by
  intro other rest small front
  have same : other = entry := by
    by_cases header : kEntryHeaderSize ≤ written
    · exact eq_of_header_written fits small few header front
    · exact eq_of_header_torn fits small few (Nat.not_le.1 header) front
  refine ⟨same, ?_⟩
  have lengths := congrArg List.length front
  rw [leftover, length_append, length_append, zeros, length_replicate, same, length_take] at lengths
  rw [kEntryHeaderSize]
  omega

-- Five zeros can be: they have the checksum of another payload of five bytes.
example : ¬ Harmless [0x41, 0x06, 0x71, 0xDB, 0x01] 8 5 := fun harmless =>
  absurd (harmless (zeros 5) [] (by decide) (by decide +kernel)).1 (by decide)

/-- **Up to four zeros are never replayed as an entry**, wherever the frame in flight was torn: they
cannot repair its checksum. -/
theorem few_zeros_invent_nothing {acked : List Bytes}
    (valid : ∀ e ∈ entry :: acked, e.length ≤ 0xFFFFFFFF) (few : extended ≤ 4) :
    NothingInvented acked entry written extended := by
  have replayed : replayWal (some (crashed acked entry written extended)) =
      acked ++ replayWal (some (leftover entry written extended)) :=
    replayWal_frames (fun e member => valid e (mem_cons_of_mem _ member)) _
  rw [NothingInvented, replayed, append_right_eq_self, append_cancel_left_eq]
  exact replayWal_leftover_iff.2 (harmless_of_few (valid entry mem_cons_self) few)

/-- A frame whose last byte did not arrive, with four zeros in its place. -/
theorem four_zeros_invent_nothing :
    NothingInvented [[5]] [1, 2] 9 4 ∧ replayWal (some (crashed [[5]] [1, 2] 9 4)) = [[5]] :=
  ⟨few_zeros_invent_nothing (by decide) (by decide), by decide +kernel⟩

end Few

end OpaqueDb.Storage.Wal
