/-
# Storage.Wal -- the write-ahead log

An entry is framed by its length and its checksum, written at the end of the file and
fsynced; replaying reads frames until one is incomplete or fails its checksum.  Opening the
log for appending does not look at what is there: a frame that a failed or interrupted
append left incomplete stays, and what is appended behind it is out of reach of the replay.

`acknowledged_survive_iff` says when every acknowledged entry is replayed: as long as no
append writes behind an incomplete frame.
-/
import OpaqueDb.Storage.Segment
import OpaqueDb.Theory.Frames

namespace OpaqueDb.Storage.Wal

open OpaqueDb.Core Theory List

set_option autoImplicit false

/-! ## Frames -/

def kEntryHeaderSize : Nat := 8

def framed (entry : Bytes) : Bytes :=
  leBytes 4 entry.length ++ (leBytes 4 (crc32 entry).toNat ++ entry)

/-- One turn of the replay loop: the entry at the front and what follows it. -/
def nextEntry (data : Bytes) : Option (Bytes × Bytes) :=
  if kEntryHeaderSize ≤ data.length then
    let length := readLe data 0 4
    let storedCrc := readLe data 4 4
    -- a length that runs past the end is a torn tail
    if length > data.length - kEntryHeaderSize then none
    else
      let payload := (data.drop kEntryHeaderSize).take length
      if (crc32 payload).toNat ≠ storedCrc then none
      else some (payload, data.drop (kEntryHeaderSize + length))
  else none

/-- `ReplayWal`; a missing file is an empty log. -/
def replayWal (file : Option Bytes) : List Bytes :=
  let data := file.getD []
  unframe nextEntry data.length data

/-! ## The file and its writer -/

/-- What a `write` answers. -/
inductive WriteAnswer where
  | wrote (n : Nat)
  | interrupted
  | failed (error : Bytes)

/-- What an `fsync` answers, or that the process did not live to see it. -/
inductive SyncAnswer where
  | synced
  | failed (error : Bytes)
  | died

/-- The bytes that reached the file, and the status; `none` when the answers ran out and with
them the process. -/
def writeAll (path : Bytes) : List WriteAnswer → Bytes → Bytes → Option (StatusOr Unit) × Bytes
  | [], data, file => (if data.isEmpty then some (.ok ()) else none, file)
  | answer :: answers, data, file =>
    if data.isEmpty then (some (.ok ()), file)
    else
      match answer with
      | .wrote n => writeAll path answers (data.drop n) (file ++ data.take n)
      | .interrupted => writeAll path answers data file
      | .failed error =>
        (some (.error (internalError [bytes "wal write '", path, bytes "' failed: ", error])), file)

structure Log where
  file : Option Bytes := none
  /-- How much of the file has been fsynced. -/
  durable : Nat := 0
  isOpen : Bool := false
  deriving DecidableEq

namespace Log

variable (log : Log)

def content : Bytes :=
  log.file.getD []

/-- `WalWriter::Open`: the file is created if it is not there, and left as it is otherwise. -/
def openWriter : Log :=
  { log with file := some log.content, isOpen := true }

def append (path entry : Bytes) (writes : List WriteAnswer) (sync : SyncAnswer) :
    Option (StatusOr Unit) × Log :=
  if !log.isOpen then (some (.error ⟨.failedPrecondition, bytes "wal is not open"⟩), log)
  else if entry.length > 0xFFFFFFFF then
    (some (.error (invalidArgument ["wal entry exceeds 4 GiB"])), log)
  else
    match writeAll path writes (framed entry) log.content with
    | (none, file) => (none, { log with file := some file, isOpen := false })
    | (some (.error status), file) => (some (.error status), { log with file := some file })
    | (some (.ok ()), file) =>
      match sync with
      | .died => (none, { log with file := some file, isOpen := false })
      | .failed error =>
        (some (.error (internalError [bytes "fsync wal '", path, bytes "' failed: ", error])),
          { log with file := some file })
      | .synced => (some (.ok ()), { log with file := some file, durable := file.length })

/-- The machine stops: of the bytes that were not fsynced the first `kept` survive. -/
def crash (kept : Nat) : Log :=
  { log with file := log.file.map (·.take (log.durable + kept)), isOpen := false }

end Log

/-! ## Runs -/

inductive Event where
  | openWriter
  | append (entry : Bytes) (writes : List WriteAnswer) (sync : SyncAnswer)
  | close
  | crash (kept : Nat)

def Log.step (path : Bytes) (log : Log) : Event → Log
  | .openWriter => log.openWriter
  | .append entry writes sync => (log.append path entry writes sync).2
  | .close => { log with isOpen := false }
  | .crash kept => log.crash kept

def Log.run (path : Bytes) (log : Log) (events : List Event) : Log :=
  events.foldl (Log.step path) log

/-- The entry an event acknowledges. -/
def Log.acknowledges (path : Bytes) (log : Log) : Event → List Bytes
  | .append entry writes sync =>
    if (log.append path entry writes sync).1 = some (.ok ()) then [entry] else []
  | _ => []

/-- The entries whose `Append` returned OK, in order. -/
def acknowledged (path : Bytes) : Log → List Event → List Bytes
  | _, [] => []
  | log, event :: events =>
    log.acknowledges path event ++ acknowledged path (log.step path event) events

/-- The file is made of whole frames. -/
def whole (file : Bytes) : Bool :=
  ((replayWal (some file)).map framed).flatten == file

/-- The event writes behind an incomplete frame. -/
def Log.strays (path : Bytes) (log : Log) : Event → Bool
  | .append entry writes sync =>
    !whole log.content && (log.append path entry writes sync).2.content != log.content
  | _ => false

/-- How many appends of the run write behind an incomplete frame. -/
def strays (path : Bytes) : Log → List Event → Nat
  | _, [] => 0
  | log, event :: events =>
    (if log.strays path event then 1 else 0) + strays path (log.step path event) events

/-- Everything acknowledged is replayed, in order. -/
def Survives (path : Bytes) (events : List Event) : Prop :=
  (acknowledged path {} events).Sublist (replayWal (Log.run path {} events).file)

/-! ## The format -/

theorem framed_length (entry : Bytes) : (framed entry).length = kEntryHeaderSize + entry.length := by
  simp only [framed, length_append, leBytes_length, kEntryHeaderSize]
  omega

variable {data entry : Bytes}

/-- The header of a frame, of which at least the first eight bytes are there. -/
theorem header_framed (small : entry.length ≤ 0xFFFFFFFF) (rest : Bytes)
    (front : data = leBytes 4 entry.length ++ (leBytes 4 (crc32 entry).toNat ++ rest)) :
    readLe data 0 4 = entry.length ∧ readLe data 4 4 = (crc32 entry).toNat := by
  have crc := (crc32 entry).toNat_lt
  constructor
  · exact readLe_eq [] front rfl (by omega)
  · exact readLe_eq (leBytes 4 entry.length) front (leBytes_length ..) (by omega)

theorem nextEntry_framed (small : entry.length ≤ 0xFFFFFFFF) (rest : Bytes) :
    nextEntry (framed entry ++ rest) = some (entry, rest) := by
  have front : framed entry ++ rest =
      leBytes 4 entry.length ++ (leBytes 4 (crc32 entry).toNat ++ (entry ++ rest)) := by
    simp [framed]
  obtain ⟨length, crc⟩ := header_framed small (entry ++ rest) front
  have size := framed_length entry
  have behind : (framed entry ++ rest).drop kEntryHeaderSize = entry ++ rest := by
    rw [front, ← append_assoc]
    exact drop_left' (by simp [leBytes_length, kEntryHeaderSize])
  have after : (framed entry ++ rest).drop (kEntryHeaderSize + entry.length) = rest :=
    drop_left' size
  rw [nextEntry, if_pos (by rw [length_append]; omega)]
  simp only [length, crc, behind, after, take_left, ne_eq, not_true_eq_false, if_false]
  rw [if_neg (by rw [length_append]; omega)]

/-- What the loop takes for an entry is a frame of one. -/
theorem nextEntry_iff {rest : Bytes} : nextEntry data = some (entry, rest) ↔
    entry.length ≤ 0xFFFFFFFF ∧ data = framed entry ++ rest := by
  constructor
  · intro found
    unfold nextEntry at found
    split_ifs at found with header
    simp only at found
    split_ifs at found with torn corrupt
    cases found
    have length : ((data.drop kEntryHeaderSize).take (readLe data 0 4)).length = readLe data 0 4 := by
      rw [length_take_of_le]
      rw [length_drop]
      exact Nat.not_lt.1 torn
    have small := readLe_lt data 0 4
    refine ⟨by omega, ?_⟩
    have eight : 8 ≤ data.length := header
    rw [framed, length, not_not.1 corrupt, leBytes_readLe (by omega), leBytes_readLe (by omega),
      append_assoc, append_assoc, ← drop_drop, take_append_drop]
    have first : data.drop 0 = data := rfl
    have second : data.drop kEntryHeaderSize = (data.drop 4).drop 4 := by rw [drop_drop]; rfl
    rw [first, second, take_append_drop, take_append_drop]
  · rintro ⟨small, rfl⟩
    exact nextEntry_framed small rest

theorem nextEntry_takes {rest : Bytes} (found : nextEntry data = some (entry, rest)) :
    rest.length < data.length := by
  obtain ⟨_, rfl⟩ := nextEntry_iff.1 found
  rw [length_append, framed_length, kEntryHeaderSize]
  omega

/-- A part of a frame has no header or ends before its entry does. -/
theorem nextEntry_part (small : entry.length ≤ 0xFFFFFFFF) {n : Nat}
    (short : n < (framed entry).length) : nextEntry ((framed entry).take n) = none := by
  have size := framed_length entry
  have cut : ((framed entry).take n).length = n := length_take_of_le short.le
  rw [nextEntry, cut]
  by_cases header : kEntryHeaderSize ≤ n
  · have front : (framed entry).take n = leBytes 4 entry.length ++
        (leBytes 4 (crc32 entry).toNat ++ entry.take (n - kEntryHeaderSize)) := by
      rw [framed, ← append_assoc, take_append, take_of_length_le
        (by simp [leBytes_length]; exact header)]
      simp [leBytes_length, kEntryHeaderSize]
    obtain ⟨length, _⟩ := header_framed small _ front
    rw [if_pos header]
    rw [if_pos (by omega)]
  · rw [if_neg header]

/-- The log's frames, for entries whose length has a field. -/
def framing : Framing Bytes UInt8 where
  Valid entry := entry.length ≤ 0xFFFFFFFF
  frame := framed
  next := nextEntry
  frame_pos entry := by
    rw [framed_length, kEntryHeaderSize]
    omega
  next_frame := nextEntry_framed
  next_part small _ short := nextEntry_part small short
  next_nil := rfl

variable {entries : List Bytes}

theorem replayWal_logOf {file : Option Bytes} (log : framing.LogOf entries (file.getD [])) :
    replayWal file = entries :=
  log.unframe log.length_le

/-- Whole frames at the front are replayed, whatever follows them. -/
theorem replayWal_frames (valid : ∀ entry ∈ entries, entry.length ≤ 0xFFFFFFFF) (tail : Bytes) :
    replayWal (some (framing.frames entries ++ tail)) = entries ++ replayWal (some tail) := by
  have some_ := framing.length_le_frames entries
  rw [replayWal, Option.getD_some, length_append]
  obtain ⟨more, split⟩ := Nat.exists_eq_add_of_le' some_
  have fuel : (framing.frames entries).length + tail.length =
      more + tail.length + entries.length := by omega
  rw [fuel]
  refine (Framing.unframe_frames (f := framing) valid _ tail).trans ?_
  exact congrArg (entries ++ ·) (unframe_enough (fun _ _ _ => nextEntry_takes) (Nat.le_add_left ..))

theorem replayWal_stop (stop : nextEntry data = none) : replayWal (some data) = [] :=
  unframe_stop stop _

/-! ## What an append does -/

/-- A beginning of the data reaches the file, and all of it if the status is OK. -/
theorem writeAll_spec (path : Bytes) (answers : List WriteAnswer) (data file : Bytes) :
    ∃ n ≤ data.length, (writeAll path answers data file).2 = file ++ data.take n ∧
      ((writeAll path answers data file).1 = some (.ok ()) → n = data.length) := by
  induction answers generalizing data file with
  | nil =>
    refine ⟨0, Nat.zero_le _, by simp [writeAll], fun ok => ?_⟩
    cases data with
    | nil => rfl
    | cons b data => cases ok
  | cons answer answers ih =>
    cases data with
    | nil => exact ⟨0, le_rfl, by simp [writeAll], fun _ => rfl⟩
    | cons b data =>
      cases answer with
      | wrote n =>
        obtain ⟨m, inside, written, all⟩ := ih ((b :: data).drop n) (file ++ (b :: data).take n)
        rw [length_drop] at inside all
        refine ⟨min n (b :: data).length + m, by omega, ?_, fun ok => ?_⟩
        · refine written.trans ?_
          rw [append_assoc]
          by_cases past : (b :: data).length ≤ n
          · rw [drop_of_length_le past, take_nil, append_nil, take_of_length_le past,
              take_of_length_le (by omega)]
          · rw [Nat.min_eq_left (by omega), take_add]
        · have := all ok
          omega
      | interrupted => exact ih (b :: data) file
      | failed error => exact ⟨0, Nat.zero_le _, (append_nil file).symm, fun ok => by cases ok⟩

/-- The outcomes of an append that wrote the first `n` bytes of the frame: it is acknowledged
when all of it was written and fsynced. -/
def Outcome (log : Log) (entry : Bytes) (n : Nat) (result : Option (StatusOr Unit)) (log' : Log) :
    Prop :=
  log'.content = log.content ++ (framed entry).take n ∧
    ((result = some (.ok ()) ∧ n = (framed entry).length ∧ log'.durable = log'.content.length) ∨
      (result ≠ some (.ok ()) ∧ log'.durable = log.durable))

/-- An append is refused, or writes a beginning of the frame. -/
theorem append_spec (path entry : Bytes) (writes : List WriteAnswer) (sync : SyncAnswer)
    (log : Log) {result : Option (StatusOr Unit)} {log' : Log}
    (run : log.append path entry writes sync = (result, log')) :
    (result ≠ some (.ok ()) ∧ log' = log) ∨
      (entry.length ≤ 0xFFFFFFFF ∧ ∃ n ≤ (framed entry).length, Outcome log entry n result log') := by
  unfold Log.append at run
  split_ifs at run with closed long
  · cases run
    exact .inl ⟨by simp, rfl⟩
  · cases run
    exact .inl ⟨by simp, rfl⟩
  obtain ⟨n, inside, written, all⟩ := writeAll_spec path writes (framed entry) log.content
  refine .inr ⟨Nat.not_lt.1 long, n, inside, ?_⟩
  rcases outcome : writeAll path writes (framed entry) log.content with ⟨_ | status | _, file⟩ <;>
    rw [outcome] at run written all
  · cases run
    exact ⟨written, .inr ⟨by simp, rfl⟩⟩
  · cases run
    exact ⟨written, .inr ⟨by simp, rfl⟩⟩
  · cases sync with
    | died =>
      cases run
      exact ⟨written, .inr ⟨by simp, rfl⟩⟩
    | failed error =>
      cases run
      exact ⟨written, .inr ⟨by simp, rfl⟩⟩
    | synced =>
      cases run
      exact ⟨written, .inl ⟨rfl, all rfl, rfl⟩⟩

/-! ## Runs that leave no frame buried -/

/-- The file is a log, and everything acknowledged is in the part of it that was fsynced. -/
def Kept (log : Log) (acked : List Bytes) : Prop :=
  ∃ entries front, framing.LogOf entries log.content ∧ front <+: entries ∧
    log.durable = (framing.frames front).length ∧ acked.Sublist front

variable {acked : List Bytes}

theorem Kept.replayed {log : Log} (kept : Kept log acked) : acked.Sublist (replayWal log.file) := by
  obtain ⟨entries, front, is, start, _, among⟩ := kept
  rw [replayWal_logOf is]
  exact among.trans start.sublist

/-- A file of whole frames is the frames of its entries. -/
theorem whole_logOf {file : Bytes} (is : framing.LogOf entries file) (all : whole file = true) :
    file = framing.frames entries := by
  have replayed : replayWal (some file) = entries := replayWal_logOf is
  rw [whole, replayed, beq_iff_eq] at all
  exact all.symm

variable {path : Bytes}

theorem Kept.append {log : Log} (kept : Kept log acked) {writes : List WriteAnswer}
    {sync : SyncAnswer} (straight : log.strays path (.append entry writes sync) = false) :
    Kept (log.append path entry writes sync).2
      (acked ++ log.acknowledges path (.append entry writes sync)) := by
  obtain ⟨entries, front, is, start, durable, among⟩ := kept
  rw [Log.acknowledges]
  rw [Log.strays, Bool.and_eq_false_iff] at straight
  rcases run : log.append path entry writes sync with ⟨result, log'⟩
  rw [run] at straight
  rcases append_spec path entry writes sync log run with
    ⟨failed, rfl⟩ | ⟨fits, n, inside, written, outcome⟩
  · rw [if_neg failed, append_nil]
    exact ⟨entries, front, is, start, durable, among⟩
  by_cases nothing : n = 0
  · -- an append that writes nothing is not acknowledged
    subst nothing
    rw [take_zero, append_nil] at written
    rcases outcome with ⟨_, none_, _⟩ | ⟨failed, same⟩
    · exact absurd none_ (framing.frame_pos entry).ne
    · rw [if_neg failed, append_nil]
      exact ⟨entries, front, written ▸ is, start, same.trans durable, among⟩
  have grown : log'.content ≠ log.content := by
    intro same
    have lengths := congrArg List.length (written.symm.trans same)
    rw [length_append, length_take_of_le inside] at lengths
    omega
  have all : whole log.content = true := by
    rcases straight with whole_ | same
    · simpa using whole_
    · exact absurd (by simpa using same) grown
  rw [whole_logOf is all] at written
  rcases outcome with ⟨ok, full, synced⟩ | ⟨failed, same⟩
  · rw [full, take_length] at written
    rw [if_pos ok]
    refine ⟨entries ++ [entry], entries ++ [entry], written ▸ .extend is.1 fits, prefix_refl _,
      ?_, (among.trans start.sublist).append (List.Sublist.refl _)⟩
    rw [synced, written]
    simp [framing]
  · rw [if_neg failed, append_nil]
    by_cases full : n = (framed entry).length
    · rw [full, take_length] at written
      exact ⟨entries ++ [entry], front, written ▸ .extend is.1 fits,
        start.trans (prefix_append ..), same.trans durable, among⟩
    · exact ⟨entries, front, written ▸ .write is.1 fits (lt_of_le_of_ne inside full), start,
        same.trans durable, among⟩

theorem Kept.step {log : Log} (kept : Kept log acked) {event : Event}
    (straight : log.strays path event = false) :
    Kept (log.step path event) (acked ++ log.acknowledges path event) := by
  cases event with
  | append entry writes sync => exact kept.append straight
  | openWriter => exact (append_nil acked).symm ▸ kept
  | close => exact (append_nil acked).symm ▸ kept
  | crash n =>
    show Kept (log.crash n) (acked ++ [])
    rw [append_nil]
    obtain ⟨entries, front, is, start, durable, among⟩ := kept
    obtain ⟨left, cut, ended⟩ := is.cut (log.durable + n)
    have content : (log.crash n).content = log.content.take (log.durable + n) := by
      rw [Log.content, Log.crash, Log.content]
      cases log.file <;> simp
    exact ⟨left, front, content ▸ cut, ended front start (by omega), durable, among⟩

theorem Kept.run {log : Log} (kept : Kept log acked) {events : List Event}
    (straight : strays path log events = 0) :
    Kept (log.run path events) (acked ++ acknowledged path log events) := by
  induction events generalizing log acked with
  | nil =>
    rw [acknowledged, append_nil]
    exact kept
  | cons event events ih =>
    rw [strays] at straight
    have here : log.strays path event = false := by
      by_contra stray
      rw [if_pos (by simpa using stray)] at straight
      omega
    rw [here] at straight
    rw [acknowledged, ← append_assoc]
    exact ih (kept.step here) (by simpa using straight)

theorem kept_empty : Kept {} [] :=
  ⟨[], [], .empty, prefix_refl _, rfl, List.Sublist.refl _⟩

/-! ## A buried frame -/

/-- One byte of the first entry's frame reaches the file; after a reopening the second entry is
written and acknowledged. -/
def tornThenAppended : List Event :=
  [.openWriter, .append [1] [.wrote 1, .failed (bytes "No space left on device")] .synced,
    .openWriter, .append [2] [.wrote 9] .synced]

theorem tornThenAppended_outcome :
    acknowledged (bytes "wal") {} tornThenAppended = [[2]] ∧
      strays (bytes "wal") {} tornThenAppended = 1 ∧
      replayWal (Log.run (bytes "wal") {} tornThenAppended).file = [] := by
  decide +kernel

/-- The acknowledged entry is not replayed. -/
theorem acknowledged_entry_lost :
    acknowledged (bytes "wal") {} tornThenAppended = [[2]] ∧
      replayWal (Log.run (bytes "wal") {} tornThenAppended).file = [] ∧
      ¬ Survives (bytes "wal") tornThenAppended := by
  obtain ⟨acked, _, replayed⟩ := tornThenAppended_outcome
  refine ⟨acked, replayed, fun kept => ?_⟩
  rw [Survives, acked, replayed] at kept
  cases kept

/-- **Acknowledged entries survive exactly as long as no append writes behind an incomplete
frame.**  Among the runs with at most `k` such appends every one replays what it acknowledged if
and only if `k` is zero. -/
theorem acknowledged_survive_iff (k : Nat) :
    (∀ path events, strays path {} events ≤ k → Survives path events) ↔ k = 0 := by
  constructor
  · intro survive
    by_contra some_
    obtain ⟨acked, stray, replayed⟩ := tornThenAppended_outcome
    have kept := survive (bytes "wal") tornThenAppended (by omega)
    rw [Survives, acked, replayed] at kept
    cases kept
  · rintro rfl path events straight
    exact (kept_empty.run (Nat.le_zero.1 straight)).replayed

end OpaqueDb.Storage.Wal
