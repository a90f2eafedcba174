/-
# Core.Records -- what a payload record holds, and that reading one is safe

Which payloads `encodeRecord` accepts is said by `Storable`: a value for each payload
column, of the column's type, no text over its 16-bit length, and all of it within the
record.  `decodeRecordAt` is the decoder as the source runs it, at offsets into the
record; a read of a byte that is not there is `none`, and none occurs
(`decodeRecordAt_eq`).

`record_round_trip` puts the two together.
-/
import OpaqueDb.Core.RecordCodec

namespace OpaqueDb.Core

open Theory List

set_option autoImplicit false

/-! ## The payloads that can be stored -/

/-- JSON is kept as text. -/
def Value.HasType (value : Value) (type : ColumnType) : Prop :=
  match type, value with
  | .int, .int _ => True
  | .real, .real _ => True
  | .text, .text _ => True
  | .json, .text _ => True
  | _, _ => False

/-- A text's length fits its 16-bit field. -/
def Value.Short : Value → Prop
  | .text s => s.length ≤ 65535
  | _ => True

/-- The bytes a value takes in a record. -/
def Value.encodedSize : Value → Nat
  | .int _ => 8
  | .real _ => 8
  | .text s => 2 + s.length

def payloadColumns (columns : List Column) : List Column :=
  columns.filter fun column => column.encoding != .eq

variable (columns : List Column)

theorem payloadColumns_length : (payloadColumns columns).length = payloadCount columns :=
  countP_eq_length_filter.symm

/-- What it takes to store a payload: values beyond the last column are not looked at. -/
structure Storable (columns : List Column) (payload : List Value) : Prop where
  enough : payloadCount columns ≤ payload.length
  typed : ∀ cell ∈ (payloadColumns columns).zip payload, cell.2.HasType cell.1.type
  short : ∀ cell ∈ (payloadColumns columns).zip payload, cell.2.Short

def encodedSize (columns : List Column) (payload : List Value) : Nat :=
  ((payload.take (payloadCount columns)).map Value.encodedSize).sum

theorem encodeField_ok_iff (column : Column) (value : Value) :
    (∃ field, encodeField column value = .ok field) ↔ value.HasType column.type ∧ value.Short := by
  have text : ∀ s : Bytes, ∀ status : Status,
      (∃ field, (if s.length > 0xffff then (.error status : StatusOr Bytes)
        else .ok (leBytes 2 s.length ++ s)) = .ok field) ↔ True ∧ s.length ≤ 65535 := by
    intro s status
    by_cases long : s.length > 0xffff
    · simp only [if_pos long, reduceCtorEq, exists_false, false_iff]
      omega
    · simp only [if_neg long, Except.ok.injEq, exists_eq', true_and, true_iff]
      omega
  unfold encodeField
  cases column.type <;> cases value <;> simp [Value.HasType, Value.Short]
  all_goals exact (text _ _).trans (by simp)

variable {column : Column}

theorem encodeField_length {value : Value} {field : Bytes}
    (encoded : encodeField column value = .ok field) : field.length = value.encodedSize := by
  unfold encodeField at encoded
  split at encoded <;> split at encoded
  all_goals first
    | cases encoded
      exact leBytes_length 8 _
    | split at encoded
      · cases encoded
      · cases encoded
        rw [length_append]
        rfl
    | cases encoded

/-- The step of `encodeColumns` over a payload column. -/
theorem encodeColumns_cons_iff (stored : column.encoding ≠ .eq) (columns : List Column)
    (value : Value) (rest : List Value) (out : Bytes) :
    encodeColumns (column :: columns) (value :: rest) = .ok out ↔
      ∃ field later, encodeField column value = .ok field ∧
        encodeColumns columns rest = .ok later ∧ out = field ++ later := by
  rw [encodeColumns, if_neg stored]
  constructor
  · intro encoded
    obtain ⟨field, first, encoded₁⟩ := bind_eq_ok.1 encoded
    obtain ⟨later, others, encoded₂⟩ := bind_eq_ok.1 encoded₁
    exact ⟨field, later, first, others, (pure_eq_ok.1 encoded₂).symm⟩
  · rintro ⟨field, later, first, others, rfl⟩
    exact bind_eq_ok.2 ⟨field, first, bind_eq_ok.2 ⟨later, others, rfl⟩⟩

theorem storable_key (key : column.encoding = .eq) (columns : List Column) (payload : List Value) :
    Storable (column :: columns) payload ↔ Storable columns payload := by
  have same : payloadColumns (column :: columns) = payloadColumns columns := by
    simp [payloadColumns, key]
  constructor <;> rintro ⟨enough, typed, short⟩
  · rw [payloadCount_cons, if_pos key] at enough
    rw [same] at typed short
    exact ⟨enough, typed, short⟩
  · refine ⟨?_, ?_, ?_⟩
    · rw [payloadCount_cons, if_pos key]
      exact enough
    · rw [same]
      exact typed
    · rw [same]
      exact short

theorem storable_cons (stored : column.encoding ≠ .eq) (columns : List Column) (value : Value)
    (rest : List Value) : Storable (column :: columns) (value :: rest) ↔
      (value.HasType column.type ∧ value.Short) ∧ Storable columns rest := by
  have first : payloadColumns (column :: columns) = column :: payloadColumns columns := by
    simp [payloadColumns, stored]
  constructor
  · rintro ⟨enough, typed, short⟩
    rw [payloadCount_cons, if_neg stored, length_cons] at enough
    rw [first] at typed short
    exact ⟨⟨typed _ mem_cons_self, short _ mem_cons_self⟩, by omega,
      fun cell member => typed cell (mem_cons_of_mem _ member),
      fun cell member => short cell (mem_cons_of_mem _ member)⟩
  · rintro ⟨⟨type, fits⟩, enough, typed, short⟩
    refine ⟨?_, ?_, ?_⟩
    · rw [payloadCount_cons, if_neg stored, length_cons]
      omega
    · rw [first]
      exact forall_mem_cons.2 ⟨type, typed⟩
    · rw [first]
      exact forall_mem_cons.2 ⟨fits, short⟩

theorem encodeColumns_ok_iff (payload : List Value) :
    (∃ out, encodeColumns columns payload = .ok out) ↔ Storable columns payload := by
  induction columns generalizing payload with
  | nil =>
    refine ⟨fun _ => ⟨Nat.zero_le _, ?_, ?_⟩, fun _ => ⟨[], rfl⟩⟩ <;>
    · intro cell member
      cases member
  | cons column columns ih =>
    by_cases key : column.encoding = .eq
    · rw [storable_key key, ← ih, encodeColumns.eq_def]
      simp only [if_pos key]
    · cases payload with
      | nil =>
        rw [encodeColumns, if_neg key]
        constructor
        · rintro ⟨out, encoded⟩
          cases encoded
        · intro storable
          have enough := storable.enough
          rw [payloadCount_cons, if_neg key, length_nil] at enough
          omega
      | cons value rest =>
        rw [storable_cons key, ← ih, ← encodeField_ok_iff]
        simp only [encodeColumns_cons_iff key]
        constructor
        · rintro ⟨out, field, later, first, others, _⟩
          exact ⟨⟨field, first⟩, later, others⟩
        · rintro ⟨⟨field, first⟩, later, others⟩
          exact ⟨field ++ later, field, later, first, others, rfl⟩

theorem encodeColumns_length {columns : List Column} {payload : List Value} {out : Bytes}
    (encoded : encodeColumns columns payload = .ok out) :
    out.length = encodedSize columns payload := by
  induction columns generalizing payload out with
  | nil =>
    cases encoded
    rfl
  | cons column columns ih =>
    rw [encodedSize, payloadCount_cons]
    by_cases key : column.encoding = .eq
    · rw [encodeColumns.eq_def] at encoded
      simp only [if_pos key] at encoded
      rw [if_pos key]
      exact ih encoded
    · cases payload with
      | nil =>
        rw [encodeColumns, if_neg key] at encoded
        cases encoded
      | cons value rest =>
        obtain ⟨field, later, first, others, rfl⟩ :=
          (encodeColumns_cons_iff key columns value rest out).1 encoded
        rw [if_neg key, length_append, encodeField_length first, ih others]
        rfl

variable (schema : Schema)

theorem encodeRecord_ok_iff (payload : List Value) (recordBytes : Nat) :
    (∃ record, encodeRecord schema payload recordBytes = .ok record) ↔
      Storable schema.columns payload ∧ encodedSize schema.columns payload ≤ recordBytes := by
  rw [← encodeColumns_ok_iff]
  constructor
  · rintro ⟨record, encoded⟩
    obtain ⟨out, written, encoded₁⟩ := bind_eq_ok.1 encoded
    refine ⟨⟨out, written⟩, ?_⟩
    rw [← encodeColumns_length written]
    split at encoded₁
    · cases encoded₁
    · omega
  · rintro ⟨⟨out, written⟩, fits⟩
    rw [← encodeColumns_length written] at fits
    exact ⟨padTo recordBytes out, bind_eq_ok.2 ⟨out, written, if_neg (by omega)⟩⟩

/-! ## Reading at offsets -/

/-- A computation that reads bytes: `none` is a read past the end. -/
abbrev Reading (α : Type) := ExceptT Status Option α

/-- The bytes from `off` on, one read each. -/
def readBytes (b : Bytes) : Nat → Nat → Option Bytes
  | _, 0 => some []
  | off, n + 1 => do
    let c ← b[off]?
    let rest ← readBytes b (off + 1) n
    return c :: rest

variable (b : Bytes)

def readU16 (off : Nat) : Option Nat :=
  orBytes <$> readBytes b off 2

def readU64 (off : Nat) : Option UInt64 :=
  (fun read => UInt64.ofNat (orBytes read)) <$> readBytes b off 8

variable {α : Type}

def Reading.lift (read : Option α) : Reading α :=
  ExceptT.mk (Except.ok <$> read)

def Reading.fail (status : Status) : Reading α :=
  ExceptT.mk (some (.error status))

variable (build : UInt64 → Value) (truncated : String)

/-- A number of eight bytes read at `off`, and the offset behind it. -/
def decodeNumberAt (record : Bytes) (off : Nat) : Reading (Value × Nat) :=
  if off + 8 > record.length then Reading.fail ⟨.dataLoss, bytes truncated⟩
  else do
    let v ← Reading.lift (readU64 record off)
    return (build v, off + 8)

def decodeTextAt (record : Bytes) (off : Nat) : Reading (Value × Nat) :=
  if off + 2 > record.length then
    Reading.fail ⟨.dataLoss, bytes "record truncated reading a text length"⟩
  else do
    let len ← Reading.lift (readU16 record off)
    let off := off + 2
    if off + len > record.length then
      Reading.fail ⟨.dataLoss, bytes "record truncated reading text bytes"⟩
    else do
      let s ← Reading.lift (readBytes record off len)
      return (.text s, off + len)

variable (type : ColumnType)

def decodeFieldAt (record : Bytes) (off : Nat) : Reading (Value × Nat) :=
  match type with
  | .int => decodeNumberAt (fun v => .int v.toInt64) "record truncated reading an int column" record off
  | .real => decodeNumberAt .real "record truncated reading a real column" record off
  | .json | .text => decodeTextAt record off

def decodeColumnsAt (record : Bytes) : List Column → Nat → Reading (List Value)
  | [], _ => return []
  | column :: columns, off =>
    if column.encoding = .eq then decodeColumnsAt record columns off
    else do
      let (value, off) ← decodeFieldAt column.type record off
      let later ← decodeColumnsAt record columns off
      return value :: later

def decodeRecordAt (schema : Schema) (record : Bytes) : Option (StatusOr (List Value)) :=
  decodeColumnsAt record schema.columns 0

theorem readBytes_eq {b : Bytes} {off n : Nat} (inside : off + n ≤ b.length) :
    readBytes b off n = some ((b.drop off).take n) := by
  induction n generalizing off with
  | zero => simp [readBytes]
  | succ n ih =>
    have here : off < b.length := by omega
    rw [readBytes, getElem?_eq_getElem here, ih (by omega), ← getElem_cons_drop here]
    rfl

/-- A read at an offset returns, within the record, what a read of the bytes behind the
offset returns. -/
def ReadsAlike (record : Bytes) (behind : StatusOr (Value × Bytes)) (at_ : Reading (Value × Nat)) :
    Prop :=
  (∃ status, behind = .error status ∧ at_ = some (.error status)) ∨
    ∃ value next, next ≤ record.length ∧ behind = .ok (value, record.drop next) ∧
      at_ = some (.ok (value, next))

section Alike

variable {record : Bytes} {off : Nat}

theorem decodeNumberAt_alike (inside : off ≤ record.length) : ReadsAlike record
      (if 8 > (record.drop off).length then .error ⟨.dataLoss, bytes truncated⟩
        else .ok (build (UInt64.ofNat (orBytes ((record.drop off).take 8))),
          (record.drop off).drop 8))
      (decodeNumberAt build truncated record off) := by
  have rest : (record.drop off).length = record.length - off := length_drop
  unfold decodeNumberAt
  by_cases short : off + 8 > record.length
  · rw [if_pos (by omega), if_pos short]
    exact .inl ⟨_, rfl, rfl⟩
  · rw [if_neg (by omega), if_neg short, readU64, readBytes_eq (by omega)]
    exact .inr ⟨_, off + 8, by omega, by rw [drop_drop], rfl⟩

theorem decodeTextAt_alike (inside : off ≤ record.length) :
    ReadsAlike record (decodeField .text (record.drop off)) (decodeTextAt record off) := by
  have rest : (record.drop off).length = record.length - off := length_drop
  rw [decodeField, decodeTextAt]
  by_cases short : off + 2 > record.length
  · rw [if_pos (by omega), if_pos short]
    exact .inl ⟨_, rfl, rfl⟩
  · rw [if_neg (by omega), if_neg short, readU16, readBytes_eq (by omega)]
    simp only [drop_drop]
    show ReadsAlike record _
      (if off + 2 + orBytes ((record.drop off).take 2) > record.length then _ else _)
    generalize orBytes ((record.drop off).take 2) = len
    have behind : (record.drop (off + 2)).length = record.length - (off + 2) := length_drop
    by_cases cut : off + 2 + len > record.length
    · rw [if_pos (by omega), if_pos cut]
      exact .inl ⟨_, rfl, rfl⟩
    · rw [if_neg (by omega), if_neg cut, readBytes_eq (by omega)]
      exact .inr ⟨_, off + 2 + len, by omega, rfl, rfl⟩

theorem decodeFieldAt_alike (inside : off ≤ record.length) :
    ReadsAlike record (decodeField type (record.drop off)) (decodeFieldAt type record off) := by
  cases type with
  | int => exact decodeNumberAt_alike (fun v => .int v.toInt64) _ inside
  | real => exact decodeNumberAt_alike .real _ inside
  | json => exact decodeTextAt_alike inside
  | text => exact decodeTextAt_alike inside

end Alike

theorem decodeColumnsAt_eq (record : Bytes) (columns : List Column) {off : Nat}
    (inside : off ≤ record.length) :
    decodeColumnsAt record columns off = some (decodeColumns columns (record.drop off)) := by
  induction columns generalizing off with
  | nil => rfl
  | cons column columns ih =>
    rw [decodeColumnsAt, decodeColumns]
    by_cases key : column.encoding = .eq
    · rw [if_pos key, if_pos key, ih inside]
    · rw [if_neg key, if_neg key]
      rcases decodeFieldAt_alike column.type inside with
        ⟨status, behind, at_⟩ | ⟨value, next, within, behind, at_⟩
      · rw [behind, at_]
        rfl
      · rw [behind, at_]
        show (decodeColumnsAt record columns next >>= fun later => pure (value :: later) :
          Reading (List Value)) =
          some (decodeColumns columns (record.drop next) >>= fun later => pure (value :: later))
        rw [ih within]
        rcases decodeColumns columns (record.drop next) with status | later <;> rfl

/-- **Reading a record never leaves it.** -/
theorem decodeRecordAt_eq (record : Bytes) :
    decodeRecordAt schema record = some (decodeRecord schema record) :=
  decodeColumnsAt_eq record schema.columns (Nat.zero_le _)

variable {values : List Value} {rest : Bytes}

theorem decodeColumns_length {columns : List Column}
    (decoded : decodeColumns columns rest = .ok values) : values.length = payloadCount columns := by
  induction columns generalizing rest values with
  | nil =>
    cases decoded
    rfl
  | cons column columns ih =>
    rw [decodeColumns] at decoded
    rw [payloadCount_cons]
    by_cases key : column.encoding = .eq
    · rw [if_pos key] at decoded ⊢
      exact ih decoded
    · rw [if_neg key] at decoded ⊢
      obtain ⟨⟨value, rest'⟩, _, decoded₁⟩ := bind_eq_ok.1 decoded
      obtain ⟨later, others, decoded₂⟩ := bind_eq_ok.1 decoded₁
      cases pure_eq_ok.1 decoded₂
      rw [length_cons, ih others]

theorem decodeField_typed {type : ColumnType} {later : Bytes} {value : Value}
    (decoded : decodeField type rest = .ok (value, later)) : value.HasType type := by
  cases type <;> rw [decodeField] at decoded <;> split at decoded <;> try cases decoded
  · trivial
  · trivial
  all_goals
    simp only at decoded
    split at decoded <;> cases decoded
    trivial

/-- A decoded value has the type of its column. -/
theorem decodeColumns_typed {columns : List Column}
    (decoded : decodeColumns columns rest = .ok values) :
    Forall₂ (fun column (value : Value) => value.HasType column.type) (payloadColumns columns)
      values := by
  induction columns generalizing rest values with
  | nil =>
    cases decoded
    exact .nil
  | cons column columns ih =>
    rw [decodeColumns] at decoded
    by_cases key : column.encoding = .eq
    · have same : payloadColumns (column :: columns) = payloadColumns columns := by
        simp [payloadColumns, key]
      rw [if_pos key] at decoded
      exact same ▸ ih decoded
    · have first : payloadColumns (column :: columns) = column :: payloadColumns columns := by
        simp [payloadColumns, key]
      rw [if_neg key] at decoded
      obtain ⟨⟨value, rest'⟩, read, decoded⟩ := bind_eq_ok.1 decoded
      obtain ⟨later, others, decoded⟩ := bind_eq_ok.1 decoded
      cases pure_eq_ok.1 decoded
      exact first ▸ .cons (decodeField_typed read) (ih others)

/-- **The record codec.**  Exactly the storable payloads that fit are encoded; a record has
the record size and decodes to the payload's columns; any bytes decode, without a read past
their end, to one value for each payload column or to an error. -/
theorem record_round_trip (schema : Schema) (payload : List Value) (recordBytes : Nat) :
    ((∃ record, encodeRecord schema payload recordBytes = .ok record) ↔
      Storable schema.columns payload ∧ encodedSize schema.columns payload ≤ recordBytes) ∧
    (∀ record, encodeRecord schema payload recordBytes = .ok record →
      record.length = recordBytes ∧
        decodeRecord schema record = .ok (payload.take (payloadCount schema.columns))) ∧
    ∀ record, decodeRecordAt schema record = some (decodeRecord schema record) ∧
      ∀ values, decodeRecord schema record = .ok values →
        values.length = payloadCount schema.columns :=
  ⟨encodeRecord_ok_iff schema payload recordBytes,
    fun _ encoded => ⟨encodeRecord_length encoded, decodeRecord_encodeRecord encoded⟩,
    fun record => ⟨decodeRecordAt_eq schema record, fun _ => decodeColumns_length⟩⟩

end OpaqueDb.Core
