/-
# Core.RecordCodec -- typed rows as payload records and match records

`parseValue` types a cell by its column.  `encodeRecord` writes every column but the
primary key into a fixed-size record, `decodeRecord` reads it back, and
`encodeMatchRecord` packs one sub-key for each searchable column.

* `decodeRecord_encodeRecord`: a record decodes to the payload it was written from.
* `encodeSubKeys_getElem`: the sub-key of a searchable column stands at its rank and is
  the encoding of that column's value.

Floating point and JSON are read by libraries; `Library` is what the code calls there.
-/
import OpaqueDb.Core.KeyCodec
import OpaqueDb.Core.SlotCodec

namespace OpaqueDb.Core

open Theory List

set_option autoImplicit false

/-- The library calls on values the model does not look into. -/
structure Library where
  simpleAtod : Bytes → Option UInt64
  strCatReal : UInt64 → Bytes
  acceptJson : Bytes → Bool

/-- A library that reads no floating point and accepts no JSON. -/
def strictLibrary : Library :=
  ⟨fun _ => none, fun _ => [], fun _ => false⟩

def valueToString (lib : Library) : Value → Bytes
  | .int i => decInt i.toInt
  | .real bits => lib.strCatReal bits
  | .text s => s

def parseValue (lib : Library) (type : ColumnType) (text : Bytes) : StatusOr Value :=
  match type with
  | .int =>
    match simpleAtoi64 text with
    | none => .error (invalidArgument ["'", text, "' is not an integer"])
    | some v => .ok (.int (Int64.ofInt v))
  | .real =>
    match lib.simpleAtod text with
    | none => .error (invalidArgument ["'", text, "' is not a number"])
    | some v => .ok (.real v)
  | .text => .ok (.text text)
  | .json =>
    if lib.acceptJson text then .ok (.text text)
    else .error (invalidArgument ["'", text, "' is not valid JSON"])

/-! ## Payload records -/

/-- One column's bytes: a number as eight bytes, a text behind its 16-bit length. -/
def encodeField (column : Column) (value : Value) : StatusOr Bytes :=
  match column.type with
  | .int =>
    match value with
    | .int i => .ok (leBytes 8 i.toUInt64.toNat)
    | _ => .error (invalidArgument ["column '", column.name, "' expects an integer"])
  | .real =>
    match value with
    | .real bits => .ok (leBytes 8 bits.toNat)
    | _ => .error (invalidArgument ["column '", column.name, "' expects a number"])
  | .json | .text =>
    match value with
    | .text s =>
      if s.length > 0xffff then
        .error (invalidArgument ["text column '", column.name,
          "' exceeds 65535 bytes"])
      else .ok (leBytes 2 s.length ++ s)
    | _ => .error (invalidArgument ["column '", column.name, "' expects text"])

/-- The payload columns in order; the primary key is skipped. -/
def encodeColumns : List Column → List Value → StatusOr Bytes
  | [], _ => .ok []
  | column :: columns, payload =>
    if column.encoding = .eq then encodeColumns columns payload
    else
      match payload with
      | [] => .error (invalidArgument ["record has no value for payload column '",
          column.name, "'"])
      | value :: rest => do
        let field ← encodeField column value
        let later ← encodeColumns columns rest
        return field ++ later

def encodeRecord (schema : Schema) (payload : List Value) (recordBytes : Nat) : StatusOr Bytes := do
  let out ← encodeColumns schema.columns payload
  if out.length > recordBytes then
    .error (invalidArgument ["encoded record is ", dec out.length, " bytes, over the ",
      dec recordBytes, "-byte record size"])
  else .ok (padTo recordBytes out)

/-- One column's value and the bytes behind it. -/
def decodeField (type : ColumnType) (rest : Bytes) : StatusOr (Value × Bytes) :=
  match type with
  | .int =>
    if 8 > rest.length then .error ⟨.dataLoss, bytes "record truncated reading an int column"⟩
    else .ok (.int (UInt64.ofNat (orBytes (rest.take 8))).toInt64, rest.drop 8)
  | .real =>
    if 8 > rest.length then .error ⟨.dataLoss, bytes "record truncated reading a real column"⟩
    else .ok (.real (UInt64.ofNat (orBytes (rest.take 8))), rest.drop 8)
  | .json | .text =>
    if 2 > rest.length then .error ⟨.dataLoss, bytes "record truncated reading a text length"⟩
    else
      let len := orBytes (rest.take 2)
      if len > (rest.drop 2).length then
        .error ⟨.dataLoss, bytes "record truncated reading text bytes"⟩
      else .ok (.text ((rest.drop 2).take len), (rest.drop 2).drop len)

def decodeColumns : List Column → Bytes → StatusOr (List Value)
  | [], _ => .ok []
  | column :: columns, rest =>
    if column.encoding = .eq then decodeColumns columns rest
    else do
      let (value, rest) ← decodeField column.type rest
      let later ← decodeColumns columns rest
      return value :: later

def decodeRecord (schema : Schema) (record : Bytes) : StatusOr (List Value) :=
  decodeColumns schema.columns record

/-! ## Match records -/

/-- The sub-keys of a row, one for each searchable column. -/
def encodeSubKeys (key : Value) (keyBits : Nat) : List Column → List Value → StatusOr (List UInt64)
  | [], _ => .ok []
  | column :: columns, payload =>
    if column.encoding = .eq then do
      let encoding ← encodeKeyValue column.type key keyBits
      let later ← encodeSubKeys key keyBits columns payload
      return encoding.value :: later
    else
      match payload with
      | [] => .error (invalidArgument ["record has no value for column '", column.name,
          "'"])
      | value :: rest =>
        if isSearchable column.encoding then do
          let encoding ← encodeKeyValue column.type value keyBits
          let later ← encodeSubKeys key keyBits columns rest
          return encoding.value :: later
        else encodeSubKeys key keyBits columns rest

def packKeys (keyBits : Nat) (keys : List UInt64) : Bytes :=
  (keys.map (packKey · keyBits)).flatten

def encodeMatchRecord (schema : Schema) (key : Value) (payload : List Value) (keyBits : Nat) :
    StatusOr Bytes :=
  packKeys keyBits <$> encodeSubKeys key keyBits schema.columns payload

/-! ## Reading a record back -/

theorem orBytes_leBytes {n v : Nat} (small : v < 256 ^ n) : orBytes (leBytes n v) = v := by
  rw [orBytes_eq, leValue_leBytes, Nat.mod_eq_of_lt small]

theorem ofNat_leBytes (v : UInt64) (rest : Bytes) :
    UInt64.ofNat (orBytes ((leBytes 8 v.toNat ++ rest).take 8)) = v := by
  have taken : (leBytes 8 v.toNat ++ rest).take 8 = leBytes 8 v.toNat :=
    take_left' (leBytes_length 8 _)
  rw [taken, orBytes_leBytes (by have := v.toNat_lt; omega), UInt64.ofNat_toNat]

/-- A text field reads back. -/
theorem decodeText_encode {s : Bytes} (short : ¬ s.length > 0xffff) (rest : Bytes) :
    decodeField .text (leBytes 2 s.length ++ s ++ rest) = .ok (.text s, rest) := by
  have taken : (leBytes 2 s.length ++ (s ++ rest)).take 2 = leBytes 2 s.length :=
    take_left' (leBytes_length 2 _)
  have dropped : (leBytes 2 s.length ++ (s ++ rest)).drop 2 = s ++ rest :=
    drop_left' (leBytes_length 2 _)
  have length : orBytes (leBytes 2 s.length) = s.length := orBytes_leBytes (by omega)
  rw [append_assoc, decodeField, if_neg (by rw [length_append, leBytes_length]; omega)]
  simp only [taken, dropped, length]
  rw [if_neg (by simp), take_left, drop_left]

variable {column : Column}

/-- What `encodeField` wrote, `decodeField` reads, and leaves what follows. -/
theorem decodeField_encodeField {value : Value} {field : Bytes}
    (encoded : encodeField column value = .ok field) (rest : Bytes) :
    decodeField column.type (field ++ rest) = .ok (value, rest) := by
  unfold encodeField at encoded
  split at encoded
  · rename_i type
    cases value with
    | int i =>
      cases encoded
      rw [type, decodeField, ofNat_leBytes]
      rfl
    | real _ => cases encoded
    | text _ => cases encoded
  · rename_i type
    cases value with
    | int _ => cases encoded
    | real bits =>
      cases encoded
      have whole : ¬ 8 > (leBytes 8 bits.toNat ++ rest).length := by simp [leBytes_length]
      rw [type, decodeField, if_neg whole, ofNat_leBytes, drop_left' (leBytes_length 8 _)]
    | text _ => cases encoded
  · rename_i type
    cases value with
    | int _ => cases encoded
    | real _ => cases encoded
    | text s =>
      simp only at encoded
      split at encoded
      · cases encoded
      · rename_i short
        cases encoded
        rw [type]
        exact decodeText_encode short rest
  · rename_i type
    cases value with
    | int _ => cases encoded
    | real _ => cases encoded
    | text s =>
      simp only at encoded
      split at encoded
      · cases encoded
      · rename_i short
        cases encoded
        rw [type]
        exact decodeText_encode short rest

/-- How many columns of the list a payload record stores. -/
def payloadCount (columns : List Column) : Nat :=
  columns.countP fun column => column.encoding != .eq

theorem payloadCount_cons (column : Column) (columns : List Column) :
    payloadCount (column :: columns) =
      payloadCount columns + if column.encoding = .eq then 0 else 1 := by
  by_cases key : column.encoding = .eq <;> simp [payloadCount, key]

variable {columns : List Column}

variable {index : Nat}

/-- The place of a payload column is below the number of payload columns. -/
theorem payloadCount_take_lt (known : columns[index]? = some column)
    (payload : column.encoding ≠ .eq) :
    payloadCount (columns.take index) < payloadCount columns := by
  obtain ⟨inside, rfl⟩ := List.getElem?_eq_some_iff.1 known
  have split : columns = columns.take index ++ columns[index] :: columns.drop (index + 1) := by
    rw [getElem_cons_drop, take_append_drop]
  rw [payloadCount, payloadCount]
  conv_rhs => rw [split]
  rw [countP_append, countP_cons, if_pos (by simpa using payload)]
  omega

variable {payload : List Value}

theorem decodeColumns_encodeColumns {out : Bytes}
    (encoded : encodeColumns columns payload = .ok out) (rest : Bytes) :
    decodeColumns columns (out ++ rest) = .ok (payload.take (payloadCount columns)) := by
  induction columns generalizing payload out with
  | nil => rfl
  | cons column columns ih =>
    unfold encodeColumns at encoded
    rw [decodeColumns, payloadCount_cons]
    by_cases key : column.encoding = .eq
    · rw [if_pos key] at encoded
      rw [if_pos key, if_pos key, ih encoded]
      rfl
    · rw [if_neg key] at encoded
      cases payload with
      | nil => cases encoded
      | cons value values =>
        obtain ⟨field, first, encoded₁⟩ := bind_eq_ok.1 encoded
        obtain ⟨later, others, encoded₂⟩ := bind_eq_ok.1 encoded₁
        cases pure_eq_ok.1 encoded₂
        rw [if_neg key, if_neg key, append_assoc, decodeField_encodeField first]
        show (decodeColumns columns (later ++ rest) >>= fun values => pure (value :: values)) = _
        rw [ih others]
        rfl

variable {recordBytes : Nat} {schema : Schema} {record : Bytes}

section

variable (encoded : encodeRecord schema payload recordBytes = .ok record)
include encoded

theorem encodeRecord_length : record.length = recordBytes := by
  obtain ⟨out, _, encoded₁⟩ := bind_eq_ok.1 encoded
  split at encoded₁
  · cases encoded₁
  · cases encoded₁
    rw [padTo, length_append, length_replicate]
    omega

/-- **A stored record decodes to the payload it was written from.** -/
theorem decodeRecord_encodeRecord :
    decodeRecord schema record = .ok (payload.take (payloadCount schema.columns)) := by
  obtain ⟨out, written, encoded₁⟩ := bind_eq_ok.1 encoded
  split at encoded₁
  · cases encoded₁
  · cases encoded₁
    exact decodeColumns_encodeColumns written _

end

/-! ## The sub-keys of a row -/

def searchableIn (columns : List Column) : Nat :=
  columns.countP fun column => isSearchable column.encoding

theorem searchableIn_cons (column : Column) (columns : List Column) :
    searchableIn (column :: columns) =
      searchableIn columns + if isSearchable column.encoding then 1 else 0 :=
  countP_cons

/-- The value a row has in a column: the key in the primary key column, the payload value
at the column's place elsewhere. -/
def cellValue (columns : List Column) (key : Value) (payload : List Value) (index : Nat) :
    Option Value :=
  match columns[index]? with
  | none => none
  | some column =>
    if column.encoding = .eq then some key
    else payload[payloadCount (columns.take index)]?

section SubKeys

variable {key : Value} {keyBits : Nat}

/-- Where a column stands does not depend on the columns before it once their payload
values are consumed. -/
theorem cellValue_succ (column : Column) (columns : List Column) (payload : List Value)
    (index : Nat) :
    cellValue (column :: columns) key payload (index + 1) =
      cellValue columns key (if column.encoding = .eq then payload else payload.tail) index := by
  by_cases primary : column.encoding = .eq
  · simp [cellValue, payloadCount, primary]
  · simp [cellValue, payloadCount, primary]

variable {keys : List UInt64}

/-- The step of `encodeSubKeys` over one column. -/
theorem encodeSubKeys_cons
    (encoded : encodeSubKeys key keyBits (column :: columns) payload = .ok keys) :
    ∃ value later, cellValue (column :: columns) key payload 0 = some value ∧
      encodeSubKeys key keyBits columns
        (if column.encoding = .eq then payload else payload.tail) = .ok later ∧
      ((isSearchable column.encoding = false ∧ keys = later) ∨
        isSearchable column.encoding = true ∧ ∃ k,
          encodeKeyValue column.type value keyBits = .ok k ∧ keys = k.value :: later) := by
  unfold encodeSubKeys at encoded
  by_cases primary : column.encoding = .eq
  · rw [if_pos primary] at encoded
    obtain ⟨k, first, encoded₁⟩ := bind_eq_ok.1 encoded
    obtain ⟨later, others, encoded₂⟩ := bind_eq_ok.1 encoded₁
    cases pure_eq_ok.1 encoded₂
    refine ⟨key, later, by simp [cellValue, primary], by rw [if_pos primary]; exact others,
      .inr ⟨by rw [primary]; rfl, k, first, rfl⟩⟩
  · rw [if_neg primary] at encoded
    cases payload with
    | nil => cases encoded
    | cons value values =>
      have here : cellValue (column :: columns) key (value :: values) 0 = some value := by
        simp [cellValue, primary, payloadCount]
      simp only at encoded
      rw [if_neg primary]
      split at encoded
      · rename_i searchable
        obtain ⟨k, first, encoded₁⟩ := bind_eq_ok.1 encoded
        obtain ⟨later, others, encoded₂⟩ := bind_eq_ok.1 encoded₁
        cases pure_eq_ok.1 encoded₂
        exact ⟨value, later, here, others, .inr ⟨searchable, k, first, rfl⟩⟩
      · rename_i hidden
        exact ⟨value, keys, here, encoded, .inl ⟨by simpa using hidden, rfl⟩⟩

variable (encoded : encodeSubKeys key keyBits columns payload = .ok keys)
include encoded

theorem encodeSubKeys_length : keys.length = searchableIn columns := by
  induction columns generalizing payload keys with
  | nil =>
    cases encoded
    rfl
  | cons column columns ih =>
    obtain ⟨value, later, _, others, ⟨hidden, rfl⟩ | ⟨searchable, k, _, rfl⟩⟩ :=
      encodeSubKeys_cons encoded
    · rw [ih others, searchableIn_cons, hidden]
      rfl
    · rw [length_cons, ih others, searchableIn_cons, if_pos searchable]

/-- **A searchable column's sub-key** stands at the column's rank and encodes its value. -/
theorem encodeSubKeys_getElem (known : columns[index]? = some column)
    (searchable : isSearchable column.encoding = true) :
    ∃ value k, cellValue columns key payload index = some value ∧
      encodeKeyValue column.type value keyBits = .ok k ∧
      keys[searchableIn (columns.take index)]? = some k.value := by
  induction columns generalizing payload keys index with
  | nil => cases known
  | cons head columns ih =>
    obtain ⟨value, later, here, others, split⟩ := encodeSubKeys_cons encoded
    cases index with
    | zero =>
      cases known
      rcases split with ⟨hidden, _⟩ | ⟨_, k, first, rfl⟩
      · rw [searchable] at hidden
        cases hidden
      · exact ⟨value, k, here, first, rfl⟩
    | succ index =>
      obtain ⟨value', k, cell, encoding, stored⟩ := ih others known
      refine ⟨value', k, by rw [cellValue_succ]; exact cell, encoding, ?_⟩
      rw [take_succ_cons, searchableIn_cons]
      rcases split with ⟨hidden, rfl⟩ | ⟨searchable', k', _, rfl⟩
      · rw [hidden]
        exact stored
      · rw [if_pos searchable']
        exact stored

end SubKeys

theorem packKeys_length (keyBits : Nat) (keys : List UInt64) :
    (packKeys keyBits keys).length = keys.length * keyRecordBytes keyBits := by
  simp [packKeys, Function.comp_def, packKey_length]

end OpaqueDb.Core
