/-
# Storage.RowBytes -- the bytes of a row, both ways

A row in the log is its match part and its payload as counted strings and nothing else, so the
parser and the serializer undo each other (`row_framing_canonical`).  `parseRowAt` is the parser as
the source runs it, at offsets and with subtractions of sizes; it reads no byte that is not there
(`parseRowAt_eq`).
-/
import OpaqueDb.Core.Buffers
import OpaqueDb.Storage.Replay

namespace OpaqueDb.Storage.Wal

open OpaqueDb.Core Theory OpaqueDb.Core.Reading

set_option autoImplicit false

/-- The parser at offsets; `none` is a read past the end. -/
def parseRowAt (data : Bytes) : Core.Reading Row := do
  match ← lift (readU32At data 0) with
  | none => fail (invalidArgument ["row: truncated match length"])
  | some matchLen =>
    let offset := 4
    if matchLen > sizeSub data.length offset then
      fail (invalidArgument ["row: match length exceeds entry"])
    else do
      let match_ ← lift (readBytes data offset matchLen)
      let offset := offset + matchLen
      match ← lift (readU32At data offset) with
      | none => fail (invalidArgument ["row: truncated payload length"])
      | some payloadLen =>
        let offset := offset + 4
        if payloadLen > sizeSub data.length offset then
          fail (invalidArgument ["row: payload length exceeds entry"])
        else do
          let payload ← lift (readBytes data offset payloadLen)
          let offset := offset + payloadLen
          if offset ≠ data.length then
            fail (invalidArgument ["row: trailing bytes after payload"])
          else return ⟨match_, payload⟩

/-! ## In bounds -/

theorem readU32_of_lt {data : Bytes} {offset : Nat} (outside : data.length < offset + 4) :
    readU32 data offset = none :=
  if_pos (by omega)

/-- **Parsing a row never leaves it.** -/
theorem parseRowAt_eq (data : Bytes) : parseRowAt data = some (parseRow data) := by
  unfold parseRowAt parseRow
  by_cases front : 0 + 4 ≤ data.length
  swap
  · rw [readU32At_of_lt (by omega), readU32_of_lt (by omega)]
    rfl
  rw [readU32At_of_le front, readU32_of_le front, lift_some_bind]
  dsimp only
  have matchLen : u32Value data 0 = readLe data 0 4 := rfl
  rw [sizeSub_of_le (by omega), matchLen]
  by_cases long : readLe data 0 4 > data.length - 4
  · rw [if_pos long, if_pos long]
    rfl
  rw [if_neg long, if_neg long, readBytes_eq (by omega), lift_some_bind]
  by_cases behind : 4 + readLe data 0 4 + 4 ≤ data.length
  swap
  · rw [readU32At_of_lt (by omega), readU32_of_lt (by omega)]
    rfl
  rw [readU32At_of_le behind, readU32_of_le behind, lift_some_bind]
  dsimp only
  have payloadLen : u32Value data (4 + readLe data 0 4) = readLe data (4 + readLe data 0 4) 4 := rfl
  rw [sizeSub_of_le behind, payloadLen]
  by_cases past : readLe data (4 + readLe data 0 4) 4 > data.length - (4 + readLe data 0 4 + 4)
  · rw [if_pos past, if_pos past]
    rfl
  rw [if_neg past, readBytes_eq (by omega)]
  split <;> rfl

/-! ## Canonical bytes -/

theorem serializeRow_eq (row : Row) :
    serializeRow row = counted row.match_ ++ counted row.payload := by
  rw [serializeRow, counted, counted, List.append_assoc]

/-- What is accepted is the row's own bytes. -/
theorem serializeRow_parseRow {data : Bytes} {row : Row} (parsed : parseRow data = .ok row) :
    serializeRow row = data := by
  unfold parseRow at parsed
  by_cases front : 0 + 4 ≤ data.length
  swap
  · rw [readU32_of_lt (by omega)] at parsed
    cases parsed
  rw [readU32_of_le front] at parsed
  dsimp only at parsed
  split at parsed
  · cases parsed
  by_cases behind : 4 + readLe data 0 4 + 4 ≤ data.length
  swap
  · rw [readU32_of_lt (by omega)] at parsed
    cases parsed
  rw [readU32_of_le behind] at parsed
  dsimp only at parsed
  split_ifs at parsed with past whole
  cases parsed
  have first : data.drop 0 = _ := counted_of_read (show 0 + 4 + readLe data 0 4 ≤ data.length by omega)
  have second := counted_of_read (show 4 + readLe data 0 4 + 4 + readLe data (4 + readLe data 0 4) 4 ≤
    data.length by omega)
  have nothing : data.drop (4 + readLe data 0 4 + 4 + readLe data (4 + readLe data 0 4) 4) = [] :=
    List.drop_of_length_le (by omega)
  calc serializeRow _ = counted _ ++ counted _ := serializeRow_eq _
    _ = counted ((data.drop 4).take (readLe data 0 4)) ++ data.drop (4 + readLe data 0 4) := by
        rw [second, u32Value, ← readLe, nothing, List.append_nil]
    _ = data.drop 0 := first.symm

/-- **Row framing is canonical.** -/
theorem row_framing_canonical :
    (∀ row : Row, row.match_.length < 2 ^ 32 → row.payload.length < 2 ^ 32 →
      parseRow (serializeRow row) = .ok row) ∧
    (∀ data row, parseRow data = .ok row → serializeRow row = data) ∧
    ∀ data, parseRowAt data = some (parseRow data) :=
  ⟨fun _ match_ payload => parseRow_serializeRow match_ payload,
    fun _ _ parsed => serializeRow_parseRow parsed, parseRowAt_eq⟩

end OpaqueDb.Storage.Wal
