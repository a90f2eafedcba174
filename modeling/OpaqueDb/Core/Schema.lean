/-
# Core.Schema -- tables, columns and typed values

A table is a name and an ordered list of columns; each column has an encoding (how
it may be matched) and a type.  `Schema.validate` is the structural check every
ingest path runs.  The searchable columns are the primary key and the secondary
indexes, and a column's rank among them (`searchableRank`) is the index of its
sub-key inside a packed match record.
-/
import OpaqueDb.Core.Text

namespace OpaqueDb.Core

open List

set_option autoImplicit false

inductive ColumnEncoding where
  | eq
  | index
  | prefix_
  | range
  | raw
  deriving DecidableEq, Repr

inductive ColumnType where
  | int
  | real
  | text
  | json
  deriving DecidableEq, Repr

variable (encoding : ColumnEncoding)

/-- The primary key and the secondary indexes are equality matchable. -/
def isSearchable : Bool :=
  encoding == .eq || encoding == .index

def ColumnEncoding.toBytes : ColumnEncoding → Bytes
  | .eq => bytes "eq"
  | .index => bytes "index"
  | .prefix_ => bytes "prefix"
  | .range => bytes "range"
  | .raw => bytes "raw"

variable (text : Bytes)

def parseColumnEncoding : StatusOr ColumnEncoding :=
  match [.eq, .index, .prefix_, .range, .raw].find? fun e => text = ColumnEncoding.toBytes e with
  | some encoding => .ok encoding
  | none => .error (invalidArgument ["unknown column encoding '", text, "'"])

def ColumnType.toBytes : ColumnType → Bytes
  | .int => bytes "int"
  | .real => bytes "real"
  | .text => bytes "text"
  | .json => bytes "json"

def parseColumnType : StatusOr ColumnType :=
  match [.int, .real, .text, .json].find? fun t => text = ColumnType.toBytes t with
  | some type => .ok type
  | none => .error (invalidArgument ["unknown column type '", text, "'"])

theorem parseColumnEncoding_toBytes : parseColumnEncoding encoding.toBytes = .ok encoding := by
  cases encoding <;> rfl

theorem parseColumnType_toBytes (type : ColumnType) :
    parseColumnType type.toBytes = .ok type := by
  cases type <;> rfl

structure Column where
  name : Bytes
  encoding : ColumnEncoding := .raw
  type : ColumnType := .text
  deriving DecidableEq, Repr

structure Schema where
  table : Bytes
  columns : List Column
  deriving DecidableEq, Repr

namespace Schema

variable (schema : Schema)

def indexOf (name : Bytes) : Option Nat :=
  schema.columns.findIdx? fun column => column.name == name

def searchableCount : Nat :=
  schema.columns.countP fun column => isSearchable column.encoding

def searchableRank (columnIndex : Nat) : Option Nat :=
  match schema.columns[columnIndex]? with
  | none => none
  | some column =>
    if isSearchable column.encoding then
      some ((schema.columns.take columnIndex).countP fun c => isSearchable c.encoding)
    else none

/-- A rank is below the number of searchable columns. -/
theorem searchableRank_lt {schema : Schema} {index rank : Nat}
    (ranked : schema.searchableRank index = some rank) : rank < schema.searchableCount := by
  unfold searchableRank at ranked
  split at ranked
  · cases ranked
  · rename_i column known
    split at ranked
    · rename_i searchable
      cases ranked
      obtain ⟨inside, rfl⟩ := List.getElem?_eq_some_iff.1 known
      have split : schema.columns =
          schema.columns.take index ++ schema.columns[index] :: schema.columns.drop (index + 1) := by
        rw [getElem_cons_drop, take_append_drop]
      rw [searchableCount]
      conv_rhs => rw [split]
      rw [countP_append, countP_cons, if_pos searchable]
      omega
    · cases ranked

/-- The check of one column, given the names seen before it. -/
def validateColumn (seen : List Bytes) (column : Column) : StatusOr Unit := do
  if column.name.isEmpty then
    throw (invalidArgument ["schema: a column name is empty"])
  if seen.contains column.name then
    throw (invalidArgument ["schema: duplicate column name '", column.name, "'"])
  if isSearchable column.encoding && (column.type == .real || column.type == .json) then
    throw (invalidArgument ["schema: match column '", column.name,
      "' must be an INT or TEXT column, not ", column.type.toBytes])

def validateColumns : List Bytes → List Column → StatusOr Unit
  | _, [] => pure ()
  | seen, column :: rest => do
    validateColumn seen column
    validateColumns (column.name :: seen) rest

def validate : StatusOr Unit := do
  if schema.table.isEmpty then
    throw (invalidArgument ["schema: table name is empty"])
  if schema.columns.isEmpty then
    throw (invalidArgument ["schema: table has no columns"])
  validateColumns [] schema.columns
  let matchKeys := schema.columns.countP fun column => column.encoding == .eq
  if matchKeys ≠ 1 then
    throw (invalidArgument ["schema: a table needs exactly one match key column, found ",
      dec matchKeys])

end Schema

/-- A checked schema has exactly one EQ column. -/
theorem validate_single {schema : Schema} (valid : schema.validate = .ok ()) :
    (schema.columns.countP fun column => column.encoding == .eq) = 1 := by
  unfold Schema.validate at valid
  simp only at valid
  split at valid
  · cases valid
  split at valid
  · cases valid
  obtain ⟨_, _, valid₁⟩ := bind_eq_ok.1 valid
  split at valid₁
  · cases valid₁
  · rename_i one
    exact not_not.1 one

theorem validateColumns_nodup {seen : List Bytes} {columns : List Column}
    (valid : Schema.validateColumns seen columns = .ok ()) :
    (columns.map Column.name).Nodup ∧ ∀ name ∈ seen, name ∉ columns.map Column.name := by
  induction columns generalizing seen with
  | nil => exact ⟨nodup_nil, fun _ _ => not_mem_nil⟩
  | cons column columns ih =>
    obtain ⟨_, first, rest⟩ := bind_eq_ok.1 valid
    obtain ⟨nodup, apart⟩ := ih rest
    have fresh : column.name ∉ seen := by
      intro known
      unfold Schema.validateColumn at first
      simp only [contains_eq_mem, known] at first
      split at first <;> cases first
    refine ⟨nodup_cons.2 ⟨apart column.name mem_cons_self, nodup⟩, fun name known => ?_⟩
    rw [map_cons, mem_cons, not_or]
    exact ⟨fun same => fresh (same ▸ known), apart name (mem_cons_of_mem _ known)⟩

/-- The columns of a checked schema have different names. -/
theorem validate_nodup {schema : Schema} (valid : schema.validate = .ok ()) :
    (schema.columns.map Column.name).Nodup := by
  unfold Schema.validate at valid
  simp only at valid
  split at valid
  · cases valid
  split at valid
  · cases valid
  obtain ⟨_, checked, _⟩ := bind_eq_ok.1 valid
  exact (validateColumns_nodup checked).1

/-- One column value.  A REAL is carried as its 64-bit pattern: the modelled code
only copies it. -/
inductive Value where
  | int (i : Int64)
  | real (bits : UInt64)
  | text (s : Bytes)
  deriving DecidableEq, Repr

def columnTypeOf : Value → ColumnType
  | .int _ => .int
  | .real _ => .real
  | .text _ => .text

end OpaqueDb.Core
