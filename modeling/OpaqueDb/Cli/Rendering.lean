/-
# Cli.Rendering -- the rows a SELECT shows

`runSelect` asks a node for a table's schema and for rows, decodes the rows and shows the
window of them that the statement's OFFSET and LIMIT name.  Projection, DISTINCT, ORDER BY
and the window are the client's own; of a table without a WHERE it fetches only as many rows
as the window reaches, and that number is a machine word.

* `scan_window_iff`: the shown rows are the table's rows from OFFSET on, at most LIMIT of
  them, exactly if OFFSET and LIMIT add up to a word or the table ends before OFFSET.
* `scan_window_wraps`: a table with two rows shows none from OFFSET 1 on.
-/
import OpaqueDb.Client.QueryClient
import OpaqueDb.Core.Records
import OpaqueDb.Server.Services

namespace OpaqueDb.Cli

open OpaqueDb.Core Sql Storage Server List
open Client (kDefaultSelectLimit)

set_option autoImplicit false

/-! ## Text -/

/-- The record without the zero bytes that fill it up. -/
def renderRaw (record : Bytes) : Bytes :=
  record.rdropWhile (· == 0)

/-- The column widths, grown to the row's cells. -/
def widen : List Nat → List Bytes → List Nat
  | width :: widths, cell :: cells => max width cell.length :: widen widths cells
  | widths, _ => widths

def renderRow (widths : List Nat) (cells : List Bytes) : Bytes :=
  (bytes "|").intercalate (zipWith (fun width cell =>
    strCat [" ", cell, replicate (width - cell.length) 32, " "]) widths cells)

def renderTable (headers : List Bytes) (rows : List (List Bytes)) : Bytes :=
  let widths := rows.foldl widen (headers.map length)
  strCat ([renderRow widths headers, bytes "\n",
    (bytes "+").intercalate (widths.map fun width => replicate (width + 2) 45), bytes "\n"] ++
    rows.map fun row => renderRow widths row ++ bytes "\n")

/-! ## The result table -/

/-- The comparisons of floating point numbers, which the model does not look into. -/
structure Doubles where
  less : UInt64 → UInt64 → Bool
  ofInt : Int64 → UInt64

def valueLess (lib : Library) (doubles : Doubles) : Value → Value → Bool
  | .int a, .int b => a < b
  | .int a, .real b => doubles.less (doubles.ofInt a) b
  | .real a, .int b => doubles.less a (doubles.ofInt b)
  | .real a, .real b => doubles.less a b
  | .text a, .text b => a < b
  | a, b => valueToString lib a < valueToString lib b

structure TableData where
  headers : List Bytes
  rows : List (List Bytes)
  deriving DecidableEq, Repr

/-- The columns a decoded record yields. -/
def payloadNames (schema : Schema) : List Bytes :=
  (payloadColumns schema.columns).map Column.name

variable (names : List Bytes)

def payloadIndex (name : Bytes) : Option Nat :=
  names.findIdx? (· == name)

/-- The index and the header of one projected column. -/
def displayColumn (aliases : List Bytes) (column : Bytes × Nat) : StatusOr (Nat × Bytes) :=
  match payloadIndex names column.1 with
  | none => .error (invalidArgument ["column '", column.1,
      bytes ("' is not a returnable column (the primary key is matched, not " ++
        "returned, and unknown columns cannot be shown)")])
  | some index =>
    let shown := aliases.getD column.2 []
    .ok (index, if shown.isEmpty then column.1 else shown)

/-- The columns to display; all of them if none is projected. -/
def displayColumns (stmt : SelectStatement) : StatusOr (List (Nat × Bytes)) :=
  if stmt.projection.isEmpty then .ok (names.zipIdx.map Prod.swap)
  else stmt.projection.zipIdx.mapM (displayColumn names stmt.projectionAliases)

/-- The index of each ORDER BY column, and whether it descends. -/
def orderColumns (stmt : SelectStatement) : StatusOr (List (Nat × Bool)) :=
  stmt.orderBy.mapM fun item =>
    match payloadIndex names item.column with
    | none => .error (invalidArgument ["cannot ORDER BY '", item.column,
        "': it is not among the returned columns"])
    | some index => .ok (index, item.descending)

structure ResultRow where
  cells : List Bytes
  orderKeys : List Value

/-- The displayed cells of a record's values. -/
def cellsOf (lib : Library) (display : List (Nat × Bytes)) (values : List Value) : List Bytes :=
  display.filterMap fun column => values[column.1]?.map (valueToString lib)

def resultRow (lib : Library) (schema : Schema) (display : List (Nat × Bytes))
    (order : List (Nat × Bool)) (record : Bytes) : StatusOr ResultRow := do
  let values ← decodeRecord schema record
  if values.length ≠ (payloadNames schema).length then
    .error (internalError [bytes "decoded value count does not match schema"])
  else
    return ⟨cellsOf lib display values, order.filterMap fun column => values[column.1]?⟩

/-- The first row of each kind of cells. -/
def distinctRows (rows : List ResultRow) : List ResultRow :=
  rows.foldl (fun unique row =>
    if unique.any (·.cells == row.cells) then unique else unique ++ [row]) []

def orderLess (less : Value → Value → Bool) : List Bool → List Value → List Value → Bool
  | descending :: rest, a :: as, b :: bs =>
    if less a b then !descending
    else if less b a then descending
    else orderLess less rest as bs
  | _, _, _ => false

/-- `std::stable_sort`: a row goes before the first one it is not greater than. -/
def sortRows (less : Value → Value → Bool) (order : List (Nat × Bool)) (rows : List ResultRow) :
    List ResultRow :=
  if order.isEmpty then rows
  else rows.insertionSort fun a b =>
    orderLess less (order.map Prod.snd) b.orderKeys a.orderKeys = false

/-- The rows from OFFSET on, at most LIMIT of them. -/
def window {α : Type} (stmt : SelectStatement) (rows : List α) : List α :=
  (rows.drop (stmt.offset.getD 0)).take (stmt.limit.getD kDefaultSelectLimit)

def buildResultTable (lib : Library) (doubles : Doubles) (schema : Schema) (records : List Bytes)
    (stmt : SelectStatement) : StatusOr TableData := do
  let display ← displayColumns (payloadNames schema) stmt
  let order ← orderColumns (payloadNames schema) stmt
  let table ← records.mapM (resultRow lib schema display order)
  let table := if stmt.distinct then distinctRows table else table
  let table := sortRows (valueLess lib doubles) order table
  return ⟨display.map Prod.snd, (window stmt table).map ResultRow.cells⟩

/-! ## The statement's run -/

/-- `kScanReorderFetch`: DISTINCT and ORDER BY have to see every row. -/
def kScanReorderFetch : Nat := 100000

def scanFetchCount (stmt : SelectStatement) : Nat :=
  if stmt.distinct || !stmt.orderBy.isEmpty then kScanReorderFetch
  else (stmt.offset.getD 0 + stmt.limit.getD kDefaultSelectLimit) % 2 ^ 64

/-- The calls of a connected client. -/
structure Remote where
  scan : Bytes → Bytes → Nat → StatusOr ScanResult
  describeTable : Bytes → Bytes → StatusOr Schema
  queryClean : Bytes → Bytes → Nat → Bytes → Bytes → StatusOr (List Bytes × Nat)
  queryCount : Bytes → Bytes → Nat → Bytes → Bytes → StatusOr Nat

abbrev SchemaCache : Type := Finmap fun _ : Bytes => Schema

/-- A schema that cannot be fetched is done without. -/
def fetchSchema (client : Remote) (database table : Bytes) :
    Option SchemaCache → Option Schema × Option SchemaCache
  | none => ((client.describeTable database table).toOption, none)
  | some cache =>
    let key := strCat [database, ".", table]
    match cache.lookup key with
    | some schema => (some schema, some cache)
    | none =>
      match client.describeTable database table with
      | .ok schema => (some schema, some (cache.insert key schema))
      | .error _ => (none, some cache)

/-- What a statement puts out. -/
inductive Shown where
  | number (n : Nat)
  | raw (lines : List Bytes)
  | table (data : TableData)
  deriving DecidableEq, Repr

structure Rendering where
  shown : Shown
  collided : Nat := 0
  deriving DecidableEq, Repr

/-- The rows of the output, by their cells. -/
def Shown.rows : Shown → List (List Bytes)
  | .number n => [[dec n]]
  | .raw lines => lines.map fun line => [line]
  | .table data => data.rows

def Shown.text : Shown → Bytes
  | .number n => dec n ++ bytes "\n"
  | .raw lines =>
    if lines.isEmpty then bytes "(no rows)\n" else (lines.map (· ++ bytes "\n")).flatten
  | .table data =>
    if data.rows.isEmpty then bytes "(no rows)\n" else renderTable data.headers data.rows

def Rendering.text (rendering : Rendering) : Bytes :=
  rendering.shown.text ++
    if rendering.collided > 0 then
      strCat ["(", dec rendering.collided, bytes (" bucket(s) dropped: same-key collision; raise " ++
        "crypto.result_buckets or page with OFFSET)\n")]
    else []

section Run

variable (lib : Library) (doubles : Doubles) (client : Remote) (clientId sql : Bytes) (value : Nat)
  (backend database : Bytes)

def runCount (stmt : SelectStatement) : StatusOr Rendering :=
  if stmt.where_.isNone then do
    let r ← client.scan database stmt.table 0
    return ⟨.number r.totalRows, 0⟩
  else do
    let n ← client.queryCount clientId sql value backend database
    return ⟨.number n, 0⟩

/-- The raw result rows, and how many buckets collided. -/
def gatherRows (stmt : SelectStatement) : StatusOr (List Bytes × Nat) :=
  if stmt.where_.isNone then do
    let r ← client.scan database stmt.table (scanFetchCount stmt)
    return (r.rows, 0)
  else client.queryClean clientId sql value backend database

def showRows (stmt : SelectStatement) (rows : List Bytes) : Option Schema → StatusOr Shown
  | none => .ok (.raw ((window stmt rows).map renderRaw))
  | some schema => do
    let table ← buildResultTable lib doubles schema rows stmt
    return .table table

def runSelect (cache : Option SchemaCache) : StatusOr Rendering × Option SchemaCache :=
  match parse sql with
  | .error status => (.error status, cache)
  | .ok stmt =>
    if stmt.countStar then (runCount client clientId sql value backend database stmt, cache)
    else
      let (schema, cache) := fetchSchema client database stmt.table cache
      (do
        let (rows, collided) ← gatherRows client clientId sql value backend database stmt
        let shown ← showRows lib doubles stmt rows schema
        return ⟨shown, collided⟩, cache)

end Run

/-! ## Windows of a scan -/

/-- A SELECT of the rows as they are stored. -/
structure PlainScan (stmt : SelectStatement) : Prop where
  rows : stmt.countStar = false
  everywhere : stmt.where_ = none
  repeats : stmt.distinct = false
  stored : stmt.orderBy = []

/-- The schema has the projected columns, and every record decodes. -/
structure Legible (schema : Schema) (stmt : SelectStatement) (records : List Bytes) : Prop where
  columns : ∀ column ∈ stmt.projection, column ∈ payloadNames schema
  decodes : ∀ record ∈ records, ∃ values, decodeRecord schema record = .ok values

/-- The cells a stored record is shown as. -/
def shownCells (lib : Library) (stmt : SelectStatement) (record : Bytes) : Option Schema → List Bytes
  | none => [renderRaw record]
  | some schema =>
    match displayColumns (payloadNames schema) stmt, decodeRecord schema record with
    | .ok display, .ok values => cellsOf lib display values
    | _, _ => []

variable {stmt : SelectStatement}

theorem limit_pos {sql : Bytes} (parsed : parse sql = .ok stmt) :
    0 < stmt.limit.getD kDefaultSelectLimit ∧ stmt.limit.getD kDefaultSelectLimit < 2 ^ 64 ∧
      stmt.offset.getD 0 < 2 ^ 64 := by
  obtain ⟨tokens, _, statement⟩ := bind_eq_ok.1 parsed
  obtain ⟨used, rest, same, sentence⟩ := parseStatement_sound statement
  have positive := sentence.limit_pos
  obtain ⟨_, _, _, _, _, _, _, _, _, _, _, _, _, _, _, _, _, _, _, _, limit, offset, _⟩ :=
    sentence.phrases
  generalize stmt.limit = n at positive limit
  generalize stmt.offset = m at offset
  refine ⟨?_, ?_, ?_⟩
  · cases n with
    | none => decide
    | some n => exact Nat.pos_of_ne_zero fun zero => positive (congrArg some zero)
  · cases limit with
    | none => decide
    | some _ _ read => exact simpleAtou64_lt read
  · cases offset with
    | none => decide
    | some _ _ read => exact simpleAtou64_lt read

section Window

variable {stmt : SelectStatement} {α β : Type}

variable (f : α → β)

theorem window_map (rows : List α) : window stmt (rows.map f) = (window stmt rows).map f := by
  rw [window, window, map_take, map_drop]

/-- A fetched front has the same window if it reaches to the window's end, and none at all if
it ends before the window begins. -/
theorem window_take_iff (rows : List α) {fetch : Nat}
    (some_ : 0 < stmt.limit.getD kDefaultSelectLimit)
    (reaches : fetch = stmt.offset.getD 0 + stmt.limit.getD kDefaultSelectLimit ∨
      fetch < stmt.offset.getD 0) :
    (window stmt (rows.take fetch)).map f = (window stmt rows).map f ↔
      fetch = stmt.offset.getD 0 + stmt.limit.getD kDefaultSelectLimit ∨
        rows.length ≤ stmt.offset.getD 0 := by
  simp only [window]
  constructor
  · intro same
    refine reaches.imp_right fun short => ?_
    have lengths := congrArg List.length same
    simp only [length_map, length_take, length_drop] at lengths
    omega
  · rintro (rfl | ends)
    · rw [drop_take, Nat.add_sub_cancel_left, take_take, Nat.min_self]
    · rw [drop_of_length_le ends, drop_of_length_le]
      rw [length_take]
      omega

end Window

theorem exists_mapM {α β : Type} {f : α → StatusOr β} {l : List α}
    (each : ∀ a ∈ l, ∃ b, f a = .ok b) : ∃ r, l.mapM f = .ok r := by
  induction l with
  | nil => exact ⟨[], rfl⟩
  | cons a l ih =>
    obtain ⟨b, first⟩ := each a mem_cons_self
    obtain ⟨r, rest⟩ := ih fun a' member => each a' (mem_cons_of_mem a member)
    rw [mapM_eq_ok_iff] at rest
    exact ⟨b :: r, mapM_eq_ok_iff.2 (.cons first rest)⟩

theorem displayColumns_ok {names : List Bytes}
    (columns : ∀ column ∈ stmt.projection, column ∈ names) :
    ∃ display, displayColumns names stmt = .ok display := by
  rw [displayColumns]
  split
  · exact ⟨_, rfl⟩
  refine exists_mapM fun column member => ?_
  have listed := columns column.1 (fst_mem_of_mem_zipIdx member)
  rw [displayColumn, payloadIndex]
  cases found : names.findIdx? (· == column.1) with
  | none => exact absurd (findIdx?_eq_none_iff.1 found column.1 listed) (by simp)
  | some index => exact ⟨_, rfl⟩

variable (lib : Library)

theorem resultRow_ok {schema : Schema} (display : List (Nat × Bytes)) {record : Bytes}
    {values : List Value} (decoded : decodeRecord schema record = .ok values) :
    resultRow lib schema display [] record = .ok ⟨cellsOf lib display values, []⟩ := by
  have length : values.length = (payloadNames schema).length := by
    rw [payloadNames, length_map, payloadColumns_length]
    exact decodeColumns_length decoded
  rw [resultRow, decoded]
  show (if values.length ≠ (payloadNames schema).length then _ else _) = _
  rw [if_neg (not_not.2 length)]
  rfl

/-- The table of a plain scan shows the window of what was fetched. -/
theorem buildResultTable_plain (doubles : Doubles) {schema : Schema} (plain : PlainScan stmt)
    {records : List Bytes} (legible : Legible schema stmt records) :
    ∃ headers, buildResultTable lib doubles schema records stmt =
      .ok ⟨headers, (window stmt records).map fun record => shownCells lib stmt record (some schema)⟩ := by
  obtain ⟨display, displayed⟩ := displayColumns_ok legible.columns
  have order : orderColumns (payloadNames schema) stmt = .ok [] := by
    rw [orderColumns, plain.stored]
    rfl
  have rows : records.mapM (resultRow lib schema display []) =
      .ok (records.map fun record => ⟨shownCells lib stmt record (some schema), []⟩) := by
    rw [mapM_eq_ok_iff, forall₂_map_right_iff, forall₂_same]
    intro record member
    obtain ⟨values, decoded⟩ := legible.decodes record member
    rw [resultRow_ok lib display decoded, shownCells, displayed, decoded]
  refine ⟨display.map Prod.snd, ?_⟩
  refine bind_eq_ok.2 ⟨display, displayed, bind_eq_ok.2 ⟨[], order, bind_eq_ok.2 ⟨_, rows, ?_⟩⟩⟩
  rw [plain.repeats]
  show Except.ok (TableData.mk _ ((window stmt (records.map _)).map ResultRow.cells)) = _
  rw [window_map, map_map]
  rfl

/-- What a plain scan shows is the window of the rows it fetched. -/
theorem runSelect_plain (lib : Library) (doubles : Doubles) (client : Remote)
    (clientId backend database : Bytes) (value : Nat) (cache : Option SchemaCache) {sql : Bytes}
    {stmt : SelectStatement} (parsed : parse sql = .ok stmt) (plain : PlainScan stmt)
    {fetched : ScanResult}
    (scanned : client.scan database stmt.table (scanFetchCount stmt) = .ok fetched)
    (legible : ∀ schema, (fetchSchema client database stmt.table cache).1 = some schema →
      Legible schema stmt fetched.rows) : ∃ rendering,
      (runSelect lib doubles client clientId sql value backend database cache).1 = .ok rendering ∧
      rendering.shown.rows = (window stmt fetched.rows).map fun record =>
        shownCells lib stmt record (fetchSchema client database stmt.table cache).1 := by
  have gathered : gatherRows client clientId sql value backend database stmt =
      .ok (fetched.rows, 0) := by
    rw [gatherRows, plain.everywhere, scanned]
    rfl
  rw [runSelect, parsed]
  simp only [plain.rows]
  generalize fetchSchema client database stmt.table cache = looked at legible
  obtain ⟨_ | schema, cache'⟩ := looked
  · refine ⟨⟨.raw ((window stmt fetched.rows).map renderRaw), 0⟩, ?_, ?_⟩
    · exact bind_eq_ok.2 ⟨_, gathered, rfl⟩
    · exact map_map
  · obtain ⟨headers, built⟩ := buildResultTable_plain lib doubles plain (legible schema rfl)
    refine ⟨⟨.table ⟨headers, _⟩, 0⟩, ?_, rfl⟩
    exact bind_eq_ok.2 ⟨_, gathered, bind_eq_ok.2 ⟨_, bind_eq_ok.2 ⟨_, built, rfl⟩, rfl⟩⟩

theorem scanEpoch_capped (epoch : Epoch) (maxRows : Nat) :
    (scanEpoch epoch maxRows).rows = epoch.records.take (min maxRows kScanRowCap) := by
  rw [scanEpoch_eq, Epoch.records]

theorem scanEpoch_rows {epoch : Epoch} (small : epoch.rows.length ≤ kScanRowCap) (maxRows : Nat) :
    (scanEpoch epoch maxRows).rows = epoch.records.take maxRows := by
  have length : epoch.records.length ≤ kScanRowCap := by
    rw [Epoch.records, length_map]
    exact small
  rw [scanEpoch_capped, ← take_take, take_of_length_le length]

/-- **The window of a scan.**  The rows shown are the stored rows from OFFSET on, at most LIMIT of
them, exactly if OFFSET and LIMIT add up to a machine word or no row stands at OFFSET. -/
theorem scan_window_iff (lib : Library) (doubles : Doubles) (client : Remote) (node : Node)
    (clientId backend database : Bytes) (value : Nat) (cache : Option SchemaCache) {sql : Bytes}
    {stmt : SelectStatement} {epoch : Epoch} (parsed : parse sql = .ok stmt) (plain : PlainScan stmt)
    (reaches : client.scan = node.scan)
    (current : (node.repositories (placeOf node.config (tableOf database stmt.table))).openCurrent =
      .ok epoch)
    (small : epoch.rows.length ≤ kScanRowCap)
    (legible : ∀ schema, (fetchSchema client database stmt.table cache).1 = some schema →
      Legible schema stmt epoch.records) :
    (∃ rendering,
      (runSelect lib doubles client clientId sql value backend database cache).1 = .ok rendering ∧
      rendering.shown.rows = (window stmt epoch.records).map fun record =>
        shownCells lib stmt record (fetchSchema client database stmt.table cache).1) ↔
    stmt.offset.getD 0 + stmt.limit.getD kDefaultSelectLimit < 2 ^ 64 ∨
      epoch.rows.length ≤ stmt.offset.getD 0 := by
  obtain ⟨some_, limit, offset⟩ := limit_pos parsed
  have scanned : client.scan database stmt.table (scanFetchCount stmt) =
      .ok (scanEpoch epoch (scanFetchCount stmt)) := by
    rw [reaches, Node.scan, if_neg (by simpa using (parse_named parsed).table)]
    exact bind_eq_ok.2 ⟨epoch, current, rfl⟩
  have fetched := scanEpoch_rows small (scanFetchCount stmt)
  have legibleFetched : ∀ schema, (fetchSchema client database stmt.table cache).1 = some schema →
      Legible schema stmt (scanEpoch epoch (scanFetchCount stmt)).rows := by
    intro schema found
    obtain ⟨columns, decodes⟩ := legible schema found
    refine ⟨columns, fun record member => decodes record ?_⟩
    rw [fetched] at member
    exact mem_of_mem_take member
  obtain ⟨rendering, run, shown⟩ := runSelect_plain lib doubles client clientId backend database
    value cache parsed plain scanned legibleFetched
  have count : scanFetchCount stmt =
      (stmt.offset.getD 0 + stmt.limit.getD kDefaultSelectLimit) % 2 ^ 64 := by
    rw [scanFetchCount, plain.repeats, plain.stored]
    rfl
  -- a sum that wraps is less than either summand
  have reached : scanFetchCount stmt = stmt.offset.getD 0 + stmt.limit.getD kDefaultSelectLimit ∨
      scanFetchCount stmt < stmt.offset.getD 0 := by omega
  rw [fetched] at shown
  have windows := window_take_iff (fun record => shownCells lib stmt record
    (fetchSchema client database stmt.table cache).1) epoch.records some_ reached
  rw [Epoch.records, length_map, ← Epoch.records, ← shown] at windows
  constructor
  · rintro ⟨other, run', wanted⟩
    obtain rfl : rendering = other := by
      have same := run.symm.trans run'
      injection same
    have := windows.1 wanted
    omega
  · intro fits
    exact ⟨rendering, run, windows.2 (by omega)⟩

/-! ## A window that wraps -/

/-- A node with one table of two rows. -/
def twoRows : Node where
  config := Client.sampleConfig 16 1
  gate := { authenticator := .none, rate := 0, burst := 0, global := ⟨0, 0, 0, 0⟩ }
  repositories := fun _ => ⟨[Client.sampleEpoch 16 [(1, 97, 98), (2, 99, 100)]], .ok 1⟩

/-- A client that only scans. -/
def Remote.scanning (node : Node) : Remote where
  scan := node.scan
  describeTable := node.describeTable
  queryClean _ _ _ _ _ := .error (unimplemented [])
  queryCount _ _ _ _ _ := .error (unimplemented [])

/-- The second row is at OFFSET 1, but OFFSET and LIMIT add up to nothing. -/
theorem scan_window_wraps :
    (runSelect strictLibrary ⟨fun _ _ => false, fun _ => 0⟩ (Remote.scanning twoRows) (bytes "c")
      (bytes "SELECT a FROM t LIMIT 18446744073709551615 OFFSET 1") 0 [] [] none).1 =
      .ok ⟨.table ⟨[bytes "a"], []⟩, 0⟩ ∧
    (runSelect strictLibrary ⟨fun _ _ => false, fun _ => 0⟩ (Remote.scanning twoRows) (bytes "c")
      (bytes "SELECT a FROM t LIMIT 1 OFFSET 1") 0 [] [] none).1 =
      .ok ⟨.table ⟨[bytes "a"], [[bytes "d"]]⟩, 0⟩ := by
  decide +kernel

/-- The statement of the second row alone. -/
def secondRow : SelectStatement where
  projection := [bytes "a"]
  projectionAliases := [bytes "a"]
  table := bytes "t"
  limit := some 1
  offset := some 1

theorem scan_window_second : ∃ rendering,
    (runSelect strictLibrary ⟨fun _ _ => false, fun _ => 0⟩ (Remote.scanning twoRows) (bytes "c")
      (bytes "SELECT a FROM t LIMIT 1 OFFSET 1") 0 [] [] none).1 = .ok rendering ∧
    rendering.shown.rows = [[bytes "d"]] := by
  have parsed : parse (bytes "SELECT a FROM t LIMIT 1 OFFSET 1") = .ok secondRow := by
    decide +kernel
  have legible : ∀ schema, (fetchSchema (Remote.scanning twoRows) [] secondRow.table none).1 =
      some schema → Legible schema secondRow
        (Client.sampleEpoch 16 [(1, 97, 98), (2, 99, 100)]).records := by
    rintro schema ⟨⟩
    refine ⟨by decide, fun record member => ?_⟩
    obtain ⟨row, stored, rfl⟩ := mem_map.1 member
    obtain ⟨cells, _, rfl⟩ := mem_map.1 stored
    exact ⟨_, rfl⟩
  obtain ⟨rendering, run, rows⟩ := (scan_window_iff strictLibrary ⟨fun _ _ => false, fun _ => 0⟩
    (Remote.scanning twoRows) twoRows (bytes "c") [] [] 0 none parsed ⟨rfl, rfl, rfl, rfl⟩ rfl rfl
    (by decide) legible).2 (.inl (by decide))
  exact ⟨rendering, run, rows.trans (by decide +kernel)⟩

end OpaqueDb.Cli
