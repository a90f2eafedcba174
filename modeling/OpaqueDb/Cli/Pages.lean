/-
# Cli.Pages -- a table read page by page

A page is a SELECT of all columns with a LIMIT and an OFFSET.  OFFSET is the client's: the
server is asked for the rows up to the page's end and hands out at most `kScanRowCap` of them,
counted from the first row of the table.  So the pages together are the rows below the cap
(`runPages_eq`), and the whole table exactly when it has no more (`pages_complete_iff`).
-/
import OpaqueDb.Cli.Rendering

namespace OpaqueDb.Cli

open OpaqueDb.Core Sql Storage Server List
open Client (kDefaultSelectLimit)

set_option autoImplicit false

/-! ## Statements one after another -/

section Run

variable (lib : Library) (doubles : Doubles) (client : Remote) (clientId : Bytes) (value : Nat)
  (backend database : Bytes)

/-- The statements in order, with one cache of schemas; the first failure ends them. -/
def runPages : Option SchemaCache → List Bytes → StatusOr (List Rendering)
  | _, [] => .ok []
  | cache, sql :: rest => do
    let page ← (runSelect lib doubles client clientId sql value backend database cache).1
    let pages ← runPages (runSelect lib doubles client clientId sql value backend database cache).2 rest
    return page :: pages

end Run

/-- A page of a table: all columns of its stored rows. -/
structure Page (table : Bytes) (size number : Nat) (stmt : SelectStatement) : Prop where
  plain : PlainScan stmt
  star : stmt.projection = []
  table : stmt.table = table
  limit : stmt.limit = some size
  offset : stmt.offset.getD 0 = number * size

/-- The cells of a record with all its columns. -/
def rowCells (lib : Library) (schema : Option Schema) (record : Bytes) : List Bytes :=
  shownCells lib { table := [] } record schema

theorem shownCells_star (lib : Library) {stmt : SelectStatement} (star : stmt.projection = [])
    (schema : Option Schema) (record : Bytes) :
    shownCells lib stmt record schema = rowCells lib schema record := by
  cases schema with
  | none => rfl
  | some schema =>
    have columns : displayColumns (payloadNames schema) stmt =
        displayColumns (payloadNames schema) { table := [] } := by
      rw [displayColumns, star]
      rfl
    rw [shownCells, rowCells, shownCells, columns]

/-- What was looked up once is found again. -/
theorem fetchSchema_again (client : Remote) (database table : Bytes) (cache : Option SchemaCache) :
    fetchSchema client database table (fetchSchema client database table cache).2 =
      fetchSchema client database table cache := by
  cases cache with
  | none => rfl
  | some cache =>
    rcases known : cache.lookup (strCat [database, ".", table]) with _ | schema
    · rcases described : client.describeTable database table with status | schema
      · simp [fetchSchema, known, described]
      · simp [fetchSchema, known, described]
    · simp only [fetchSchema, known]

/-! ## The pages together -/

section Pages

variable {lib : Library} {doubles : Doubles} {client : Remote} {node : Node}
  {clientId backend database table : Bytes} {value : Nat} {epoch : Epoch} {size : Nat}

/-- The client is connected to the node, whose table is the epoch; the schema it knows decodes
the table's records. -/
structure Connected (client : Remote) (node : Node) (database table : Bytes)
    (cache : Option SchemaCache) (epoch : Epoch) : Prop where
  scan : client.scan = node.scan
  current : (node.repositories (placeOf node.config (tableOf database table))).openCurrent = .ok epoch
  decodes : ∀ schema, (fetchSchema client database table cache).1 = some schema →
    ∀ record ∈ epoch.records, ∃ values, decodeRecord schema record = .ok values

/-- The window of what was fetched is the window of the rows below the cap.  Where the fetch count
wraps, the window lies behind the cap. -/
theorem window_capped {α : Type} (rows : List α) {start size : Nat} (small : size ≤ kScanRowCap)
    (word : start < 2 ^ 64) :
    ((rows.take (min ((start + size) % 2 ^ 64) kScanRowCap)).drop start).take size =
      ((rows.take kScanRowCap).drop start).take size := by
  by_cases fits : start + size < 2 ^ 64
  · rw [Nat.mod_eq_of_lt fits, ← take_take, drop_take, Nat.add_sub_cancel_left, take_take,
      Nat.min_self]
  · have behind : kScanRowCap ≤ start := by
      have cap : kScanRowCap = 10000 := rfl
      omega
    have none_ : ∀ fetched, (rows.take (min fetched kScanRowCap)).drop start = [] := by
      intro fetched
      refine drop_of_length_le ?_
      rw [length_take]
      omega
    have whole := none_ kScanRowCap
    rw [Nat.min_self] at whole
    rw [none_, whole]

/-- One page: its window of the rows below the cap. -/
theorem runSelect_page {cache : Option SchemaCache}
    (connected : Connected client node database table cache epoch) {sql : Bytes}
    {stmt : SelectStatement} {number : Nat} (parsed : parse sql = .ok stmt)
    (page : Page table size number stmt) (small : size ≤ kScanRowCap) :
    ∃ rendering,
      runSelect lib doubles client clientId sql value backend database cache =
        (.ok rendering, (fetchSchema client database table cache).2) ∧
      rendering.shown.rows = (((epoch.records.take kScanRowCap).drop (number * size)).take size).map
        (rowCells lib (fetchSchema client database table cache).1) := by
  obtain ⟨_, _, word⟩ := limit_pos parsed
  rw [page.offset] at word
  have count : scanFetchCount stmt = (number * size + size) % 2 ^ 64 := by
    rw [scanFetchCount, page.plain.repeats, page.plain.stored, page.offset, page.limit]
    rfl
  have scanned : client.scan database stmt.table (scanFetchCount stmt) =
      .ok (scanEpoch epoch (scanFetchCount stmt)) := by
    rw [connected.scan, Node.scan, if_neg (by simpa using (parse_named parsed).table), page.table]
    exact bind_eq_ok.2 ⟨epoch, connected.current, rfl⟩
  have fetched := scanEpoch_capped epoch (scanFetchCount stmt)
  have legible : ∀ schema, (fetchSchema client database stmt.table cache).1 = some schema →
      Legible schema stmt (scanEpoch epoch (scanFetchCount stmt)).rows := by
    intro schema found
    rw [page.table] at found
    refine ⟨by rw [page.star]; simp, fun record member => ?_⟩
    rw [fetched] at member
    exact connected.decodes schema found record (mem_of_mem_take member)
  obtain ⟨rendering, run, shown⟩ := @runSelect_plain lib doubles client clientId backend database
    value cache sql stmt parsed page.plain _ scanned legible
  refine ⟨rendering, Prod.ext run ?_, ?_⟩
  · rw [runSelect, parsed]
    simp [page.plain.rows, page.table]
  · rw [shown, fetched, count, window, page.offset, page.limit, Option.getD_some,
      window_capped _ small word, page.table]
    exact map_congr_left fun record _ => shownCells_star lib page.star _ record

/-- **The pages together are the rows below the cap**, as far as they reach. -/
theorem runPages_eq {cache : Option SchemaCache}
    (connected : Connected client node database table cache epoch) {sql : Nat → Bytes}
    {stmt : Nat → SelectStatement} {first count : Nat}
    (parsed : ∀ number < first + count, parse (sql number) = .ok (stmt number))
    (pages : ∀ number < first + count, Page table size number (stmt number))
    (small : size ≤ kScanRowCap) :
    ∃ shown, runPages lib doubles client clientId value backend database cache
        ((List.range' first count).map sql) = .ok shown ∧
      shown.flatMap (·.shown.rows) =
        (((epoch.records.take kScanRowCap).drop (first * size)).take (count * size)).map
          (rowCells lib (fetchSchema client database table cache).1) := by
  induction count generalizing first cache with
  | zero =>
    refine ⟨[], rfl, ?_⟩
    rw [Nat.zero_mul]
    rfl
  | succ count ih =>
    have inside : first < first + (count + 1) := by omega
    obtain ⟨page, run, rows⟩ := @runSelect_page lib doubles client node clientId backend database
      table value epoch size cache connected _ _ first (parsed first inside) (pages first inside) small
    have again := fetchSchema_again client database table cache
    have connected' : Connected client node database table
        (fetchSchema client database table cache).2 epoch :=
      ⟨connected.scan, connected.current, by rw [again]; exact connected.decodes⟩
    obtain ⟨later, runs, others⟩ := @ih _ connected' (first + 1)
      (fun number below => parsed number (by omega)) (fun number below => pages number (by omega))
    refine ⟨page :: later, ?_, ?_⟩
    · rw [range'_succ, map_cons, runPages, run]
      exact bind_eq_ok.2 ⟨page, rfl, bind_eq_ok.2 ⟨later, runs, rfl⟩⟩
    · rw [flatMap_cons, rows, others, again, ← map_append, Nat.succ_mul first, ← drop_drop,
        Nat.succ_mul count, Nat.add_comm (count * size), take_add]

/-- **Paging reaches the whole table exactly when it is not longer than the scan's cap.** -/
theorem pages_complete_iff {cache : Option SchemaCache}
    (connected : Connected client node database table cache epoch) {sql : Nat → Bytes}
    {stmt : Nat → SelectStatement} {count : Nat} (small : size ≤ 10000)
    (parsed : ∀ number < count, parse (sql number) = .ok (stmt number))
    (pages : ∀ number < count, Page table size number (stmt number))
    (enough : epoch.rows.length ≤ count * size) :
    (∃ shown, runPages lib doubles client clientId value backend database cache
        ((range count).map sql) = .ok shown ∧
      shown.flatMap (·.shown.rows) =
        epoch.records.map (rowCells lib (fetchSchema client database table cache).1)) ↔
      epoch.rows.length ≤ 10000 := by
  obtain ⟨shown, run, rows⟩ := @runPages_eq lib doubles client node clientId backend database table
    value epoch size cache connected sql stmt 0 count (by simpa using parsed) (by simpa using pages)
    small
  rw [← range_eq_range'] at run
  have length : epoch.records.length = epoch.rows.length := by rw [Epoch.records, length_map]
  have cap : kScanRowCap = 10000 := rfl
  rw [Nat.zero_mul, drop_zero] at rows
  constructor
  · rintro ⟨other, run', complete⟩
    obtain rfl : shown = other := Except.ok.inj (run.symm.trans run')
    have lengths := congrArg List.length (rows.symm.trans complete)
    rw [length_map, length_map, length_take, length_take] at lengths
    omega
  · intro few
    refine ⟨shown, run, rows.trans ?_⟩
    rw [take_of_length_le (l := epoch.records) (by omega), take_of_length_le (by omega)]

end Pages

/-! ## A table of more rows than the cap -/

/-- The text of a page of table `t`, and its statement. -/
def pageText (size number : Nat) : Bytes :=
  strCat ["SELECT * FROM t LIMIT ", dec size, " OFFSET ", dec (number * size)]

def pageStatement (size number : Nat) : SelectStatement where
  selectAll := true
  table := bytes "t"
  limit := some size
  offset := some (number * size)

theorem page_of_statement (size number : Nat) :
    Page (bytes "t") size number (pageStatement size number) :=
  ⟨⟨rfl, rfl, rfl, rfl⟩, rfl, rfl, rfl, rfl⟩

/-- A node whose table has this many equal rows. -/
def equalRows (count : Nat) : Node where
  config := Client.sampleConfig 16 1
  gate := { authenticator := .none, rate := 0, burst := 0, global := ⟨0, 0, 0, 0⟩ }
  repositories := fun _ => ⟨[Client.sampleEpoch 16 (replicate count (1, 97, 98))], .ok 1⟩

theorem equalRows_connected (count : Nat) : Connected (Remote.scanning (equalRows count))
    (equalRows count) [] (bytes "t") none
    (Client.sampleEpoch 16 (replicate count (1, 97, 98))) := by
  refine ⟨rfl, rfl, ?_⟩
  rintro schema ⟨⟩ record member
  obtain ⟨row, stored, rfl⟩ := mem_map.1 member
  obtain ⟨cells, _, rfl⟩ := mem_map.1 stored
  exact ⟨_, rfl⟩

theorem three_rows_in_two_pages : ∃ shown,
    runPages strictLibrary ⟨fun _ _ => false, fun _ => 0⟩ (Remote.scanning (equalRows 3)) (bytes "c") 0
      [] [] none [pageText 2 0, pageText 2 1] = .ok shown ∧
    shown.flatMap (·.shown.rows) = replicate 3 [bytes "a", bytes "b"] := by
  obtain ⟨shown, run, rows⟩ := (@pages_complete_iff strictLibrary ⟨fun _ _ => false, fun _ => 0⟩
    (Remote.scanning (equalRows 3)) (equalRows 3) (bytes "c") [] [] (bytes "t") 0 _ 2 none
    (equalRows_connected 3) (pageText 2) (pageStatement 2) 2 (by decide) (by decide +kernel)
    (fun number _ => page_of_statement 2 number) (by decide)).2 (by decide)
  exact ⟨shown, run, rows.trans (by decide +kernel)⟩

/-- Of 10001 rows two pages of 10000 show the first 10000. -/
theorem last_row_unreached :
    (Client.sampleEpoch 16 (replicate 10001 (1, 97, 98))).rows.length = 10001 ∧ ∃ shown,
      runPages strictLibrary ⟨fun _ _ => false, fun _ => 0⟩ (Remote.scanning (equalRows 10001))
        (bytes "c") 0 [] [] none [pageText 10000 0, pageText 10000 1] = .ok shown ∧
      (shown.flatMap (·.shown.rows)).length = 10000 := by
  have length : (Client.sampleEpoch 16 (replicate 10001 (1, 97, 98))).rows.length = 10001 := by
    rw [Client.sampleEpoch, length_map, length_replicate]
  obtain ⟨shown, run, rows⟩ := @runPages_eq strictLibrary ⟨fun _ _ => false, fun _ => 0⟩
    (Remote.scanning (equalRows 10001)) (equalRows 10001) (bytes "c") [] [] (bytes "t") 0 _ 10000 none
    (equalRows_connected 10001) (pageText 10000) (pageStatement 10000) 0 2 (by decide +kernel)
    (fun number _ => page_of_statement 10000 number) (by decide)
  refine ⟨length, shown, run, ?_⟩
  have cap : kScanRowCap = 10000 := rfl
  rw [rows, Nat.zero_mul, drop_zero, length_map, length_take, length_take, Epoch.records,
    length_map, length, cap]
  rfl

end OpaqueDb.Cli
