/-
# Server.Loading -- a file at once, and row by row

A CSV file is loaded as a whole, or its first lines are loaded and the others inserted one at a
time.  Both store the same encodings of the same typed rows.  They differ in one respect: an
insert opens the epoch before its own, and refuses a manifest above the size limit, which a
publishing does not look at (`loads_agree_iff`).
-/
import OpaqueDb.Server.Tables

namespace OpaqueDb.Server.Writers

open OpaqueDb.Core Theory Config Storage Sql List
  Storage.StagingEpoch Storage.JsonLibrary Theory.Disk

set_option autoImplicit false

/-! ## The two ways -/

/-- The cells of a line in the order of the schema's columns, each from the first position of its
name in the header. -/
def csvCells (schema : Schema) (header : List Bytes) (line : Bytes) : List Bytes :=
  schema.columns.map fun column =>
    (strSplit 44 line).getD ((columnIndex header column.name).getD 0) []

/-- The lines that hold a row. -/
def dataLines (lines : List Bytes) : List Bytes :=
  lines.filter fun line => !(stripAsciiWhitespace line).isEmpty

section Programs

variable (root : Bytes) (json : JsonLibrary) (lib : Library) (cfg : Config) (schema : Schema)

def loadFile (csvPath content : Bytes) : FileCall Nat := do
  let rows ← liftStatus (parseCsvRows lib schema csvPath (some content))
  let staging ← liftStatus (buildStagingFromRows cfg schema rows)
  AdminService.publish root json staging

def insertLines (header : List Bytes) : List Bytes → FileCall Unit
  | [] => return
  | line :: rest => do
    let _ ← insertRowAndPublish root json lib (csvCells schema header line)
    insertLines header rest

/-- The first part is loaded, the other lines are inserted. -/
def loadAndInsert (csvPath content : Bytes) (header : List Bytes) (rest : List Bytes) :
    FileCall Unit := do
  let _ ← loadFile root json lib cfg schema csvPath content
  insertLines root json lib schema header rest

end Programs

/-! ## Typed rows -/

section Typed

variable {lib : Library} {schema : Schema} {header : List Bytes} {line : Bytes} {key : Column}

/-- The value of the line in a column. -/
def Cell (lib : Library) (header : List Bytes) (line : Bytes) (column : Column) (value : Value) :
    Prop :=
  parseValue lib column.type (cellAt header (strSplit 44 line) column.name) = .ok value

theorem cell_unique : Relator.RightUnique (Cell lib header line) :=
  fun _ _ _ first second => Except.ok.inj (first.symm.trans second)

theorem typed_iff {row : IngestRow} : Typed lib schema (csvCells schema header line) row ↔
    ∃ values, Forall₂ (Cell lib header line) schema.columns values ∧
      row = rowOf schema.columns values := by
  have zipped : schema.columns.zip (csvCells schema header line) = schema.columns.map fun column =>
      (column, (strSplit 44 line).getD ((columnIndex header column.name).getD 0) []) := by
    rw [csvCells]
    induction schema.columns with
    | nil => rfl
    | cons column rest ih => rw [map_cons, zip_cons_cons, ih, map_cons]
  have parsed : ∀ values, parseCells lib schema.columns (csvCells schema header line) = .ok values ↔
      Forall₂ (Cell lib header line) schema.columns values := by
    intro values
    rw [parseCells, zipped, mapM_eq_ok_iff, forall₂_map_left_iff]
    simp only [within_eq_ok]
    rfl
  constructor
  · rintro ⟨_, values, known, same⟩
    exact ⟨values, (parsed values).1 known, same⟩
  · rintro ⟨values, known, same⟩
    exact ⟨length_map _, values, (parsed values).2 known, same⟩

variable (valid : schema.validate = .ok ())
include valid

/-- The key and the payload of the row that the columns' values make. -/
theorem rowOf_eq (primary : matchKey schema = some key) {values : List Value}
    (cells : Forall₂ (Cell lib header line) schema.columns values) :
    ∃ keyValue payload, Cell lib header line key keyValue ∧
      Forall₂ (Cell lib header line) (schema.columns.filter fun c => c.encoding != .eq) payload ∧
      rowOf schema.columns values = ⟨keyValue, payload⟩ := by
  refine ⟨(rowOf schema.columns values).key, _, ?_,
    forall₂_filter cells fun c => c.encoding != .eq, ?_⟩
  · have listed := mem_of_find?_eq_some primary
    have isKey : key.encoding = .eq := by
      simpa using find?_some primary
    obtain ⟨index, inside, same⟩ := getElem_of_mem listed
    have length := cells.length_eq
    have here := cells.get (i := index) inside (by omega)
    rw [get_eq_getElem, same] at here
    have member : (key, values[index]) ∈ schema.columns.zip values := by
      rw [mem_iff_getElem]
      refine ⟨index, by rw [length_zip]; omega, ?_⟩
      rw [getElem_zip, same]
    have once : ((schema.columns.zip values).countP fun c => c.1.encoding == .eq) ≤ 1 := by
      have single := (validate_single valid).le
      rw [← @map_fst_zip _ _ schema.columns values (by omega), countP_map] at single
      exact single
    rw [rowOf, placeCells_primary once member isKey]
    exact here
  · have payload := placeCells_payload (schema.columns.zip values) ⟨.int 0, []⟩
    rw [nil_append] at payload
    rw [← payload]
    rfl

/-- **A line is typed as its cells are**, whatever its number. -/
theorem parseCsvLine_iff (primary : matchKey schema = some key)
    (width : (strSplit 44 line).length = header.length) (lineNo : Nat) {row : IngestRow} :
    parseCsvLine lib schema key header lineNo line = .ok row ↔
      Typed lib schema (csvCells schema header line) row := by
  have parsed : parseCsvLine lib schema key header lineNo line = .ok row ↔
      ∃ keyValue payload, Cell lib header line key keyValue ∧
        Forall₂ (Cell lib header line) (schema.columns.filter fun c => c.encoding != .eq) payload ∧
        row = ⟨keyValue, payload⟩ := by
    simp only [parseCsvLine, if_neg (not_not.2 width), bind_eq_ok, mapM_eq_ok_iff, within_eq_ok,
      pure_eq_ok]
    constructor
    · rintro ⟨keyValue, first, payload, others, rfl⟩
      exact ⟨keyValue, payload, first, others, rfl⟩
    · rintro ⟨keyValue, payload, first, others, rfl⟩
      exact ⟨keyValue, first, payload, others, rfl⟩
  rw [parsed, typed_iff]
  constructor
  · rintro ⟨keyValue, payload, first, others, rfl⟩
    have each : ∀ column ∈ schema.columns, ∃ value, Cell lib header line column value := by
      intro column listed
      by_cases isKey : column.encoding = .eq
      · rw [← matchKey_unique valid primary listed isKey]
        exact ⟨keyValue, first⟩
      · have kept : column ∈ schema.columns.filter fun c => c.encoding != .eq :=
          mem_filter.2 ⟨listed, by simpa using isKey⟩
        obtain ⟨index, inside, same⟩ := getElem_of_mem kept
        have here := others.get (i := index) inside (by rw [← others.length_eq]; exact inside)
        rw [get_eq_getElem, same] at here
        exact ⟨_, here⟩
    obtain ⟨values, cells⟩ := exists_forall₂ each
    refine ⟨values, cells, ?_⟩
    obtain ⟨keyValue', payload', first', others', row⟩ := rowOf_eq valid primary cells
    rw [row, cell_unique first first', cell_unique.forall₂ others others']
  · rintro ⟨values, cells, rfl⟩
    exact rowOf_eq valid primary cells

theorem exists_matchKey : ∃ key, matchKey schema = some key := by
  refine Option.ne_none_iff_exists'.1 fun absent => ?_
  have single := validate_single valid
  rw [countP_eq_zero.2 (find?_eq_none.1 absent)] at single
  cases single

/-- Every line has as many cells as the header. -/
def Wide (header : List Bytes) (lines : List Bytes) : Prop :=
  ∀ line ∈ lines, (strSplit 44 line).length = header.length

theorem parseCsvLines_iff (primary : matchKey schema = some key) {lines : List Bytes}
    (width : Wide header (dataLines lines)) (lineNo : Nat) {rows : List IngestRow} :
    parseCsvLines lib schema key header lineNo lines = .ok rows ↔
      Forall₂ (fun line row => Typed lib schema (csvCells schema header line) row)
        (dataLines lines) rows := by
  induction lines generalizing lineNo rows with
  | nil =>
    rw [parseCsvLines, show dataLines [] = [] from rfl, forall₂_nil_left_iff]
    exact ⟨fun same => (Except.ok.inj same).symm, fun same => by rw [same]⟩
  | cons line lines ih =>
    rw [parseCsvLines]
    by_cases blank : stripAsciiWhitespace line = []
    · have skipped : dataLines (line :: lines) = dataLines lines :=
        filter_cons_of_neg (by simp [blank])
      rw [skipped] at width ⊢
      rw [if_pos blank]
      exact ih width (lineNo + 1)
    · have listed : dataLines (line :: lines) = line :: dataLines lines :=
        filter_cons_of_pos (by simpa using blank)
      rw [listed] at width ⊢
      have first := fun row => @parseCsvLine_iff lib _ _ _ _ valid primary
        (width line mem_cons_self) lineNo row
      have rest := fun rows => @ih
        (fun other member => width other (mem_cons_of_mem _ member)) (lineNo + 1) rows
      rw [if_neg blank]
      simp only [bind_eq_ok, pure_eq_ok, first, rest, forall₂_cons_left_iff]
      constructor
      · rintro ⟨row, typed, rows, others, rfl⟩
        exact ⟨row, rows, typed, others, rfl⟩
      · rintro ⟨row, rows, typed, others, rfl⟩
        exact ⟨row, typed, rows, others, rfl⟩

/-- Every column of the schema has a position in the header. -/
def Heads (schema : Schema) (header : List Bytes) : Prop :=
  ∀ column ∈ schema.columns, columnIndex header column.name ≠ none

/-- **The rows of a file** whose header is accepted are those of its lines. -/
theorem parseCsvRows_iff {csvPath content headerLine : Bytes} {lines : List Bytes}
    (read : getLines content = headerLine :: lines) (heads : Heads schema (csvHeader headerLine))
    (width : Wide (csvHeader headerLine) (dataLines lines)) {rows : List IngestRow} :
    parseCsvRows lib schema csvPath (some content) = .ok rows ↔
      Forall₂ (fun line row => Typed lib schema (csvCells schema (csvHeader headerLine) line) row)
        (dataLines lines) rows := by
  obtain ⟨key, primary⟩ := exists_matchKey valid
  have present := heads key (mem_of_find?_eq_some primary)
  have all := find?_eq_none.2 fun column listed absent => heads column listed (of_decide_eq_true absent)
  rw [← parseCsvLines_iff valid primary width 2]
  simp [parseCsvRows, valid, primary, read, if_neg present, all, bind, Except.bind]

end Typed

/-! ## Stored rows -/

variable {stored : List Row} {staging : StagingEpoch}

section Stored

variable {root : Bytes} {json : JsonLibrary} {lib : Library} {cfg : Config} {schema : Schema}
  {header : List Bytes}

/-- A table of this configuration without rows. -/
def baseOf (cfg : Config) (schema : Schema) : StagingEpoch :=
  empty schema cfg.crypto.keyBits (geometryFrom cfg)

/-- The row a line is stored as. -/
def Keeps (lib : Library) (cfg : Config) (schema : Schema) (header : List Bytes) (line : Bytes)
    (stored : Row) : Prop :=
  ∃ row, Typed lib schema (csvCells schema header line) row ∧
    encodeRow schema cfg.crypto.keyBits cfg.storage.recordBytes row = .ok stored

theorem keeps_unique : Relator.RightUnique (Keeps lib cfg schema header) := by
  rintro line first second ⟨row, ⟨_, values, parsed, rfl⟩, encoded⟩ ⟨row', ⟨_, values', parsed', rfl⟩,
    encoded'⟩
  cases parsed.symm.trans parsed'
  exact Except.ok.inj (encoded.symm.trans encoded')

/-- Lines are stored as their typed rows are encoded. -/
theorem forall₂_keeps {lines : List Bytes} :
    Forall₂ (Keeps lib cfg schema header) lines stored ↔ ∃ rows,
      Forall₂ (fun line row => Typed lib schema (csvCells schema header line) row) lines rows ∧
      Encoded (baseOf cfg schema) rows stored := by
  constructor
  · intro related
    induction related with
    | nil => exact ⟨[], .nil, .nil⟩
    | cons first _ ih =>
      obtain ⟨row, typed, encoded⟩ := first
      obtain ⟨rows, others, rest⟩ := ih
      exact ⟨row :: rows, .cons typed others, .cons encoded rest⟩
  · rintro ⟨rows, typed, encoded⟩
    induction typed generalizing stored with
    | nil =>
      cases encoded
      exact .nil
    | cons first _ ih =>
      cases encoded with
      | cons stored_ rest => exact .cons ⟨_, first, stored_⟩ (ih rest)

variable {version : Nat}

theorem fits64_of_layout {l : Layout} (laid : layout json staging version = .ok l) : Fits64 staging := by
  obtain ⟨_, _, first, second, _⟩ := layout_eq_ok.1 laid
  obtain ⟨_, _, match_, _⟩ := segmentFile_iff.1 first
  obtain ⟨_, _, payload, _⟩ := segmentFile_iff.1 second
  rw [length_map] at match_ payload
  exact ⟨match_, payload⟩

variable {rows : List Row}

theorem extends_unique {base first second : StagingEpoch} (one : base.Extends rows first)
    (two : base.Extends rows second) : first = second := by
  cases first
  cases one.schema.trans two.schema.symm
  cases one.keyBits.trans two.keyBits.symm
  cases one.geometry.trans two.geometry.symm
  cases one.rows.trans two.rows.symm
  rfl

theorem extends_valid {base staging : StagingEpoch} (step : base.Extends rows staging) :
    staging.validate = base.validate := by
  simp [StagingEpoch.validate, step.schema, step.keyBits, step.geometry]

variable {more : List Row}

theorem extends_fits64 {base shorter longer : StagingEpoch} (step : base.Extends rows shorter)
    (steps : base.Extends (rows ++ more) longer) (fits : Fits64 longer) : Fits64 shorter := by
  have fewer : shorter.rows.length ≤ longer.rows.length := by
    rw [step.rows, steps.rows]
    simp only [length_append]
    omega
  have first := Nat.mul_le_mul_right (matchRecordBytes base.schema base.keyBits) fewer
  have second := Nat.mul_le_mul_right base.geometry.recordBytes fewer
  rw [Fits64, steps.schema, steps.keyBits, steps.geometry] at fits
  rw [Fits64, step.schema, step.keyBits, step.geometry]
  exact ⟨by omega, by omega⟩

/-! ## A file at once -/

section File

variable {csvPath content headerLine : Bytes} {lines : List Bytes}

/-- The first version of a new table. -/
theorem publish_first {staging : StagingEpoch} (valid : staging.validate = .ok ())
    (fits : Fits64 staging) : ∃ disk,
    runCall (AdminService.publish root json staging) empty = (.ok 1, disk) ∧ Counted disk 1 ∧
      HoldsEpoch json disk 1 staging := by
  rcases runCall_publish root json empty staging 1 with ⟨l, disk, able, run, published⟩ | ⟨unable, _⟩
  · exact ⟨disk, adminPublish_of_publish rfl run, counted_empty.published published, l, able.laid,
      published.epoch⟩
  · obtain ⟨l, laid⟩ := layout_exists json valid fits 1
    exact absurd ⟨valid, rfl, laid⟩ (unable l)

theorem of_publish_first {disk : RepoDisk}
    (run : runCall (AdminService.publish root json staging) empty = (.ok version, disk)) :
    Fits64 staging := by
  rw [runCall_adminPublish] at run
  rcases runCall_publish root json empty staging (derived root empty) with
    ⟨l, _, able, _, _⟩ | ⟨_, status, _, failed, _⟩
  · exact fits64_of_layout able.laid
  · rw [failed] at run
    cases run

/-- What loading a file needs. -/
structure Loads (lib : Library) (cfg : Config) (schema : Schema) (header : List Bytes)
    (lines : List Bytes) (stored : List Row) (staging : StagingEpoch) : Prop where
  valid : (baseOf cfg schema).validate = .ok ()
  keeps : Forall₂ (Keeps lib cfg schema header) lines stored
  whole : (baseOf cfg schema).Extends stored staging
  fits : Fits64 staging

variable {stored : List Row} {staging : StagingEpoch} (valid : schema.validate = .ok ())
  (read : getLines content = headerLine :: lines) (heads : Heads schema (csvHeader headerLine))
  (width : Wide (csvHeader headerLine) (dataLines lines))
include valid read heads width

/-- **A file is loaded** if its lines are stored as rows that fit. -/
theorem load_runs (root csvPath : Bytes)
    (loads : Loads lib cfg schema (csvHeader headerLine) (dataLines lines) stored staging) :
    ∃ disk, runCall (loadFile root json lib cfg schema csvPath content) empty = (.ok 1, disk) ∧
      Counted disk 1 ∧ HoldsEpoch json disk 1 staging := by
  obtain ⟨accepted, keeps, whole, fits⟩ := loads
  obtain ⟨rows, typed, encoded⟩ := forall₂_keeps.1 keeps
  obtain ⟨result, staged, steps⟩ := stageRows_of_encoded encoded 0
  have built : buildStagingFromRows cfg schema rows = .ok staging := by
    obtain ⟨key, primary⟩ := exists_matchKey valid
    have checked : (empty schema cfg.crypto.keyBits (geometryFrom cfg)).validate = .ok () :=
      accepted
    simp only [buildStagingFromRows, valid, primary, checked]
    exact staged.trans (by rw [extends_unique steps whole])
  obtain ⟨disk, run, counted, holds⟩ :=
    @publish_first root json _ ((extends_valid whole).trans accepted) fits
  refine ⟨disk, ?_, counted, holds⟩
  rw [loadFile, (parseCsvRows_iff valid read heads width).2 typed,
    runCall_bind_ok _ (runCall_liftStatus _ _), built, runCall_bind_ok _ (runCall_liftStatus _ _), run]

/-- A file that is loaded has such lines. -/
theorem load_needs {version : Nat} {disk : RepoDisk}
    (run : runCall (loadFile root json lib cfg schema csvPath content) empty = (.ok version, disk)) :
    ∃ stored staging, Loads lib cfg schema (csvHeader headerLine) (dataLines lines) stored staging ∧
      Counted disk 1 ∧ HoldsEpoch json disk 1 staging := by
  have ran := run
  rcases typed : parseCsvRows lib schema csvPath (some content) with status | rows
  · rw [loadFile, typed] at run
    cases run
  rw [loadFile, typed, runCall_bind_ok _ (runCall_liftStatus _ _)] at run
  rcases built : buildStagingFromRows cfg schema rows with status | staging
  · rw [built] at run
    cases run
  rw [built] at run
  obtain ⟨key, primary⟩ := exists_matchKey valid
  simp only [buildStagingFromRows, primary, bind_eq_ok] at built
  obtain ⟨_, _, _, accepted, staged⟩ := built
  obtain ⟨stored, encoded, whole⟩ := stageRows_eq_ok staged
  have loads : Loads lib cfg schema (csvHeader headerLine) (dataLines lines) stored staging :=
    ⟨accepted, forall₂_keeps.2 ⟨rows, (parseCsvRows_iff valid read heads width).1 typed, encoded⟩,
      whole, of_publish_first run⟩
  obtain ⟨_, done, counted, holds⟩ := load_runs valid read heads width root csvPath loads
  cases ran.symm.trans done
  exact ⟨stored, staging, loads, counted, holds⟩

end File

/-! ## Row by row -/

/-- The words of the configuration are those of the source. -/
structure Words (cfg : Config) : Prop where
  slotCount : cfg.crypto.polyModulusDegree < 2 ^ 32
  recordBytes : cfg.storage.recordBytes < 2 ^ 32

theorem bytesPerSlot_le (crypto : CryptoConfig) : crypto.bytesPerSlot ≤ 7 := by
  simp only [CryptoConfig.bytesPerSlot]
  generalize (if crypto.plainModulusBits > 8 then (crypto.plainModulusBits - 1) / 8 else 1) = n
  split
  · omega
  · split <;> omega

/-- Opening accepts the size of the manifest's text. -/
def Short (l : Layout) : Prop :=
  l.text.length ≤ kMaxManifestBytes

section Open

variable {staging : StagingEpoch} {stored : List Row} {version : Nat} {l : Layout} {disk : RepoDisk}

/-- A short manifest of printable names can be read. -/
theorem legible_of_short (words : Words cfg) (named : Named json schema)
    (whole : (baseOf cfg schema).Extends stored staging) (laid : layout json staging version = .ok l)
    (few : stored.length < 2 ^ 63) (small : version < 2 ^ 63) (short : Short l) : Legible json l := by
  have schema_ : staging.schema = schema := whole.schema
  have geometry : staging.geometry = geometryFrom cfg := whole.geometry
  have rows : staging.rows = stored := whole.rows
  have sized : Sized staging := {
    stride := layout_stride laid short
    slotCount := by rw [geometry]; exact words.slotCount
    bytesPerSlot := by
      rw [geometry]
      exact Nat.lt_of_le_of_lt (bytesPerSlot_le cfg.crypto) (by decide)
    recordBytes := by rw [geometry]; exact words.recordBytes
    rows := by rw [rows]; exact few }
  exact ⟨layout_readable laid sized (by rw [schema_]; exact named) small, short⟩

/-- Whatever opens has a short manifest. -/
theorem short_of_opened (stands : Stands disk version l) {reader : EpochReader} {disk' : RepoDisk}
    (opened : runCall (openVersion root json version) disk = (.ok reader, disk')) : Short l := by
  obtain ⟨dir, known, holds⟩ := stands
  rw [runCall_openVersion, known] at opened
  obtain ⟨text, read, _⟩ := bind_eq_ok.1 (congrArg Prod.fst opened)
  by_contra long
  rw [Subdir.read, holds.manifest] at read
  simp only [readSmall, if_pos (Nat.not_le.1 long)] at read
  cases read

end Open

/-- A table with the first of the rows. -/
theorem extends_front {base longer : StagingEpoch} (whole : base.Extends (rows ++ more) longer) :
    ∃ shorter, base.Extends rows shorter := by
  have fits : ∀ row ∈ rows, base.Fits row := by
    intro row listed
    have inside : row ∈ longer.rows := by
      rw [whole.rows]
      simp [listed]
    exact (whole.fits row).1 ⟨longer.match_length row inside, longer.payload_length row inside⟩
  obtain ⟨shorter, _, step⟩ := appendRows_of_fits fits
  exact ⟨shorter, step⟩

/-- Every epoch that an insert of these rows opens has a short manifest. -/
def ShortBefore (json : JsonLibrary) (cfg : Config) (schema : Schema) (stored more : List Row)
    (version : Nat) : Prop :=
  ∀ j < more.length, ∀ st l, (baseOf cfg schema).Extends (stored ++ more.take j) st →
    layout json st (version + j) = .ok l → Short l

variable {row : Row}

theorem shortBefore_cons : ShortBefore json cfg schema stored (row :: more) version ↔
      (∀ st l, (baseOf cfg schema).Extends stored st → layout json st version = .ok l → Short l) ∧
        ShortBefore json cfg schema (stored ++ [row]) more (version + 1) := by
  have shift : ∀ j, stored ++ (row :: more).take (j + 1) = stored ++ [row] ++ more.take j := fun j => by
    rw [take_succ_cons, append_assoc, singleton_append]
  constructor
  · intro shorts
    refine ⟨fun st l step => shorts 0 (Nat.succ_pos _) st l ?_, fun j inside st l step laid => ?_⟩
    · rwa [take_zero, append_nil]
    · rw [← shift] at step
      exact shorts (j + 1) (Nat.succ_lt_succ inside) st l step (by rwa [Nat.add_assoc, Nat.add_comm 1] at laid)
  · rintro ⟨first, others⟩ (_ | j) inside st l step laid
    · rw [take_zero, append_nil] at step
      exact first st l step laid
    · rw [shift] at step
      exact others j (Nat.lt_of_succ_lt_succ inside) st l step (by rwa [Nat.add_assoc, Nat.add_comm 1])

section Inserts

variable {disk disk' : RepoDisk} {count : Nat} {staging : StagingEpoch} {stored : List Row} {l : Layout}
  {line : Bytes} (words : Words cfg) (named : Named json schema)
  (valid : (baseOf cfg schema).validate = .ok ()) (counted : Counted disk (count + 1))
  (whole : (baseOf cfg schema).Extends stored staging)

section Line

variable (laid : layout json staging (count + 1) = .ok l) (stands : Stands disk (count + 1) l)
  (few : stored.length < 2 ^ 63) (small : count + 2 < 2 ^ 63)

include whole laid in
theorem reader_manifest : l.reader.manifest.toEpochManifest =
    ⟨count + 1, schema, cfg.crypto.keyBits, geometryFrom cfg⟩ := by
  obtain ⟨_, _, _, _, described, _⟩ := layout_eq_ok.1 laid
  rw [show l.reader.manifest = _ from described, describe, whole.schema, whole.keyBits, whole.geometry]
  rfl

include words named counted whole laid stands few small

theorem opens_of_short (root : Bytes) (short : Short l) :
    runCall (openCurrent root json) disk = (.ok l.reader, disk) := by
  rw [openCurrent_of_held (counted.held (by omega))]
  exact stands.opens root laid (legible_of_short words named whole laid few (by omega) short)

/-- **A line that is inserted** is stored as a row that fits, and the epoch before it could be
opened. -/
theorem insertLine_needs {result : InsertResult}
    (run : runCall (insertRowAndPublish root json lib (csvCells schema header line)) disk =
      (.ok result, disk')) :
    Short l ∧ ∃ row new, Keeps lib cfg schema header line row ∧
      (baseOf cfg schema).Extends (stored ++ [row]) new ∧ Fits64 new ∧ Counted disk' (count + 2) ∧
      HoldsEpoch json disk' (count + 2) new := by
  rcases insert_cases root json lib disk (csvCells schema header line) with
    ⟨reader, new, l', published, opened, staged, able, placed, inserted⟩ | ⟨_, _, failed, _⟩
  swap
  · cases run.symm.trans failed
  cases run.symm.trans inserted
  have short : Short l := by
    rw [openCurrent_of_held (counted.held (by omega))] at opened
    exact short_of_opened stands opened
  cases (opens_of_short words named counted whole laid stands few small root short).symm.trans opened
  rw [counted.derived (by omega)] at able placed
  rw [copyRows_reader laid, reader_manifest whole laid] at staged
  obtain ⟨schema_, keyBits, geometry, values, match_, record, parsed, first, second, rows⟩ :=
    stageInsert_eq_ok staged
  have grown : Counted published (count + 2) := counted.published placed
  have stays := @Counted.pruned _ _ kInsertEpochRetention grown (by decide) (by omega)
  refine ⟨short, ⟨match_, record⟩, new, ⟨_, ⟨length_map _, values, parsed, rfl⟩, ?_⟩,
    ⟨schema_, keyBits, geometry, by rw [rows, whole.rows, append_assoc]⟩,
    fits64_of_layout able.laid, stays, ?_⟩
  · exact bind_eq_ok.2 ⟨match_, first, bind_eq_ok.2 ⟨record, second, rfl⟩⟩
  · exact HoldsEpoch.of_lookup ⟨l', able.laid, placed.epoch⟩ (prune_lookup_of_present stays.there)

include valid in
/-- **One line is inserted** if the epoch before it can be opened and the line is stored as a row
that fits. -/
theorem insertLine_runs (root : Bytes) (short : Short l) {new : StagingEpoch}
    (keeps : Keeps lib cfg schema header line row)
    (grown : (baseOf cfg schema).Extends (stored ++ [row]) new) (fits : Fits64 new) :
    ∃ result disk', runCall (insertRowAndPublish root json lib (csvCells schema header line)) disk =
      (.ok result, disk') := by
  obtain ⟨typedRow, typed, encoded⟩ := keeps
  have free : disk.dirs.lookup (.epoch (derived root disk)) = none := by
    rw [counted.derived (by omega)]
    refine not_present_iff.1 fun there => ?_
    have := counted.bound _ there
    omega
  have stored_ : ∀ row ∈ staging.rows, (baseOf cfg schema).Fits row := fun row listed =>
    (whole.fits row).1 ⟨staging.match_length row listed, staging.payload_length row listed⟩
  obtain ⟨staged, staging_, extended⟩ := @stageInsert_of_typed lib
    ⟨count + 1, schema, cfg.crypto.keyBits, geometryFrom cfg⟩ _ _ _ _ valid stored_ typed encoded
  have rows : staging.rows = stored := whole.rows
  rw [rows] at extended
  cases extends_unique extended grown
  rw [← reader_manifest whole laid, ← copyRows_reader laid] at staging_
  obtain ⟨_, _, _, _, done⟩ := insert_succeeds
    (opens_of_short words named counted whole laid stands few small root short) staging_ fits free
  exact ⟨_, _, done⟩

end Line

variable {rest : List Bytes} (holds : HoldsEpoch json disk (count + 1) staging)
  (few : stored.length + rest.length < 2 ^ 63) (small : count + 1 + rest.length < 2 ^ 63)
include words named counted whole holds few small

/-- **Lines that are inserted one by one** are stored as rows that fit, and every epoch on the way
could be opened. -/
theorem insertLines_needs
    (run : runCall (insertLines root json lib schema header rest) disk = (.ok (), disk')) :
    ∃ more new version, Forall₂ (Keeps lib cfg schema header) rest more ∧
      (baseOf cfg schema).Extends (stored ++ more) new ∧ Fits64 new ∧
      ShortBefore json cfg schema stored more (count + 1) ∧ held root disk' = .ok version ∧
      HoldsEpoch json disk' version new := by
  obtain ⟨l, laid, stands⟩ := holds
  induction rest generalizing disk count stored staging l with
  | nil =>
    cases run
    refine ⟨[], staging, count + 1, .nil, ?_, fits64_of_layout laid, fun j impossible =>
      absurd impossible (Nat.not_lt_zero j), counted.held (by omega), l, laid, stands⟩
    rwa [append_nil]
  | cons line rest ih =>
    rw [length_cons] at few small
    rw [insertLines] at run
    rcases inserted : runCall (insertRowAndPublish root json lib (csvCells schema header line)) disk
      with ⟨status | result, disk₁⟩
    · rw [runCall_bind_error _ inserted] at run
      cases run
    rw [runCall_bind_ok _ inserted] at run
    obtain ⟨short, row, new, keeps, grown, _, counted₁, l₁, laid₁, stands₁⟩ :=
      insertLine_needs words named counted whole laid stands (by omega) (by omega) inserted
    have stored_ : (stored ++ [row]).length = stored.length + 1 := by simp
    obtain ⟨more, last, version, keeps', whole', fits, shorts, current⟩ :=
      ih counted₁ grown (by omega) (by omega) run l₁ laid₁ stands₁
    rw [append_assoc] at whole'
    refine ⟨row :: more, last, version, .cons keeps keeps', whole', fits, shortBefore_cons.2 ⟨?_, shorts⟩,
      current⟩
    intro st l' step laid'
    cases extends_unique step whole
    cases laid.symm.trans laid'
    exact short

include valid in
/-- **Lines are inserted one by one** if they are stored as rows that fit, and every epoch on the way
can be opened. -/
theorem insertLines_runs (root : Bytes) {more : List Row} {new : StagingEpoch}
    (keeps : Forall₂ (Keeps lib cfg schema header) rest more)
    (grown : (baseOf cfg schema).Extends (stored ++ more) new) (fits : Fits64 new)
    (shorts : ShortBefore json cfg schema stored more (count + 1)) :
    ∃ disk', runCall (insertLines root json lib schema header rest) disk = (.ok (), disk') := by
  obtain ⟨l, laid, stands⟩ := holds
  induction keeps generalizing disk count stored staging l with
  | nil => exact ⟨disk, rfl⟩
  | @cons line row rest more first _ ih =>
    rw [length_cons] at few small
    obtain ⟨short, shorts'⟩ := shortBefore_cons.1 shorts
    rw [← singleton_append, ← append_assoc] at grown
    obtain ⟨next, step⟩ := extends_front grown
    obtain ⟨result, disk₁, inserted⟩ := insertLine_runs words named valid counted whole laid stands
      (by omega) (by omega) root (short staging l whole laid) first step (extends_fits64 step grown fits)
    obtain ⟨_, row', next', first', step', _, counted₁, l₁, laid₁, stands₁⟩ :=
      insertLine_needs words named counted whole laid stands (by omega) (by omega) inserted
    cases keeps_unique first first'
    cases extends_unique step step'
    have stored_ : (stored ++ [row]).length = stored.length + 1 := by simp
    obtain ⟨disk', others⟩ :=
      ih counted₁ step (by omega) (by omega) grown shorts' l₁ laid₁ stands₁
    refine ⟨disk', ?_⟩
    rw [insertLines, runCall_bind_ok _ inserted]
    exact others

end Inserts

end Stored

/-! ## Both ways -/

/-- The current epochs have the same rows, byte for byte. -/
def SameRows (root : Bytes) (json : JsonLibrary) (disk disk' : RepoDisk) : Prop :=
  ∃ version version' staging staging', held root disk = .ok version ∧
    HoldsEpoch json disk version staging ∧ held root disk' = .ok version' ∧
    HoldsEpoch json disk' version' staging' ∧ staging.rows = staging'.rows

/-- The file and its parts are loaded with the same outcome. -/
structure Agree (root : Bytes) (json : JsonLibrary) (lib : Library) (cfg : Config) (schema : Schema)
    (csvPath content part : Bytes) (header : List Bytes) (rest : List Bytes) : Prop where
  succeed : (∃ version disk, runCall (loadFile root json lib cfg schema csvPath content) empty =
      (.ok version, disk)) ↔
    ∃ disk, runCall (loadAndInsert root json lib cfg schema csvPath part header rest) empty =
      (.ok (), disk)
  rows : ∀ version disk disk',
    runCall (loadFile root json lib cfg schema csvPath content) empty = (.ok version, disk) →
    runCall (loadAndInsert root json lib cfg schema csvPath part header rest) empty =
      (.ok (), disk') → SameRows root json disk disk'

section Agree

variable {root : Bytes} {json : JsonLibrary} {lib : Library} {cfg : Config} {schema : Schema}
  {csvPath content part headerLine : Bytes} {lines : List Bytes} {k : Nat}

theorem dataLines_take (lines : List Bytes) (k : Nat) :
    dataLines ((dataLines lines).take k) = (dataLines lines).take k := by
  refine filter_eq_self.2 fun line listed => ?_
  exact (mem_filter.1 (mem_of_mem_take listed)).2

theorem runCall_loadAndInsert {header rest : List Bytes} {disk' : RepoDisk} :
    runCall (loadAndInsert root json lib cfg schema csvPath part header rest) empty =
        (.ok (), disk') ↔
      ∃ version disk, runCall (loadFile root json lib cfg schema csvPath part) empty =
          (.ok version, disk) ∧
        runCall (insertLines root json lib schema header rest) disk = (.ok (), disk') := by
  rw [loadAndInsert]
  rcases loaded : runCall (loadFile root json lib cfg schema csvPath part) empty with
    ⟨status | version, disk⟩
  · rw [runCall_bind_error _ loaded]
    constructor
    · rintro ⟨⟩
    · rintro ⟨_, _, ⟨⟩, _⟩
  · rw [runCall_bind_ok _ loaded]
    constructor
    · exact fun run => ⟨version, disk, rfl, run⟩
    · rintro ⟨_, _, ⟨⟩, run⟩
      exact run

section Stepwise

variable (valid : schema.validate = .ok ()) (words : Words cfg) (named : Named json schema)
  (heads : Heads schema (csvHeader headerLine)) (width : Wide (csvHeader headerLine) (dataLines lines))
  (few : (dataLines lines).length < 2 ^ 63) (some_ : 1 ≤ k) (within_ : k ≤ (dataLines lines).length)
  (readPart : getLines part = headerLine :: (dataLines lines).take k)
include valid words named heads width few some_ within_ readPart

/-- **A file that is loaded row by row** could be loaded at once, and every epoch that an insert
opens on the way has a short manifest. -/
theorem loadAndInsert_needs {disk : RepoDisk}
    (run : runCall (loadAndInsert root json lib cfg schema csvPath part (csvHeader headerLine)
      ((dataLines lines).drop k)) empty = (.ok (), disk)) :
    ∃ stored staging version,
      Loads lib cfg schema (csvHeader headerLine) (dataLines lines) stored staging ∧
      ShortBefore json cfg schema (stored.take k) (stored.drop k) 1 ∧
      held root disk = .ok version ∧ HoldsEpoch json disk version staging := by
  have front := dataLines_take lines k
  obtain ⟨version, disk₁, first, second⟩ := runCall_loadAndInsert.1 run
  obtain ⟨stored, staging, loads, counted, holds⟩ := load_needs valid readPart heads
    (fun line listed => width line (mem_of_mem_take (front ▸ listed))) first
  rw [front] at loads
  have length : stored.length = k := by
    rw [← loads.keeps.length_eq, length_take]
    omega
  have restLength : ((dataLines lines).drop k).length = (dataLines lines).length - k := length_drop
  obtain ⟨more, new, version, keeps, whole, fits, shorts, current⟩ :=
    @insertLines_needs root json lib cfg schema (csvHeader headerLine) disk₁ disk 0 staging stored words
      named counted loads.whole _ holds (by omega) (by omega) second
  have joined := rel_append loads.keeps keeps
  simp only [take_append_drop] at joined
  refine ⟨stored ++ more, new, version, ⟨loads.valid, joined, whole, fits⟩, ?_, current⟩
  rwa [take_left' length, drop_left' length]

/-- **Row by row** a file is loaded if it is loaded at once and the epochs can be opened. -/
theorem loadAndInsert_runs (root csvPath : Bytes) {stored : List Row} {staging : StagingEpoch}
    (loads : Loads lib cfg schema (csvHeader headerLine) (dataLines lines) stored staging)
    (shorts : ShortBefore json cfg schema (stored.take k) (stored.drop k) 1) :
    ∃ disk, runCall (loadAndInsert root json lib cfg schema csvPath part (csvHeader headerLine)
      ((dataLines lines).drop k)) empty = (.ok (), disk) := by
  obtain ⟨accepted, keeps, whole, fits⟩ := loads
  have front := dataLines_take lines k
  have length := keeps.length_eq
  have lengths : (stored.take k).length + ((dataLines lines).drop k).length = stored.length := by
    rw [length_take, length_drop]
    omega
  rw [← take_append_drop k stored] at whole
  obtain ⟨first, step⟩ := extends_front whole
  obtain ⟨disk₁, done, counted, holds⟩ := load_runs valid readPart heads
    (fun line listed => width line (mem_of_mem_take (front ▸ listed))) root csvPath
    ⟨accepted, front.symm ▸ forall₂_take k keeps, step, extends_fits64 step whole fits⟩
  obtain ⟨disk, second⟩ := @insertLines_runs json lib cfg schema (csvHeader headerLine) disk₁ 0 first _
    words named accepted counted step _ holds (by omega) (by rw [length_drop]; omega) root _ _
    (forall₂_drop k keeps) whole fits shorts
  exact ⟨disk, runCall_loadAndInsert.2 ⟨1, disk₁, done, second⟩⟩

end Stepwise

/-- Under a declared schema every epoch on the way can be opened. -/
theorem shortBefore_of_declared {ddl : Bytes} (declared : parseCreateTable ddl = .ok schema)
    (stored more : List Row) (version : Nat) : ShortBefore json cfg schema stored more version :=
  fun _ _ _ _ step laid => declared_short (parseCreateTable_bounded declared) step.schema laid

/-- A table name that fills the manifest alone keeps the inserts from opening the table. -/
theorem not_shortBefore (long : kMaxManifestBytes < schema.table.length)
    {header : List Bytes} {lines : List Bytes}
    (loads : Loads lib cfg schema header lines stored staging) (within_ : k < stored.length) :
    ¬ ShortBefore json cfg schema (stored.take k) (stored.drop k) 1 := by
  intro shorts
  have whole := loads.whole
  rw [← take_append_drop k stored] at whole
  obtain ⟨first, step⟩ := extends_front whole
  obtain ⟨l, laid⟩ := layout_exists json ((extends_valid step).trans loads.valid)
    (extends_fits64 step whole loads.fits) 1
  obtain ⟨_, _, _, _, described, _, printed⟩ := layout_eq_ok.1 laid
  have known : l.manifest.schema = schema := by
    rw [described, ← show first.schema = schema from step.schema]
    rfl
  have filled := table_le_serialize json l.manifest
  have short : Short l := by
    refine shorts 0 ?_ first l ?_ laid
    · rw [length_drop]
      omega
    · rw [take_zero, append_nil]
      exact step
  rw [known, ← printed] at filled
  rw [Short] at short
  omega

/-- **When bulk load and row inserts agree.**  For every configuration, every valid schema of names the
JSON library can print, and every CSV file with an accepted header and lines of its width: the file is
loaded at once with the same outcome as its first `k` lines and then the others one by one, exactly if
every epoch that an insert has to open on the way has a manifest within the size limit. -/
theorem loads_agree_iff (root : Bytes) (lib : Library) (csvPath : Bytes)
    (valid : schema.validate = .ok ()) (words : Words cfg) (named : Named json schema)
    (read : getLines content = headerLine :: lines) (heads : Heads schema (csvHeader headerLine))
    (width : ∀ line ∈ dataLines lines, (strSplit 44 line).length = (csvHeader headerLine).length)
    (few : (dataLines lines).length < 2 ^ 63) (some_ : 1 ≤ k) (within_ : k ≤ (dataLines lines).length)
    (readPart : getLines part = headerLine :: (dataLines lines).take k) :
    Agree root json lib cfg schema csvPath content part (csvHeader headerLine)
        ((dataLines lines).drop k) ↔
      ∀ stored staging, Loads lib cfg schema (csvHeader headerLine) (dataLines lines) stored staging →
        ShortBefore json cfg schema (stored.take k) (stored.drop k) 1 := by
  have runs := @loadAndInsert_runs json lib cfg schema part headerLine lines k valid words named
    heads width few some_ within_ readPart root csvPath
  have needs := @loadAndInsert_needs root json lib cfg schema csvPath part headerLine lines k valid
    words named heads width few some_ within_ readPart
  constructor
  · intro agree stored staging loads
    obtain ⟨disk, run, _⟩ := load_runs valid read heads width root csvPath loads
    obtain ⟨disk', steps⟩ := agree.succeed.1 ⟨1, disk, run⟩
    obtain ⟨stored', staging', _, loads', shorts, _⟩ := needs steps
    cases keeps_unique.forall₂ loads.keeps loads'.keeps
    exact shorts
  · intro shorts
    refine ⟨⟨?_, ?_⟩, fun version disk disk' first second => ?_⟩
    · rintro ⟨version, disk, run⟩
      obtain ⟨stored, staging, loads, _⟩ := load_needs valid read heads width run
      exact runs loads (shorts stored staging loads)
    · rintro ⟨disk, run⟩
      obtain ⟨stored, staging, _, loads, _⟩ := needs run
      obtain ⟨disk', done, _⟩ := load_runs valid read heads width root csvPath loads
      exact ⟨1, disk', done⟩
    · obtain ⟨stored, staging, loads, counted, holds⟩ := load_needs valid read heads width first
      obtain ⟨stored', staging', version', loads', _, current, holds'⟩ := needs second
      cases keeps_unique.forall₂ loads.keeps loads'.keeps
      cases extends_unique loads.whole loads'.whole
      exact ⟨1, version', staging, staging, counted.held (by decide), holds, current, holds', rfl⟩

/-- The two lines of the file, under any name of the table. -/
theorem loads_two (lib : Library) (table : Bytes) (nonempty : table.isEmpty = false) :
    let schema : Schema := ⟨table, oneRowSchema.columns⟩
    schema.validate = .ok () ∧
    ∃ stored staging, Loads lib {} schema [bytes "id"] [bytes "7", bytes "9"] stored staging := by
  intro schema
  have valid : schema.validate = .ok () := by
    simp only [schema, Schema.validate, nonempty]
    rfl
  have kept : ∀ (cell : Bytes) (key : Int) (stored : Row),
      simpleAtoi64 (stripAsciiWhitespace cell) = some key →
      strSplit 44 cell = [cell] →
      encodeRow oneRowSchema 16 128 ⟨.int (Int64.ofInt key), []⟩ = .ok stored →
      Keeps lib {} schema [bytes "id"] cell stored := by
    intro cell key stored number single encoded
    have cells : csvCells schema [bytes "id"] cell = [cell] := by
      rw [csvCells, single]
      rfl
    refine ⟨⟨.int (Int64.ofInt key), []⟩, ⟨by rw [cells]; rfl, [.int (Int64.ofInt key)], ?_, rfl⟩, encoded⟩
    rw [cells]
    simp only [schema, parseCells, oneRowSchema, zip_cons_cons, mapM_cons, parseValue,
      number]
    rfl
  have first := kept (bytes "7") 7 ⟨[7, 0], replicate 128 0⟩ (by decide +kernel)
    (by decide +kernel) (by decide +kernel)
  have second := kept (bytes "9") 9 ⟨[9, 0], replicate 128 0⟩ (by decide +kernel)
    (by decide +kernel) (by decide +kernel)
  have stride : matchRecordBytes schema 16 = 2 := show matchRecordBytes oneRowSchema 16 = 2 by decide
  have fits : ∀ row ∈ [(⟨[7, 0], replicate 128 0⟩ : Row), ⟨[9, 0], replicate 128 0⟩],
      (baseOf {} schema).Fits row := by
    intro row listed
    rcases mem_pair.1 listed with rfl | rfl <;> exact ⟨stride.symm, length_replicate⟩
  obtain ⟨staging, _, whole⟩ := appendRows_of_fits fits
  refine ⟨valid, _, staging, ?_, .cons first (.cons second .nil), whole, ?_⟩
  · exact validate_iff.2 ⟨valid, (show 1 ≤ 16 ∧ 16 ≤ 64 by decide),
      (show (geometryFrom {}).validate = .ok () by decide)⟩
  · have rows : staging.rows.length = 2 := by rw [whole.rows]; rfl
    rw [Fits64, rows, whole.schema, whole.keyBits, whole.geometry,
      show matchRecordBytes (baseOf {} schema).schema (baseOf {} schema).keyBits = 2 from stride]
    exact (show kSegmentHeaderSize + 2 * 2 < 2 ^ 64 ∧ kSegmentHeaderSize + 2 * 128 < 2 ^ 64 by decide)

/-- The lines of the file, and those of its first part. -/
theorem twoLines_read : getLines (bytes "id\n7\n9\n") = bytes "id" :: [bytes "7", bytes "9"] ∧
    dataLines [bytes "7", bytes "9"] = [bytes "7", bytes "9"] ∧
    getLines (bytes "id\n7\n") = bytes "id" :: [bytes "7"] ∧
    csvHeader (bytes "id") = [bytes "id"] ∧
    (∀ column ∈ oneRowSchema.columns, columnIndex (csvHeader (bytes "id")) column.name ≠ none) ∧
    ∀ line ∈ [bytes "7", bytes "9"], (strSplit 44 line).length = (csvHeader (bytes "id")).length := by
  decide +kernel

/-- The file of two lines is loaded, and so is its first line with the other one inserted. -/
theorem loads_agree_two : Agree (bytes "/t") exact strictLibrary {} oneRowSchema
    (bytes "t.csv") (bytes "id\n7\n9\n") (bytes "id\n7\n") [bytes "id"] [bytes "9"] ∧
    ∃ disk, runCall (loadAndInsert (bytes "/t") exact strictLibrary {} oneRowSchema
      (bytes "t.csv") (bytes "id\n7\n") [bytes "id"] [bytes "9"]) empty = (.ok (), disk) := by
  obtain ⟨read, data, part, header, heads, width⟩ := twoLines_read
  obtain ⟨valid, stored, staging, loads⟩ := loads_two strictLibrary (bytes "t") (by decide)
  rw [← header, ← data] at loads
  have both := @loads_agree_iff exact {} oneRowSchema (bytes "id\n7\n9\n")
    (bytes "id\n7\n") (bytes "id") [bytes "7", bytes "9"] 1 (bytes "/t") strictLibrary (bytes "t.csv")
    valid ⟨by decide, by decide⟩ (declared_named (parseCreateTable_bounded oneRow_parsed) _)
    read heads (by rw [data]; exact width) (by rw [data]; decide) (by decide) (by rw [data]; decide)
    (by rw [data]; exact part)
  have agree := both.2 fun _ _ _ => shortBefore_of_declared oneRow_parsed _ _ _
  obtain ⟨disk, run, _⟩ :=
    load_runs valid read heads (by rw [data]; exact width) (bytes "/t") (bytes "t.csv") loads
  have done := agree.succeed.1 ⟨1, disk, run⟩
  rw [header, data] at agree done
  exact ⟨agree, done⟩

/-- **A long name**: with a table name of a megabyte the file is loaded at once, but its second
line cannot be inserted behind the first. -/
theorem long_name_diverges : ∃ schema : Schema,
    schema = ⟨replicate (kMaxManifestBytes + 1) 97, [⟨bytes "id", .eq, .int⟩]⟩ ∧
    schema.validate = .ok () ∧
    (∃ version disk, runCall (loadFile (bytes "/t") exact strictLibrary {} schema (bytes "t.csv")
      (bytes "id\n7\n9\n")) empty = (.ok version, disk)) ∧
    ∀ disk, runCall (loadAndInsert (bytes "/t") exact strictLibrary {} schema
      (bytes "t.csv") (bytes "id\n7\n") [bytes "id"] [bytes "9"]) empty ≠ (.ok (), disk) := by
  obtain ⟨read, data, part, header, heads, width⟩ := twoLines_read
  -- nothing below looks into the name
  obtain ⟨table, same⟩ : ∃ table : Bytes, table = replicate (kMaxManifestBytes + 1) 97 := ⟨_, rfl⟩
  have length : table.length = kMaxManifestBytes + 1 := by rw [same, length_replicate]
  have nonempty : table.isEmpty = false := by
    rw [isEmpty_eq_false_iff, ← length_pos_iff, length]
    exact Nat.succ_pos _
  obtain ⟨valid, stored, staging, loads⟩ := loads_two strictLibrary table nonempty
  rw [← header, ← data] at loads
  refine ⟨⟨table, oneRowSchema.columns⟩, by rw [same]; rfl, valid, ?_, fun disk run => ?_⟩
  · obtain ⟨disk, run, _⟩ := load_runs valid read heads (by rw [data]; exact width) _ _ loads
    exact ⟨1, disk, run⟩
  · have named : Named exact ⟨table, oneRowSchema.columns⟩ := by
      refine ⟨fun c member => ?_, by simp only [exact, Json.Ascii]; decide +kernel⟩
      rw [same] at member
      rw [eq_of_mem_replicate member]
      decide
    have stepwise := @loadAndInsert_needs (bytes "/t") exact strictLibrary {}
      ⟨table, oneRowSchema.columns⟩ (bytes "t.csv") (bytes "id\n7\n") (bytes "id")
      [bytes "7", bytes "9"] 1 valid ⟨by decide, by decide⟩ named heads (by rw [data]; exact width)
      (by rw [data]; decide) (by decide) (by rw [data]; decide) (by rw [data]; exact part) disk
    have rest : (dataLines [bytes "7", bytes "9"]).drop 1 = [bytes "9"] := by rw [data]; rfl
    rw [rest, header] at stepwise
    obtain ⟨stored', staging', _, loads', shorts, _⟩ := stepwise run
    refine not_shortBefore ?_ loads' ?_ shorts
    · exact length ▸ Nat.lt_succ_self _
    · rw [← loads'.keeps.length_eq, data]
      decide

end Agree

end OpaqueDb.Server.Writers
