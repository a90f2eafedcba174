/-
# Server.Writers -- the calls that write a table

`AdminService.publish`, `insertRowAndPublish` and `AdminService.rollbackEpoch` as programs
over the files of one repository.  The first two derive the version they publish from
`CURRENT`: one more than it holds, or 1 when it cannot be read.

Undisturbed, a publishing of a valid staged epoch succeeds exactly if that version is free
(`publish_ok_iff`), and an insert publishes the rows of the current epoch and one more or changes
no epoch and no pointer (`insert_cases`).
-/
import OpaqueDb.Server.Ingest
import OpaqueDb.Storage.Retention

namespace OpaqueDb.Server.Writers

open OpaqueDb.Core Theory Storage List Storage.StagingEpoch Storage.JsonLibrary

set_option autoImplicit false

/-! ## The programs -/

/-- A call whose result nobody looks at. -/
def ignored {α : Type} (call : FileCall α) : FileCall Unit :=
  ExceptT.mk (call.run >>= fun _ => Prog.done (.ok ()))

def nextVersion (root : Bytes) : FileCall Nat :=
  ExceptT.mk ((currentVersion root).run >>= fun current => Prog.done (.ok (after current)))

/-- Every stored row, as it is. -/
def copyRows (reader : EpochReader) (staging : StagingEpoch) : StatusOr StagingEpoch :=
  (range reader.rowCount).foldlM (fun staging r => do
    let match_ ← reader.matchRecord r
    let payload ← reader.payloadRecord r
    staging.appendRow ⟨match_, payload⟩) staging

def kInsertEpochRetention : Nat := 8

section Programs

variable (root : Bytes) (json : JsonLibrary) (lib : Library)

def insertRowAndPublish (cells : List Bytes) : FileCall InsertResult := do
  let reader ← openCurrent root json
  let staging ← liftStatus
    (stageInsert lib reader.manifest.toEpochManifest (copyRows reader) cells)
  let next ← nextVersion root
  publish root json staging next
  ignored (prune kInsertEpochRetention)
  return ⟨next, reader.rowCount + 1⟩

def AdminService.publish (staging : StagingEpoch) : FileCall Nat := do
  let next ← nextVersion root
  Storage.publish root json staging next
  return next

def AdminService.rollbackEpoch (version : Nat) : FileCall Unit :=
  rollback root json version

end Programs

/-! ## Staging -/

variable {version : Nat} {reader : EpochReader}

variable {l : Layout}

section Staging

variable {json : JsonLibrary} {lib : Library} {manifest : EpochManifest} {cells : List Bytes}
  {staging : StagingEpoch}

theorem copyRows_reader (laid : layout json staging version = .ok l) :
    copyRows l.reader = fun start => staging.rows.foldlM appendRow start := by
  -- the first `n` records are the first `n` rows
  have copied : ∀ n ≤ staging.rows.length, ∀ start,
      (range n).foldlM (fun staging r => do
        let match_ ← l.reader.matchRecord r
        let payload ← l.reader.payloadRecord r
        staging.appendRow ⟨match_, payload⟩) start =
      (staging.rows.take n).foldlM appendRow start := by
    intro n
    induction n with
    | zero => exact fun _ _ => rfl
    | succ n ih =>
      intro inside start
      have known := getElem?_eq_getElem inside
      obtain ⟨match_, payload⟩ := reader_rows laid known
      rw [range_succ, foldlM_append, ih (by omega), take_add_one, known, foldlM_append]
      simp [match_, payload, bind, Except.bind]
  funext start
  rw [copyRows, (reader_shows laid).count, copied _ le_rfl, take_length]

/-- What a staged insert consists of. -/
structure Staged (lib : Library) (manifest : EpochManifest) (cells : List Bytes) (rows : List Row)
    (staging : StagingEpoch) : Prop where
  schema : staging.schema = manifest.schema
  keyBits : staging.keyBits = manifest.keyBits
  geometry : staging.geometry = manifest.geometry
  appends : ∃ values match_ record,
    parseCells lib manifest.schema.columns cells = .ok values ∧
    encodeMatchRecord manifest.schema (rowOf manifest.schema.columns values).key
      (rowOf manifest.schema.columns values).payload manifest.keyBits = .ok match_ ∧
    encodeRecord manifest.schema (rowOf manifest.schema.columns values).payload
      manifest.geometry.recordBytes = .ok record ∧
    staging.rows = rows ++ [⟨match_, record⟩]

variable {rows : List Row}

theorem stageInsert_eq_ok
    (staged : stageInsert lib manifest (fun start => rows.foldlM appendRow start) cells =
      .ok staging) : Staged lib manifest cells rows staging := by
  obtain ⟨copied, row, stored, _, copying, ⟨_, values, parsed, rfl⟩, encoded, appended⟩ :=
    stageInsert_inv staged
  obtain ⟨match_, first, encoded₁⟩ := bind_eq_ok.1 encoded
  obtain ⟨record, second, encoded₂⟩ := bind_eq_ok.1 encoded₁
  cases pure_eq_ok.1 encoded₂
  have whole := (appendRows_eq_ok copying).trans (appendRow_eq_ok appended)
  exact ⟨whole.schema, whole.keyBits, whole.geometry, values, match_, record, parsed, first, second,
    whole.rows⟩

/-- A typed row that can be encoded is staged behind the others. -/
theorem stageInsert_of_typed {row : IngestRow} {stored : Row}
    (valid : (empty manifest.schema manifest.keyBits manifest.geometry).validate = .ok ())
    (fits : ∀ row ∈ rows,
      (empty manifest.schema manifest.keyBits manifest.geometry).Fits row)
    (typed : Typed lib manifest.schema cells row)
    (encoded : encodeRow manifest.schema manifest.keyBits manifest.geometry.recordBytes row =
      .ok stored) :
    ∃ new, stageInsert lib manifest (fun start => rows.foldlM appendRow start) cells =
        .ok new ∧
      (empty manifest.schema manifest.keyBits manifest.geometry).Extends
        (rows ++ [stored]) new := by
  obtain ⟨width, values, parsed, rfl⟩ := typed
  obtain ⟨match_, first, encoded₁⟩ := bind_eq_ok.1 encoded
  obtain ⟨record, second, encoded₂⟩ := bind_eq_ok.1 encoded₁
  cases pure_eq_ok.1 encoded₂
  obtain ⟨copied, copying, step⟩ := appendRows_of_fits fits
  obtain ⟨new, appended, one⟩ := appendRow_of_fits ((step.fits ⟨match_, record⟩).2
    (encodeRow_fits encoded))
  refine ⟨new, ?_, step.trans one⟩
  have primary : matchKey manifest.schema ≠ none := by
    obtain ⟨schema, _⟩ := validate_iff.1 valid
    have single : (manifest.schema.columns.countP fun column => column.encoding == .eq) = 1 :=
      validate_single schema
    intro absent
    have none_ := find?_eq_none.1 absent
    rw [countP_eq_zero.2 none_] at single
    cases single
  obtain ⟨key, known⟩ := Option.ne_none_iff_exists'.1 primary
  simp only [stageInsert, known, if_neg (not_not.2 width), parsed, valid, copying, first, second, bind,
    Except.bind]
  exact appended

/-- A staged insert passes the check of `Publish`. -/
theorem stageInsert_valid {copy : StagingEpoch → StatusOr StagingEpoch}
    (copies : ∀ start copied, copy start = .ok copied → ∃ rows, start.Extends rows copied)
    (staged : stageInsert lib manifest copy cells = .ok staging) : staging.validate = .ok () := by
  obtain ⟨copied, row, stored, valid, copying, _, _, appended⟩ := stageInsert_inv staged
  obtain ⟨rows, step⟩ := copies _ _ copying
  have whole := step.trans (appendRow_eq_ok appended)
  rw [validate_iff, whole.schema, whole.keyBits, whole.geometry]
  exact validate_iff.1 valid

theorem copyRows_extends {start copied : StagingEpoch}
    (copying : copyRows reader start = .ok copied) : ∃ rows, start.Extends rows copied := by
  unfold copyRows at copying
  revert copying
  generalize range reader.rowCount = indices
  induction indices generalizing start with
  | nil =>
    intro copying
    cases pure_eq_ok.1 copying
    exact ⟨[], .refl _⟩
  | cons r rest ih =>
    intro copying
    obtain ⟨next, first, rest⟩ := bind_eq_ok.1 copying
    obtain ⟨match_, _, first₁⟩ := bind_eq_ok.1 first
    obtain ⟨payload, _, appended⟩ := bind_eq_ok.1 first₁
    obtain ⟨rows, step⟩ := ih rest
    exact ⟨_, (appendRow_eq_ok appended).trans step⟩

end Staging

/-! ## Undisturbed writers -/

section Runs

variable {root : Bytes} {json : JsonLibrary} {lib : Library} {disk : RepoDisk}

/-- The version `CURRENT` holds. -/
def held (root : Bytes) (disk : RepoDisk) : StatusOr Nat :=
  currentOf root (disk.files.read .current)

theorem held_of_pointer {version : Nat} (pointer : PointsTo disk version)
    (small : version < 2 ^ 64) : held root disk = .ok version := by
  have read := pointer.currentVersion root small
  rw [runCall_currentVersion] at read
  exact congrArg Prod.fst read

theorem openCurrent_of_held (current : held root disk = .ok version) :
    runCall (openCurrent root json) disk = runCall (openVersion root json version) disk := by
  rw [runCall_openCurrent, show currentOf root (disk.files.read .current) = _ from current]
  show ((runCall (openVersion root json version) disk).1, disk) = _
  rw [runCall_openVersion]

/-- The version a writer derives on this disk. -/
def derived (root : Bytes) (disk : RepoDisk) : Nat :=
  after (held root disk)

theorem runCall_nextVersion (root : Bytes) (disk : RepoDisk) :
    runCall (nextVersion root) disk = (.ok (derived root disk), disk) := by
  have read := runCall_currentVersion root disk
  show Prog.run Disk.exec ((currentVersion root).run >>= _) disk = _
  rw [Prog.run_bind, show Prog.run Disk.exec (currentVersion root).run disk = _ from read]
  rfl

theorem runCall_ignored {α : Type} (call : FileCall α) (disk : RepoDisk) :
    runCall (ignored call) disk = (.ok (), (runCall call disk).2) := by
  show Prog.run Disk.exec (call.run >>= _) disk = _
  rw [Prog.run_bind]
  rfl

theorem runCall_adminPublish (staging : StagingEpoch) :
    runCall (AdminService.publish root json staging) disk =
      ((runCall (publish root json staging (derived root disk)) disk).1.map fun _ => derived root disk,
        (runCall (publish root json staging (derived root disk)) disk).2) := by
  rw [AdminService.publish, runCall_bind_ok _ (runCall_nextVersion root disk), runCall_bind]
  rcases (runCall (publish root json staging (derived root disk)) disk).1 with status | _ <;> rfl

variable {staging : StagingEpoch}

/-- An insert whose row can be staged publishes it, and then prunes. -/
theorem runCall_insert {cells : List Bytes}
    (opened : runCall (openCurrent root json) disk = (.ok reader, disk))
    (staged : stageInsert lib reader.manifest.toEpochManifest (copyRows reader) cells = .ok staging)
    : runCall (insertRowAndPublish root json lib cells) disk =
      match runCall (publish root json staging (derived root disk)) disk with
      | (.ok (), published) =>
        (.ok ⟨derived root disk, reader.rowCount + 1⟩,
          (runCall (prune kInsertEpochRetention) published).2)
      | (.error status, disk') => (.error status, disk') := by
  have lifted : runCall (liftStatus (stageInsert lib reader.manifest.toEpochManifest
      (copyRows reader) cells)) disk = (.ok staging, disk) := by
    rw [runCall_liftStatus, staged]
  rw [insertRowAndPublish, runCall_bind_ok _ opened, runCall_bind_ok _ lifted,
    runCall_bind_ok _ (runCall_nextVersion root disk)]
  rcases published : runCall (publish root json staging (derived root disk)) disk with ⟨status | _, disk'⟩
  · exact runCall_bind_error _ published _
  · rw [runCall_bind_ok _ published, runCall_bind_ok _ (runCall_ignored _ _)]
    rfl

variable {disk' : RepoDisk}

theorem openCurrent_disk {result : StatusOr EpochReader}
    (opened : runCall (openCurrent root json) disk = (result, disk')) : disk' = disk := by
  rw [runCall_openCurrent] at opened
  exact (congrArg Prod.snd opened).symm

/-- **An undisturbed insert** stages the rows of the current epoch and one more, publishes them and
prunes; or it fails and changes no epoch and no pointer. -/
theorem insert_cases (root : Bytes) (json : JsonLibrary) (lib : Library) (disk : RepoDisk)
    (cells : List Bytes) :
    (∃ reader staging l published,
      runCall (openCurrent root json) disk = (.ok reader, disk) ∧
      stageInsert lib reader.manifest.toEpochManifest (copyRows reader) cells = .ok staging ∧
      Publishable json disk staging (derived root disk) l ∧
      Published disk (derived root disk) l published ∧
      runCall (insertRowAndPublish root json lib cells) disk =
        (.ok ⟨derived root disk, reader.rowCount + 1⟩,
          (runCall (prune kInsertEpochRetention) published).2)) ∨
    ∃ status disk', runCall (insertRowAndPublish root json lib cells) disk = (.error status, disk') ∧
      SameEpochs disk disk' := by
  rcases opened : runCall (openCurrent root json) disk with ⟨status | reader, disk₁⟩
  · obtain rfl := openCurrent_disk opened
    exact Or.inr ⟨status, disk₁, runCall_bind_error _ opened _, .refl _⟩
  obtain rfl := openCurrent_disk opened
  rcases staged : stageInsert lib reader.manifest.toEpochManifest (copyRows reader) cells with
    status | staging
  · refine Or.inr ⟨status, disk₁, ?_, .refl _⟩
    rw [insertRowAndPublish, runCall_bind_ok _ opened]
    refine runCall_bind_error _ ?_ _
    rw [runCall_liftStatus, staged]
  have inserted := runCall_insert opened staged
  rcases runCall_publish root json disk₁ staging (derived root disk₁) with
    ⟨l, disk', able, run, published⟩ | ⟨_, status, disk', run, same⟩
  · rw [run] at inserted
    exact Or.inl ⟨reader, staging, l, disk', rfl, staged, able, published, inserted⟩
  · rw [run] at inserted
    exact Or.inr ⟨status, disk', inserted, same⟩

/-- A valid staged epoch is published exactly if its version is free. -/
theorem publish_ok_iff (valid : staging.validate = .ok ()) (fits : Fits64 staging) (version : Nat) :
    (runCall (publish root json staging version) disk).1 = .ok () ↔
      disk.dirs.lookup (.epoch version) = none := by
  rcases runCall_publish root json disk staging version with
    ⟨l, disk', able, run, _⟩ | ⟨unable, status, disk', run, _⟩
  · rw [run]
    exact ⟨fun _ => able.free, fun _ => rfl⟩
  · rw [run]
    refine ⟨nofun, fun free => ?_⟩
    obtain ⟨l, laid⟩ := layout_exists json valid fits version
    exact absurd ⟨valid, free, laid⟩ (unable l)

/-! ## One more row -/

/-- A table of the same definition as the one-row table. -/
structure LikeOneRow (staging : StagingEpoch) : Prop where
  schema : staging.schema = oneRowSchema
  keyBits : staging.keyBits = 8
  geometry : staging.geometry = oneRowGeometry

/-- Behind the rows of such a table, `9` can be inserted. -/
theorem stageInsert_nine (lib : Library) (like : LikeOneRow staging) (version : Nat) :
    ∃ new, stageInsert lib ⟨version, oneRowSchema, 8, oneRowGeometry⟩
      (fun start => staging.rows.foldlM appendRow start) [bytes "9"] = .ok new ∧
      LikeOneRow new ∧ new.rows.length = staging.rows.length + 1 := by
  obtain ⟨schema, keyBits, geometry⟩ := like
  have fits : ∀ row ∈ staging.rows,
      (empty oneRowSchema 8 oneRowGeometry).Fits row := by
    intro row listed
    have match_ := staging.match_length row listed
    have payload := staging.payload_length row listed
    rw [schema, keyBits] at match_
    rw [geometry] at payload
    exact ⟨match_, payload⟩
  have parsed : parseCells lib oneRowSchema.columns [bytes "9"] = .ok [.int 9] := by
    rfl
  have encoded : encodeRow oneRowSchema 8 oneRowGeometry.recordBytes
    (rowOf oneRowSchema.columns [.int 9]) = .ok ⟨[9], [0, 0, 0, 0]⟩ := by decide +kernel
  obtain ⟨new, staged, whole⟩ := @stageInsert_of_typed lib ⟨version, oneRowSchema, 8, oneRowGeometry⟩
    _ _ _ _ (show (empty oneRowSchema 8
    oneRowGeometry).validate = .ok () by decide) fits ⟨rfl, _, parsed, rfl⟩ encoded
  refine ⟨new, staged, ⟨whole.schema, whole.keyBits, whole.geometry⟩, ?_⟩
  rw [whole.rows]
  simp [empty]

theorem LikeOneRow.ordinary (like : LikeOneRow staging) : Ordinary staging := by
  obtain ⟨schema, _, geometry⟩ := like
  refine ⟨⟨_, oneRow_parsed.trans (by rw [schema])⟩, ?_, ?_, ?_⟩ <;> rw [geometry] <;> decide

/-- `9` can be inserted into such a table. -/
theorem insertable_nine {l : Layout} (lib : Library) (small : version < 2 ^ 63)
    (pointer : held root disk = .ok version) (like : LikeOneRow staging)
    (few : staging.rows.length < 2 ^ 32) (laid : layout json staging version = .ok l)
    (stands : Stands disk version l) : ∃ new,
      runCall (openCurrent root json) disk = (.ok l.reader, disk) ∧
      stageInsert lib l.reader.manifest.toEpochManifest (copyRows l.reader) [bytes "9"] = .ok new ∧
      Fits64 new ∧ LikeOneRow new ∧ new.rows.length = staging.rows.length + 1 := by
  obtain ⟨new, staged, like', length⟩ := stageInsert_nine lib like version
  refine ⟨new, ?_, ?_, ?_, like', length⟩
  · rw [openCurrent_of_held pointer, stands.opens root laid (like.ordinary.legible laid (by omega) small)]
  · obtain ⟨_, _, _, _, described, _⟩ := layout_eq_ok.1 laid
    have manifest : l.reader.manifest.toEpochManifest = ⟨version, oneRowSchema, 8, oneRowGeometry⟩ := by
      rw [show l.reader.manifest = _ from described, describe, like.schema, like.keyBits, like.geometry]
    rw [copyRows_reader laid, manifest]
    exact staged
  · have stride : matchRecordBytes oneRowSchema 8 = 1 := by decide
    rw [Fits64, like'.schema, like'.keyBits, like'.geometry, stride]
    simp only [kSegmentHeaderSize, oneRowGeometry]
    omega

theorem oneRow_like : LikeOneRow oneRow :=
  ⟨rfl, rfl, rfl⟩

/-- Behind the one row of the table, `9` can be inserted. -/
theorem insertable_oneRow {version : Nat} (small : version < 2 ^ 63)
    (pointer : PointsTo disk version) (laid : layout json oneRow version = .ok l)
    (stands : Stands disk version l) : ∃ new,
      runCall (openCurrent root json) disk = (.ok l.reader, disk) ∧
      stageInsert lib l.reader.manifest.toEpochManifest (copyRows l.reader) [bytes "9"] = .ok new ∧
      Fits64 new := by
  obtain ⟨new, opened, staged, fits, _⟩ := insertable_nine lib small
    (held_of_pointer pointer (by omega)) oneRow_like (by decide) laid stands
  exact ⟨new, opened, staged, fits⟩

/-- An insert that can be staged under a free version succeeds. -/
theorem insert_succeeds {cells : List Bytes}
    (opened : runCall (openCurrent root json) disk = (.ok reader, disk))
    (staged : stageInsert lib reader.manifest.toEpochManifest (copyRows reader) cells = .ok staging)
    (fits : Fits64 staging) (free : disk.dirs.lookup (.epoch (derived root disk)) = none) :
    ∃ l published, Publishable json disk staging (derived root disk) l ∧
      Published disk (derived root disk) l published ∧
      runCall (insertRowAndPublish root json lib cells) disk =
        (.ok ⟨derived root disk, reader.rowCount + 1⟩,
          (runCall (prune kInsertEpochRetention) published).2) := by
  have valid := stageInsert_valid (fun _ _ => copyRows_extends) staged
  obtain ⟨l, laid⟩ := layout_exists json valid fits (derived root disk)
  have inserted := runCall_insert opened staged
  rcases runCall_publish root json disk staging (derived root disk) with
    ⟨l', disk', able, run, published⟩ | ⟨unable, _⟩
  · rw [run] at inserted
    exact ⟨l', disk', able, published, inserted⟩
  · exact absurd ⟨valid, free, laid⟩ (unable l)

theorem derived_of_pointer {version : Nat} (pointer : PointsTo disk version)
    (small : version + 1 < 2 ^ 64) : derived root disk = version + 1 := by
  rw [derived, held_of_pointer pointer (by omega)]
  exact Nat.mod_eq_of_lt small

theorem adminPublish_of_publish (next : derived root disk = version)
    (run : runCall (publish root json staging version) disk = (.ok (), disk')) :
    runCall (AdminService.publish root json staging) disk = (.ok version, disk') := by
  rw [runCall_adminPublish, next, run]
  rfl

end Runs

end OpaqueDb.Server.Writers
