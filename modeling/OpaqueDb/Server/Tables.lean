/-
# Server.Tables -- tables filled by the server's own calls

A table that only `AdminService::Publish`, `InsertRowAndPublish` and `Rollback` have changed
(`Filled`).  Its epochs are the newest of those published, each holds the files of a staged
epoch, and `CURRENT` names one of them (`Kept`); a writer succeeds only while the newest one is
current.  An insert therefore appends one row to the table's rows, or changes nothing
(`insert_appends`).  Writers succeed exactly if the current epoch opens and the version they derive is
free (`writers_succeed_iff`); after a rollback it need not be, as the epochs above `CURRENT` are still
there.
-/
import OpaqueDb.Server.Interleavings

namespace OpaqueDb.Server.Writers

open OpaqueDb.Core Theory Storage Storage.JsonLibrary

set_option autoImplicit false

/-! ## Tables -/

/-- The epoch is in place with the files of this staged one. -/
def HoldsEpoch (json : JsonLibrary) (disk : RepoDisk) (version : Nat) (staging : StagingEpoch) : Prop :=
  ∃ l, layout json staging version = .ok l ∧ Stands disk version l

/-- How many versions a finished call has added. -/
def added : StatusOr Reply → Nat
  | .ok (.published _) => 1
  | .ok (.inserted _) => 1
  | .ok .rolledBack => 0
  | .error _ => 0

/-- So many versions have been published to this table, by nothing but the server's calls. -/
inductive Filled (root : Bytes) (json : JsonLibrary) (lib : Library) : Nat → RepoDisk → Prop
  | new : Filled root json lib 0 Disk.empty
  | call {n : Nat} {disk disk' : RepoDisk} {call : TableCall} {result : StatusOr Reply}
      (before : Filled root json lib n disk)
      (ordinary : ∀ staging, call = .publish staging → Ordinary staging)
      (run : runCall (call.call root json lib) disk = (result, disk')) :
      Filled root json lib (n + added result) disk'

variable {keep : Nat}

section Epochs

variable {json : JsonLibrary} {disk disk' : RepoDisk} {version : Nat} {staging : StagingEpoch}

/-- There is an epoch of this version. -/
def Present (disk : RepoDisk) (version : Nat) : Prop :=
  (disk.dirs.lookup (.epoch version)).isSome

theorem HoldsEpoch.of_lookup (holds : HoldsEpoch json disk version staging)
    (same : disk'.dirs.lookup (.epoch version) = disk.dirs.lookup (.epoch version)) :
    HoldsEpoch json disk' version staging := by
  obtain ⟨l, laid, dir, known, files⟩ := holds
  exact ⟨l, laid, dir, same.trans known, files⟩

theorem not_present_iff : ¬ Present disk version ↔ disk.dirs.lookup (.epoch version) = none :=
  Option.not_isSome_iff_eq_none

theorem PointsTo.of_files (pointer : PointsTo disk version) (same : disk'.files = disk.files) :
    PointsTo disk' version := by
  constructor
  · rw [same]
    exact pointer.current
  · rw [same]
    exact pointer.temporary

/-- A prune keeps the versions above one it keeps. -/
theorem prune_upward {low : Nat} (kept : Present (runCall (prune keep) disk).2 low)
    (above : low ≤ version) (small : version < 2 ^ 64) (there : Present disk version) :
    Present (runCall (prune keep) disk).2 version := by
  rw [Present, prune_lookup] at kept
  split at kept
  · cases kept
  rename_i stays
  have listed := mem_epochVersions.2 ⟨Nat.lt_of_le_of_lt above small, kept⟩
  have fewer : newer disk version ≤ newer disk low := by
    refine List.countP_mono_left fun other _ higher => ?_
    have := of_decide_eq_true higher
    exact decide_eq_true (by omega)
  have stays' : version ∉ superseded disk keep := fun gone => by
    obtain ⟨some_, many⟩ := (mem_superseded (mem_epochVersions.2 ⟨small, there⟩) keep).1 gone
    exact stays ((mem_superseded listed keep).2 ⟨some_, by omega⟩)
  rw [Present, prune_lookup, if_neg stays']
  exact there

/-- An epoch that a prune leaves is as it was. -/
theorem prune_lookup_of_present (there : Present (runCall (prune keep) disk).2 version) :
    (runCall (prune keep) disk).2.dirs.lookup (.epoch version) =
      disk.dirs.lookup (.epoch version) := by
  rw [Present, prune_lookup] at there
  rw [prune_lookup]
  split at there
  · cases there
  · rename_i stays
    exact if_neg stays

end Epochs

/-! ## What every filled table keeps -/

/-- So many versions have been published; the newest of them are there, each as it was staged,
and `CURRENT` names one of them. -/
structure Kept (json : JsonLibrary) (n : Nat) (disk : RepoDisk) : Prop where
  pointer : n = 0 ∧ disk.files.entry .current = none ∨
    ∃ version, PointsTo disk version ∧ Present disk version
  bound : ∀ version, Present disk version → 1 ≤ version ∧ version ≤ n
  upward : ∀ low version, Present disk low → low ≤ version → version ≤ n → Present disk version
  stands : ∀ version, Present disk version →
    ∃ staging, Ordinary staging ∧ HoldsEpoch json disk version staging

namespace Kept

variable {root : Bytes} {json : JsonLibrary} {lib : Library} {n : Nat} {disk disk' : RepoDisk}

theorem empty : Kept json 0 Disk.empty where
  pointer := Or.inl ⟨rfl, rfl⟩
  bound _ there := by cases there
  upward _ _ there := by cases there
  stands _ there := by cases there

variable (kept : Kept json n disk)
include kept

/-- The same epochs under another pointer. -/
theorem of_epochs (epochs : ∀ v, disk'.dirs.lookup (.epoch v) = disk.dirs.lookup (.epoch v))
    (pointer : n = 0 ∧ disk'.files.entry .current = none ∨
      ∃ version, PointsTo disk' version ∧ Present disk' version) : Kept json n disk' := by
  have same : ∀ v, Present disk' v ↔ Present disk v := fun v => by rw [Present, Present, epochs]
  refine ⟨pointer, fun v there => kept.bound v ((same v).1 there),
    fun low v there above below => (same v).2 (kept.upward low v ((same low).1 there) above below),
    fun v there => ?_⟩
  obtain ⟨staging, ordinary, holds⟩ := kept.stands v ((same v).1 there)
  exact ⟨staging, ordinary, holds.of_lookup (epochs v)⟩

theorem same (same : SameEpochs disk disk') : Kept json n disk' := by
  refine kept.of_epochs same.epochs ?_
  rcases kept.pointer with ⟨none_, absent⟩ | ⟨version, pointer, there⟩
  · exact Or.inl ⟨none_, by rw [same.files, absent]⟩
  · refine Or.inr ⟨version, PointsTo.of_files pointer same.files, ?_⟩
    rw [Present, same.epochs]
    exact there

/-- A free version is the next one. -/
theorem next (small : n + 1 < 2 ^ 64) (free : disk.dirs.lookup (.epoch (derived root disk)) = none) :
    derived root disk = n + 1 := by
  rcases kept.pointer with ⟨rfl, absent⟩ | ⟨version, pointer, there⟩
  · rw [Writers.derived, Writers.held, Files.read, absent]
    rfl
  · have below := (kept.bound version there).2
    rw [derived_of_pointer pointer (by omega)] at free ⊢
    by_contra apart
    exact not_present_iff.2 free
      (kept.upward version (version + 1) there (Nat.le_succ _) (by omega))

theorem published {staging : StagingEpoch} {l : Layout} (ordinary : Ordinary staging)
    (laid : layout json staging (n + 1) = .ok l) (published : Published disk (n + 1) l disk') :
    Kept json (n + 1) disk' := by
  have newest : Present disk' (n + 1) := by
    obtain ⟨dir, known, _⟩ := published.epoch
    rw [Present, known]
    rfl
  have older : ∀ v, v ≠ n + 1 → (Present disk' v ↔ Present disk v) := fun v apart => by
    rw [Present, Present, published.others v apart]
  refine ⟨Or.inr ⟨n + 1, published.pointer, newest⟩, fun v there => ?_,
    fun low v there above below => ?_, fun v there => ?_⟩
  · by_cases last : v = n + 1
    · omega
    · have := kept.bound v ((older v last).1 there)
      omega
  · by_cases last : v = n + 1
    · exact last ▸ newest
    · have low_ := (older low (by omega)).1 there
      exact (older v last).2 (kept.upward low v low_ above (by omega))
  · by_cases last : v = n + 1
    · exact ⟨staging, ordinary, l, last ▸ laid, last ▸ published.epoch⟩
    · obtain ⟨old, ordinary_, holds⟩ := kept.stands v ((older v last).1 there)
      exact ⟨old, ordinary_, holds.of_lookup (published.others v last)⟩

/-- The versions above an epoch are all there. -/
theorem newer_eq (small : n < 2 ^ 64) {version : Nat} (there : Present disk version) :
    newer disk version = n - version := by
  have same : ((epochVersions disk).filter (version < ·)).Perm
      (List.range' (version + 1) (n - version)) := by
    refine (List.perm_ext_iff_of_nodup ((epochVersions_sorted disk).nodup.filter _)
      List.nodup_range').2 fun other => ?_
    rw [List.mem_filter, mem_epochVersions, List.mem_range'_1, decide_eq_true_iff]
    constructor
    · rintro ⟨⟨_, exists_⟩, above⟩
      have := (kept.bound other exists_).2
      omega
    · rintro ⟨above, below⟩
      exact ⟨⟨by omega, kept.upward version other there (by omega) (by omega)⟩, by omega⟩
  rw [newer, List.countP_eq_length_filter, same.length_eq, List.length_range']

/-- Of a kept table, a prune removes what is far enough below the newest version. -/
theorem superseded_iff (small : n < 2 ^ 64) (some_ : keep ≠ 0) {version : Nat}
    (there : Present disk version) : version ∈ superseded disk keep ↔ version + keep ≤ n := by
  have bound := kept.bound version there
  rw [mem_superseded (mem_epochVersions.2 ⟨by omega, there⟩), kept.newer_eq small there]
  constructor
  · omega
  · intro enough
    exact ⟨some_, by omega⟩

/-- The newest version survives every prune. -/
theorem newest_kept (some_ : keep ≠ 0) (small : n < 2 ^ 64) (there : Present disk n) :
    Present (runCall (prune keep) disk).2 n := by
  have stays : n ∉ superseded disk keep := by
    rw [kept.superseded_iff small some_ there]
    omega
  rw [Present, prune_lookup, if_neg stays]
  exact there

theorem pruned (some_ : keep ≠ 0) (small : n < 2 ^ 64) (pointer : PointsTo disk n)
    (there : Present disk n) : Kept json n (runCall (prune keep) disk).2 := by
  have before : ∀ v, Present (runCall (prune keep) disk).2 v → Present disk v := fun v there => by
    rw [Present, prune_lookup_of_present there] at there
    exact there
  refine ⟨Or.inr ⟨n, PointsTo.of_files pointer (prune_files _ _), kept.newest_kept some_ small there⟩,
    fun v there => kept.bound v (before v there), fun low v there above below => ?_, fun v there => ?_⟩
  · exact prune_upward there above (by omega) (kept.upward low v (before low there) above below)
  · obtain ⟨staging, ordinary, holds⟩ := kept.stands v (before v there)
    exact ⟨staging, ordinary, holds.of_lookup (prune_lookup_of_present there)⟩

/-- What opening the current epoch shows. -/
theorem opened (small : n < 2 ^ 63) {reader : EpochReader}
    (opened : runCall (openCurrent root json) disk = (.ok reader, disk)) :
    ∃ version staging l, held root disk = .ok version ∧ version ≤ n ∧ Ordinary staging ∧
      layout json staging version = .ok l ∧ Stands disk version l ∧ staging.rows.length < 2 ^ 63 ∧
      reader = l.reader := by
  rcases kept.pointer with ⟨_, absent⟩ | ⟨version, pointer, there⟩
  · rw [runCall_openCurrent, Files.read, absent] at opened
    cases opened
  · have below := (kept.bound version there).2
    obtain ⟨staging, ordinary, l, laid, stands⟩ := kept.stands version there
    rw [openCurrent, runCall_bind_ok _ (pointer.currentVersion root (by omega))] at opened
    obtain ⟨few, same⟩ := ordinary.opened laid stands (by omega) opened
    exact ⟨version, staging, l, held_of_pointer pointer (by omega), below, ordinary, laid, stands,
      few, same⟩

end Kept

/-! ## One insert -/

section Insert

variable {root : Bytes} {json : JsonLibrary} {lib : Library} {n : Nat} {disk disk' : RepoDisk}
  {cells : List Bytes}

theorem Staged.ordinary {manifest : EpochManifest} {rows : List Row} {old new : StagingEpoch}
    (staged : Staged lib manifest cells rows new) (schema : manifest.schema = old.schema)
    (geometry : manifest.geometry = old.geometry) (ordinary : Ordinary old) : Ordinary new := by
  constructor
  · rw [staged.schema, schema]
    exact ordinary.declared
  · rw [staged.geometry, geometry]
    exact ordinary.slotCount
  · rw [staged.geometry, geometry]
    exact ordinary.bytesPerSlot
  · rw [staged.geometry, geometry]
    exact ordinary.recordBytes

/-- The rows of the one epoch are those of the other and one more, of these cells. -/
structure AppendsRow (lib : Library) (cells : List Bytes) (old new : StagingEpoch) : Prop where
  schema : new.schema = old.schema
  keyBits : new.keyBits = old.keyBits
  geometry : new.geometry = old.geometry
  rows : ∃ values match_ record, parseCells lib old.schema.columns cells = .ok values ∧
    encodeMatchRecord old.schema (rowOf old.schema.columns values).key
      (rowOf old.schema.columns values).payload old.keyBits = .ok match_ ∧
    encodeRecord old.schema (rowOf old.schema.columns values).payload old.geometry.recordBytes =
      .ok record ∧
    new.rows = old.rows ++ [⟨match_, record⟩]

/-- What a successful insert has done. -/
structure Inserted (root : Bytes) (json : JsonLibrary) (lib : Library) (cells : List Bytes)
    (disk : RepoDisk) (result : InsertResult) (disk' : RepoDisk) (old new : StagingEpoch) : Prop where
  before : ∃ version, held root disk = .ok version ∧ HoldsEpoch json disk version old
  shown : ∃ reader, runCall (openCurrent root json) disk = (.ok reader, disk) ∧ Shows reader old
  current : held root disk' = .ok result.epochVersion
  holds : HoldsEpoch json disk' result.epochVersion new
  shows : new.rows.length < 2 ^ 63 →
    ∃ reader, runCall (openCurrent root json) disk' = (.ok reader, disk') ∧ Shows reader new
  appends : AppendsRow lib cells old new
  count : result.rowCount = new.rows.length
  fresh : ¬ Present disk result.epochVersion
  others : ∀ version, version ≠ result.epochVersion → Present disk' version →
    disk'.dirs.lookup (.epoch version) = disk.dirs.lookup (.epoch version)

/-- An insert into a table of the server's own appends its row and leaves such a table. -/
theorem Kept.insert {result : InsertResult} (kept : Kept json n disk) (small : n < 2 ^ 63 - 1)
    (run : runCall (insertRowAndPublish root json lib cells) disk = (.ok result, disk')) :
    Kept json (n + 1) disk' ∧ ∃ old new, Inserted root json lib cells disk result disk' old new := by
  rcases insert_cases root json lib disk cells with
    ⟨reader, new, l', disk₁, opened, staged, able, published, inserted⟩ | ⟨status, _, failed, _⟩
  swap
  · cases run.symm.trans failed
  cases run.symm.trans inserted
  obtain ⟨version, old, l, current, below, ordinary, laid, stands, few, rfl⟩ :=
    kept.opened (by omega) opened
  have next : derived root disk = n + 1 := kept.next (by omega) able.free
  rw [next] at able published ⊢
  have shown := reader_shows laid
  rw [copyRows_reader laid] at staged
  have appended := stageInsert_eq_ok staged
  have ordinary' : Ordinary new := appended.ordinary shown.schema shown.geometry ordinary
  have grown := kept.published ordinary' able.laid published
  have there : Present disk₁ (n + 1) := by
    obtain ⟨dir, known, _⟩ := published.epoch
    rw [Present, known]
    rfl
  have stays : Present (runCall (prune kInsertEpochRetention) disk₁).2 (n + 1) :=
    grown.newest_kept (by decide) (by omega) there
  have pointer : PointsTo (runCall (prune kInsertEpochRetention) disk₁).2 (n + 1) :=
    PointsTo.of_files published.pointer (prune_files _ _)
  have holds := HoldsEpoch.of_lookup ⟨l', able.laid, published.epoch⟩ (prune_lookup_of_present stays)
  refine ⟨grown.pruned (by decide) (by omega) published.pointer there, old, new, ?_⟩
  obtain ⟨schema, keyBits, geometry, values, match_, record, parsed, first, second, rows⟩ := appended
  have schema' := shown.schema
  have keyBits' := shown.keyBits
  have geometry' := shown.geometry
  rw [schema'] at schema parsed first second
  rw [keyBits'] at keyBits first
  rw [geometry'] at geometry second
  refine {
    before := ⟨version, current, l, laid, stands⟩
    shown := ⟨l.reader, opened, shown⟩
    current := held_of_pointer pointer (show n + 1 < 2 ^ 64 by omega)
    holds
    shows := fun fewer => ?_
    appends := ⟨schema, keyBits, geometry, values, match_, record, parsed, first, second, rows⟩
    count := ?_
    fresh := not_present_iff.2 able.free
    others := fun other apart there => ?_ }
  · obtain ⟨l'', laid', stands'⟩ := holds
    refine ⟨l''.reader, ?_, reader_shows laid'⟩
    rw [openCurrent, runCall_bind_ok _ (pointer.currentVersion root (by omega)),
      stands'.opens root laid' (ordinary'.legible laid' fewer (by omega))]
  · rw [rows, shown.count, List.length_append]
    rfl
  · rw [prune_lookup_of_present there]
    exact published.others other apart

end Insert

/-! ## Runs -/

section Runs

variable {root : Bytes} {json : JsonLibrary} {lib : Library} {n : Nat} {disk disk' : RepoDisk}

theorem rollback_cases (root : Bytes) (json : JsonLibrary) (disk : RepoDisk) (version : Nat) :
    (∃ disk', runCall (rollback root json version) disk = (.ok (), disk') ∧
      disk'.dirs = disk.dirs ∧ PointsTo disk' version ∧ Present disk version) ∨
    ∃ status, runCall (rollback root json version) disk = (.error status, disk) := by
  have run := runCall_openVersion root json disk version
  rcases known : disk.dirs.lookup (.epoch version) with _ | dir
  · rw [known] at run
    exact Or.inr ⟨_, runCall_bind_error _ run _⟩
  · rw [known] at run
    rcases opened : openDir root json version dir with status | reader
    · simp only [opened] at run
      exact Or.inr ⟨_, runCall_bind_error _ run _⟩
    · simp only [opened] at run
      obtain ⟨disk', done, dirs, pointer⟩ := runCall_rollback run
      exact Or.inl ⟨disk', done, dirs, pointer, by rw [Present, known]; rfl⟩

/-- One call of the server keeps the table one of its own. -/
theorem Kept.call {call : TableCall} {result : StatusOr Reply} (kept : Kept json n disk)
    (small : n + added result < 2 ^ 63)
    (ordinary : ∀ staging, call = .publish staging → Ordinary staging)
    (run : runCall (call.call root json lib) disk = (result, disk')) :
    Kept json (n + added result) disk' := by
  cases call with
  | publish staging =>
    rw [TableCall.call, runCall_map, runCall_adminPublish] at run
    rcases runCall_publish root json disk staging (derived root disk) with
      ⟨l, disk₁, able, done, published⟩ | ⟨_, status, disk₁, failed, same⟩
    · rw [done] at run
      cases run
      have next : derived root disk = n + 1 := kept.next (by omega) able.free
      rw [next] at able published
      exact kept.published (ordinary staging rfl) able.laid published
    · rw [failed] at run
      cases run
      exact kept.same same
  | insert cells =>
    rw [TableCall.call, runCall_map] at run
    rcases inserted : runCall (insertRowAndPublish root json lib cells) disk with
      ⟨status | outcome, disk₁⟩
    · rw [inserted] at run
      cases run
      rcases insert_cases root json lib disk cells with
        ⟨_, _, _, _, _, _, _, _, done⟩ | ⟨_, _, failed, same⟩
      · cases inserted.symm.trans done
      · cases inserted.symm.trans failed
        exact kept.same same
    · rw [inserted] at run
      cases run
      have bound : n + 1 < 2 ^ 63 := small
      exact (kept.insert (by omega) inserted).1
  | rollback version =>
    rw [TableCall.call, runCall_map, AdminService.rollbackEpoch] at run
    rcases rollback_cases root json disk version with
      ⟨disk₁, done, dirs, pointer, there⟩ | ⟨status, failed⟩
    · rw [done] at run
      cases run
      refine kept.of_epochs (fun v => by rw [dirs]) (Or.inr ⟨version, pointer, ?_⟩)
      rw [Present, dirs]
      exact there
    · rw [failed] at run
      cases run
      exact kept

/-- **A table of the server's own is kept.** -/
theorem Filled.kept (filled : Filled root json lib n disk) (small : n < 2 ^ 63) : Kept json n disk := by
  induction filled with
  | new => exact .empty
  | call before ordinary run ih => exact (ih (by omega)).call small ordinary run

/-- What an insert may do. -/
def AppendsOrKeeps (root : Bytes) (json : JsonLibrary) (lib : Library) (cells : List Bytes)
    (disk : RepoDisk) : StatusOr InsertResult × RepoDisk → Prop
  | (.ok result, disk') => ∃ old new, Inserted root json lib cells disk result disk' old new
  | (.error _, disk') => SameEpochs disk disk'

/-- **An insert appends exactly one row or changes nothing.**  On every table of the server's
own, with fewer than `2 ^ 63 - 1` versions, and for any cells. -/
theorem insert_appends (filled : Filled root json lib n disk) (small : n < 2 ^ 63 - 1)
    (cells : List Bytes) :
    AppendsOrKeeps root json lib cells disk
      (runCall (insertRowAndPublish root json lib cells) disk) := by
  have kept := filled.kept (by omega)
  rcases run : runCall (insertRowAndPublish root json lib cells) disk with ⟨status | result, disk'⟩
  · rcases insert_cases root json lib disk cells with
      ⟨_, _, _, _, _, _, _, _, done⟩ | ⟨_, _, failed, same⟩
    · cases run.symm.trans done
    · cases run.symm.trans failed
      exact same
  · exact (kept.insert small run).2

end Runs

/-- A new table of one row. -/
theorem call_oneRow (root : Bytes) (json : JsonLibrary) (lib : Library) : ∃ l disk,
    layout json oneRow 1 = .ok l ∧ Published Disk.empty 1 l disk ∧
    runCall ((TableCall.publish oneRow).call root json lib) Disk.empty = (.ok (.published 1), disk) := by
  obtain ⟨l, disk, laid, published, placed⟩ := publish_oneRow root json Disk.empty 1 rfl
  have first : derived root Disk.empty = 1 := rfl
  exact ⟨l, disk, laid, placed, runCall_bind_ok _ (adminPublish_of_publish first published) _⟩

theorem ordinary_oneRow (staging : StagingEpoch) (same : TableCall.publish oneRow = .publish staging) :
    Ordinary staging := by
  cases same
  exact oneRow_like.ordinary

theorem filled_oneRow (root : Bytes) (json : JsonLibrary) (lib : Library) : ∃ l disk,
    layout json oneRow 1 = .ok l ∧ Published Disk.empty 1 l disk ∧ Filled root json lib 1 disk := by
  obtain ⟨l, disk, laid, placed, called⟩ := call_oneRow root json lib
  exact ⟨l, disk, laid, placed, .call .new ordinary_oneRow called⟩

/-- `9` behind the one row of a new table. -/
theorem insert_appends_oneRow : ∃ disk result disk' old new,
    Filled (bytes "/t") exact strictLibrary 1 disk ∧
    runCall (insertRowAndPublish (bytes "/t") exact strictLibrary [bytes "9"]) disk =
      (.ok result, disk') ∧
    Inserted (bytes "/t") exact strictLibrary [bytes "9"] disk result disk' old new := by
  obtain ⟨l, disk, laid, placed, filled⟩ :=
    filled_oneRow (bytes "/t") exact strictLibrary
  have free : disk.dirs.lookup (.epoch (derived (bytes "/t") disk)) = none := by
    rw [derived_of_pointer placed.pointer (by decide)]
    exact placed.others 2 (by decide)
  obtain ⟨staging, opened, staged, fits⟩ := @insertable_oneRow _ (bytes "/t") exact strictLibrary disk
    1 (by decide) placed.pointer laid placed.epoch
  obtain ⟨_, _, _, _, done⟩ := insert_succeeds opened staged fits free
  have appends := insert_appends filled (by decide) [bytes "9"]
  rw [done] at appends
  obtain ⟨old, new, inserted⟩ := appends
  exact ⟨disk, _, _, old, new, filled, done, inserted⟩

/-! ## When a table can be written -/

section Writable

/-- The current epoch opens. -/
def Opens (root : Bytes) (json : JsonLibrary) (disk : RepoDisk) (reader : EpochReader) : Prop :=
  runCall (openCurrent root json) disk = (.ok reader, disk)

/-- There is no epoch yet of the version that a writer derives. -/
def Free (root : Bytes) (disk : RepoDisk) : Prop :=
  disk.dirs.lookup (.epoch (derived root disk)) = none

/-- The reader shows a staged table, and the cells are a row of it: they have the types of its
columns, the row can be encoded, and the files have room for it. -/
structure Takes (json : JsonLibrary) (lib : Library) (reader : EpochReader) (cells : List Bytes)
    (old : StagingEpoch) : Prop where
  shown : ∃ version l, layout json old version = .ok l ∧ reader = l.reader
  encoded : ∃ row stored, Typed lib old.schema cells row ∧
    encodeRow old.schema old.keyBits old.geometry.recordBytes row = .ok stored
  matchRoom : kSegmentHeaderSize +
    (old.rows.length + 1) * matchRecordBytes old.schema old.keyBits < 2 ^ 64
  payloadRoom : kSegmentHeaderSize + (old.rows.length + 1) * old.geometry.recordBytes < 2 ^ 64

/-- The current epoch is the staging of a declared table, and opens as it unless its rows are too
many to count. -/
def Standing (root : Bytes) (json : JsonLibrary) (disk : RepoDisk) (version : Nat) : Prop :=
  ∃ old l, held root disk = .ok version ∧ Ordinary old ∧ layout json old version = .ok l ∧
    (old.rows.length < 2 ^ 63 → Opens root json disk l.reader)

variable {root : Bytes} {json : JsonLibrary} {lib : Library} {n : Nat} {disk disk' : RepoDisk}
  {cells : List Bytes}

/-- Versions published without a rollback: by undisturbed writers, and with failed calls between
them that changed no epoch and no pointer. -/
inductive Written (root : Bytes) (json : JsonLibrary) (lib : Library) : Nat → RepoDisk → Prop
  | new : Written root json lib 0 Disk.empty
  | call {n : Nat} {disk disk' : RepoDisk} {call : TableCall} {result : StatusOr Reply}
      (before : Written root json lib n disk)
      (ordinary : ∀ staging, call = .publish staging → Ordinary staging)
      (forward : ∀ version, call ≠ .rollback version)
      (run : runCall (call.call root json lib) disk = (result, disk')) :
      Written root json lib (n + added result) disk'
  | failed {n : Nat} {disk disk' : RepoDisk} (before : Written root json lib n disk)
      (same : SameEpochs disk disk') : Written root json lib n disk'

theorem Takes.staged {reader : EpochReader} {old : StagingEpoch}
    (takes : Takes json lib reader cells old) :
    ∃ new, stageInsert lib reader.manifest.toEpochManifest (copyRows reader) cells = .ok new ∧
      Fits64 new := by
  obtain ⟨⟨version, l, laid, rfl⟩, ⟨row, stored, typed, encoded⟩, matchRoom, payloadRoom⟩ := takes
  obtain ⟨_, _, _, _, described, valid, _⟩ := layout_eq_ok.1 laid
  have manifest : l.reader.manifest.toEpochManifest =
      ⟨version, old.schema, old.keyBits, old.geometry⟩ := by
    rw [show l.reader.manifest = _ from described, describe]
  have coherent := (Manifest.validate_iff _).1 valid
  rw [described] at coherent
  obtain ⟨new, staged, whole⟩ := @stageInsert_of_typed lib
    ⟨version, old.schema, old.keyBits, old.geometry⟩ cells old.rows row stored
    (StagingEpoch.validate_iff.2 ⟨coherent.schema, coherent.keyBits, coherent.geometry⟩)
    (fun row listed => ⟨old.match_length row listed, old.payload_length row listed⟩) typed encoded
  refine ⟨new, by rw [copyRows_reader laid, manifest]; exact staged, ?_⟩
  have length : new.rows.length = old.rows.length + 1 := by
    rw [whole.rows]
    simp [StagingEpoch.empty]
  rw [Fits64, whole.schema, whole.keyBits, whole.geometry, length]
  exact ⟨matchRoom, payloadRoom⟩

section Kept

variable (kept : Kept json n disk)
include kept

theorem Kept.free_iff (small : n + 1 < 2 ^ 63) :
    Free root disk ↔ n = 0 ∨ held root disk = .ok n := by
  constructor
  · intro free
    have next := kept.next (by omega) free
    rcases kept.pointer with ⟨none_, _⟩ | ⟨version, pointer, there⟩
    · exact .inl none_
    · have below := (kept.bound version there).2
      rw [derived_of_pointer pointer (by omega)] at next
      obtain rfl : version = n := by omega
      exact .inr (held_of_pointer pointer (by omega))
  · intro newest
    have next : derived root disk = n + 1 := by
      rcases newest with rfl | current
      · rcases kept.pointer with ⟨_, absent⟩ | ⟨version, _, there⟩
        · rw [derived, held, Files.read, absent]
          rfl
        · have := kept.bound version there
          omega
      · rw [derived, current]
        exact Nat.mod_eq_of_lt (by omega)
    refine not_present_iff.1 fun there => ?_
    have := (kept.bound _ there).2
    omega

theorem Kept.standing (small : n < 2 ^ 63) (some_ : n ≠ 0) :
    ∃ version, Standing root json disk version := by
  rcases kept.pointer with ⟨none_, _⟩ | ⟨version, pointer, there⟩
  · exact absurd none_ some_
  · have below := (kept.bound version there).2
    obtain ⟨old, ordinary, l, laid, stands⟩ := kept.stands version there
    have current : held root disk = .ok version := held_of_pointer pointer (by omega)
    refine ⟨version, old, l, current, ordinary, laid, fun few => ?_⟩
    rw [Opens, openCurrent_of_held current,
      stands.opens root laid (ordinary.legible laid few (by omega))]

/-- A writer leaves the newest version current. -/
theorem Kept.newest_call {call : TableCall} {result : StatusOr Reply}
    (newest : n = 0 ∨ held root disk = .ok n) (small : n + 1 < 2 ^ 63)
    (forward : ∀ version, call ≠ .rollback version)
    (run : runCall (call.call root json lib) disk = (result, disk')) :
    n + added result = 0 ∨ held root disk' = .ok (n + added result) := by
  have next : derived root disk = n + 1 := kept.next (by omega) ((kept.free_iff small).2 newest)
  have still : SameEpochs disk disk' → n = 0 ∨ held root disk' = .ok n := fun same => by
    rwa [held, same.files]
  cases call with
  | publish staging =>
    rw [TableCall.call, runCall_map, runCall_adminPublish] at run
    rcases runCall_publish root json disk staging (derived root disk) with
      ⟨l, disk₁, _, done, published⟩ | ⟨_, status, disk₁, failed, same⟩
    · rw [done] at run
      cases run
      rw [next] at published
      exact .inr (held_of_pointer published.pointer (show n + 1 < 2 ^ 64 by omega))
    · rw [failed] at run
      cases run
      exact still same
  | insert cells =>
    rw [TableCall.call, runCall_map] at run
    rcases insert_cases root json lib disk cells with
      ⟨reader, _, _, disk₁, _, _, _, published, done⟩ | ⟨status, disk₁, failed, same⟩
    · rw [done] at run
      cases run
      rw [next] at published
      exact .inr (held_of_pointer (PointsTo.of_files published.pointer (prune_files _ _))
        (show n + 1 < 2 ^ 64 by omega))
    · rw [failed] at run
      cases run
      exact still same
  | rollback version => exact absurd rfl (forward version)

end Kept

theorem Written.kept (written : Written root json lib n disk) (small : n + 1 < 2 ^ 63) :
    Kept json n disk ∧ (n = 0 ∨ held root disk = .ok n) := by
  induction written with
  | new => exact ⟨.empty, .inl rfl⟩
  | call before ordinary forward run ih =>
    obtain ⟨kept, newest⟩ := ih (by omega)
    exact ⟨kept.call (by omega) ordinary run, kept.newest_call newest (by omega) forward run⟩
  | failed before same ih =>
    obtain ⟨kept, newest⟩ := ih small
    refine ⟨kept.same same, ?_⟩
    rwa [held, same.files]

/-- **When the writers succeed.**  On any disk, an undisturbed insert of cells that are a row of
the current table, if that opens, returns OK exactly if it does open and the derived version is free,
and so does an undisturbed publishing of a valid staged epoch if the version is free.  On every table
of the server's own the current epoch opens, and the version is free exactly while `CURRENT` names the
newest version; it always is where nothing was rolled back. -/
theorem writers_succeed_iff (root : Bytes) (json : JsonLibrary) (lib : Library) :
    (∀ disk cells, (∀ reader, Opens root json disk reader → ∃ old, Takes json lib reader cells old) →
      ((∃ result, (runCall (insertRowAndPublish root json lib cells) disk).1 = .ok result) ↔
        (∃ reader, Opens root json disk reader) ∧ Free root disk)) ∧
    (∀ disk staging, staging.validate = .ok () → Fits64 staging →
      ((∃ version, (runCall (AdminService.publish root json staging) disk).1 = .ok version) ↔
        Free root disk)) ∧
    (∀ n disk, Filled root json lib n disk → n + 1 < 2 ^ 63 →
      (Free root disk ↔ n = 0 ∨ held root disk = .ok n) ∧
      (n ≠ 0 → ∃ version, Standing root json disk version)) ∧
    ∀ n disk, Written root json lib n disk → n + 1 < 2 ^ 63 →
      Free root disk ∧ (n ≠ 0 → ∃ version, Standing root json disk version) := by
  refine ⟨fun disk cells takes => ⟨?_, ?_⟩, fun disk staging valid fits => ?_,
    fun n disk filled small => ?_, fun n disk written small => ?_⟩
  · rintro ⟨result, run⟩
    rcases insert_cases root json lib disk cells with
      ⟨reader, _, _, _, opened, _, able, _, _⟩ | ⟨status, _, failed, _⟩
    · exact ⟨⟨reader, opened⟩, able.free⟩
    · rw [failed] at run
      cases run
  · rintro ⟨⟨reader, opened⟩, free⟩
    obtain ⟨old, row⟩ := takes reader opened
    obtain ⟨new, staged, fits⟩ := row.staged
    obtain ⟨_, _, _, _, done⟩ := insert_succeeds opened staged fits free
    exact ⟨_, congrArg Prod.fst done⟩
  · rw [Free, ← publish_ok_iff valid fits, runCall_adminPublish]
    rcases (runCall (publish root json staging (derived root disk)) disk).1 with status | _
    · simp [Except.map]
    · simp [Except.map]
  · have kept := filled.kept (by omega)
    exact ⟨kept.free_iff small, kept.standing (by omega)⟩
  · obtain ⟨kept, newest⟩ := written.kept small
    exact ⟨(kept.free_iff small).2 newest, kept.standing (by omega)⟩

theorem takes_nine {version : Nat} {l : Layout} (laid : layout json oneRow version = .ok l) :
    Takes json lib l.reader [bytes "9"] oneRow where
  shown := ⟨version, l, laid, rfl⟩
  encoded := ⟨rowOf oneRowSchema.columns [.int 9], ⟨[9], [0, 0, 0, 0]⟩, ⟨rfl, _, rfl, rfl⟩,
    by decide +kernel⟩
  matchRoom := by decide
  payloadRoom := by decide

/-- On a new table both writers succeed. -/
theorem writers_succeed_oneRow : ∃ disk, Written (bytes "/t") exact strictLibrary 1 disk ∧
    (∃ version, Standing (bytes "/t") exact disk version) ∧
    ∃ result, (runCall (insertRowAndPublish (bytes "/t") exact strictLibrary
      [bytes "9"]) disk).1 = .ok result := by
  obtain ⟨l, disk, laid, placed, called⟩ := call_oneRow (bytes "/t") exact strictLibrary
  have written : Written (bytes "/t") exact strictLibrary 1 disk :=
    .call .new ordinary_oneRow (by simp) called
  obtain ⟨_, opened, _⟩ := @insertable_oneRow _ (bytes "/t") exact strictLibrary disk 1 (by decide)
    placed.pointer laid placed.epoch
  obtain ⟨inserts, _, _, runs⟩ := writers_succeed_iff (bytes "/t") exact strictLibrary
  obtain ⟨free, standing⟩ := runs 1 disk written (by decide)
  refine ⟨disk, written, standing (by decide), (inserts disk _ fun reader shown => ?_).2
    ⟨⟨_, opened⟩, free⟩⟩
  cases opened.symm.trans shown
  exact ⟨oneRow, takes_nine laid⟩

/-- Publish, publish, roll back to the first: neither an insert nor a publishing succeeds any
more, because the version they derive is taken. -/
theorem unwritable_after_rollback : ∃ disk₁ disk₂ disk₃ reader,
    runCall (AdminService.publish (bytes "/t") exact oneRow) Disk.empty = (.ok 1, disk₁) ∧
    runCall (AdminService.publish (bytes "/t") exact oneRow) disk₁ = (.ok 2, disk₂) ∧
    runCall (AdminService.rollbackEpoch (bytes "/t") exact 1) disk₂ = (.ok (), disk₃) ∧
    Opens (bytes "/t") exact disk₃ reader ∧ Takes exact strictLibrary reader [bytes "9"] oneRow ∧
    (runCall (insertRowAndPublish (bytes "/t") exact strictLibrary [bytes "9"]) disk₃).1 =
      .error (alreadyPublished 2) ∧
    (runCall (AdminService.publish (bytes "/t") exact oneRow) disk₃).1 = .error (alreadyPublished 2) := by
  obtain ⟨disk₁, disk₂, l, first, one, second, _, laid, stands, exactly⟩ :=
    two_epochs (bytes "/t") exact
  obtain ⟨disk₃, third, dirs, pointer⟩ :=
    runCall_rollback (stands.opens _ laid (oneRow_legible exact (by decide) laid))
  have next : derived (bytes "/t") disk₃ = 2 := derived_of_pointer pointer (by decide)
  obtain ⟨staging, opened, staged, _⟩ := @insertable_oneRow _ (bytes "/t") exact strictLibrary disk₃ 1
    (by decide) pointer laid (by rw [Stands, dirs]; exact stands)
  obtain ⟨dir, newest⟩ := Option.isSome_iff_exists.1 ((exactly 2).2 (Or.inr rfl))
  have taken : ∀ staging : StagingEpoch, staging.validate = .ok () →
      runCall (publish (bytes "/t") exact staging 2) disk₃ = (.error (alreadyPublished 2), disk₃) :=
    fun staging valid => publish_taken valid (by rw [dirs]; exact newest)
  refine ⟨disk₁, disk₂, disk₃, l.reader, adminPublish_of_publish rfl first,
    adminPublish_of_publish (derived_of_pointer one (by decide)) second, third, opened,
    takes_nine laid, ?_, ?_⟩
  · have valid := stageInsert_valid (fun _ _ => copyRows_extends) staged
    rw [runCall_insert opened staged, next, taken staging valid]
  · rw [runCall_adminPublish, next, taken oneRow oneRow_valid]
    rfl

end Writable

end OpaqueDb.Server.Writers
