/-
# Storage.Runs -- undisturbed calls on a repository

`runCall` runs a call when no command fails.  Each function gets one lemma that says what
it returns and what it leaves on the disk; later proofs use these and not the programs.
-/
import OpaqueDb.Storage.LocalRepository

namespace OpaqueDb.Storage

open OpaqueDb.Core Theory Theory.Disk Function Theory.Prog

set_option autoImplicit false

def runCall {α : Type} (call : FileCall α) (disk : RepoDisk) : StatusOr α × RepoDisk :=
  Prog.run exec call.run disk

variable {disk' : RepoDisk} (d : RepoDir)

section Rules

variable {α β : Type} (disk : RepoDisk)

@[simp] theorem runCall_liftStatus (result : StatusOr α) :
    runCall (liftStatus result) disk = (result, disk) := rfl

theorem runCall_bind (call : FileCall α) (next : α → FileCall β) :
    runCall (call >>= next) disk =
      match (runCall call disk).1 with
      | .ok a => runCall (next a) (runCall call disk).2
      | .error status => (.error status, (runCall call disk).2) := by
  show Prog.run exec (call.run >>= ExceptT.bindCont next) disk = _
  rw [run_bind]
  rcases result : (Prog.run exec call.run disk).1 with status | a
  · simp only [runCall, result]
    rfl
  · simp only [runCall, result]
    rfl

theorem runCall_bind_ok {call : FileCall α} {a : α} (done : runCall call disk = (.ok a, disk'))
    (next : α → FileCall β) : runCall (call >>= next) disk = runCall (next a) disk' := by
  rw [runCall_bind, done]

variable {call : FileCall α}

theorem runCall_bind_error {status : Status} (failed : runCall call disk = (.error status, disk'))
    (next : α → FileCall β) : runCall (call >>= next) disk = (.error status, disk') := by
  rw [runCall_bind, failed]

theorem runCall_map (call : FileCall α) (f : α → β) :
    runCall (call >>= fun a => pure (f a)) disk =
      ((runCall call disk).1.map f, (runCall call disk).2) := by
  rw [runCall_bind]
  rcases (runCall call disk).1 with status | a <;> rfl

variable {f : α → StatusOr β} {next : α → FileCall β}

/-- Calls that leave the disk alone compose as their results do. -/
theorem runCall_bind_read {result : StatusOr α} (first : runCall call disk = (result, disk))
    (rest : ∀ a, runCall (next a) disk = (f a, disk)) :
    runCall (call >>= next) disk = (result >>= f, disk) := by
  rcases result with status | a
  · exact runCall_bind_error disk first next
  · rw [runCall_bind_ok disk first, rest]
    rfl

@[simp] theorem runCall_existsDir :
    runCall (existsDir d) disk = (.ok (disk.dirs.lookup d).isSome, disk) :=
  rfl

theorem runCall_checked {words : FileError → List Bytes} {op : FileOp RepoFile RepoDir} {value : op.Value}
    (done : exec op disk = (.ok value, disk')) :
    runCall (checked words op) disk = (.ok value, disk') := by
  show Prog.run exec (call op _) disk = _
  rw [run_call, done]
  rfl

/-- The call leaves every disk with the property alone and returns this. -/
def Settles (holds : RepoDisk → Prop) (result : StatusOr α) (call : FileCall α) : Prop :=
  Prog.Steady exec holds result call.run

variable {holds : RepoDisk → Prop}

theorem settles_liftStatus (result : StatusOr α) : Settles holds result (liftStatus result) :=
  rfl

theorem settles_bind {holds : RepoDisk → Prop} {call : FileCall α} {next : α → FileCall β}
    {result : StatusOr α} {f : α → StatusOr β} (first : Settles holds result call)
    (rest : ∀ a, Settles holds (f a) (next a)) : Settles holds (result >>= f) (call >>= next) := by
  refine Prog.Steady.bind (p := call.run) first ?_
  rcases result with status | a
  · rfl
  · exact rest a

theorem settles_then {a : α} {result : StatusOr β} (first : Settles holds (.ok a) call)
    (rest : Settles holds result (next a)) : Settles holds result (call >>= next) :=
  Prog.Steady.bind (p := call.run) first rest

end Rules

theorem runCall_createDir (disk : RepoDisk) (words : FileError → List Bytes) (d : RepoDir) :
    runCall (checked words (.createDir d)) disk =
      (.ok (), if (disk.dirs.lookup d).isSome then disk else disk.setDir d ⟨∅, false⟩) :=
  rfl

/-! ## Durable writes -/

section Writes

variable {root : Bytes} {disk : RepoDisk}

theorem runCall_writeInside {d : RepoDir} {dir : Subdir} (known : disk.dirs.lookup d = some dir)
    (name data : Bytes) :
    runCall (writeFileDurably root (.inside d name) data) disk =
      (.ok (), disk.setDir d ⟨dir.files.insert name ⟨data, true⟩, false⟩) := by
  have created : exec (.create (.inside d name)) disk =
      (.ok (.inside d name), disk.setDir d (dir.put name ⟨[], false⟩)) := by
    simp only [exec, known]
  have written : exec (.write (.inside d name) data)
      (disk.setDir d (dir.put name ⟨[], false⟩)) =
      (.ok (), disk.setDir d ⟨dir.files.insert name ⟨data, false⟩, false⟩) := by
    simp [exec, onStored, Subdir.put, overwrite]
  have synced : exec (.fsync (.inside d name))
      (disk.setDir d ⟨dir.files.insert name ⟨data, false⟩, false⟩) =
      (.ok (), disk.setDir d ⟨dir.files.insert name ⟨data, true⟩, false⟩) := by
    simp [exec, onStored]
  rw [writeFileDurably, runCall_bind_ok _ (runCall_checked _ created),
    runCall_bind_ok _ (runCall_checked _ written), runCall_checked _ synced]

theorem runCall_writeTop (root : Bytes) (disk : RepoDisk) (f : RepoFile) (data : Bytes) :
    ∃ disk' inode, runCall (writeFileDurably root (.top f) data) disk = (.ok (), disk') ∧
      disk'.dirs = disk.dirs ∧
      disk'.files.entry = update disk.files.entry f (some ⟨inode, data, true⟩) := by
  let inode := disk.files.inodeFor f
  let created : RepoDisk := { disk with files := disk.files.create f }
  let written : RepoDisk := { disk with files := created.files.change inode (overwrite data) false }
  let synced : RepoDisk := { disk with files := written.files.change inode id true }
  have empty : created.files.entry f = some ⟨inode, [], false⟩ := update_self ..
  have full : written.files.entry f = some ⟨inode, data, false⟩ := by
    rw [Files.change_entry empty]
    simp [overwrite]
  refine ⟨synced, inode, ?_, rfl, ?_⟩
  · have first : exec (.create (.top f)) disk = (.ok (.top inode), created) :=
      rfl
    have second : exec (.write (.top inode) data) created = (.ok (), written) :=
      rfl
    have third : exec (.fsync (.top inode)) written = (.ok (), synced) := rfl
    rw [writeFileDurably, runCall_bind_ok _ (runCall_checked _ first),
      runCall_bind_ok _ (runCall_checked _ second), runCall_checked _ third]
  · rw [Files.change_entry full]
    rw [Files.change_entry empty, update_idem]
    show update (update disk.files.entry f _) f _ = _
    rw [update_idem]
    rfl

/-- `CURRENT` holds the version and its temporary file is gone. -/
structure PointsTo (disk : RepoDisk) (version : Nat) : Prop where
  current : ∃ inode, disk.files.entry .current = some ⟨inode, dec version, true⟩
  temporary : disk.files.entry .currentTmp = none

theorem runCall_setCurrent (root : Bytes) (disk : RepoDisk) (version : Nat) :
    ∃ disk', runCall (setCurrent root version) disk = (.ok (), disk') ∧ disk'.dirs = disk.dirs ∧
      PointsTo disk' version := by
  obtain ⟨disk₁, inode, written, dirs, entry⟩ :=
    runCall_writeTop root disk .currentTmp (dec version)
  have there : disk₁.files.entry .currentTmp = some ⟨inode, dec version, true⟩ := by
    rw [entry, update_self]
  refine ⟨{ disk₁ with files := disk₁.files.move .currentTmp .current }, ?_, dirs, ⟨inode, ?_⟩, ?_⟩
  · have renamed : exec (.renameFile .currentTmp .current) disk₁ =
        (.ok (), { disk₁ with files := disk₁.files.move .currentTmp .current }) := by
        simp [exec, there]
    rw [setCurrent, runCall_bind_ok _ written, renameFileDurably,
      runCall_bind_ok _ (runCall_checked _ renamed)]
    rfl
  · rw [← there]
    exact Files.move_entry_target ..
  · exact Files.move_entry_source _ (by decide)

end Writes

/-! ## What an epoch's directory holds -/

/-- The files of an epoch, and the manifest whose text one of them is. -/
structure Layout where
  matchFile : Bytes
  payloadFile : Bytes
  manifest : Manifest
  text : Bytes

/-- The files a staged epoch is written as. -/
def layout (lib : JsonLibrary) (staging : StagingEpoch) (version : Nat) : StatusOr Layout := do
  let (matchFile, matchCrc) ← segmentFile (matchRecordBytes staging.schema staging.keyBits)
    (staging.rows.map Row.match_)
  let (payloadFile, payloadCrc) ← segmentFile staging.geometry.recordBytes
    (staging.rows.map Row.payload)
  let manifest := describe staging version matchCrc payloadCrc
  manifest.validate
  return ⟨matchFile, payloadFile, manifest, serializeManifest lib manifest⟩

/-- The directory holds the files, all flushed. -/
structure Holds (dir : Subdir) (l : Layout) : Prop where
  match_ : dir.files.lookup kMatchFile = some ⟨l.matchFile, true⟩
  payload : dir.files.lookup kPayloadFile = some ⟨l.payloadFile, true⟩
  manifest : dir.files.lookup kManifestFile = some ⟨l.text, true⟩
  synced : dir.synced = true

/-- The files and the epochs are as they were; a temporary directory may have changed. -/
structure SameEpochs (disk disk' : RepoDisk) : Prop where
  files : disk'.files = disk.files
  epochs : ∀ version, disk'.dirs.lookup (.epoch version) = disk.dirs.lookup (.epoch version)

/-- The epoch has been added and is current; nothing else is lost. -/
structure Published (disk : RepoDisk) (version : Nat) (l : Layout) (disk' : RepoDisk) : Prop where
  epoch : ∃ dir, disk'.dirs.lookup (.epoch version) = some dir ∧ Holds dir l
  others : ∀ other, other ≠ version →
    disk'.dirs.lookup (.epoch other) = disk.dirs.lookup (.epoch other)
  pointer : PointsTo disk' version

theorem SameEpochs.refl (disk : RepoDisk) : SameEpochs disk disk :=
  ⟨rfl, fun _ => rfl⟩

theorem SameEpochs.trans {first second third : RepoDisk} (one : SameEpochs first second)
    (two : SameEpochs second third) : SameEpochs first third :=
  ⟨two.files.trans one.files, fun v => (two.epochs v).trans (one.epochs v)⟩

theorem sameEpochs_setTemp (disk : RepoDisk) (version : Nat) (dir : Subdir) :
    SameEpochs disk (disk.setDir (.temp version) dir) :=
  ⟨rfl, fun _ => lookup_setDir_ne _ _ _ (by simp)⟩

theorem sameEpochs_dropTemp (disk : RepoDisk) (version : Nat) :
    SameEpochs disk (disk.dropDir (.temp version)) :=
  ⟨rfl, fun _ => lookup_dropDir_ne _ _ (by simp)⟩

section Tracks

variable {α β γ δ : Type} {disk : RepoDisk} {call : FileCall β} {result : StatusOr α}
  {relates : α → β → RepoDisk → Prop}

/-- The call fails as the result does, with the epochs left alone, or it succeeds, and its value
and the disk it leaves are related to the result's value. -/
def Tracks (disk : RepoDisk) (call : FileCall β) (result : StatusOr α)
    (relates : α → β → RepoDisk → Prop) : Prop :=
  match result with
  | .ok a => ∃ b disk', runCall call disk = (.ok b, disk') ∧ relates a b disk'
  | .error status => ∃ disk', runCall call disk = (.error status, disk') ∧ SameEpochs disk disk'

theorem tracks_liftStatus (disk : RepoDisk) (result : StatusOr α) :
    Tracks disk (liftStatus result) result fun a b disk' => b = a ∧ disk' = disk := by
  rcases result with status | a
  · exact ⟨disk, rfl, .refl _⟩
  · exact ⟨a, disk, rfl, rfl, rfl⟩

theorem Tracks.bind {next : β → FileCall δ} {f : α → StatusOr γ} {relates' : γ → δ → RepoDisk → Prop}
    (first : Tracks disk call result relates)
    (later : ∀ a b disk', relates a b disk' → SameEpochs disk disk' ∧ Tracks disk' (next b) (f a) relates') :
    Tracks disk (call >>= next) (result >>= f) relates' := by
  rcases result with status | a
  · obtain ⟨disk', failed, same⟩ := first
    exact ⟨disk', runCall_bind_error _ failed _, same⟩
  obtain ⟨b, disk', done, related⟩ := first
  obtain ⟨same, rest⟩ := later a b disk' related
  show Tracks disk (call >>= next) (f a) relates'
  revert rest
  rcases f a with status | c <;> intro rest
  · obtain ⟨last, failed, same'⟩ := rest
    exact ⟨last, (runCall_bind_ok _ done _).trans failed, same.trans same'⟩
  · obtain ⟨d, last, done', related'⟩ := rest
    exact ⟨d, last, (runCall_bind_ok _ done _).trans done', related'⟩

/-- What follows never fails. -/
theorem Tracks.and_then {next : β → FileCall δ} {relates' : α → δ → RepoDisk → Prop}
    (first : Tracks disk call result relates)
    (later : ∀ a b disk', relates a b disk' →
      ∃ d last, runCall (next b) disk' = (.ok d, last) ∧ relates' a d last) :
    Tracks disk (call >>= next) result relates' := by
  rcases result with status | a
  · obtain ⟨disk', failed, same⟩ := first
    exact ⟨disk', runCall_bind_error _ failed _, same⟩
  · obtain ⟨b, disk', done, related⟩ := first
    obtain ⟨d, last, done', related'⟩ := later a b disk' related
    exact ⟨d, last, (runCall_bind_ok _ done _).trans done', related'⟩

theorem Tracks.returned (tracks : Tracks disk call result relates) {b : β}
    (done : runCall call disk = (.ok b, disk')) : ∃ a, result = .ok a ∧ relates a b disk' := by
  rcases result with status | a
  · obtain ⟨_, failed, _⟩ := tracks
    cases done.symm.trans failed
  · obtain ⟨_, _, done', related⟩ := tracks
    cases done.symm.trans done'
    exact ⟨a, rfl, related⟩

end Tracks

section Build

variable {root : Bytes} {lib : JsonLibrary} {disk : RepoDisk} {staging : StagingEpoch} {version : Nat}
  {dir : Subdir}

theorem tracks_writeSegment (known : disk.dirs.lookup (.temp version) = some dir) (name : Bytes)
    (recordBytes : Nat) (records : List Bytes) :
    Tracks disk (writeSegment root (.inside (.temp version) name) recordBytes records)
      (segmentFile recordBytes records) fun file crc disk' => crc = file.2 ∧ SameEpochs disk disk' ∧
        disk'.dirs.lookup (.temp version) = some ⟨dir.files.insert name ⟨file.1, true⟩, false⟩ := by
  refine (tracks_liftStatus disk _).and_then ?_
  rintro ⟨file, crc⟩ _ _ ⟨rfl, rfl⟩
  refine ⟨crc, _, ?_, rfl, sameEpochs_setTemp .., lookup_setDir_self ..⟩
  rw [runCall_bind_ok _ (runCall_writeInside known name file)]
  rfl

/-- The renaming of a finished directory. -/
theorem runCall_renameEpoch (known : disk.dirs.lookup (.temp version) = some dir)
    (free : disk.dirs.lookup (.epoch version) = none) :
    runCall (renameDirDurably root (.temp version) (.epoch version)) disk =
      (.ok (), (disk.dropDir (.temp version)).setDir (.epoch version) dir) := by
  have renamed : exec (.renameDir (.temp version) (.epoch version)) disk =
      (.ok (), (disk.dropDir (.temp version)).setDir (.epoch version) dir) := by
    simp [exec, known, free]
  rw [renameDirDurably, runCall_bind_ok _ (runCall_checked _ renamed)]
  rfl

theorem runCall_fsyncDir {d : RepoDir} (words : FileError → List Bytes)
    (known : disk.dirs.lookup d = some dir) :
    runCall (checked words (.fsyncDir d)) disk =
      (.ok (), disk.setDir d { dir with synced := true }) := by
  refine runCall_checked _ ?_
  simp only [exec, known]

/-- **Filling succeeds when the layout exists**, and otherwise fails with its status. -/
theorem runCall_fill (root : Bytes) (lib : JsonLibrary) (staging : StagingEpoch)
    (known : disk.dirs.lookup (.temp version) = some dir) :
    Tracks disk (fillEpoch root lib staging version) (layout lib staging version) fun l _ disk' =>
      ∃ dir', Holds dir' l ∧ disk'.dirs.lookup (.temp version) = some dir' ∧ SameEpochs disk disk' := by
  refine (tracks_writeSegment known _ _ _).bind ?_
  rintro ⟨matchFile, matchCrc⟩ _ disk₁ ⟨rfl, same₁, known₁⟩
  refine ⟨same₁, (tracks_writeSegment known₁ _ _ _).bind ?_⟩
  rintro ⟨payloadFile, payloadCrc⟩ _ disk₂ ⟨rfl, same₂, known₂⟩
  refine ⟨same₂, (tracks_liftStatus disk₂ _).bind ?_⟩
  rintro _ _ _ ⟨rfl, rfl⟩
  refine ⟨.refl _, (), _, (runCall_bind_ok _ (runCall_writeInside known₂ _ _) _).trans
    (runCall_fsyncDir _ (lookup_setDir_self ..)), _, ⟨?_, ?_, ?_, rfl⟩, lookup_setDir_self ..,
    ((same₁.trans same₂).trans (sameEpochs_setTemp ..)).trans (sameEpochs_setTemp ..)⟩
  · rw [Finmap.lookup_insert_of_ne _ (by decide), Finmap.lookup_insert_of_ne _ (by decide),
      Finmap.lookup_insert]
  · rw [Finmap.lookup_insert_of_ne _ (by decide), Finmap.lookup_insert]
  · exact Finmap.lookup_insert _

/-- Building is filling and then renaming. -/
theorem runCall_build (root : Bytes) (lib : JsonLibrary) (staging : StagingEpoch)
    (known : disk.dirs.lookup (.temp version) = some dir)
    (free : disk.dirs.lookup (.epoch version) = none) :
    Tracks disk (buildEpoch root lib staging version) (layout lib staging version) fun l _ disk' =>
      ∃ dir' disk₁, Holds dir' l ∧ SameEpochs disk disk₁ ∧ disk' = disk₁.setDir (.epoch version) dir' := by
  rw [buildEpoch]
  refine (runCall_fill root lib staging known).and_then ?_
  rintro l _ disk' ⟨dir', holds, known', same⟩
  exact ⟨(), _, runCall_renameEpoch known' ((same.epochs version).trans free), dir', _, holds,
    same.trans (sameEpochs_dropTemp ..), rfl⟩

theorem runCall_orRemove (body : FileCall Unit) :
    runCall (orRemove d body) disk = match runCall body disk with
      | (.ok (), disk') => (.ok (), disk')
      | (.error status, disk') => (.error status, disk'.dropDir d) := by
  show Prog.run exec (body.run >>= _) disk = _
  rw [run_bind]
  rcases run : runCall body disk with ⟨status | _, disk'⟩ <;>
  · rw [show Prog.run exec body.run disk = _ from run]
    rfl

theorem Tracks.orRemove {α : Type} {body : FileCall Unit} {result : StatusOr α}
    {relates : α → Unit → RepoDisk → Prop} (tracks : Tracks disk body result relates) :
    Tracks disk (orRemove (.temp version) body) result relates := by
  rcases result with status | a
  · obtain ⟨disk', failed, same⟩ := tracks
    exact ⟨disk'.dropDir (.temp version), by rw [runCall_orRemove, failed],
      same.trans (sameEpochs_dropTemp ..)⟩
  · obtain ⟨_, disk', done, related⟩ := tracks
    exact ⟨(), disk', by rw [runCall_orRemove, done], related⟩

/-- What follows once the temporary directory is there. -/
def finishPublish (root : Bytes) (lib : JsonLibrary) (staging : StagingEpoch) (version : Nat) :
    FileCall Unit := do
  orRemove (.temp version) (buildEpoch root lib staging version)
  setCurrent root version

theorem runCall_finishPublish (root : Bytes) (lib : JsonLibrary) (staging : StagingEpoch)
    (known : disk.dirs.lookup (.temp version) = some dir)
    (free : disk.dirs.lookup (.epoch version) = none) :
    Tracks disk (finishPublish root lib staging version) (layout lib staging version) fun l _ disk' =>
      Published disk version l disk' := by
  refine (Tracks.orRemove (runCall_build root lib staging known free)).and_then ?_
  rintro l _ _ ⟨dir', disk₁, holds, same, rfl⟩
  obtain ⟨disk₂, pointed, dirs, pointer⟩ :=
    runCall_setCurrent root (disk₁.setDir (.epoch version) dir') version
  refine ⟨(), disk₂, pointed, ⟨dir', ?_, holds⟩, fun other apart => ?_, pointer⟩
  · rw [dirs, lookup_setDir_self]
  · rw [dirs, lookup_setDir_ne _ _ _ (by simpa using apart)]
    exact same.epochs other

/-- Everything publishing needs of the staged epoch and of the disk. -/
structure Publishable (lib : JsonLibrary) (disk : RepoDisk) (staging : StagingEpoch) (version : Nat)
    (l : Layout) : Prop where
  valid : staging.validate = .ok ()
  free : disk.dirs.lookup (.epoch version) = none
  laid : layout lib staging version = .ok l

theorem Published.after {disk₁ : RepoDisk} {l : Layout} (same : SameEpochs disk disk₁)
    (published : Published disk₁ version l disk') : Published disk version l disk' :=
  ⟨published.epoch, fun other apart => (published.others other apart).trans (same.epochs other),
    published.pointer⟩

/-- A version that is there is refused. -/
theorem publish_taken (valid : staging.validate = .ok ())
    (there : disk.dirs.lookup (.epoch version) = some dir) :
    runCall (publish root lib staging version) disk = (.error (alreadyPublished version), disk) := by
  have checked₁ : runCall (liftStatus staging.validate) disk = (.ok (), disk) := by
    rw [runCall_liftStatus, valid]
  have found : runCall (existsDir (.epoch version)) disk = (.ok true, disk) := by
    rw [runCall_existsDir, there, Option.isSome_some]
  rw [publish, runCall_bind_ok _ checked₁, runCall_bind_ok _ found]
  rfl

/-- **An undisturbed `Publish`** adds the epoch and makes it current, or fails and changes
no epoch and no pointer. -/
theorem runCall_publish (root : Bytes) (lib : JsonLibrary) (disk : RepoDisk) (staging : StagingEpoch)
    (version : Nat) :
    (∃ l disk', Publishable lib disk staging version l ∧
      runCall (publish root lib staging version) disk = (.ok (), disk') ∧
      Published disk version l disk') ∨
    ((∀ l, ¬ Publishable lib disk staging version l) ∧ ∃ status disk',
      runCall (publish root lib staging version) disk = (.error status, disk') ∧
      SameEpochs disk disk') := by
  rcases valid : staging.validate with status | _
  · refine Or.inr ⟨fun l able => ?_, status, disk, ?_, .refl _⟩
    · rw [able.valid] at valid
      cases valid
    · refine runCall_bind_error _ ?_ _
      rw [runCall_liftStatus, valid]
  have checked₁ : runCall (liftStatus staging.validate) disk = (.ok (), disk) := by
    rw [runCall_liftStatus, valid]
  rcases free : disk.dirs.lookup (.epoch version) with _ | dir
  · have absent : runCall (existsDir (.epoch version)) disk =
        (.ok false, disk) := by
      rw [runCall_existsDir, free, Option.isSome_none]
    -- the temporary directory is emptied and made again
    let disk₁ := disk.dropDir (.temp version)
    let disk₂ := disk₁.setDir (.temp version) ⟨∅, false⟩
    have removed : runCall (asked (.removeAll (.temp version))) disk =
      (.ok (.ok ()), disk₁) := rfl
    have created : ∀ words, runCall (checked words (.createDir (.temp version))) disk₁ =
        (.ok (), disk₂) := by
      intro words
      rw [runCall_createDir, lookup_dropDir_self]
      rfl
    have known : disk₂.dirs.lookup (.temp version) = some ⟨∅, false⟩ := lookup_setDir_self ..
    have same : SameEpochs disk disk₂ := (sameEpochs_dropTemp ..).trans (sameEpochs_setTemp ..)
    have finished := runCall_finishPublish root lib staging known
      ((same.epochs version).trans free)
    have entered : runCall (publish root lib staging version) disk =
        runCall (finishPublish root lib staging version) disk₂ := by
      rw [publish, runCall_bind_ok _ checked₁, runCall_bind_ok _ absent]
      show runCall (asked _ >>= _) disk = _
      rw [runCall_bind_ok _ removed, runCall_bind_ok _ (created _)]
      rfl
    rw [entered]
    rcases laid : layout lib staging version with status | l
    · rw [laid] at finished
      obtain ⟨disk₃, failed, same₃⟩ := finished
      refine Or.inr ⟨fun l able => ?_, status, disk₃, failed, same.trans same₃⟩
      rw [able.laid] at laid
      cases laid
    · rw [laid] at finished
      obtain ⟨_, disk₃, done, published⟩ := finished
      exact Or.inl ⟨l, disk₃, ⟨valid, free, laid⟩, done, published.after same⟩
  · refine Or.inr ⟨fun l able => ?_, alreadyPublished version, disk, publish_taken valid free, .refl _⟩
    rw [able.free] at free
    cases free

end Build

/-! ## Reading -/

section Reading

variable (root : Bytes) (lib : JsonLibrary) (disk : RepoDisk)

/-- The version in a text of `CURRENT`. -/
def parseCurrent (text : Bytes) : StatusOr Nat :=
  match simpleAtou64 (stripAsciiWhitespace text) with
  | some version => .ok version
  | none => .error ⟨.dataLoss, bytes "CURRENT does not hold a valid version"⟩

def currentOf (answer : Except FileError Content) : StatusOr Nat := do
  let text ← readSmall (joinPath root RepoFile.current.text) 64 answer
  parseCurrent text

theorem currentVersion_run : (currentVersion root).run =
    call (.readTop .current) fun answer => done (currentOf root answer) := by
  show call _ _ = _
  congr 1
  funext answer
  show ExceptT.run (liftStatus (readSmall (joinPath root RepoFile.current.text) 64 answer) >>= _) = _
  rw [currentOf]
  rcases readSmall (joinPath root RepoFile.current.text) 64 answer with status | text
  · rfl
  · show ExceptT.run (match simpleAtou64 (stripAsciiWhitespace text) with
      | some version => pure version
      | none => liftStatus _) = done (parseCurrent text)
    rw [parseCurrent]
    rcases simpleAtou64 (stripAsciiWhitespace text) with _ | version <;> rfl

theorem runCall_currentVersion : runCall (currentVersion root) disk =
    (currentOf root (disk.files.read .current), disk) := by
  rw [runCall, currentVersion_run]
  rfl

theorem currentOf_dec {version : Nat} (small : version < 2 ^ 64) :
    currentOf root (.ok (dec version)) = .ok version := by
  have short : ¬ (dec version).length > 64 := by
    have := dec_length_le (n := version) (k := 20) (by decide) (by omega)
    omega
  have solid : stripAsciiWhitespace (dec version) = dec version :=
    stripAsciiWhitespace_of_solid fun c member => isSpace_of_isDigit (dec_digits member)
  rw [currentOf, readSmall, if_neg short]
  refine bind_eq_ok.2 ⟨dec version, rfl, ?_⟩
  rw [parseCurrent, solid, simpleAtou64_dec small]

variable {disk} in
theorem PointsTo.currentVersion {version : Nat} (pointer : PointsTo disk version)
    (small : version < 2 ^ 64) : runCall (currentVersion root) disk = (.ok version, disk) := by
  obtain ⟨inode, known⟩ := pointer.current
  rw [runCall_currentVersion]
  simp only [Files.read, known, currentOf_dec root small]

/-- What opening makes of a directory. -/
def openDir (version : Nat) (dir : Subdir) : StatusOr EpochReader := do
  let path := fun name => placePath root (.inside (.epoch version) name)
  let text ← readSmall (path kManifestFile) kMaxManifestBytes (dir.read kManifestFile)
  let manifest ← parseManifest lib text
  let match_ ← openSegmentAnswer (path manifest.matchSegment.file) manifest.matchSegment
    (dir.read manifest.matchSegment.file)
  let payload ← openSegmentAnswer (path manifest.payloadSegment.file) manifest.payloadSegment
    (dir.read manifest.payloadSegment.file)
  return ⟨manifest, match_, payload⟩

/-- While the directory is there and stays as it is, opening makes this of it. -/
theorem steady_openVersion (version : Nat) (dir : Subdir) :
    Settles (fun disk => disk.dirs.lookup (.epoch version) = some dir) (openDir root lib version dir)
      (openVersion root lib version) := by
  have read : ∀ name, Settles (fun disk => disk.dirs.lookup (.epoch version) = some dir)
      (.ok (dir.read name)) (asked (.readFile (.epoch version) name)) := by
    intro name disk known
    simp only [exec, known]
    exact ⟨trivial, rfl⟩
  have there : Settles (fun disk => disk.dirs.lookup (.epoch version) = some dir) (.ok true)
      (existsDir (.epoch version)) := by
    intro disk known
    simp only [exec, known]
    exact ⟨trivial, rfl⟩
  have segment : ∀ descriptor : SegmentDescriptor,
      Settles (fun disk => disk.dirs.lookup (.epoch version) = some dir)
        (openSegmentAnswer (placePath root (.inside (.epoch version) descriptor.file)) descriptor
          (dir.read descriptor.file)) (openSegmentOf root (.epoch version) descriptor) := fun _ =>
    settles_then (read _) (settles_liftStatus _)
  refine settles_then there (settles_then (read kManifestFile) ?_)
  refine settles_bind (settles_liftStatus _) fun text => ?_
  refine settles_bind (settles_liftStatus _) fun manifest => ?_
  exact settles_bind (segment _) fun match_ => settles_bind (segment _) fun payload =>
    settles_liftStatus _

theorem runCall_openVersion (version : Nat) : runCall (openVersion root lib version) disk =
    (match disk.dirs.lookup (.epoch version) with
      | none => .error (epochNotFound version)
      | some dir => openDir root lib version dir, disk) := by
  rcases known : disk.dirs.lookup (.epoch version) with _ | dir
  · have absent : runCall (existsDir (.epoch version)) disk =
        (.ok false, disk) := by
      rw [runCall_existsDir, known, Option.isSome_none]
    rw [known, openVersion, runCall_bind_ok _ absent]
    rfl
  · rw [known]
    exact (steady_openVersion root lib version dir).run known

end Reading

end OpaqueDb.Storage
