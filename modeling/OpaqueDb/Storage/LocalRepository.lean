/-
# Storage.LocalRepository -- epochs in a directory

An epoch is a directory named by its version, and `CURRENT` a file that holds the version
in use.  `publish` builds the directory under a temporary name and renames it into place;
`setCurrent` does the same with the pointer.

Every function is a program of file-system commands, in the order the source issues them.
A failed command becomes the status the source returns, with the system's error text in it.
-/
import OpaqueDb.Storage.Manifest
import OpaqueDb.Storage.Segment
import OpaqueDb.Theory.FileSystem
import Mathlib.Data.Finset.Sort

namespace OpaqueDb.Storage

open OpaqueDb.Core Theory

set_option autoImplicit false

/-! ## The names under the root -/

inductive RepoFile where
  | current
  | currentTmp
  deriving DecidableEq

inductive RepoDir where
  | epoch (version : Nat)
  | temp (version : Nat)
  deriving DecidableEq

def RepoFile.text : RepoFile → Bytes
  | .current => bytes "CURRENT"
  | .currentTmp => bytes "CURRENT.tmp"

def RepoDir.text : RepoDir → Bytes
  | .epoch version => dec version
  | .temp version => bytes ".tmp." ++ dec version

abbrev RepoDisk := Disk RepoFile RepoDir

abbrev FileIO := Prog (FileOp RepoFile RepoDir) FileOp.Answer

abbrev FileCall (α : Type) := ExceptT Status FileIO α

def kMaxManifestBytes : Nat := 2 ^ 20
def kMatchFile : Bytes := bytes "match.seg"
def kPayloadFile : Bytes := bytes "payload.seg"
def kManifestFile : Bytes := bytes "manifest.json"

/-- A name appended to a path. -/
def joinPath (base name : Bytes) : Bytes :=
  if base.getLast? = some 47 then base ++ name else base ++ 47 :: name

section Repository

variable (root : Bytes)

def placePath : FilePlace RepoFile RepoDir → Bytes
  | .top f => joinPath root f.text
  | .inside d name => joinPath (joinPath root d.text) name

/-! ## Durable writes -/

def liftStatus {α : Type} (result : StatusOr α) : FileCall α :=
  ExceptT.mk (Prog.done result)

/-- A command whose error is returned, its text behind the words for it. -/
def checked (words : FileError → List Bytes) (op : FileOp RepoFile RepoDir) : FileCall op.Value :=
  ExceptT.mk (Prog.call op fun answer =>
    Prog.done (answer.mapError fun error => internalError (words error ++ [error.text])))

/-- A command whose answer the caller looks at. -/
def asked (op : FileOp RepoFile RepoDir) : FileCall op.Answer :=
  ExceptT.mk (Prog.call op fun answer => Prog.done (.ok answer))

/-- An existence test that fails counts as absent. -/
def existsDir (d : RepoDir) : FileCall Bool := do
  let answer ← asked (.existsDir d)
  return match answer with
    | .ok there => there
    | .error _ => false

def writeFileDurably (place : FilePlace RepoFile RepoDir) (data : Bytes) : FileCall Unit := do
  let path := placePath root place
  let handle ← checked (fun _ => [bytes "cannot create '", path, bytes "': "]) (.create place)
  checked (fun _ => [bytes "write '", path, bytes "' failed: "]) (.write handle data)
  checked (fun _ => [bytes "fsync '", path, bytes "' failed: "]) (.fsync handle)

/-- A directory is opened before it is synced. -/
def fsyncFailed (dir : Bytes) : FileError → List Bytes
  | .missing | .cannotOpen _ => [bytes "cannot open dir '", dir, bytes "': "]
  | _ => [bytes "fsync dir '", dir, bytes "' failed: "]

/-- The parent of every renamed name is the root. -/
def fsyncRoot : FileCall Unit :=
  checked (fsyncFailed root) .fsyncTop

def renameFailed (source target : Bytes) (_ : FileError) : List Bytes :=
  [bytes "rename '", source, bytes "' -> '", target, bytes "' failed: "]

def renameFileDurably (source target : RepoFile) : FileCall Unit := do
  checked (renameFailed (joinPath root source.text) (joinPath root target.text))
    (.renameFile source target)
  fsyncRoot root

def renameDirDurably (source target : RepoDir) : FileCall Unit := do
  checked (renameFailed (joinPath root source.text) (joinPath root target.text))
    (.renameDir source target)
  fsyncRoot root

/-- A read of a small file: the size is checked before the content is read. -/
def readSmall (path : Bytes) (maxBytes : Nat) (answer : Except FileError Content) : StatusOr Bytes :=
  match answer with
  | .error .missing => .error ⟨.notFound, strCat ["no such file '", path, "'"]⟩
  | .error (.cannotOpen text) =>
    .error (internalError [bytes "cannot open '", path, bytes "': ", text])
  | .error (.cannotStat text) =>
    .error (internalError [bytes "cannot stat '", path, bytes "': ", text])
  | .error (.cannotRead text) | .error (.failed text) =>
    .error (internalError [bytes "read '", path, bytes "' failed: ", text])
  | .ok content =>
    if content.length > maxBytes then
      .error ⟨.outOfRange, strCat ["'", path, "' is larger than the ", dec maxBytes,
        " byte limit"]⟩
    else .ok content

/-! ## Publishing -/

def setCurrent (version : Nat) : FileCall Unit := do
  writeFileDurably root (.top .currentTmp) (dec version)
  renameFileDurably root .currentTmp .current

def writeSegment (place : FilePlace RepoFile RepoDir) (recordBytes : Nat) (records : List Bytes) :
    FileCall UInt32 := do
  let (file, crc) ← liftStatus (segmentFile recordBytes records)
  writeFileDurably root place file
  return crc

/-- The manifest of a staged epoch whose segments have these CRCs. -/
def describe (staging : StagingEpoch) (version : Nat) (matchCrc payloadCrc : UInt32) : Manifest where
  epochVersion := version
  schema := staging.schema
  keyBits := staging.keyBits
  geometry := staging.geometry
  matchSegment := ⟨kMatchFile, matchRecordBytes staging.schema staging.keyBits, staging.rows.length,
    matchCrc.toNat⟩
  payloadSegment := ⟨kPayloadFile, staging.geometry.recordBytes, staging.rows.length,
    payloadCrc.toNat⟩

/-- Everything a build does before it renames the directory. -/
def fillEpoch (lib : JsonLibrary) (staging : StagingEpoch) (version : Nat) : FileCall Unit := do
  let temp := RepoDir.temp version
  let matchCrc ← writeSegment root (.inside temp kMatchFile)
    (matchRecordBytes staging.schema staging.keyBits) (staging.rows.map Row.match_)
  let payloadCrc ← writeSegment root (.inside temp kPayloadFile) staging.geometry.recordBytes
    (staging.rows.map Row.payload)
  let manifest := describe staging version matchCrc payloadCrc
  liftStatus manifest.validate
  writeFileDurably root (.inside temp kManifestFile) (serializeManifest lib manifest)
  checked (fsyncFailed (joinPath root temp.text)) (.fsyncDir temp)

def buildEpoch (lib : JsonLibrary) (staging : StagingEpoch) (version : Nat) : FileCall Unit := do
  fillEpoch root lib staging version
  renameDirDurably root (.temp version) (.epoch version)

/-- A failure removes the directory and is passed on. -/
def orRemove (d : RepoDir) (body : FileCall Unit) : FileCall Unit :=
  ExceptT.mk (body.run >>= fun result =>
    match result with
    | .ok () => Prog.done (.ok ())
    | .error status => Prog.call (.removeAll d) fun _ => Prog.done (.error status))

def alreadyPublished (version : Nat) : Status :=
  ⟨.alreadyExists, strCat ["epoch ", dec version, " is already published and is immutable"]⟩

def publish (lib : JsonLibrary) (staging : StagingEpoch) (version : Nat) : FileCall Unit := do
  liftStatus staging.validate
  let there ← existsDir (.epoch version)
  if there then liftStatus (.error (alreadyPublished version))
  else do
    let temp := RepoDir.temp version
    let _ ← asked (.removeAll temp)
    checked (fun _ => [bytes "cannot create '", joinPath root temp.text, bytes "': "])
      (.createDir temp)
    orRemove temp (buildEpoch root lib staging version)
    setCurrent root version

/-! ## Reading -/

def currentVersion : FileCall Nat := do
  let answer ← asked (.readTop .current)
  let text ← liftStatus (readSmall (joinPath root RepoFile.current.text) 64 answer)
  match simpleAtou64 (stripAsciiWhitespace text) with
  | some version => return version
  | none => liftStatus (.error ⟨.dataLoss, bytes "CURRENT does not hold a valid version"⟩)

/-- A directory name that is a bare decimal number. -/
def parseVersionName (name : Bytes) : Option Nat :=
  if name.isEmpty || !name.all isDigit then none else simpleAtou64 name

/-- The versions among the directory names, ascending. -/
def versionsOf (names : Finset RepoDir) : List Nat :=
  (names.image fun d => parseVersionName d.text).eraseNone.sort (· ≤ ·)

def listEpochs : FileCall (List Nat) := do
  let names ← checked (fun _ => [bytes "cannot list epochs: "]) .listDirs
  return versionsOf names

/-- The manifest and the mapped segments of one epoch. -/
structure EpochReader where
  manifest : Manifest
  match_ : SegmentReader
  payload : SegmentReader

def EpochReader.rowCount (reader : EpochReader) : Nat :=
  reader.match_.recordCount

def EpochReader.matchRecord (reader : EpochReader) (index : Nat) : StatusOr Bytes :=
  reader.match_.record index

def EpochReader.payloadRecord (reader : EpochReader) (index : Nat) : StatusOr Bytes :=
  reader.payload.record index

/-- A segment of an epoch, mapped and checked against its description. -/
def openSegmentAnswer (path : Bytes) (segment : SegmentDescriptor)
    (answer : Except FileError Content) : StatusOr SegmentReader :=
  match answer with
  | .error .missing => openSegment path none segment.recordBytes segment.recordCount segment.crc32
  | .error (.cannotOpen text) =>
    .error ⟨.notFound, strCat ["cannot open '", path, "': ", text]⟩
  | .error (.cannotStat text) =>
    .error (internalError [bytes "cannot stat '", path, bytes "': ", text])
  | .error (.cannotRead text) | .error (.failed text) =>
    .error (internalError [bytes "cannot mmap '", path, bytes "': ", text])
  | .ok content =>
    openSegment path (some content) segment.recordBytes segment.recordCount segment.crc32

def openSegmentOf (d : RepoDir) (segment : SegmentDescriptor) : FileCall SegmentReader := do
  let answer ← asked (.readFile d segment.file)
  liftStatus (openSegmentAnswer (placePath root (.inside d segment.file)) segment answer)

def epochNotFound (version : Nat) : Status :=
  ⟨.notFound, strCat ["epoch ", dec version, " not found"]⟩

section Json

variable (lib : JsonLibrary)

def openVersion (version : Nat) : FileCall EpochReader := do
  let dir := RepoDir.epoch version
  let there ← existsDir dir
  if there then do
    let answer ← asked (.readFile dir kManifestFile)
    let text ← liftStatus
      (readSmall (placePath root (.inside dir kManifestFile)) kMaxManifestBytes answer)
    let manifest ← liftStatus (parseManifest lib text)
    let match_ ← openSegmentOf root dir manifest.matchSegment
    let payload ← openSegmentOf root dir manifest.payloadSegment
    return ⟨manifest, match_, payload⟩
  else liftStatus (.error (epochNotFound version))

def openCurrent : FileCall EpochReader := do
  let version ← currentVersion root
  openVersion root lib version

/-- The target must open before `CURRENT` points at it. -/
def rollback (version : Nat) : FileCall Unit := do
  let _ ← openVersion root lib version
  setCurrent root version

end Json

/-! ## Pruning -/

def removeEpochs : List Nat → FileCall Unit
  | [] => return
  | version :: rest => do
    checked (fun _ => [bytes "cannot prune epoch ", dec version, bytes ": "])
      (.removeAll (.epoch version))
    removeEpochs rest

/-- All but the `keep` highest versions are removed, whatever `CURRENT` holds. -/
def prune (keep : Nat) : FileCall Unit :=
  if keep = 0 then return
  else do
    let versions ← listEpochs
    if versions.length ≤ keep then return
    else removeEpochs (versions.take (versions.length - keep))

end Repository

end OpaqueDb.Storage
