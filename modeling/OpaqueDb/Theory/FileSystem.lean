/-
# Theory.FileSystem -- a directory, its commands and their faults

One directory with files (named by `F`) and subdirectories (named by `D`), the
subdirectories holding files only.  A command is one call a program makes: it answers with
a value or with the text of an error.  `exec` is what an undisturbed command does, and
`Fault` what one may leave behind when it fails.

A file of the directory has an identity of its own, so that a handle follows it when it is
renamed.  `synced` says that what a file or a subdirectory holds has been flushed.
-/
import Mathlib.Data.Finmap
import OpaqueDb.Theory.Programs

namespace OpaqueDb.Theory

open Function

set_option autoImplicit false

abbrev Content := List UInt8

/-- Why a command failed; a read tells which of its calls did. -/
inductive FileError where
  | missing
  | cannotOpen (text : Content)
  | cannotStat (text : Content)
  | cannotRead (text : Content)
  | failed (text : Content)
  deriving DecidableEq

/-- The system's words for the error. -/
def FileError.text : FileError → Content
  | .missing => "No such file or directory".toUTF8.toList
  | .cannotOpen text => text
  | .cannotStat text => text
  | .cannotRead text => text
  | .failed text => text

/-- A file of the directory itself. -/
structure File where
  inode : Nat
  content : Content
  synced : Bool
  deriving DecidableEq

/-- A file of a subdirectory. -/
structure Stored where
  content : Content
  synced : Bool
  deriving DecidableEq

structure Subdir where
  files : Finmap fun _ : Content => Stored
  synced : Bool

def Subdir.put (dir : Subdir) (name : Content) (stored : Stored) : Subdir :=
  ⟨dir.files.insert name stored, false⟩

def Subdir.read (dir : Subdir) (name : Content) : Except FileError Content :=
  match dir.files.lookup name with
  | none => .error .missing
  | some stored => .ok stored.content

/-- A part of the directory's files. -/
def Subdir.Part (dir left : Subdir) : Prop :=
  left = dir ∨ (left.synced = false ∧
    ∀ name stored, left.files.lookup name = some stored → dir.files.lookup name = some stored)

/-- The named files; no two names share a file. -/
structure Files (F : Type) where
  entry : F → Option File
  /-- The next identity of a file. -/
  next : Nat
  fresh : ∀ f file, entry f = some file → file.inode < next
  distinct : ∀ f g a b, entry f = some a → entry g = some b → a.inode = b.inode → f = g

def Files.read {F : Type} (files : Files F) (f : F) : Except FileError Content :=
  match files.entry f with
  | none => .error .missing
  | some file => .ok file.content

structure Disk (F D : Type) where
  files : Files F
  dirs : Finmap fun _ : D => Subdir

/-- Where a file is created. -/
inductive FilePlace (F D : Type) where
  | top (f : F)
  | inside (d : D) (name : Content)

/-- An open file. -/
inductive Handle (D : Type) where
  | top (inode : Nat)
  | inside (d : D) (name : Content)

inductive FileOp (F D : Type) where
  | existsDir (d : D)
  | removeAll (d : D)
  | createDir (d : D)
  | create (place : FilePlace F D)
  | write (handle : Handle D) (data : Content)
  | fsync (handle : Handle D)
  | fsyncDir (d : D)
  | fsyncTop
  | renameFile (source target : F)
  | renameDir (source target : D)
  | readTop (f : F)
  | readFile (d : D) (name : Content)
  | listDirs

/-- What a command answers when it succeeds. -/
abbrev FileOp.Value {F D : Type} : FileOp F D → Type
  | .existsDir _ => Bool
  | .create _ => Handle D
  | .readTop _ => Content
  | .readFile _ _ => Content
  | .listDirs => Finset D
  | _ => Unit

abbrev FileOp.Answer {F D : Type} (op : FileOp F D) : Type :=
  Except FileError op.Value

/-! ## The files of the directory -/

namespace Files

variable {F : Type} [DecidableEq F]

/-- The identity a created file gets: an existing file keeps its own. -/
def inodeFor (files : Files F) (f : F) : Nat :=
  match files.entry f with
  | some file => file.inode
  | none => files.next

/-- An empty file under the name. -/
def create (files : Files F) (f : F) : Files F where
  entry := update files.entry f (some ⟨files.inodeFor f, [], false⟩)
  next := files.next + 1
  fresh g file known := by
    by_cases same : g = f
    · subst same
      rw [update_self] at known
      cases known
      unfold inodeFor
      rcases there : files.entry g with _ | file
      · exact Nat.lt_succ_self _
      · exact Nat.lt_succ_of_lt (files.fresh g file there)
    · rw [update_of_ne same] at known
      exact Nat.lt_succ_of_lt (files.fresh g file known)
  distinct := by
    -- a new identity is above every other one
    have apart : ∀ g b, g ≠ f → files.entry g = some b → b.inode ≠ files.inodeFor f := by
      intro g b other known same
      rcases there : files.entry f with _ | file
      · simp only [inodeFor, there] at same
        exact absurd (files.fresh g b known) (by omega)
      · simp only [inodeFor, there] at same
        exact other (files.distinct g f b file known there same)
    intro g h a b first second same
    by_cases gf : g = f <;> by_cases hf : h = f
    · rw [gf, hf]
    · subst gf
      rw [update_self] at first
      rw [update_of_ne hf] at second
      cases first
      exact absurd same.symm (apart h b hf second)
    · subst hf
      rw [update_self] at second
      rw [update_of_ne gf] at first
      cases second
      exact absurd same (apart g a gf first)
    · rw [update_of_ne gf] at first
      rw [update_of_ne hf] at second
      exact files.distinct g h a b first second same

/-- The file with the identity gets a new content and a new mark. -/
def change (files : Files F) (inode : Nat) (content : Content → Content) (synced : Bool) :
    Files F where
  entry f := (files.entry f).map fun file =>
    if file.inode = inode then ⟨inode, content file.content, synced⟩ else file
  next := files.next
  fresh f file known := by
    obtain ⟨old, there, rfl⟩ := Option.map_eq_some_iff.1 known
    have := files.fresh f old there
    split
    · rename_i same
      rw [← same]
      exact this
    · exact this
  distinct f g a b first second same := by
    obtain ⟨a, there, rfl⟩ := Option.map_eq_some_iff.1 first
    obtain ⟨b, there', rfl⟩ := Option.map_eq_some_iff.1 second
    have keeps : ∀ file : File, (if file.inode = inode then (⟨inode, content file.content, synced⟩ : File)
        else file).inode = file.inode := by
      intro file
      split
      · rename_i same
        exact same.symm
      · rfl
    rw [keeps, keeps] at same
    exact files.distinct f g a b there there' same

/-- What is under the source's name moves to the target's. -/
def move (files : Files F) (source target : F) : Files F where
  entry := update (update files.entry source none) target (files.entry source)
  next := files.next
  fresh f file there := by
    by_cases atTarget : f = target
    · subst atTarget
      rw [update_self] at there
      exact files.fresh source file there
    · rw [update_of_ne atTarget] at there
      by_cases atSource : f = source
      · subst atSource
        rw [update_self] at there
        cases there
      · rw [update_of_ne atSource] at there
        exact files.fresh f file there
  distinct := by
    have origin : ∀ f a, update (update files.entry source none) target
        (files.entry source) f = some a → (f = target ∧ files.entry source = some a) ∨
          (f ≠ target ∧ f ≠ source ∧ files.entry f = some a) := by
      intro f a there
      by_cases atTarget : f = target
      · subst atTarget
        rw [update_self] at there
        exact Or.inl ⟨rfl, there⟩
      · rw [update_of_ne atTarget] at there
        by_cases atSource : f = source
        · subst atSource
          rw [update_self] at there
          cases there
        · rw [update_of_ne atSource] at there
          exact Or.inr ⟨atTarget, atSource, there⟩
    intro f g a b first second same
    rcases origin f a first with ⟨rfl, known⟩ | ⟨_, notSource, there⟩ <;>
      rcases origin g b second with ⟨rfl, known'⟩ | ⟨_, notSource', there'⟩
    · rfl
    · exact absurd (files.distinct source g a b known there' same).symm notSource'
    · exact absurd (files.distinct f source a b there known' same) notSource
    · exact files.distinct f g a b there there' same

variable (files : Files F)

theorem create_entry_self (f : F) : (files.create f).entry f = some ⟨files.inodeFor f, [], false⟩ :=
  update_self ..

theorem create_entry_ne {f g : F} (other : g ≠ f) : (files.create f).entry g = files.entry g :=
  update_of_ne other ..

/-- Only the name of a changed file sees the change. -/
theorem change_entry {files : Files F} {f : F} {file : File} (known : files.entry f = some file)
    (content : Content → Content) (synced : Bool) :
    (files.change file.inode content synced).entry =
      update files.entry f (some ⟨file.inode, content file.content, synced⟩) := by
  funext g
  by_cases same : g = f
  · subst same
    simp [change, known]
  · rw [update_of_ne same]
    show (files.entry g).map _ = _
    rcases there : files.entry g with _ | other
    · rfl
    · have apart : other.inode ≠ file.inode := fun equal =>
        same (files.distinct g f other file there known equal)
      rw [Option.map_some, if_neg apart]

theorem move_entry_target (source target : F) :
    (files.move source target).entry target = files.entry source :=
  update_self ..

theorem move_entry_source {source target : F} (other : source ≠ target) :
    (files.move source target).entry source = none := by
  show update (update files.entry source none) target _ source = none
  rw [update_of_ne other, update_self]

end Files

namespace Disk

variable {F D : Type} [DecidableEq D]

/-- A new directory. -/
def empty : Disk F D where
  files := ⟨fun _ => none, 0, by simp, by simp⟩
  dirs := ∅

/-! ## What a command does -/

def notEmpty : FileError :=
  .failed "Directory not empty".toUTF8.toList

/-- The data over the start of what was there. -/
def overwrite (data content : Content) : Content :=
  data ++ content.drop data.length

def setDir (disk : Disk F D) (d : D) (dir : Subdir) : Disk F D :=
  { disk with dirs := disk.dirs.insert d dir }

def dropDir (disk : Disk F D) (d : D) : Disk F D :=
  { disk with dirs := disk.dirs.erase d }

/-- The named file of a subdirectory, changed; its entry stays. -/
def onStored (disk : Disk F D) (d : D) (name : Content) (change : Stored → Stored) : Disk F D :=
  match disk.dirs.lookup d with
  | none => disk
  | some dir =>
    match dir.files.lookup name with
    | none => disk
    | some stored => disk.setDir d ⟨dir.files.insert name (change stored), dir.synced⟩

section Updates

variable (disk : Disk F D) (d : D) (dir : Subdir)

@[simp] theorem lookup_setDir_self : (disk.setDir d dir).dirs.lookup d = some dir :=
  Finmap.lookup_insert _

theorem lookup_setDir_ne {e : D} (other : e ≠ d) :
    (disk.setDir d dir).dirs.lookup e = disk.dirs.lookup e :=
  Finmap.lookup_insert_of_ne _ other

@[simp] theorem lookup_dropDir_self : (disk.dropDir d).dirs.lookup d = none :=
  Finmap.lookup_erase _ _

theorem lookup_dropDir_ne {e : D} (other : e ≠ d) :
    (disk.dropDir d).dirs.lookup e = disk.dirs.lookup e :=
  Finmap.lookup_erase_ne other

@[simp] theorem setDir_setDir (dir' : Subdir) : (disk.setDir d dir).setDir d dir' = disk.setDir d dir' := by
  simp [setDir]

end Updates

variable [DecidableEq F]

def exec : (op : FileOp F D) → Disk F D → op.Answer × Disk F D
  | .existsDir d, disk => (.ok (disk.dirs.lookup d).isSome, disk)
  | .removeAll d, disk => (.ok (), disk.dropDir d)
  | .createDir d, disk =>
    (.ok (), if (disk.dirs.lookup d).isSome then disk else disk.setDir d ⟨∅, false⟩)
  | .create (.top f), disk =>
    (.ok (.top (disk.files.inodeFor f)), { disk with files := disk.files.create f })
  | .create (.inside d name), disk =>
    match disk.dirs.lookup d with
    | none => (.error .missing, disk)
    | some dir => (.ok (.inside d name), disk.setDir d (dir.put name ⟨[], false⟩))
  | .write (.top inode) data, disk =>
    (.ok (), { disk with files := disk.files.change inode (overwrite data) false })
  | .write (.inside d name) data, disk =>
    (.ok (), disk.onStored d name fun stored => ⟨overwrite data stored.content, false⟩)
  | .fsync (.top inode), disk => (.ok (), { disk with files := disk.files.change inode id true })
  | .fsync (.inside d name), disk =>
    (.ok (), disk.onStored d name fun stored => { stored with synced := true })
  | .fsyncDir d, disk =>
    match disk.dirs.lookup d with
    | none => (.error .missing, disk)
    | some dir => (.ok (), disk.setDir d { dir with synced := true })
  | .fsyncTop, disk => (.ok (), disk)
  | .renameFile source target, disk =>
    if (disk.files.entry source).isSome then
      (.ok (), { disk with files := disk.files.move source target })
    else (.error .missing, disk)
  | .renameDir source target, disk =>
    match disk.dirs.lookup source with
    | none => (.error .missing, disk)
    | some dir =>
      if (disk.dirs.lookup target).all fun there => there.files = ∅ then
        (.ok (), (disk.dropDir source).setDir target dir)
      else (.error notEmpty, disk)
  | .readTop f, disk => (disk.files.read f, disk)
  | .readFile d name, disk =>
    match disk.dirs.lookup d with
    | none => (.error .missing, disk)
    | some dir => (dir.read name, disk)
  | .listDirs, disk => (.ok disk.dirs.keys, disk)

/-! ## What a failed command leaves -/

/-- What a failed command that changes something leaves: a removal may have removed a part, a
write may have written a part, and nothing else has changed. -/
inductive Fault : Disk F D → FileOp F D → Disk F D → Prop
  | removeAll (disk : Disk F D) (d : D) : Fault disk (.removeAll d) disk
  | removePart {disk : Disk F D} {d : D} {dir left : Subdir} (known : disk.dirs.lookup d = some dir)
      (part : dir.Part left) : Fault disk (.removeAll d) (disk.setDir d left)
  | createDir (disk : Disk F D) (d : D) : Fault disk (.createDir d) disk
  | create (disk : Disk F D) (place : FilePlace F D) : Fault disk (.create place) disk
  | write (disk : Disk F D) (handle : Handle D) (data : Content) (n : Nat) :
      Fault disk (.write handle data) (exec (.write handle (data.take n)) disk).2
  | fsync (disk : Disk F D) (handle : Handle D) : Fault disk (.fsync handle) disk
  | fsyncDir (disk : Disk F D) (d : D) : Fault disk (.fsyncDir d) disk
  | fsyncTop (disk : Disk F D) : Fault disk .fsyncTop disk
  | renameFile (disk : Disk F D) (source target : F) : Fault disk (.renameFile source target) disk
  | renameDir (disk : Disk F D) (source target : D) : Fault disk (.renameDir source target) disk

/-- A command is undisturbed or fails with some error. -/
def May (disk : Disk F D) (op : FileOp F D) (answer : op.Answer) (disk' : Disk F D) : Prop :=
  exec op disk = (answer, disk') ∨ (Fault disk op disk' ∧ ∃ error, answer = .error error)

end Disk

end OpaqueDb.Theory
