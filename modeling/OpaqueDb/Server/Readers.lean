/-
# Server.Readers -- a reader among inserts

`OpenCurrent` takes no lock.  It reads `CURRENT`, and then the files of the epoch it named.
While fewer inserts than an insert keeps epochs run at the same time, that epoch stays in
place, and the reader shows it as it was when `CURRENT` was read.  With as many inserts as
epochs are kept, the epoch can be pruned between the two (`reader_sees_current_iff`).
-/
import Mathlib.Data.Fintype.Option
import OpaqueDb.Server.Tables
import OpaqueDb.Storage.Changes

namespace OpaqueDb.Server.Writers.Readers

open OpaqueDb.Core Theory Storage List Theory.World

set_option autoImplicit false

/-! ## One reader and some inserts -/

inductive Seen where
  | read (reader : EpochReader)
  | inserted (result : InsertResult)

section Threads

variable (root : Bytes) (json : JsonLibrary) (lib : Library) {k : Nat}

def readerCall : FileCall Seen := do
  let reader ← openCurrent root json
  return .read reader

def insertCall (cells : List Bytes) : FileCall Seen := do
  let result ← insertRowAndPublish root json lib cells
  return .inserted result

/-- The reader is the thread without a number. -/
def body (cells : Fin k → List Bytes) : Option (Fin k) → FileIO (StatusOr Seen)
  | none => (readerCall root json).run
  | some i => (insertCall root json lib (cells i)).run

abbrev Shared (k : Nat) : Type :=
  World (FileOp RepoFile RepoDir) FileOp.Answer (StatusOr Seen) RepoDisk (Option (Fin k))

/-- Only the inserts lock. -/
abbrev Interleaved (cells : Fin k → List Bytes) : Shared k → Shared k → Prop :=
  World.Moves Disk.exec (body root json lib cells) Option.isSome

/-- The reader returned OK, with the rows of an epoch that was current while it ran. -/
def SeesCurrent (cells : Fin k → List Bytes) (disk : RepoDisk) (w : Shared k) : Prop :=
  ∃ reader u p version staging, w.phase none = .returned (.ok (.read reader)) ∧
    Interleaved root json lib cells (initial disk) u ∧ u.phase none = .running p ∧
    Interleaved root json lib cells u w ∧ held root u.state = .ok version ∧
    HoldsEpoch json u.state version staging ∧ Shows reader staging

/-- Every insert that has returned was successful. -/
def Successful (w : Shared k) : Prop :=
  ∀ i r, w.phase (some i) = .returned r → ∃ result, r = .ok (.inserted result)

end Threads

/-! ## The commands of an insert -/

section Insert

variable {root : Bytes} {json : JsonLibrary} {lib : Library} {disk : RepoDisk}

/-- The epoch an insert on this disk publishes. -/
def Stages (root : Bytes) (json : JsonLibrary) (lib : Library) (cells : List Bytes) (disk : RepoDisk)
    (v : Nat) (l : Layout) : Prop :=
  ∃ reader staging, runCall (openCurrent root json) disk = (.ok reader, disk) ∧
    stageInsert lib reader.manifest.toEpochManifest (copyRows reader) cells = .ok staging ∧
    Lays json staging (derived root disk) v l

/-- The epochs an insert on this disk removes. -/
def Drops (root : Bytes) (json : JsonLibrary) (lib : Library) (cells : List Bytes) (disk : RepoDisk)
    (v : Nat) : Prop :=
  ∃ reader staging l published, runCall (openCurrent root json) disk = (.ok reader, disk) ∧
    stageInsert lib reader.manifest.toEpochManifest (copyRows reader) cells = .ok staging ∧
    Publishable json disk staging (derived root disk) l ∧
    Published disk (derived root disk) l published ∧
    v ∈ superseded published kInsertEpochRetention

theorem reading_nextVersion (root : Bytes) : Issues Reading (nextVersion root) := by
  refine Prog.Only.bind (p := (currentVersion root).run) (reading_currentVersion root) fun _ => ?_
  trivial

/-- **Every command of an insert** publishes the staged epoch or prunes behind it. -/
theorem each_insert (root : Bytes) (json : JsonLibrary) (lib : Library) (cells : List Bytes)
    (disk : RepoDisk) :
    Each (Change (Stages root json lib cells disk) (Drops root json lib cells disk)
      (Placed (Stages root json lib cells disk))) (insertRowAndPublish root json lib cells) disk := by
  refine (each_change_reading (reading_openCurrent root json) _).bind fun reader t opened => ?_
  obtain ⟨opened, rfl⟩ := runCall_of_reading (reading_openCurrent root json) opened
  refine (each_liftStatus _).bind fun staging t lifted => ?_
  obtain ⟨staged, rfl⟩ : stageInsert lib reader.manifest.toEpochManifest (copyRows reader) cells =
      .ok staging ∧ t = _ := by
    have run := strict_liftStatus _ lifted
    rw [Prod.mk.injEq] at run
    exact ⟨run.1, run.2.symm⟩
  refine (each_change_reading (reading_nextVersion root) _).bind fun next t₁ read => ?_
  obtain ⟨read, rfl⟩ := runCall_of_reading (reading_nextVersion root) read
  cases (runCall_nextVersion root t₁).symm.trans read
  have lays : ∀ v l, Lays json staging (derived root t₁) v l → Stages root json lib cells t₁ v l :=
    fun v l laid => ⟨reader, staging, opened, staged, laid⟩
  refine Each.bind (each_mono (each_publish root json staging _ t₁) fun _ _ change =>
    change.mono lays (fun _ => False.elim) fun v t ⟨l, laid, stands⟩ => ⟨l, lays v l laid, stands⟩)
    fun _ t₂ returned => ?_
  obtain ⟨l, able, published⟩ := publish_ok returned
  refine @Each.bind _ _ _ _ (ignored (prune kInsertEpochRetention)) _ ?_ fun _ _ _ =>
    each_liftStatus _
  refine Prog.Along.bind (p := (prune kInsertEpochRetention).run) ?_ fun _ _ _ => trivial
  refine each_mono (each_prune kInsertEpochRetention t₂) fun _ _ change =>
    change.mono (fun _ _ => False.elim) (fun v gone => ?_) fun _ _ => False.elim
  exact ⟨reader, staging, l, t₂, opened, staged, able, published, gone⟩

end Insert

/-! ## What stays in place -/

/-- The current version, not below the floor, and its directory; the epoch has at most one row
more for each version above the floor. -/
structure Showing (json : JsonLibrary) (floor rows k : Nat) (disk : RepoDisk) (version : Nat)
    (dir : Subdir) : Prop where
  pointer : ∃ inode, disk.files.entry .current = some ⟨inode, dec version, true⟩
  above : floor ≤ version
  below : version ≤ floor + k
  there : disk.dirs.lookup (.epoch version) = some dir
  holds : ∃ staging l, Ordinary staging ∧ layout json staging version = .ok l ∧ Holds dir l ∧
    staging.rows.length ≤ rows + (version - floor)

/-- Epochs above the floor stay; the pointer stays or moves to another that can be shown. -/
structure Passes (json : JsonLibrary) (floor rows k : Nat) (disk disk' : RepoDisk) : Prop where
  keeps : ∀ v dir, floor ≤ v → dir.files ≠ ∅ → disk.dirs.lookup (.epoch v) = some dir →
    disk'.dirs.lookup (.epoch v) = some dir
  pointer : disk'.files.entry .current = disk.files.entry .current ∨
    ∃ v dir, Showing json floor rows k disk' v dir

section Showing

variable {root : Bytes} {json : JsonLibrary} {lib : Library} {floor rows k n : Nat}
  {disk disk' : RepoDisk} {version : Nat} {dir : Subdir}
  (showing : Showing json floor rows k disk version dir)

include showing

theorem Showing.full : dir.files ≠ ∅ := by
  obtain ⟨_, l, _, _, holds, _⟩ := showing.holds
  intro empty
  have there := holds.match_
  rw [empty] at there
  cases there

theorem Showing.held (small : version < 2 ^ 64) : held root disk = .ok version := by
  obtain ⟨inode, known⟩ := showing.pointer
  rw [Writers.held, Files.read, known]
  exact currentOf_dec root small

theorem Showing.passes (passes : Passes json floor rows k disk disk') :
    ∃ v dir, Showing json floor rows k disk' v dir := by
  rcases passes.pointer with same | shown
  · exact ⟨version, dir, by rw [same]; exact showing.pointer, showing.above, showing.below,
      passes.keeps version dir showing.above showing.full showing.there, showing.holds⟩
  · exact shown

/-- What is shown can be opened. -/
theorem Showing.opens (small : version < 2 ^ 63) (few : rows + k < 2 ^ 63) :
    ∃ staging reader, openDir root json version dir = .ok reader ∧
      HoldsEpoch json disk version staging ∧ Shows reader staging := by
  obtain ⟨staging, l, ordinary, laid, holds, count⟩ := showing.holds
  have below := showing.below
  have legible : Legible json l := ordinary.legible laid (by omega) small
  exact ⟨staging, l.reader, openDir_holds root holds laid legible,
    ⟨l, laid, dir, showing.there, holds⟩, reader_shows laid⟩

/-- Whoever opens the table sees what is shown. -/
theorem Showing.opened (small : version < 2 ^ 63) {reader : EpochReader}
    (opened : runCall (openCurrent root json) disk = (.ok reader, disk)) :
    ∃ staging l, Ordinary staging ∧ layout json staging version = .ok l ∧
      staging.rows.length ≤ rows + (version - floor) ∧ reader = l.reader := by
  obtain ⟨staging, l, ordinary, laid, holds, count⟩ := showing.holds
  have current : Writers.held root disk = .ok version := showing.held (by omega)
  rw [openCurrent_of_held current] at opened
  obtain ⟨_, same⟩ := ordinary.opened laid ⟨dir, showing.there, holds⟩ small opened
  exact ⟨staging, l, ordinary, laid, count, same⟩

/-- **No command of an insert disturbs a reader**, as long as too few versions are above the
floor for a prune to reach it. -/
theorem insert_passes (kept : Kept json n disk) (small : n < 2 ^ 63 - 1) (room : version + 1 ≤ floor + k)
    (near : version = n → n + 1 < floor + kInsertEpochRetention) (cells : List Bytes) :
    Each (Passes json floor rows k) (insertRowAndPublish root json lib cells) disk := by
  have there : Present disk version := by rw [Present, showing.there]; rfl
  have bound := kept.bound version there
  have current : held root disk = .ok version := showing.held (by omega)
  have next : derived root disk = version + 1 := by
    rw [derived, current]
    exact Nat.mod_eq_of_lt (by omega)
  have above := showing.above
  refine each_mono (each_insert root json lib cells disk) fun s t change => ⟨?_, ?_⟩
  · intro v dir' floor_ full known
    rcases change.epochs v with same | dropped | ⟨vacant, _⟩
    · rw [same, known]
    · obtain ⟨reader, staging, l, published, opened, staged, able, placed, gone⟩ := dropped
      have newest : derived root disk = n + 1 := kept.next (by omega) able.free
      obtain ⟨old, l₀, ordinary, laid, _, rfl⟩ := showing.opened (by omega) opened
      rw [copyRows_reader laid] at staged
      have ordinary' : Ordinary staging := (stageInsert_eq_ok staged).ordinary
        (reader_shows laid).schema (reader_shows laid).geometry ordinary
      rw [newest] at able placed
      have grown := kept.published ordinary' able.laid placed
      have listed : Present published v :=
        (mem_epochVersions.1 (mem_of_mem_take
          (by rw [superseded] at gone; exact gone))).2
      have far := (grown.superseded_iff (by omega) (by decide) listed).1 gone
      omega
    · exact absurd (vacant dir' known) full
  · refine change.pointer.imp id ?_
    rintro ⟨v, pointer, l, ⟨reader, staging, opened, staged, rfl, laid⟩, dir', known, holds⟩
    obtain ⟨old, l₀, ordinary, laid₀, count, rfl⟩ := showing.opened (by omega) opened
    rw [copyRows_reader laid₀] at staged
    have appended := stageInsert_eq_ok staged
    have ordinary' : Ordinary staging := appended.ordinary
      (reader_shows laid₀).schema (reader_shows laid₀).geometry ordinary
    refine ⟨derived root disk, dir', pointer.current, by omega, by omega, known, staging, l, ordinary',
      laid, holds, ?_⟩
    obtain ⟨_, _, _, _, _, _, _, _, _, grown⟩ := appended
    rw [grown, length_append, length_singleton]
    omega

end Showing

/-! ## What holds while they run -/

section Worlds

variable {root : Bytes} {json : JsonLibrary} {lib : Library} {k : Nat} {cells : Fin k → List Bytes}
  {start : RepoDisk} {floor rows first n : Nat} {w w' : Shared k}
  {log : List (Option (Fin k) × StatusOr Seen)} {s : RepoDisk}

/-- The inserts are in order, they have published at most one version each, and what is shown
stays.  If the table was rolled back below its newest version, it stays that way. -/
structure Running (root : Bytes) (json : JsonLibrary) (lib : Library) (cells : Fin k → List Bytes)
    (start : RepoDisk) (floor rows first : Nat) (w : Shared k)
    (log : List (Option (Fin k) × StatusOr Seen)) (s : RepoDisk) (n : Nat) : Prop where
  orderly : World.Orderly Disk.exec (body root json lib cells) Option.isSome start w log s
  kept : Kept json n s
  count : n ≤ first + log.length
  level : n ≤ floor + log.length ∨ held root s = .ok floor ∧ floor < n
  showing : ∃ v dir, Showing json floor rows k w.state v dir
  passes : ∀ i p, w.phase (some i) = .running p →
    Prog.Along Disk.May (Passes json floor rows k) p w.state

theorem looking_reader : Prog.Only (World.Looking Disk.exec) (body root json lib cells none) := by
  refine Prog.Only.mono (Issues.bind (reading_openCurrent root json) fun _ => issues_liftStatus _)
    fun op reading s => ?_
  exact (may_reading reading (Or.inl rfl)).2

variable {r : StatusOr Seen}

/-- What a finished insert leaves. -/
theorem Kept.insertCall {cells : List Bytes} {t : RepoDisk} (kept : Kept json n s)
    (small : n < 2 ^ 63 - 1) (run : runCall (insertCall root json lib cells) s = (r, t)) :
    (Kept json n t ∧ held root t = held root s) ∨ (Kept json (n + 1) t ∧ held root s = .ok n) := by
  rw [Readers.insertCall, runCall_map] at run
  rcases insert_cases root json lib s cells with
    ⟨reader, staging, l, published, opened, staged, able, placed, done⟩ | ⟨status, t', failed, same⟩
  · rw [done] at run
    cases run
    refine Or.inr ⟨(kept.insert small done).1, ?_⟩
    obtain ⟨version, _, _, current, below, _⟩ := kept.opened (by omega) opened
    have next := kept.next (by omega) able.free
    rw [derived, current, show after (.ok version) = (version + 1) % 2 ^ 64 from rfl,
      Nat.mod_eq_of_lt (by omega)] at next
    rw [current, Nat.succ.inj next]
  · rw [failed] at run
    cases run
    refine Or.inl ⟨kept.same same, ?_⟩
    rw [held, held, same.files]

theorem each_insertCall {relates : RepoDisk → RepoDisk → Prop} {cells : List Bytes} {disk : RepoDisk}
    (each : Each relates (insertRowAndPublish root json lib cells) disk) :
    Prog.Along Disk.May relates (insertCall root json lib cells).run disk :=
  Each.bind each fun _ _ _ => each_liftStatus _

section Steps

variable (running : Running root json lib cells start floor rows first w log s n)

include running

variable {i : Fin k}

/-- An insert that has not returned is one more than those that have. -/
theorem Running.room (out : ∀ r, w.phase (some i) ≠ .returned r) : log.length + 1 ≤ k := by
  have apart : (none :: some i :: log.map Prod.fst).Nodup := by
    refine nodup_cons.2 ⟨?_, nodup_cons.2 ⟨running.orderly.unlisted out, running.orderly.once⟩⟩
    rw [mem_cons]
    rintro (impossible | listed)
    · cases impossible
    · obtain ⟨entry, inside, none_⟩ := mem_map.1 listed
      have locked := running.orderly.locked entry inside
      rw [none_] at locked
      cases locked
  have bound := apart.length_le_card
  simp only [length_cons, length_map, Fintype.card_option, Fintype.card_fin] at bound
  omega

/-- The reader moves without being noticed. -/
theorem Running.reader
    {phase : Phase (FileOp RepoFile RepoDir) FileOp.Answer (StatusOr Seen)}
    (looks : ∀ p, phase = .running p → p.Only (World.Looking Disk.exec)) :
    Running root json lib cells start floor rows first (w.put none phase w.state w.holder) log s n where
  orderly := running.orderly.unnoticed rfl looks
  kept := running.kept
  count := running.count
  level := running.level
  showing := running.showing
  passes i p going := running.passes i p
    ((put_phase_ne (Option.some_ne_none i)).symm.trans going)

theorem Running.start_ (few : k < kInsertEpochRetention) (small : first + k < 2 ^ 63)
    (waiting : w.phase (some i) = .waiting) (free : w.holder = none) :
    Running root json lib cells start floor rows first (w.put (some i)
      (.running (body root json lib cells (some i))) w.state (some (some i))) log s n where
  orderly := running.orderly.start_ rfl waiting free
  kept := running.kept
  count := running.count
  level := running.level
  showing := running.showing
  passes j p going := by
    rcases running_put going with ⟨_, same⟩ | ⟨_, before⟩
    · cases same
      have room := running.room fun r => by rw [waiting]; exact nofun
      have state := running.orderly.idle free
      have count := running.count
      obtain ⟨v, dir, showing⟩ := running.showing
      rw [state] at showing
      have there : Present s v := by rw [Present, showing.there]; rfl
      have below := (running.kept.bound v there).2
      have current : held root s = .ok v := showing.held (by omega)
      rw [state]
      refine each_insertCall (insert_passes showing running.kept (by omega) ?_ ?_ (cells i))
      · rcases running.level with level | ⟨rolled, _⟩
        · omega
        · cases current.symm.trans rolled
          omega
      · rcases running.level with level | ⟨rolled, lower⟩
        · omega
        · cases current.symm.trans rolled
          omega
    · cases (running.orderly.busy _ p rfl before).1.symm.trans free

theorem Running.step {op : FileOp RepoFile RepoDir} {next : op.Answer → FileIO (StatusOr Seen)}
    (going : w.phase (some i) = .running (.call op next)) :
    Passes json floor rows k w.state (Disk.exec op w.state).2 ∧
    Running root json lib cells start floor rows first (w.put (some i)
      (.running (next (Disk.exec op w.state).1)) (Disk.exec op w.state).2 w.holder) log s n := by
  obtain ⟨passes, rest⟩ := running.passes i _ going _ _ (Or.inl rfl)
  obtain ⟨v, dir, showing⟩ := running.showing
  refine ⟨passes, running.orderly.step rfl going, running.kept, running.count, running.level,
    showing.passes passes, fun j p other => ?_⟩
  rcases running_put other with ⟨_, same⟩ | ⟨apart, before⟩
  · cases same
    exact rest
  · have holds := (running.orderly.busy _ _ rfl going).1
    exact absurd (running.orderly.only holds rfl before) apart

theorem Running.finish (small : first + k < 2 ^ 63) (going : w.phase (some i) = .running (.done r))
    : ∃ n', Running root json lib cells start floor rows first
      (w.put (some i) (.returned r) w.state none) (log ++ [(some i, r)]) w.state n' := by
  have room := running.room fun r => by rw [going]; exact nofun
  have count := running.count
  obtain ⟨holds, rest⟩ := running.orderly.busy _ _ rfl going
  have run := rest.symm
  have orderly := running.orderly.finish rfl going
  have passes : ∀ j p, (w.put (some i) (.returned r) w.state none).phase (some j) = .running p →
      Prog.Along Disk.May (Passes json floor rows k) p w.state := by
    intro j p other
    rcases running_put other with ⟨_, same⟩ | ⟨apart, before⟩
    · cases same
    · exact absurd (running.orderly.only holds rfl before) apart
  have longer : (log ++ [(some i, r)]).length = log.length + 1 := length_append ..
  rcases Kept.insertCall running.kept (by omega) run with ⟨kept, current⟩ | ⟨kept, current⟩
  · refine ⟨n, orderly, kept, by omega, ?_, running.showing, passes⟩
    rw [current]
    exact running.level.imp (fun level => by omega) id
  · refine ⟨n + 1, orderly, kept, by omega, Or.inl ?_, running.showing, passes⟩
    rcases running.level with level | ⟨rolled, lower⟩
    · omega
    · cases current.symm.trans rolled
      omega

/-- **One step of anybody** keeps what is shown in place. -/
theorem Running.move (few : k < kInsertEpochRetention) (small : first + k < 2 ^ 63)
    (move : World.Move Disk.exec (body root json lib cells) Option.isSome w w') :
    (∃ log' s' n', Running root json lib cells start floor rows first w' log' s' n') ∧
      ∀ v dir, floor ≤ v → dir.files ≠ ∅ → w.state.dirs.lookup (.epoch v) = some dir →
        w'.state.dirs.lookup (.epoch v) = some dir := by
  cases move with
  | @start i waiting free =>
    refine ⟨⟨log, s, n, ?_⟩, fun v dir _ _ => id⟩
    cases i with
    | none =>
      refine running.reader fun p going => ?_
      cases going
      exact looking_reader
    | some i => exact running.start_ few small waiting (free rfl)
  | @step i op next going =>
    cases i with
    | none =>
      obtain ⟨looks, rest⟩ := running.orderly.looking none _ rfl going
      rw [looks w.state]
      refine ⟨⟨log, s, n, running.reader fun p goes => ?_⟩, fun v dir _ _ => id⟩
      cases goes
      exact rest _
    | some i =>
      obtain ⟨passes, running'⟩ := running.step going
      exact ⟨⟨log, s, n, running'⟩, passes.keeps⟩
  | @finish i r going =>
    cases i with
    | none => exact ⟨⟨log, s, n, running.reader nofun⟩, fun v dir _ _ => id⟩
    | some i =>
      obtain ⟨n', running'⟩ := running.finish small going
      exact ⟨⟨_, _, n', running'⟩, fun v dir _ _ => id⟩

end Steps

/-! ## The reader -/

/-- The reader once it has been answered what `CURRENT` holds. -/
def afterRead (root : Bytes) (json : JsonLibrary) (answer : Except FileError Content) :
    FileCall Seen := do
  let version ← liftStatus (currentOf root answer)
  let reader ← openVersion root json version
  return .read reader

theorem reader_body : body root json lib cells none =
    Prog.call (.readTop .current) fun answer => (afterRead root json answer).run := by
  show (((currentVersion root).run >>= _) >>= _) = _
  rw [currentVersion_run]
  show Prog.call _ _ = Prog.call _ _
  congr 1
  funext answer
  show ExceptT.run ((liftStatus (currentOf root answer) >>= openVersion root json) >>= _) = _
  rw [bind_assoc]
  rfl

theorem settles_afterRead {answer : Except FileError Content} {version : Nat} {dir : Subdir}
    (known : currentOf root answer = .ok version) :
    Settles (fun disk => disk.dirs.lookup (.epoch version) = some dir)
      ((openDir root json version dir).map .read) (afterRead root json answer) := by
  rw [afterRead, known]
  have opened := @settles_bind _ _ _ _ (fun reader => pure (Seen.read reader)) _
    (fun reader => .ok (Seen.read reader)) (steady_openVersion root json version dir)
    fun reader => settles_liftStatus _
  rcases result : openDir root json version dir with status | reader <;>
  · rw [result] at opened
    exact opened

/-- How far the reader has come: it has not read `CURRENT` yet, or it will show what it found
there, which is still in place, or it has shown it. -/
inductive Reads (root : Bytes) (json : JsonLibrary) (lib : Library) (cells : Fin k → List Bytes)
    (start : RepoDisk) (floor rows : Nat) (w : Shared k) : Prop
  | waiting (phase : w.phase none = .waiting)
  | begun (phase : w.phase none = .running (body root json lib cells none))
  | found {u : Shared k} {q p : FileIO (StatusOr Seen)} {version : Nat} {dir : Subdir}
      (before : Interleaved root json lib cells (initial start) u)
      (reading : u.phase none = .running q) (since : Interleaved root json lib cells u w)
      (showing : Showing json floor rows k u.state version dir)
      (there : w.state.dirs.lookup (.epoch version) = some dir)
      (phase : w.phase none = .running p)
      (settles : p.Steady Disk.exec (fun disk => disk.dirs.lookup (.epoch version) = some dir)
        ((openDir root json version dir).map .read))
  | done {u : Shared k} {q : FileIO (StatusOr Seen)} {version : Nat} {dir : Subdir}
      (before : Interleaved root json lib cells (initial start) u)
      (reading : u.phase none = .running q) (since : Interleaved root json lib cells u w)
      (showing : Showing json floor rows k u.state version dir)
      (phase : w.phase none = .returned ((openDir root json version dir).map .read))

theorem Reads.move (reads : Reads root json lib cells start floor rows w)
    (running : Running root json lib cells start floor rows first w log s n)
    (few : k < kInsertEpochRetention) (small : first + k < 2 ^ 63) (base : floor ≤ first)
    (before : Interleaved root json lib cells (initial start) w)
    (move : World.Move Disk.exec (body root json lib cells) Option.isSome w w') :
    Reads root json lib cells start floor rows w' := by
  cases move.turn none with
  | still same =>
    -- what the reader has found is still there
    cases reads with
    | waiting phase => exact .waiting (same.trans phase)
    | begun phase => exact .begun (same.trans phase)
    | found before reading since showing there phase settles =>
      exact .found before reading (since.tail move) showing
        ((running.move few small move).2 _ _ showing.above showing.full there) (same.trans phase) settles
    | done before reading since showing phase =>
      exact .done before reading (since.tail move) showing (same.trans phase)
  | start _ now => exact .begun now
  | step going now state =>
    cases reads with
    | waiting phase => cases phase.symm.trans going
    | begun phase =>
      rw [reader_body] at phase
      cases phase.symm.trans going
      obtain ⟨v, dir, showing⟩ := running.showing
      have below := showing.below
      have current : currentOf root (w.state.files.read .current) = .ok v :=
        showing.held (by omega)
      exact .found before going (.single move) showing (by rw [state]; exact showing.there) now
        (settles_afterRead current)
    | found before reading since showing there phase settles =>
      cases phase.symm.trans going
      obtain ⟨looks, rest⟩ := settles _ there
      exact .found before reading (since.tail move) showing (by rw [state, looks]; exact there) now rest
    | done _ _ _ _ phase => cases phase.symm.trans going
  | finish going now =>
    cases reads with
    | waiting phase => cases phase.symm.trans going
    | begun phase =>
      cases phase.symm.trans going
    | found before reading since showing there phase settles =>
      cases phase.symm.trans going
      cases settles
      exact .done before reading (since.tail move) showing now
    | done _ _ _ _ phase => cases phase.symm.trans going

/-- Before anybody has started. -/
theorem running_initial {disk : RepoDisk} {reader : EpochReader} (kept : Kept json n disk)
    (small : n < 2 ^ 63) (opened : runCall (openCurrent root json) disk = (.ok reader, disk)) :
    ∃ floor, floor ≤ n ∧ Running root json lib cells disk floor reader.rowCount n
      (initial disk) [] disk n := by
  obtain ⟨floor, staging, l, current, below, ordinary, laid, ⟨dir, known, holds⟩, _, rfl⟩ :=
    kept.opened small opened
  have pointer : ∃ inode, disk.files.entry .current = some ⟨inode, dec floor, true⟩ := by
    rcases kept.pointer with ⟨_, absent⟩ | ⟨version, pointer, there⟩
    · rw [held, Files.read, absent] at current
      cases current
    · have := (kept.bound version there).2
      cases (held_of_pointer pointer (by omega)).symm.trans current
      exact pointer.current
  refine ⟨floor, below, orderly_initial, kept, le_rfl, ?_, ⟨floor, dir, ?_⟩,
    fun _ _ running => by cases running⟩
  · by_cases newest : floor = n
    · exact Or.inl (by rw [newest]; exact le_rfl)
    · exact Or.inr ⟨current, by omega⟩
  · refine ⟨pointer, le_rfl, Nat.le_add_right _ _, known, staging, l, ordinary, laid, holds, ?_⟩
    rw [(reader_shows laid).count]
    exact Nat.le_add_right _ _

/-- **Among few inserts a reader needs no lock.** -/
theorem sees_current {disk : RepoDisk} {reader : EpochReader} (kept : Kept json n disk)
    (opened : runCall (openCurrent root json) disk = (.ok reader, disk))
    (few : k < kInsertEpochRetention) (small : n + k < 2 ^ 63)
    (short : reader.rowCount + k < 2 ^ 63)
    (moves : Interleaved root json lib cells (initial disk) w)
    (returned : w.phase none = .returned r) : SeesCurrent root json lib cells disk w := by
  obtain ⟨floor, base, initially⟩ :=
    @running_initial root json lib k cells n disk reader kept (by omega) opened
  have followed : (∃ log s n', Running root json lib cells disk floor reader.rowCount n w log s n') ∧
      Reads root json lib cells disk floor reader.rowCount w := by
    clear returned
    induction moves with
    | refl => exact ⟨⟨[], disk, n, initially⟩, .waiting rfl⟩
    | tail before move ih =>
      obtain ⟨⟨log, s, n', running⟩, reads⟩ := ih
      exact ⟨(running.move few small move).1, reads.move running few small base before move⟩
  cases followed.2 with
  | waiting phase => cases phase.symm.trans returned
  | begun phase => cases phase.symm.trans returned
  | found _ _ _ _ _ phase _ => cases phase.symm.trans returned
  | @done u q version dir before reading since showing phase =>
    have below := showing.below
    obtain ⟨staging, reader', openDir, holds, shows⟩ :=
      @Showing.opens root json _ _ _ _ _ _ showing (by omega) short
    rw [openDir] at phase
    exact ⟨reader', u, q, version, staging, phase, before, reading, since, showing.held (by omega),
      holds, shows⟩

end Worlds

/-! ## An epoch that is pruned too early -/

section Overtaken

variable {root : Bytes} {json : JsonLibrary} {lib : Library} {n : Nat} {disk : RepoDisk}

/-- A table of as many rows as versions, all published one after another. -/
structure Nines (root : Bytes) (json : JsonLibrary) (n : Nat) (disk : RepoDisk) : Prop where
  kept : Kept json n disk
  current : held root disk = .ok n
  holds : ∃ staging, LikeOneRow staging ∧ staging.rows.length = n ∧ HoldsEpoch json disk n staging

theorem nines_oneRow (root : Bytes) (json : JsonLibrary) (lib : Library) : ∃ disk reader,
    Filled root json lib 1 disk ∧ Nines root json 1 disk ∧
    runCall (openCurrent root json) disk = (.ok reader, disk) ∧ reader.rowCount = 1 := by
  obtain ⟨l, disk, laid, placed, filled⟩ := filled_oneRow root json lib
  have current : held root disk = .ok 1 := held_of_pointer placed.pointer (by decide)
  refine ⟨disk, l.reader, filled, ⟨filled.kept (by decide), current, oneRow, oneRow_like, rfl, l, laid,
    placed.epoch⟩, ?_, (reader_shows laid).count⟩
  rw [openCurrent_of_held current]
  exact Stands.opens placed.epoch root laid (oneRow_legible json (by decide) laid)

/-- One more `9`, and at most so many epochs are left. -/
theorem Nines.insert (nines : Nines root json n disk) (few : n < 2 ^ 32) (lib : Library) :
    ∃ result disk',
    runCall (insertCall root json lib [bytes "9"]) disk = (.ok (.inserted result), disk') ∧
    Nines root json (n + 1) disk' ∧
    ∀ v, Present disk' v → n + 1 < v + kInsertEpochRetention := by
  obtain ⟨kept, current, staging, like, length, l, laid, stands⟩ := nines
  obtain ⟨new, opened, staged, fits, like', length'⟩ :=
    @insertable_nine _ root json disk _ _ lib (by omega) current like (by omega) laid stands
  have next : derived root disk = n + 1 := by
    rw [derived, current]
    exact Nat.mod_eq_of_lt (by omega)
  have free : disk.dirs.lookup (.epoch (derived root disk)) = none := by
    refine not_present_iff.1 fun there => ?_
    have := (kept.bound _ there).2
    omega
  obtain ⟨l', published, able, placed, done⟩ := insert_succeeds opened staged fits free
  obtain ⟨kept', old, _, inserted⟩ := kept.insert (by omega) done
  have after := inserted.current.trans (by rw [next])
  rw [next] at able placed
  have grown := kept.published like'.ordinary able.laid placed
  have there : Present published (n + 1) := by
    obtain ⟨dir, known, _⟩ := placed.epoch
    rw [Present, known]
    rfl
  refine ⟨⟨derived root disk, l.reader.rowCount + 1⟩, _, ?_, ⟨kept', after, new, like', by omega, ?_⟩,
    fun v left => ?_⟩
  · rw [insertCall, runCall_bind_ok _ done]
    rfl
  · exact HoldsEpoch.of_lookup ⟨l', able.laid, placed.epoch⟩
      (prune_lookup_of_present (grown.newest_kept (by decide) (by omega) there))
  · have before : Present published v := by
      rw [Present, ← prune_lookup_of_present left]
      exact left
    rw [Present, prune_lookup] at left
    split at left
    · cases left
    · rename_i stays
      rw [grown.superseded_iff (by omega) (by decide) before] at stays
      omega

/-- All inserts one after another, while the reader waits. -/
theorem inserts_run {k : Nat} {w : Shared k} (nines : Nines root json n w.state) (few : n + k < 2 ^ 32)
    (free : w.holder = none) (waiting : ∀ i, w.phase (some i) = .waiting) (j : Nat) (enough : j ≤ k) :
    ∃ w', Interleaved root json lib (fun _ => [bytes "9"]) w w' ∧ w'.phase none = w.phase none ∧
      w'.holder = none ∧ Nines root json (n + j) w'.state ∧
      (∀ i : Fin k, i < j → ∃ result, w'.phase (some i) = .returned (.ok (.inserted result))) ∧
      (∀ i : Fin k, j ≤ i → w'.phase (some i) = .waiting) ∧
      (0 < j → ∀ v, Present w'.state v → n + j < v + kInsertEpochRetention) := by
  induction j with
  | zero => exact ⟨w, .refl, rfl, free, nines, fun i below => absurd below (Nat.not_lt_zero _),
      fun i _ => waiting i, fun impossible => absurd impossible (lt_irrefl 0)⟩
  | succ j ih =>
    obtain ⟨w', moves, same, free', nines', returned, waiting', _⟩ := ih (by omega)
    obtain ⟨result, disk', run, grown, left⟩ := nines'.insert (by omega) lib
    let i : Fin k := ⟨j, by omega⟩
    have called : Interleaved root json lib (fun _ : Fin k => [bytes "9"]) w'
        (w'.put (some i) (.returned (.ok (.inserted result))) disk' w'.holder) := by
      have all : Interleaved root json lib (fun _ : Fin k => [bytes "9"]) w' _ :=
        moves_call (waiting' i le_rfl) fun _ => free'
      rw [show Prog.run Disk.exec (body root json lib (fun _ : Fin k => [bytes "9"]) (some i)) w'.state =
        (.ok (.inserted result), disk') from run] at all
      exact all
    refine ⟨_, moves.trans called, ?_, free', grown, fun h below => ?_, fun h above => ?_,
      fun _ => left⟩
    · rw [put_phase_ne (Option.some_ne_none i).symm, same]
    · by_cases last : h = i
      · rw [last, put_phase_self]
        exact ⟨result, rfl⟩
      · rw [put_phase_ne (by simpa using last)]
        refine returned h ?_
        have : (h : Nat) ≠ j := fun equal => last (Fin.ext equal)
        omega
    · have other : h ≠ i := fun equal => by
        rw [equal] at above
        exact absurd above (by simp [i])
      rw [put_phase_ne (by simpa using other)]
      exact waiting' h (by omega)

/-- As many inserts as epochs are kept fall between the reader's read of `CURRENT` and its look
for the epoch: all of them succeed, and the epoch is not found. -/
theorem reader_overtaken (root : Bytes) (json : JsonLibrary) (lib : Library) :
    ∃ (disk : RepoDisk) (reader : EpochReader) (w : Shared 8), Filled root json lib 1 disk ∧
      runCall (openCurrent root json) disk = (.ok reader, disk) ∧ reader.rowCount = 1 ∧
      Interleaved root json lib (fun _ => [bytes "9"]) (initial disk) w ∧
      (∀ i, ∃ result, w.phase (some i) = .returned (.ok (.inserted result))) ∧
      w.phase none = .returned (.error (epochNotFound 1)) := by
  obtain ⟨disk, reader, filled, nines, opened, rows⟩ := nines_oneRow root json lib
  have current : currentOf root (disk.files.read .current) = .ok 1 := nines.current
  let calls : Fin 8 → List Bytes := fun _ => [bytes "9"]
  let w₁ : Shared 8 := (initial disk).put none
    (.running (afterRead root json (disk.files.read .current)).run) disk none
  have read : Interleaved root json lib calls (initial disk) w₁ :=
    moves_first (i := none) rfl (fun _ => rfl) (@reader_body root json lib _ calls)
  obtain ⟨w₂, inserts, same, _, _, returned, _, left⟩ := @inserts_run root json lib _ _ w₁
    nines (by decide) rfl (fun _ => rfl) 8 le_rfl
  have gone : w₂.state.dirs.lookup (.epoch 1) = none := by
    refine not_present_iff.1 fun there => ?_
    exact absurd (left (by decide) 1 there) (by decide)
  -- the rest of the reader
  have lost : runCall (afterRead root json (disk.files.read .current)) w₂.state =
      (.error (epochNotFound 1), w₂.state) := by
    rw [afterRead, current, runCall_bind_ok _ (runCall_liftStatus _ _)]
    refine runCall_bind_error _ ?_ _
    rw [runCall_openVersion, gone]
  have running := same.trans (put_phase_self ..)
  have ran : Interleaved root json lib calls w₂ _ := moves_return running
  rw [show Prog.run Disk.exec (afterRead root json (disk.files.read .current)).run w₂.state = _ from
    lost] at ran
  refine ⟨disk, reader, _, filled, opened, rows, (read.trans inserts).trans ran, fun i => ?_,
    put_phase_self ..⟩
  obtain ⟨result, done⟩ := returned i i.2
  refine ⟨result, ?_⟩
  rw [put_phase_ne (Option.some_ne_none i), done]

end Overtaken

/-- The reader that is overtaken, with a fixed directory and libraries. -/
theorem reader_overtaken_oneRow : ∃ (disk : RepoDisk) (reader : EpochReader) (w : Shared 8),
    Filled (bytes "/t") JsonLibrary.exact strictLibrary 1 disk ∧
    runCall (openCurrent (bytes "/t") JsonLibrary.exact) disk = (.ok reader, disk) ∧
    reader.rowCount = 1 ∧
    Interleaved (bytes "/t") JsonLibrary.exact strictLibrary (fun _ => [bytes "9"])
      (initial disk) w ∧
    (∀ i, ∃ result, w.phase (some i) = .returned (.ok (.inserted result))) ∧
    w.phase none = .returned (.error (epochNotFound 1)) :=
  reader_overtaken (bytes "/t") JsonLibrary.exact strictLibrary

/-- **When a reader needs no lock.**  In every interleaving of one `OpenCurrent` with at most `m`
successful inserts, on a table of the server's own that has an epoch, the reader returns the rows of an
epoch that was current while it ran, exactly if `m` is below the number of epochs an insert keeps. -/
theorem reader_sees_current_iff (root : Bytes) (json : JsonLibrary) (lib : Library) (m : Nat) :
    (∀ k ≤ m, ∀ (cells : Fin k → List Bytes) (n : Nat) (disk : RepoDisk) (reader : EpochReader)
      (w : Shared k) (r : StatusOr Seen), Filled root json lib n disk →
      runCall (openCurrent root json) disk = (.ok reader, disk) →
      n + k < 2 ^ 63 → reader.rowCount + k < 2 ^ 63 →
      Interleaved root json lib cells (initial disk) w → Successful w →
      w.phase none = .returned r → SeesCurrent root json lib cells disk w) ↔
      m < kInsertEpochRetention := by
  constructor
  · intro always
    by_contra many
    obtain ⟨disk, reader, w, filled, opened, rows, moves, returned, lost⟩ :=
      reader_overtaken root json lib
    have successful : Successful w := by
      intro i r done
      obtain ⟨result, known⟩ := returned i
      cases known.symm.trans done
      exact ⟨result, rfl⟩
    obtain ⟨_, _, _, _, _, shown, _⟩ := always 8 (Nat.not_lt.1 many) (fun _ => [bytes "9"]) 1 disk
      reader w _ filled opened (by decide) (by omega) moves successful lost
    cases lost.symm.trans shown
  · intro few k below cells n disk reader w r filled opened small short moves _ returned
    exact sees_current (filled.kept (by omega)) opened (by omega) small short moves returned

end OpaqueDb.Server.Writers.Readers
