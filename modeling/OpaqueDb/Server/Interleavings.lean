/-
# Server.Interleavings -- writers at the same time

`AdminService::Publish` and `InsertRowAndPublish` hold the table's write lock from their first
read to their last command, so any interleaving of them is a serial run.
`AdminService::RollbackEpoch` takes no lock: it can fall between another writer's read of
`CURRENT` and its publishing, and is then undone although both calls return OK
(`serializable_iff`).
-/
import OpaqueDb.Server.Acknowledged
import OpaqueDb.Theory.Interleaving

namespace OpaqueDb.Server.Writers

open OpaqueDb.Core Theory Storage Theory.Disk

set_option autoImplicit false

/-! ## Calls on one table -/

inductive TableCall where
  | publish (staging : StagingEpoch)
  | insert (cells : List Bytes)
  | rollback (version : Nat)

inductive Reply where
  | published (version : Nat)
  | inserted (result : InsertResult)
  | rolledBack
  deriving DecidableEq

namespace TableCall

/-- Only a rollback leaves the lock alone. -/
def locks : TableCall → Bool
  | .publish _ => true
  | .insert _ => true
  | .rollback _ => false

section Body

variable (root : Bytes) (json : JsonLibrary) (lib : Library)

def call : TableCall → FileCall Reply
  | .publish staging => do
    let version ← AdminService.publish root json staging
    return .published version
  | .insert cells => do
    let result ← insertRowAndPublish root json lib cells
    return .inserted result
  | .rollback version => do
    AdminService.rollbackEpoch root json version
    return .rolledBack

def body (call : TableCall) : FileIO (StatusOr Reply) :=
  (call.call root json lib).run

end Body

end TableCall

section Concurrent

variable (root : Bytes) (json : JsonLibrary) (lib : Library) {ι : Type}

abbrev Table (ι : Type) : Type :=
  World (FileOp RepoFile RepoDir) FileOp.Answer (StatusOr Reply) RepoDisk ι

/-- The calls' commands in some order. -/
abbrev Interleaved [DecidableEq ι] (calls : ι → TableCall) : Table ι → Table ι → Prop :=
  World.Moves exec (fun i => (calls i).body root json lib) fun i => (calls i).locks

/-- The same version is current, with the same rows. -/
structure SameTable (disk disk' : RepoDisk) : Prop where
  version : held root disk = held root disk'
  rows : (runCall (openCurrent root json) disk).1 = (runCall (openCurrent root json) disk').1

/-- Some order of the calls returns the same and leaves the same table. -/
def Serializable (calls : ι → TableCall) (disk : RepoDisk) (w : Table ι) : Prop :=
  ∃ log disk', World.SerialRun exec (fun i => (calls i).body root json lib) disk log disk' ∧
    (log.map Prod.fst).Nodup ∧ (∀ i r, w.phase i = .returned r ↔ (i, r) ∈ log) ∧
    SameTable root json w.state disk'

/-- The epoch `CURRENT` names is there. -/
def InPlace (disk : RepoDisk) : Prop :=
  ∀ version, held root disk = .ok version → (disk.dirs.lookup (.epoch version)).isSome

end Concurrent

/-! ## Without a rollback -/

section Locked

variable {root : Bytes} {json : JsonLibrary} {lib : Library}

variable {count : Nat}

theorem Counted.inPlace {disk : RepoDisk} (counted : Counted disk count) (small : count < 2 ^ 64) :
    InPlace root disk := by
  intro version current
  rcases counted.pointer with ⟨_, absent⟩ | ⟨pointer, there⟩
  · rw [Writers.held, Files.read, absent] at current
    cases current
  · cases (held_of_pointer pointer small).symm.trans current
    exact there

/-- A call that locks adds one version or none. -/
theorem Counted.call {disk disk' : RepoDisk} {count : Nat} {call : TableCall}
    {result : StatusOr Reply} (counted : Counted disk count) (small : count + 1 < 2 ^ 64)
    (locks : call.locks = true)
    (run : runCall (call.call root json lib) disk = (result, disk')) :
    Counted disk' count ∨ Counted disk' (count + 1) := by
  have written : ∀ write : Write, ∀ outcome, runCall (write.program root json lib) disk = (outcome, disk') →
      Counted disk' count ∨ Counted disk' (count + 1) := by
    intro write outcome program
    rcases counted.step small program with ⟨_, grown⟩ | ⟨_, _, same⟩
    · exact Or.inr grown
    · exact Or.inl (counted.same same)
  cases call with
  | publish staging =>
    rw [TableCall.call, runCall_map] at run
    exact written (.publish staging) _ (Prod.ext rfl (Prod.mk.inj run).2)
  | insert cells =>
    rw [TableCall.call, runCall_map] at run
    refine written (.insert cells) _ (Prod.ext rfl ?_)
    rw [Write.program, runCall_map]
    exact (Prod.mk.inj run).2
  | rollback version => cases locks

theorem Counted.serial {ι : Type} {calls : ι → TableCall} {disk disk' : RepoDisk}
    {log : List (ι × StatusOr Reply)} (counted : Counted disk count)
    (small : count + log.length < 2 ^ 64) (locks : ∀ i, (calls i).locks = true)
    (serial : World.SerialRun exec (fun i => (calls i).body root json lib) disk log disk') :
    ∃ count' < 2 ^ 64, Counted disk' count' := by
  induction serial generalizing count with
  | nil => exact ⟨count, small, counted⟩
  | @cons s t u i r log first rest ih =>
    rw [List.length_cons] at small
    rcases counted.call (by omega) (locks i) first with same | grown
    · exact ih same (by omega)
    · exact ih grown (by omega)

end Locked

/-! ## A rollback in between -/

section Race

variable (root : Bytes) (json : JsonLibrary) (lib : Library)

/-- A publishing and a rollback to the first epoch. -/
def racers : Fin 2 → TableCall
  | 0 => .publish oneRow
  | 1 => .rollback 1

variable (staging : StagingEpoch)

/-- The rest of a publishing once its version is known. -/
def publishAs (version : Nat) : FileCall Reply :=
  (publish root json staging version >>= fun _ => pure version) >>= fun version =>
    pure (.published version)

theorem publish_body : (TableCall.publish staging).body root json lib =
    Prog.call (.readTop .current) fun answer =>
      (publishAs root json staging (after (currentOf root answer))).run := by
  show (((currentVersion root).run >>= _) >>= _) >>= _ = _
  rw [currentVersion_run]
  rfl

theorem runCall_publishCall (disk : RepoDisk) :
    runCall ((TableCall.publish staging).call root json lib) disk =
      runCall (publishAs root json staging (derived root disk)) disk := by
  show Prog.run exec ((TableCall.publish staging).body root json lib) disk = _
  rw [publish_body]
  rfl

variable {root json lib} in
theorem runCall_publishAs {disk disk' : RepoDisk} {staging : StagingEpoch} {version : Nat}
    (run : runCall (publish root json staging version) disk = (.ok (), disk')) :
    runCall (publishAs root json staging version) disk = (.ok (.published version), disk') := by
  have inner : runCall (publish root json staging version >>= fun _ => pure version) disk =
      (.ok version, disk') := by
    rw [runCall_bind_ok _ run]
    rfl
  rw [publishAs, runCall_bind_ok _ inner]
  rfl

/-- A log of the two calls has them in one of two orders. -/
theorem two_orders {R : Type} {log : List (Fin 2 × R)} (once : (log.map Prod.fst).Nodup) {a b : R}
    (first : (0, a) ∈ log) (second : (1, b) ∈ log) : log = [(0, a), (1, b)] ∨ log = [(1, b), (0, a)] := by
  have few : log.length ≤ 2 := by
    have bound := once.length_le_card
    rwa [List.length_map, Fintype.card_fin] at bound
  match log, few with
  | [], _ => cases first
  | [x], _ =>
    rw [List.mem_singleton] at first second
    cases first.trans second.symm
  | [x, y], _ =>
    simp only [List.mem_cons, List.not_mem_nil, or_false] at first second
    rcases first with here | there
    · rcases second with same | next
      · cases here.trans same.symm
      · exact Or.inl (by rw [here, next])
    · rcases second with next | same
      · exact Or.inr (by rw [there, next])
      · cases there.trans same.symm

variable {root json} in
theorem runCall_rollbackCall {disk disk' : RepoDisk} {version : Nat}
    (run : runCall (rollback root json version) disk = (.ok (), disk')) :
    runCall ((TableCall.rollback version).call root json lib) disk = (.ok .rolledBack, disk') := by
  have inner : runCall (AdminService.rollbackEpoch root json version) disk = (.ok (), disk') := run
  rw [TableCall.call, runCall_bind_ok _ inner]
  rfl

/-- On a table of two epochs, a rollback to the first falls between the read and the publishing
of another call: both return OK, and the rollback is undone. -/
theorem rollback_undone : ∃ disk₁ disk₂ w,
    runCall (AdminService.publish root json oneRow) empty = (.ok 1, disk₁) ∧
    runCall (AdminService.publish root json oneRow) disk₁ = (.ok 2, disk₂) ∧
    Interleaved root json lib racers (World.initial disk₂) w ∧ w.Complete ∧
    w.phase 0 = .returned (.ok (.published 3)) ∧ w.phase 1 = .returned (.ok .rolledBack) ∧
    held root w.state = .ok 3 ∧ ¬ Serializable root json lib racers disk₂ w := by
  obtain ⟨disk₁, disk₂, l, first, one, second, two, laid, stands, exactly⟩ := two_epochs root json
  have legible : Legible json l := oneRow_legible json (by decide) laid
  obtain ⟨disk₃, third, dirs, back⟩ := runCall_rollback (stands.opens root laid legible)
  have rolledBack := runCall_rollbackCall lib third
  have free : ∀ disk : RepoDisk, disk.dirs = disk₂.dirs → disk.dirs.lookup (.epoch 3) = none := by
    intro disk same
    rw [same, ← Option.not_isSome_iff_eq_none, exactly]
    decide
  obtain ⟨_, disk₄, _, fourth, four⟩ := publish_oneRow root json disk₃ 3 (free disk₃ dirs)
  have next : after (currentOf root (disk₂.files.read .current)) = 3 :=
    derived_of_pointer two (by decide)
  -- the read of the publishing, the whole rollback, and the rest of the publishing
  let w₁ : Table (Fin 2) := (World.initial disk₂).put 0
    (.running (publishAs root json oneRow 3).run) disk₂ (some 0)
  let w₂ : Table (Fin 2) := w₁.put 1 (.returned (.ok .rolledBack)) disk₃ (some 0)
  let w₃ : Table (Fin 2) := w₂.put 0 (.returned (.ok (.published 3))) disk₄ none
  have reads : Interleaved root json lib racers (World.initial disk₂) w₁ := by
    have all : Interleaved root json lib racers (World.initial disk₂) _ :=
      World.moves_first (i := 0) rfl (fun _ => rfl)
        (show (racers 0).body root json lib = _ from publish_body root json lib oneRow)
    rw [show exec (.readTop .current) (World.initial disk₂ : Table (Fin 2)).state =
      (disk₂.files.read .current, disk₂) from rfl, next] at all
    exact all
  have rollsBack : Interleaved root json lib racers w₁ w₂ := by
    have all : Interleaved root json lib racers w₁ _ := World.moves_call (i := 1) rfl nofun
    rw [show Prog.run exec ((racers 1).body root json lib) w₁.state = _ from rolledBack] at all
    exact all
  have publishes : Interleaved root json lib racers w₂ w₃ := by
    have all : Interleaved root json lib racers w₂ _ :=
      World.moves_return (i := 0) (p := (publishAs root json oneRow 3).run) rfl
    rw [show Prog.run exec (publishAs root json oneRow 3).run w₂.state = _ from
      runCall_publishAs fourth] at all
    exact all
  have returned₀ : w₃.phase 0 = .returned (.ok (.published 3)) := rfl
  have returned₁ : w₃.phase 1 = .returned (.ok .rolledBack) := rfl
  have last : held root w₃.state = .ok 3 := held_of_pointer four.pointer (by decide)
  refine ⟨disk₁, disk₂, w₃, adminPublish_of_publish rfl first,
    adminPublish_of_publish (derived_of_pointer one (by decide)) second,
    (reads.trans rollsBack).trans publishes, ?_, returned₀, returned₁, last, ?_⟩
  · intro i
    match i with
    | 0 => exact ⟨_, returned₀⟩
    | 1 => exact ⟨_, returned₁⟩
  · rintro ⟨log, disk', serial, once, results, same⟩
    rcases two_orders once ((results 0 _).1 returned₀) ((results 1 _).1 returned₁) with rfl | rfl
    · -- the rollback comes last, so the first epoch would be current
      obtain ⟨_, disk₅, _, fifth, five⟩ := publish_oneRow root json disk₂ 3 (free disk₂ rfl)
      have stands₅ : Stands disk₅ 1 l := by
        obtain ⟨dir, known, holds⟩ := stands
        exact ⟨dir, (five.others 1 (by decide)).trans known, holds⟩
      obtain ⟨disk₆, sixth, _, six⟩ := runCall_rollback (stands₅.opens root laid legible)
      have published : Prog.run exec ((racers 0).body root json lib) disk₂ =
          (.ok (.published 3), disk₅) := by
        refine (runCall_publishCall root json lib oneRow disk₂).trans ?_
        rw [derived_of_pointer two (by decide)]
        exact runCall_publishAs fifth
      have rolledBack' := runCall_rollbackCall lib sixth
      rcases serial with _ | ⟨first', _ | ⟨second', _ | _⟩⟩
      cases published.symm.trans first'
      cases rolledBack'.symm.trans second'
      have current := same.version
      rw [last, held_of_pointer six (by decide)] at current
      cases current
    · -- the rollback comes first, so version 2 would be taken
      obtain ⟨dir, taken⟩ := Option.isSome_iff_exists.1 ((exactly 2).2 (Or.inr rfl))
      have refused : Prog.run exec ((racers 0).body root json lib) disk₃ =
          (.error (alreadyPublished 2), disk₃) := by
        refine (runCall_publishCall root json lib oneRow disk₃).trans ?_
        rw [derived_of_pointer back (by decide)]
        refine runCall_bind_error _ (runCall_bind_error _ ?_ _) _
        exact publish_taken oneRow_valid (by rw [dirs]; exact taken)
      rcases serial with _ | ⟨first', _ | ⟨second', _ | _⟩⟩
      cases rolledBack.symm.trans first'
      cases refused.symm.trans second'

end Race

/-- The rollback that is undone, with a fixed directory and libraries. -/
theorem rollback_undone_oneRow : ∃ disk₁ disk₂ w,
    runCall (AdminService.publish (bytes "/t") JsonLibrary.exact oneRow) empty = (.ok 1, disk₁) ∧
    runCall (AdminService.publish (bytes "/t") JsonLibrary.exact oneRow) disk₁ = (.ok 2, disk₂) ∧
    Interleaved (bytes "/t") JsonLibrary.exact strictLibrary racers (World.initial disk₂) w ∧
    w.Complete ∧ w.phase 0 = .returned (.ok (.published 3)) ∧
    w.phase 1 = .returned (.ok .rolledBack) ∧ held (bytes "/t") w.state = .ok 3 ∧
    ¬ Serializable (bytes "/t") JsonLibrary.exact strictLibrary racers disk₂ w :=
  rollback_undone (bytes "/t") JsonLibrary.exact strictLibrary

/-- **When concurrent writers are serializable.**  Every interleaving of calls of which at most `k`
are rollbacks is serializable, and leaves the epoch in use in place if it was the newest one,
exactly if `k = 0`. -/
theorem serializable_iff (root : Bytes) (json : JsonLibrary) (lib : Library) (k : Nat) :
    (∀ (n : Nat) (calls : Fin n → TableCall) (disk : RepoDisk) (w : Table (Fin n)),
      (Finset.univ.filter fun i => (calls i).locks = false).card ≤ k →
      Interleaved root json lib calls (World.initial disk) w → w.Complete →
      Serializable root json lib calls disk w ∧
        ∀ count, Counted disk count → count + n < 2 ^ 64 → InPlace root w.state) ↔ k = 0 := by
  constructor
  · intro always
    by_contra some_
    obtain ⟨_, disk, w, _, _, moves, complete, _, _, _, wrong⟩ := rollback_undone root json lib
    exact wrong (always 2 racers disk w (by
      have one : (Finset.univ.filter fun i => (racers i).locks = false).card = 1 := by decide
      omega) moves complete).1
  · rintro rfl n calls disk w none_ moves complete
    have locks : ∀ i, (calls i).locks = true := by
      intro i
      have empty := Finset.card_eq_zero.1 (Nat.le_zero.1 none_)
      have outside : i ∉ Finset.univ.filter fun i => (calls i).locks = false := by
        rw [empty]
        exact Finset.notMem_empty i
      simpa using outside
    obtain ⟨log, serial, once, returned⟩ := World.serial_of_locked locks moves complete
    refine ⟨⟨log, w.state, serial, once, returned, rfl, rfl⟩, fun count counted small => ?_⟩
    have few : log.length ≤ n := by
      have bound := once.length_le_card
      rwa [List.length_map, Fintype.card_fin] at bound
    obtain ⟨count', small', counted'⟩ := counted.serial (by omega) locks serial
    exact counted'.inPlace small'

end OpaqueDb.Server.Writers
