/-
# Server.Acknowledged -- the versions of the calls that returned OK

Serial runs of `AdminService::Publish` and `InsertRowAndPublish` in which a bounded number of
reads of `CURRENT` fail or find some other text.  Without such a read the versions count up by
one and the epoch in use stays (`Counted`).  With one, two calls are enough to break it
(`acknowledged_iff`): a writer takes an unreadable pointer for a new table.
-/
import OpaqueDb.Server.Writers

namespace OpaqueDb.Server.Writers

open OpaqueDb.Core Theory Storage List Theory.Disk

set_option autoImplicit false

/-! ## Reads that go wrong -/

/-- A command is undisturbed, or it reads `CURRENT`, is answered anything, and uses up one of
the misreads that are left. -/
def Misread (s : RepoDisk × Nat) (op : FileOp RepoFile RepoDir) (answer : op.Answer)
    (t : RepoDisk × Nat) : Prop :=
  (exec op s.1 = (answer, t.1) ∧ t.2 = s.2) ∨
    (op = .readTop .current ∧ t.1 = s.1 ∧ s.2 = t.2 + 1)

variable {α : Type}

theorem misread_run (p : FileIO α) (disk : RepoDisk) (left : Nat) :
    Prog.Steps Misread (disk, left) p ((Prog.run exec p disk).2, left)
      (.done (Prog.run exec p disk).1) := by
  induction p generalizing disk with
  | done a => exact .refl _ _
  | call op next ih =>
    have first : Misread (disk, left) op (exec op disk).1 ((exec op disk).2, left) :=
      Or.inl ⟨rfl, rfl⟩
    exact .step first (ih _ _)

variable {t : RepoDisk × Nat} {disk : RepoDisk}

/-- Without a misread left, or without a read of `CURRENT`, the run is the undisturbed one. -/
theorem run_of_misread {p : FileIO α} {left : Nat} {a : α} (calm : left = 0 ∨ p.Only NotPointer)
    (steps : Prog.Steps Misread (disk, left) p t (.done a)) :
    Prog.run exec p disk = (a, t.1) ∧ t.2 = left := by
  induction p generalizing disk with
  | done b =>
    cases steps
    exact ⟨rfl, rfl⟩
  | call op next ih =>
    obtain ⟨answer, ⟨disk₁, left₁⟩, first, rest⟩ := steps.call_done
    rcases first with ⟨done, same⟩ | ⟨current, _, fewer⟩
    · cases same
      have after := ih answer (calm.imp id fun only => only.2 answer) rest
      rw [Prog.run_call, done]
      exact after
    · rcases calm with none_ | only
      · omega
      · exact absurd current only.1

theorem runCall_of_misread {call : FileCall α} {left : Nat} {result : StatusOr α}
    (calm : left = 0 ∨ Issues NotPointer call)
    (steps : Prog.Steps Misread (disk, left) call.run t (.done result)) :
    runCall call disk = (result, t.1) ∧ t.2 = left :=
  run_of_misread calm steps

/-! ## Serial runs -/

inductive Write where
  | publish (staging : StagingEpoch)
  | insert (cells : List Bytes)

/-- A finished call: the disk before it, what it returned, and the disk after it. -/
structure Finished where
  before : RepoDisk
  result : StatusOr Nat
  after : RepoDisk

section Runs

variable (root : Bytes) (json : JsonLibrary) (lib : Library)

/-- The call, with the version it published as its result. -/
def Write.program : Write → FileCall Nat
  | .publish staging => AdminService.publish root json staging
  | .insert cells => do
    let result ← insertRowAndPublish root json lib cells
    return result.epochVersion

inductive Serial : RepoDisk × Nat → List Finished → RepoDisk × Nat → Prop
  | nil (s : RepoDisk × Nat) : Serial s [] s
  | cons {s t u : RepoDisk × Nat} {call : Write} {result : StatusOr Nat} {log : List Finished}
      (first : Prog.Steps Misread s (call.program root json lib).run t (.done result))
      (rest : Serial t log u) : Serial s (⟨s.1, result, t.1⟩ :: log) u

/-- The acknowledged version. -/
def Finished.version? (call : Finished) : Option Nat :=
  call.result.toOption

/-- What one call should do. -/
structure Finished.Sound (call : Finished) : Prop where
  /-- A call that succeeds makes its epoch current and leaves it in place. -/
  stands : ∀ version, call.result = .ok version →
    held root call.after = .ok version ∧ (call.after.dirs.lookup (.epoch version)).isSome
  /-- An epoch stays while it is current. -/
  stays : ∀ version, held root call.before = .ok version →
    (call.before.dirs.lookup (.epoch version)).isSome → held root call.after = .ok version →
    (call.after.dirs.lookup (.epoch version)).isSome
  /-- A call that succeeds on a table knew its version. -/
  knows : ∀ version published, held root call.before = .ok version →
    call.result = .ok published → published = version + 1
  /-- A call that fails publishes nothing. -/
  fails : ∀ status, call.result = .error status → SameEpochs call.before call.after

/-- What a log of calls should show. -/
structure Acknowledged (log : List Finished) : Prop where
  grows : (log.filterMap Finished.version?).Pairwise (· < ·)
  each : ∀ call ∈ log, call.Sound root

end Runs

section Runs

variable {root : Bytes} {json : JsonLibrary} {lib : Library}

/-! ## One call -/

/-- **An undisturbed writer** publishes the derived version, and may then prune; or it fails and
changes no epoch and no pointer. -/
theorem runCall_write (root : Bytes) (json : JsonLibrary) (lib : Library) (call : Write)
    (disk : RepoDisk) :
    (∃ l published disk',
      runCall (call.program root json lib) disk = (.ok (derived root disk), disk') ∧
      Published disk (derived root disk) l published ∧
      (disk' = published ∨ disk' = (runCall (prune kInsertEpochRetention) published).2)) ∨
    ∃ status disk', runCall (call.program root json lib) disk = (.error status, disk') ∧
      SameEpochs disk disk' := by
  cases call with
  | publish staging =>
    rw [Write.program, runCall_adminPublish]
    rcases runCall_publish root json disk staging (derived root disk) with
      ⟨l, disk', _, run, published⟩ | ⟨_, status, disk', run, same⟩
    · rw [run]
      exact Or.inl ⟨l, disk', disk', rfl, published, Or.inl rfl⟩
    · rw [run]
      exact Or.inr ⟨status, disk', rfl, same⟩
  | insert cells =>
    rcases insert_cases root json lib disk cells with
      ⟨_, _, l, published, _, _, _, added, inserted⟩ | ⟨status, disk', failed, same⟩
    · refine Or.inl ⟨l, published, _, ?_, added, Or.inr rfl⟩
      rw [Write.program, runCall_bind_ok _ inserted]
      rfl
    · refine Or.inr ⟨status, disk', ?_, same⟩
      exact runCall_bind_error _ failed _

/-- So many versions have been published, and the last one is current. -/
structure Counted (disk : RepoDisk) (count : Nat) : Prop where
  pointer : count = 0 ∧ disk.files.entry .current = none ∨
    PointsTo disk count ∧ (disk.dirs.lookup (.epoch count)).isSome
  bound : ∀ version, (disk.dirs.lookup (.epoch version)).isSome → version ≤ count

theorem counted_empty : Counted empty 0 :=
  ⟨Or.inl ⟨rfl, rfl⟩, fun _ there => by cases there⟩

variable {call : Write}

namespace Counted

variable {disk disk' : RepoDisk} {count : Nat}

theorem same (counted : Counted disk count) (same : SameEpochs disk disk') : Counted disk' count := by
  refine ⟨?_, fun version there => counted.bound version (same.epochs version ▸ there)⟩
  rcases counted.pointer with ⟨none_, absent⟩ | ⟨pointer, there⟩
  · exact Or.inl ⟨none_, by rw [same.files, absent]⟩
  · refine Or.inr ⟨⟨?_, ?_⟩, by rw [same.epochs, there]⟩
    · rw [same.files]
      exact pointer.current
    · rw [same.files]
      exact pointer.temporary

theorem published {l : Layout} (counted : Counted disk count)
    (published : Published disk (count + 1) l disk') : Counted disk' (count + 1) := by
  obtain ⟨dir, known, _⟩ := published.epoch
  refine ⟨Or.inr ⟨published.pointer, by rw [known]; rfl⟩, fun version there => ?_⟩
  by_cases newest : version = count + 1
  · exact newest.le
  · rw [published.others version newest] at there
    exact (counted.bound version there).trans (Nat.le_succ _)

/-- No version is above the last one, so it is never pruned. -/
theorem pruned {keep : Nat} (counted : Counted disk (count + 1)) (some_ : keep ≠ 0)
    (small : count + 1 < 2 ^ 64) : Counted (runCall (prune keep) disk).2 (count + 1) := by
  rcases counted.pointer with ⟨none_, _⟩ | ⟨pointer, there⟩
  · cases none_
  have last : newer disk (count + 1) = 0 := by
    refine countP_eq_zero.2 fun version listed => ?_
    have := counted.bound version (mem_epochVersions.1 listed).2
    simpa using this
  have kept : count + 1 ∉ superseded disk keep := fun gone => by
    have := ((mem_superseded (mem_epochVersions.2 ⟨small, there⟩) keep).1 gone).2
    omega
  refine ⟨Or.inr ⟨⟨?_, ?_⟩, ?_⟩, fun version known => ?_⟩
  · rw [prune_files]
    exact pointer.current
  · rw [prune_files]
    exact pointer.temporary
  · rw [prune_lookup, if_neg kept, there]
  · rw [prune_lookup] at known
    split at known
    · cases known
    · exact counted.bound version known

theorem derived (counted : Counted disk count) (small : count + 1 < 2 ^ 64) :
    derived root disk = count + 1 := by
  rcases counted.pointer with ⟨rfl, absent⟩ | ⟨pointer, _⟩
  · rw [Writers.derived, Writers.held, Files.read, absent]
    rfl
  · exact derived_of_pointer pointer small

theorem held (counted : Counted disk (count + 1)) (small : count + 1 < 2 ^ 64) :
    held root disk = .ok (count + 1) := by
  rcases counted.pointer with ⟨none_, _⟩ | ⟨pointer, _⟩
  · cases none_
  · exact held_of_pointer pointer small

theorem there (counted : Counted disk (count + 1)) :
    (disk.dirs.lookup (.epoch (count + 1))).isSome := by
  rcases counted.pointer with ⟨none_, _⟩ | ⟨_, there⟩
  · cases none_
  · exact there

/-- One undisturbed call adds one version or none. -/
theorem step {result : StatusOr Nat} (counted : Counted disk count) (small : count + 1 < 2 ^ 64)
    (run : runCall (call.program root json lib) disk = (result, disk')) :
    (result = .ok (count + 1) ∧ Counted disk' (count + 1)) ∨
      ∃ status, result = .error status ∧ SameEpochs disk disk' := by
  rcases runCall_write root json lib call disk with
    ⟨l, published, disk₁, done, added, left⟩ | ⟨status, disk₁, failed, same⟩
  · rw [done] at run
    cases run
    rw [counted.derived small] at added ⊢
    have grown := counted.published added
    refine Or.inl ⟨rfl, ?_⟩
    rcases left with rfl | rfl
    · exact grown
    · exact grown.pruned (by decide) small
  · rw [failed] at run
    cases run
    exact Or.inr ⟨status, rfl, same⟩

end Counted

/-! ## Runs without a misread -/

theorem Finished.sound_of_same {disk' : RepoDisk} {status : Status} (same : SameEpochs disk disk') :
    Finished.Sound root ⟨disk, .error status, disk'⟩ where
  stands _ impossible := by cases impossible
  stays version _ there _ := by rw [same.epochs version]; exact there
  knows _ _ _ impossible := by cases impossible
  fails _ _ := same

theorem Acknowledged.nil : Acknowledged root [] where
  grows := .nil
  each _ member := absurd member not_mem_nil

variable {log : List Finished}

theorem Acknowledged.cons {call : Finished} (sound : call.Sound root) (log_ : Acknowledged root log)
    (below : ∀ version, call.result = .ok version → ∀ later ∈ log.filterMap Finished.version?,
      version < later) : Acknowledged root (call :: log) := by
  refine ⟨?_, fun other member => ?_⟩
  · rcases result : call.version? with _ | version
    · rw [filterMap_cons_none result]
      exact log_.grows
    · rw [filterMap_cons_some result]
      refine pairwise_cons.2 ⟨below version ?_, log_.grows⟩
      rw [Finished.version?] at result
      rcases returned : call.result with status | published
      · rw [returned] at result
        cases result
      · rw [returned] at result
        cases result
        rfl
  · rcases mem_cons.1 member with rfl | inside
    · exact sound
    · exact log_.each other inside

/-- **Without a misread the versions count up**, as long as they are below the largest one. -/
theorem counted_acknowledged {disk : RepoDisk} {count : Nat} {t : RepoDisk × Nat}
    (serial : Serial root json lib (disk, 0) log t) (counted : Counted disk count)
    (few : count + log.length < 2 ^ 64) :
    Acknowledged root log ∧ ∀ version ∈ log.filterMap Finished.version?, count < version := by
  induction log generalizing disk count with
  | nil => exact ⟨.nil, fun version member => absurd member not_mem_nil⟩
  | cons call log ih =>
    rw [length_cons] at few
    cases serial with
    | @cons _ u _ write result _ first rest =>
      obtain ⟨disk₁, left₁⟩ := u
      obtain ⟨run, none_⟩ := runCall_of_misread (Or.inl rfl) first
      cases none_
      have small : count + 1 < 2 ^ 64 := by omega
      rcases counted.step small run with ⟨rfl, grown⟩ | ⟨status, rfl, same⟩
      · obtain ⟨later, above⟩ := ih rest grown (by omega)
        refine ⟨later.cons ⟨?_, ?_, ?_, ?_⟩ ?_, fun version member => ?_⟩
        · rintro version ⟨⟩
          exact ⟨grown.held small, grown.there⟩
        · intro version _ _ current
          cases (grown.held small).symm.trans current
          exact grown.there
        · rintro version published known ⟨⟩
          rcases counted.pointer with ⟨_, absent⟩ | ⟨pointer, _⟩
          · rw [held, Files.read, absent] at known
            cases known
          · cases (held_of_pointer pointer (by omega)).symm.trans known
            rfl
        · rintro status ⟨⟩
        · rintro version ⟨⟩
          exact above
        · have listed := member
          rcases mem_cons.1 listed with rfl | inside
          · exact Nat.lt_succ_self _
          · exact (Nat.lt_succ_self _).trans (above version inside)
      · obtain ⟨later, above⟩ := ih rest (counted.same same) (by omega)
        refine ⟨later.cons (Finished.sound_of_same same) ?_, above⟩
        rintro version ⟨⟩

/-! ## One call on a new table -/

variable {result : StatusOr Nat}

variable {s : RepoDisk × Nat}

theorem misread_currentVersion
    (steps : Prog.Steps Misread s (currentVersion root).run t (.done result)) : t.1 = s.1 := by
  rw [currentVersion_run] at steps
  obtain ⟨answer, u, first, rest⟩ := steps.call_done
  cases rest
  rcases first with ⟨read, _⟩ | ⟨_, same, _⟩
  · exact (congrArg Prod.snd read).symm
  · exact same

theorem after_lt (current : StatusOr Nat) : after current < 2 ^ 64 := by
  cases current with
  | ok version => exact Nat.mod_lt _ (by decide)
  | error status => exact show 1 < 2 ^ 64 by decide

theorem misread_nextVersion (steps : Prog.Steps Misread s (nextVersion root).run t (.done result)) :
    t.1 = s.1 ∧ ∃ next < 2 ^ 64, result = .ok next := by
  obtain ⟨current, u, first, rest⟩ := Prog.Steps.bind_done (p := (currentVersion root).run) steps
  cases rest
  exact ⟨misread_currentVersion first, _, after_lt current, rfl⟩

/-- Whatever is read instead, one call on a new table is sound. -/
theorem first_sound {left : Nat}
    (steps : Prog.Steps Misread (empty, left) (call.program root json lib).run t
      (.done result)) : Finished.Sound root ⟨empty, result, t.1⟩ := by
  obtain ⟨disk', left'⟩ := t
  have unheld : ∀ version, held root empty ≠ .ok version := nofun
  cases call with
  | publish staging =>
    rcases steps_bind steps with ⟨status, failed, rfl⟩ | ⟨next, ⟨disk₁, left₁⟩, read, rest⟩
    · obtain ⟨_, _, _, impossible⟩ := misread_nextVersion failed
      cases impossible
    obtain ⟨same, _, small, known⟩ := misread_nextVersion read
    cases known
    have empty : disk₁ = empty := same
    subst empty
    rcases steps_bind rest with ⟨status, failed, rfl⟩ | ⟨_, ⟨disk₂, left₂⟩, done, finish⟩
    · obtain ⟨run, _⟩ := runCall_of_misread (Or.inr (issues_publish _ _ _)) failed
      rcases runCall_publish root json empty staging next with
        ⟨_, _, _, able, _⟩ | ⟨_, _, _, unable, unchanged⟩
      · cases run.symm.trans able
      · cases run.symm.trans unable
        exact Finished.sound_of_same unchanged
    · cases finish
      obtain ⟨run, _⟩ := runCall_of_misread (Or.inr (issues_publish _ _ _)) done
      rcases runCall_publish root json empty staging next with
        ⟨_, _, _, able, published⟩ | ⟨_, _, _, unable, _⟩
      · cases run.symm.trans able
        obtain ⟨dir, there, _⟩ := published.epoch
        refine ⟨?_, fun version current => absurd current (unheld version),
          fun version _ current => absurd current (unheld version), nofun⟩
        rintro version ⟨⟩
        exact ⟨held_of_pointer published.pointer small, by rw [there]; rfl⟩
      · cases run.symm.trans unable
  | insert cells =>
    -- nothing can be opened, whichever version is read
    have unopened : ∀ {left : Nat} {t : RepoDisk × Nat} {result : StatusOr EpochReader},
        Prog.Steps Misread (empty, left) (openCurrent root json).run t (.done result) →
          t.1 = empty ∧ ∃ status, result = .error status := by
      intro left t result opening
      rcases steps_bind opening with ⟨status, failed, rfl⟩ | ⟨version, ⟨disk₁, left₁⟩, read, rest⟩
      · exact ⟨misread_currentVersion failed, status, rfl⟩
      · have empty : disk₁ = empty := misread_currentVersion read
        subst empty
        obtain ⟨run, _⟩ := runCall_of_misread (Or.inr (issues_openVersion _ _)) rest
        exact ⟨(congrArg Prod.snd run).symm, _, (congrArg Prod.fst run).symm⟩
    have stopped : disk' = empty ∧ ∃ status, result = .error status := by
      rcases steps_bind steps with ⟨status, failed, rfl⟩ | ⟨_, u, inserted, _⟩
      · rcases steps_bind failed with ⟨_, opening, same⟩ | ⟨_, _, opening, _⟩
        · exact ⟨(unopened opening).1, status, rfl⟩
        · obtain ⟨_, _, impossible⟩ := unopened opening
          cases impossible
      · rcases steps_bind inserted with ⟨_, opening, impossible⟩ | ⟨_, _, opening, _⟩
        · cases impossible
        · obtain ⟨_, _, impossible⟩ := unopened opening
          cases impossible
    obtain ⟨rfl, status, rfl⟩ := stopped
    exact Finished.sound_of_same (.refl _)

/-! ## Runs that break it -/

theorem Serial.append {u : RepoDisk × Nat} {first second : List Finished}
    (before : Serial root json lib s first t) (after : Serial root json lib t second u) :
    Serial root json lib s (first ++ second) u := by
  induction before with
  | nil => exact after
  | cons step _ ih => exact .cons step (ih after)

theorem Serial.single {disk' : RepoDisk}
    (run : runCall (call.program root json lib) disk = (result, disk')) (left : Nat) :
    Serial root json lib (disk, left) [⟨disk, result, disk'⟩] (disk', left) := by
  have steps := misread_run (call.program root json lib).run disk left
  rw [show Prog.run exec (call.program root json lib).run disk = (result, disk') from run] at steps
  exact .cons steps (.nil _)

/-- A publishing whose read of `CURRENT` is answered anything derives its version from that. -/
theorem misread_publish {disk' : RepoDisk} {staging : StagingEpoch}
    (answer : Except FileError Content) (left : Nat)
    (run : runCall (publish root json staging (after (currentOf root answer))) disk = (.ok (), disk')) :
    Prog.Steps Misread (disk, left + 1) (AdminService.publish root json staging).run (disk', left)
      (.done (.ok (after (currentOf root answer)))) := by
  have read : Prog.Steps Misread (disk, left + 1) (nextVersion root).run (disk, left)
      (.done (.ok (after (currentOf root answer)))) := by
    show Prog.Steps Misread _ ((currentVersion root).run >>= _) _ _
    rw [currentVersion_run]
    have misread : Misread (disk, left + 1) (.readTop .current) answer (disk, left) :=
      Or.inr ⟨rfl, rfl, rfl⟩
    exact .step misread (.refl _ _)
  refine Prog.Steps.then (p := (nextVersion root).run) read ?_
  have published := misread_run (publish root json staging (after (currentOf root answer))).run disk left
  rw [show Prog.run exec (publish root json staging (after (currentOf root answer))).run disk =
    (.ok (), disk') from run] at published
  exact Prog.Steps.then (p := (publish root json staging _).run) published (.refl _ _)

/-- So many publishings of the one-row table, all successful. -/
theorem publish_repeatedly (root : Bytes) (json : JsonLibrary) (lib : Library) (left count : Nat)
    (small : count < 2 ^ 64) : ∃ log disk,
    Serial root json lib (empty, left) log (disk, left) ∧ Counted disk count ∧
    log.filterMap Finished.version? = (range count).map (· + 1) ∧ log.length = count ∧
    (∀ version, (disk.dirs.lookup (.epoch version)).isSome ↔ 1 ≤ version ∧ version ≤ count) ∧
    (0 < count → ∃ l, layout json oneRow count = .ok l ∧ Stands disk count l) := by
  induction count with
  | zero =>
    refine ⟨[], empty, .nil _, counted_empty, rfl, rfl, fun version => ?_, nofun⟩
    constructor
    · exact fun there => by cases there
    · omega
  | succ count ih =>
    obtain ⟨log, disk, serial, counted, versions, length, exactly, _⟩ := ih (by omega)
    have free : disk.dirs.lookup (.epoch (count + 1)) = none := by
      rw [← Option.not_isSome_iff_eq_none, exactly]
      omega
    obtain ⟨l, disk', laid, run, published⟩ := publish_oneRow root json disk (count + 1) free
    have called : runCall ((Write.publish oneRow).program root json lib) disk =
      (.ok (count + 1), disk') := adminPublish_of_publish (counted.derived small) run
    refine ⟨_, disk', serial.append (.single called left), counted.published published, ?_, ?_, ?_,
      fun _ => ⟨l, laid, published.epoch⟩⟩
    · rw [filterMap_append, versions, range_succ, map_append]
      rfl
    · rw [length_append, length]
      rfl
    · intro version
      by_cases newest : version = count + 1
      · obtain ⟨dir, known, _⟩ := published.epoch
        rw [newest, known]
        simp
      · rw [published.others version newest, exactly]
        omega

/-- **Acknowledged versions.**  Every log of at most `n` calls with at most `k` misreads of
`CURRENT` is as it should be exactly if there are fewer than two calls, or no misread and
fewer than `2 ^ 64` calls. -/
theorem acknowledged_iff (root : Bytes) (json : JsonLibrary) (lib : Library) (n k : Nat) :
    (∀ log t, Serial root json lib (empty, k) log t → log.length ≤ n → Acknowledged root log) ↔
      n < 2 ∨ (k = 0 ∧ n < 2 ^ 64) := by
  constructor
  · intro always
    by_contra wrong
    rcases k with _ | k
    · -- the version after the largest one is 0
      obtain ⟨log, disk, serial, counted, versions, length, exactly, _⟩ :=
        publish_repeatedly root json lib 0 (2 ^ 64 - 1) (by decide)
      have free : disk.dirs.lookup (.epoch 0) = none := by
        rw [← Option.not_isSome_iff_eq_none, exactly]
        omega
      obtain ⟨l, disk', _, run, _⟩ := publish_oneRow root json disk 0 free
      have wrapped : derived root disk = 0 := by
        have last : Counted disk (2 ^ 64 - 2 + 1) := counted
        rw [derived, last.held (by decide)]
        rfl
      have called : runCall ((Write.publish oneRow).program root json lib) disk = (.ok 0, disk') :=
        adminPublish_of_publish wrapped run
      have sound := always _ _ (serial.append (.single called 0)) (by
        rw [length_append, length]
        show 2 ^ 64 - 1 + 1 ≤ n
        omega)
      have grows := sound.grows
      rw [filterMap_append, versions] at grows
      have bad := (pairwise_append.1 grows).2.2 1
        (mem_map.2 ⟨0, mem_range.2 (by decide), rfl⟩) 0 mem_cons_self
      exact absurd bad (by decide)
    · obtain ⟨l₁, disk₁, _, first, one⟩ := publish_oneRow root json empty 1 rfl
      have called : runCall ((Write.publish oneRow).program root json lib) empty = (.ok 1, disk₁) :=
        adminPublish_of_publish rfl first
      have wrapped : after (currentOf root (.ok (dec (2 ^ 64 - 1)))) = 0 := by
        rw [currentOf_dec root (by decide)]
        rfl
      have free : disk₁.dirs.lookup (.epoch 0) = none := one.others 0 (by decide)
      obtain ⟨l₂, disk₂, _, second, _⟩ := publish_oneRow root json disk₁ 0 free
      have misread : Prog.Steps Misread (disk₁, k + 1) (AdminService.publish root json oneRow).run
          (disk₂, k)
          (.done (.ok (after (currentOf root (.ok (dec (2 ^ 64 - 1))))))) :=
        misread_publish (.ok (dec (2 ^ 64 - 1))) k (wrapped.symm ▸ second)
      rw [wrapped] at misread
      have stepped : Prog.Steps Misread (disk₁, k + 1) ((Write.publish oneRow).program root json lib).run
        (disk₂, k) (.done (.ok 0)) := misread
      have serial : Serial root json lib (empty, k + 1) _ (disk₂, k) :=
        (Serial.single called (k + 1)).append (.cons stepped (.nil _))
      have sound := always _ _ serial (show 2 ≤ n by omega)
      exact absurd (rel_of_pairwise_cons sound.grows mem_cons_self) (by decide)
  · rintro (few | ⟨rfl, few⟩) log t serial short
    · cases serial with
      | nil => exact .nil
      | cons first rest =>
        cases rest with
        | nil =>
          refine Acknowledged.cons (first_sound first) .nil fun _ _ later member => ?_
          exact absurd member not_mem_nil
        | cons _ _ =>
          simp only [length_cons] at short
          omega
    · exact (counted_acknowledged serial counted_empty (by omega)).1

/-- Eight publishings, an insert that prunes the first epoch, and a publishing whose read of
`CURRENT` fails: it returns OK for version 1 on a table at version 9. -/
theorem failed_read_publishes_one : ∃ log disk disk',
    Serial (bytes "/t") JsonLibrary.exact strictLibrary (empty, 1) log (disk, 1) ∧
    log.filterMap Finished.version? = [1, 2, 3, 4, 5, 6, 7, 8, 9] ∧
    held (bytes "/t") disk = .ok 9 ∧
    Prog.Steps Misread (disk, 1) (AdminService.publish (bytes "/t") JsonLibrary.exact oneRow).run (disk', 0)
      (.done (.ok 1)) := by
  obtain ⟨log, disk₈, serial, counted, versions, _, exactly, last⟩ := publish_repeatedly (bytes "/t")
    JsonLibrary.exact strictLibrary 1 8 (by decide)
  obtain ⟨l, laid, stands⟩ := last (by decide)
  have pointer : PointsTo disk₈ 8 := by
    rcases counted.pointer with ⟨impossible, _⟩ | ⟨pointer, _⟩
    · cases impossible
    · exact pointer
  obtain ⟨staging, opened, staged, fits⟩ := @insertable_oneRow _ (bytes "/t") JsonLibrary.exact
    strictLibrary disk₈ 8 (by decide) pointer laid stands
  have next : derived (bytes "/t") disk₈ = 9 := counted.derived (by decide)
  have free : disk₈.dirs.lookup (.epoch 9) = none := by
    rw [← Option.not_isSome_iff_eq_none, exactly]
    decide
  obtain ⟨_, disk₉, _, published, inserted⟩ := insert_succeeds opened staged fits (by rw [next]; exact free)
  rw [next] at published inserted
  have grown : Counted disk₉ 9 := counted.published published
  have pruned : Counted (runCall (prune kInsertEpochRetention) disk₉).2 9 :=
    grown.pruned (by decide) (by decide)
  -- the epochs 2 to 9 are above the first one
  have there : ∀ version, 1 ≤ version → version ≤ 9 → version ∈ epochVersions disk₉ := by
    intro version low high
    refine mem_epochVersions.2 ⟨by omega, ?_⟩
    by_cases newest : version = 9
    · exact newest ▸ grown.there
    · rw [published.others version newest, exactly]
      omega
  have above : 8 ≤ newer disk₉ 1 := by
    have listed : [2, 3, 4, 5, 6, 7, 8, 9] ⊆ (epochVersions disk₉).filter (1 < ·) := by
      intro version member
      have range : 2 ≤ version ∧ version ≤ 9 := by
        simp only [mem_cons, not_mem_nil, or_false] at member
        omega
      exact mem_filter.2 ⟨there version (by omega) (by omega), decide_eq_true range.1⟩
    rw [newer, countP_eq_length_filter]
    exact (subperm_of_subset (by decide) listed).length_le
  have gone : (runCall (prune kInsertEpochRetention) disk₉).2.dirs.lookup (.epoch 1) = none := by
    rw [prune_lookup, if_pos]
    exact (mem_superseded (there 1 (by decide) (by decide)) _).2 ⟨by decide, above⟩
  obtain ⟨_, disk', _, last, _⟩ := publish_oneRow (bytes "/t") JsonLibrary.exact _ 1 gone
  have called : runCall ((Write.insert [bytes "9"]).program (bytes "/t") JsonLibrary.exact
      strictLibrary) disk₈ = (.ok 9, (runCall (prune kInsertEpochRetention) disk₉).2) := by
    rw [Write.program, runCall_bind_ok _ inserted]
    rfl
  refine ⟨_, _, disk', serial.append (.single called 1), ?_, pruned.held (by decide), ?_⟩
  · rw [filterMap_append, versions]
    rfl
  · exact misread_publish (.error (.cannotOpen [])) 0 last

end Runs

end OpaqueDb.Server.Writers
