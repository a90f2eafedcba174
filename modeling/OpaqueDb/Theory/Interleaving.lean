/-
# Theory.Interleaving -- programs that run at the same time

Threads share one state and one lock.  A thread waits, runs its program command by command,
and returns; one that locks starts only while the lock is free and holds it until it returns.
The threads' commands may come in any order.

If every thread locks, a run in which all threads return is the same as running them one
after another in the order they returned (`serial_of_locked`).  Threads that only look at the
state may run without the lock and do not disturb that order (`Orderly.move`).
-/
import Mathlib.Data.List.Nodup
import Mathlib.Logic.Relation
import OpaqueDb.Theory.Programs

namespace OpaqueDb.Theory

open List

set_option autoImplicit false

inductive Phase (Op : Type) (Answer : Op → Type) (R : Type) where
  | waiting
  | running (p : Prog Op Answer R)
  | returned (r : R)

/-- The shared state, what each thread is doing, and who holds the lock. -/
structure World (Op : Type) (Answer : Op → Type) (R S ι : Type) where
  state : S
  phase : ι → Phase Op Answer R
  holder : Option ι

namespace World

variable {Op : Type} {Answer : Op → Type} {R S ι : Type}

/-- Nobody has started yet. -/
def initial (s : S) : World Op Answer R S ι :=
  ⟨s, fun _ => .waiting, none⟩

/-- Everybody has returned. -/
def Complete (w : World Op Answer R S ι) : Prop :=
  ∀ i, ∃ r, w.phase i = .returned r

/-- One thread goes on to another phase. -/
def put [DecidableEq ι] (w : World Op Answer R S ι) (i : ι) (phase : Phase Op Answer R) (s : S)
    (holder : Option ι) : World Op Answer R S ι :=
  ⟨s, Function.update w.phase i phase, holder⟩

variable {p : Prog Op Answer R}

section Put

variable [DecidableEq ι] (w : World Op Answer R S ι) (i : ι) (phase : Phase Op Answer R) (s : S)
  (holder : Option ι)

@[simp] theorem put_state : (w.put i phase s holder).state = s := rfl

@[simp] theorem put_holder : (w.put i phase s holder).holder = holder := rfl

@[simp] theorem put_phase_self : (w.put i phase s holder).phase i = phase :=
  Function.update_self ..

theorem put_put (phase' : Phase Op Answer R) (s' : S) (holder' : Option ι) :
    (w.put i phase s holder).put i phase' s' holder' = w.put i phase' s' holder' := by
  simp [put]

variable {w i phase s holder}

theorem put_phase_ne {j : ι} (other : j ≠ i) : (w.put i phase s holder).phase j = w.phase j :=
  Function.update_of_ne other ..

/-- Who runs after a step is the one that moved, or ran before. -/
theorem running_put {j : ι} (running : (w.put i phase s holder).phase j = .running p) :
    j = i ∧ phase = .running p ∨ j ≠ i ∧ w.phase j = .running p := by
  by_cases same : j = i
  · subst same
    exact Or.inl ⟨rfl, (put_phase_self ..).symm.trans running⟩
  · exact Or.inr ⟨same, (put_phase_ne same).symm.trans running⟩

end Put

section Moves

variable [DecidableEq ι] (exec : (op : Op) → S → Answer op × S) (body : ι → Prog Op Answer R)
  (locks : ι → Bool)

/-- One thread makes one step. -/
inductive Move : World Op Answer R S ι → World Op Answer R S ι → Prop
  | start {w : World Op Answer R S ι} {i : ι} (waiting : w.phase i = .waiting)
      (free : locks i = true → w.holder = none) :
      Move w (w.put i (.running (body i)) w.state (if locks i then some i else w.holder))
  | step {w : World Op Answer R S ι} {i : ι} {op : Op} {next : Answer op → Prog Op Answer R}
      (running : w.phase i = .running (.call op next)) :
      Move w (w.put i (.running (next (exec op w.state).1)) (exec op w.state).2 w.holder)
  | finish {w : World Op Answer R S ι} {i : ι} {r : R} (running : w.phase i = .running (.done r)) :
      Move w (w.put i (.returned r) w.state (if locks i then none else w.holder))

/-- Any number of steps. -/
abbrev Moves : World Op Answer R S ι → World Op Answer R S ι → Prop :=
  Relation.ReflTransGen (Move exec body locks)

/-- The threads one after another, with what each of them returned. -/
inductive SerialRun : S → List (ι × R) → S → Prop
  | nil (s : S) : SerialRun s [] s
  | cons {s t u : S} {i : ι} {r : R} {log : List (ι × R)} (first : Prog.run exec (body i) s = (r, t))
      (rest : SerialRun t log u) : SerialRun s ((i, r) :: log) u

end Moves

section Phases

variable [DecidableEq ι] {exec : (op : Op) → S → Answer op × S} {body : ι → Prog Op Answer R}
  {locks : ι → Bool} {w w' : World Op Answer R S ι}

variable (exec body w w') in
/-- What a step is to one of the threads. -/
inductive Turn (i : ι) : Prop
  | still (same : w'.phase i = w.phase i)
  | start (waiting : w.phase i = .waiting) (now : w'.phase i = .running (body i))
  | step {op : Op} {next : Answer op → Prog Op Answer R} (running : w.phase i = .running (.call op next))
      (now : w'.phase i = .running (next (exec op w.state).1)) (state : w'.state = (exec op w.state).2)
  | finish {r : R} (running : w.phase i = .running (.done r)) (now : w'.phase i = .returned r)

theorem Move.turn (move : Move exec body locks w w') (i : ι) : Turn exec body w w' i := by
  cases move with
  | @start j waiting free =>
    by_cases same : i = j
    · subst same
      exact .start waiting (put_phase_self ..)
    · exact .still (put_phase_ne same)
  | @step j op next running =>
    by_cases same : i = j
    · subst same
      exact .step running (put_phase_self ..) rfl
    · exact .still (put_phase_ne same)
  | @finish j r running =>
    by_cases same : i = j
    · subst same
      exact .finish running (put_phase_self ..)
    · exact .still (put_phase_ne same)

/-- What holds of every program and of whatever it goes on with holds of the running ones. -/
theorem Moves.running {s : S} {stage : ι → Prog Op Answer R → Prop} (start : ∀ i, stage i (body i))
    (next : ∀ i op rest, stage i (.call op rest) → ∀ answer, stage i (rest answer))
    (moves : Moves exec body locks (initial s) w) {i : ι} {p : Prog Op Answer R}
    (running : w.phase i = .running p) : stage i p := by
  induction moves generalizing p with
  | refl => cases running
  | tail _ move ih =>
    cases move.turn i with
    | still same => exact ih (same.symm.trans running)
    | start _ now =>
      cases now.symm.trans running
      exact start i
    | step before now _ =>
      cases now.symm.trans running
      exact next i _ _ (ih before) _
    | finish _ now => cases now.symm.trans running

theorem Move.returned (move : Move exec body locks w w') {i : ι} {r : R}
    (returned : w.phase i = .returned r) : w'.phase i = .returned r := by
  cases move.turn i with
  | still same => exact same.trans returned
  | start before _ => cases before.symm.trans returned
  | step before _ _ => cases before.symm.trans returned
  | finish before _ => cases before.symm.trans returned

theorem Move.waiting (move : Move exec body locks w w') {i : ι} (waiting : w'.phase i = .waiting) :
    w.phase i = .waiting := by
  cases move.turn i with
  | still same => exact same.symm.trans waiting
  | start before _ => exact before
  | step _ now _ => cases now.symm.trans waiting
  | finish _ now => cases now.symm.trans waiting

theorem Moves.returned (moves : Moves exec body locks w w') {i : ι} {r : R}
    (returned : w.phase i = .returned r) : w'.phase i = .returned r := by
  induction moves with
  | refl => exact returned
  | tail _ move ih => exact move.returned ih

/-- Threads that were not running and are found as they were have not moved in between: what every
other move keeps holds at the end. -/
theorem Moves.quiet (quiet : ι → Prop) (keeps : World Op Answer R S ι → Prop)
    (moves : Moves exec body locks w w') (idle : ∀ i p, quiet i → w.phase i ≠ .running p)
    (same : ∀ i, quiet i → w'.phase i = w.phase i) (start : keeps w)
    (step : ∀ u u', keeps u → Move exec body locks u u' →
      (∀ i, quiet i → u'.phase i = u.phase i) → (∀ i p, quiet i → u.phase i ≠ .running p) → keeps u') :
    keeps w' := by
  induction moves with
  | refl => exact start
  | @tail u u' before move ih =>
    have earlier : ∀ i, quiet i → u.phase i = w.phase i := by
      intro i still
      rcases phase : w.phase i with _ | p | r
      · exact move.waiting ((same i still).trans phase)
      · exact absurd phase (idle i p still)
      · exact Moves.returned before phase
    refine step u u' (ih earlier) move (fun i still => ?_) fun i p still => ?_
    · rw [same i still, earlier i still]
    · rw [earlier i still]
      exact idle i p still

end Phases

section Locked

variable {exec : (op : Op) → S → Answer op × S} {body : ι → Prog Op Answer R}

theorem SerialRun.snoc {s t u : S} {log : List (ι × R)} {i : ι} {r : R}
    (before : SerialRun exec body s log t) (last : Prog.run exec (body i) t = (r, u)) :
    SerialRun exec body s (log ++ [(i, r)]) u := by
  induction before with
  | nil => exact .cons last (.nil _)
  | cons first _ ih => exact .cons first (ih last)

variable [DecidableEq ι] {locks : ι → Bool} {start : S}

variable (exec) in
/-- The command leaves every state as it is. -/
def Looking (op : Op) : Prop :=
  ∀ s, (exec op s).2 = s

variable (exec body locks start) in
/-- The locking threads that returned are a serial run; the lock's holder is the only one of them
under way, and what it has still to do is the rest of a run from there.  The others only look. -/
structure Orderly (w : World Op Answer R S ι) (log : List (ι × R)) (s : S) : Prop where
  serial : SerialRun exec body start log s
  locked : ∀ entry ∈ log, locks entry.1 = true
  once : (log.map Prod.fst).Nodup
  returned : ∀ i r, locks i = true → (w.phase i = .returned r ↔ (i, r) ∈ log)
  idle : w.holder = none → w.state = s
  busy : ∀ i p, locks i = true → w.phase i = .running p →
    w.holder = some i ∧ Prog.run exec p w.state = Prog.run exec (body i) s
  held : ∀ i, w.holder = some i → locks i = true ∧ ∃ p, w.phase i = .running p
  looking : ∀ i p, locks i = false → w.phase i = .running p → p.Only (Looking exec)

omit [DecidableEq ι] in
theorem orderly_initial : Orderly exec body locks start (initial start) [] start where
  serial := .nil _
  locked _ listed := absurd listed not_mem_nil
  once := nodup_nil
  returned _ _ _ := ⟨nofun, nofun⟩
  idle _ := rfl
  busy _ _ _ := nofun
  held _ := nofun
  looking _ _ _ := nofun

namespace Orderly

variable {w w' : World Op Answer R S ι} {log : List (ι × R)} {s : S}
  (orderly : Orderly exec body locks start w log s)

include orderly

omit [DecidableEq ι] in
/-- Only the holder of the lock is running. -/
theorem only {i j : ι} (holds : w.holder = some i) (locked : locks j = true)
    (running : w.phase j = .running p) : j = i :=
  Option.some.inj ((orderly.busy j p locked running).1.symm.trans holds)

omit [DecidableEq ι] in
/-- A locking thread that has not returned is not in the log. -/
theorem unlisted {i : ι}
    (out : ∀ r, w.phase i ≠ .returned r) : i ∉ log.map Prod.fst := by
  intro listed
  obtain ⟨⟨j, r⟩, inside, rfl⟩ := mem_map.1 listed
  exact out r ((orderly.returned j r (orderly.locked _ inside)).2 inside)

/-- A thread that goes on without returning leaves the list of those that have. -/
theorem still {i : ι}
    (out : ∀ r, w.phase i ≠ .returned r) (p : Prog Op Answer R) (s' : S) (holder : Option ι) (j : ι)
    (r : R) (locked : locks j = true) :
    (w.put i (.running p) s' holder).phase j = .returned r ↔ (j, r) ∈ log := by
  rw [← orderly.returned j r locked]
  by_cases same : j = i
  · subst same
    rw [put_phase_self]
    exact ⟨nofun, fun returned => absurd returned (out r)⟩
  · rw [put_phase_ne same]

/-- A thread that only looks moves without being noticed. -/
theorem unnoticed {i : ι} (free : locks i = false)
    {phase : Phase Op Answer R} (looks : ∀ p, phase = .running p → p.Only (Looking exec)) :
    Orderly exec body locks start (w.put i phase w.state w.holder) log s := by
  have other : ∀ j, locks j = true → (w.put i phase w.state w.holder).phase j = w.phase j := by
    intro j locked
    refine put_phase_ne ?_
    rintro rfl
    cases locked.symm.trans free
  refine ⟨orderly.serial, orderly.locked, orderly.once, fun j r locked => ?_, orderly.idle,
    fun j p locked running => ?_, fun j holds => ?_, fun j p looking running => ?_⟩
  · rw [other j locked]
    exact orderly.returned j r locked
  · rw [other j locked] at running
    exact orderly.busy j p locked running
  · obtain ⟨locked, running⟩ := orderly.held j holds
    rw [other j locked]
    exact ⟨locked, running⟩
  · rcases running_put running with ⟨rfl, same⟩ | ⟨_, before⟩
    · exact looks p same
    · exact orderly.looking j p looking before

/-- Those that only look go on as they were when a locking thread moves. -/
theorem looks_on {i : ι} (locked : locks i = true)
    {phase : Phase Op Answer R} {s' : S} {holder : Option ι} (j : ι) (p : Prog Op Answer R)
    (looking : locks j = false) (running : (w.put i phase s' holder).phase j = .running p) :
    p.Only (Looking exec) := by
  rcases running_put running with ⟨rfl, _⟩ | ⟨_, before⟩
  · cases locked.symm.trans looking
  · exact orderly.looking j p looking before

/-- The only locking thread under way holds the lock and goes on to the end of its run. -/
theorem goes_on {i : ι} (locked : locks i = true)
    (out : ∀ r, w.phase i ≠ .returned r)
    (alone : ∀ j p, locks j = true → w.phase j = .running p → j = i) {p : Prog Op Answer R} {s' : S}
    (rest : Prog.run exec p s' = Prog.run exec (body i) s) :
    Orderly exec body locks start (w.put i (.running p) s' (some i)) log s := by
  refine ⟨orderly.serial, orderly.locked, orderly.once, orderly.still out _ _ _, nofun,
    fun j q locks_ running => ?_, fun j holds => ?_, orderly.looks_on locked⟩
  · rcases running_put running with ⟨rfl, same⟩ | ⟨other, before⟩
    · cases same
      exact ⟨rfl, rest⟩
    · exact absurd (alone j q locks_ before) other
  · cases holds
    exact ⟨locked, p, put_phase_self ..⟩

theorem start_ {i : ι} (locked : locks i = true)
    (waiting : w.phase i = .waiting) (free : w.holder = none) :
    Orderly exec body locks start (w.put i (.running (body i)) w.state (some i)) log s := by
  refine orderly.goes_on locked (fun r => by rw [waiting]; exact nofun) (fun j p locks_ running => ?_)
    (by rw [orderly.idle free])
  cases (orderly.busy j p locks_ running).1.symm.trans free

theorem step {i : ι} (locked : locks i = true)
    {op : Op} {next : Answer op → Prog Op Answer R} (running : w.phase i = .running (.call op next)) :
    Orderly exec body locks start
      (w.put i (.running (next (exec op w.state).1)) (exec op w.state).2 w.holder) log s := by
  obtain ⟨holds, rest⟩ := orderly.busy i _ locked running
  rw [holds]
  exact orderly.goes_on locked (fun r => by rw [running]; exact nofun)
    (fun j p locks_ => orderly.only holds locks_) rest

theorem finish {i : ι} (locked : locks i = true)
    {r : R} (running : w.phase i = .running (.done r)) :
    Orderly exec body locks start (w.put i (.returned r) w.state none) (log ++ [(i, r)]) w.state := by
  obtain ⟨holds, rest⟩ := orderly.busy i _ locked running
  have fresh : i ∉ log.map Prod.fst := orderly.unlisted fun r => by rw [running]; exact nofun
  refine ⟨orderly.serial.snoc rest.symm, fun entry listed => ?_, ?_, fun j q locks_ => ?_, fun _ => rfl,
    fun j p locks_ other => ?_, nofun, orderly.looks_on locked⟩
  · rcases mem_append.1 listed with before | last
    · exact orderly.locked entry before
    · cases mem_singleton.1 last
      exact locked
  · rw [map_append]
    refine nodup_append.2 ⟨orderly.once, nodup_singleton _, fun j listed k new same => ?_⟩
    rw [same, mem_singleton.1 new] at listed
    exact fresh listed
  · rw [mem_append, mem_singleton, Prod.mk.injEq]
    by_cases same : j = i
    · subst same
      have absent : (j, q) ∉ log := fun inside => fresh (mem_map.2 ⟨_, inside, rfl⟩)
      rw [put_phase_self]
      simp only [absent, false_or, true_and, Phase.returned.injEq]
      exact eq_comm
    · rw [put_phase_ne same, orderly.returned j q locks_]
      simp [same]
  · rcases running_put other with ⟨_, same⟩ | ⟨apart, before⟩
    · cases same
    · exact absurd (orderly.only holds locks_ before) apart

/-- One step of any thread keeps the order; only a locking thread that returns lengthens the log. -/
theorem move (quiet : ∀ i, locks i = false → (body i).Only (Looking exec)) (move : Move exec body locks w w') :
    Orderly exec body locks start w' log s ∨
      ∃ i r, w.holder = some i ∧ w.phase i = .running (.done r) ∧
        Orderly exec body locks start w' (log ++ [(i, r)]) w'.state := by
  cases move with
  | @start i waiting free =>
    cases locks_ : locks i with
    | true =>
      exact Or.inl (orderly.start_ locks_ waiting (free locks_))
    | false =>
      refine Or.inl (orderly.unnoticed locks_ fun p running => ?_)
      cases running
      exact quiet i locks_
  | @step i op next running =>
    cases locks_ : locks i with
    | true => exact Or.inl (orderly.step locks_ running)
    | false =>
      obtain ⟨looks, rest⟩ := orderly.looking i _ locks_ running
      rw [looks w.state]
      refine Or.inl (orderly.unnoticed locks_ fun p goes => ?_)
      cases goes
      exact rest _
  | @finish i r running =>
    cases locks_ : locks i with
    | true =>
      exact Or.inr ⟨i, r, (orderly.busy i _ locks_ running).1, running, orderly.finish locks_ running⟩
    | false =>
      exact Or.inl (orderly.unnoticed locks_ nofun)

end Orderly

/-- **Threads that all lock are serializable**: when all have returned, some order of running them
one after another gives the same state and the same results. -/
theorem serial_of_locked {w : World Op Answer R S ι} (all : ∀ i, locks i = true)
    (moves : Moves exec body locks (initial start) w) (complete : w.Complete) :
    ∃ log, SerialRun exec body start log w.state ∧ (log.map Prod.fst).Nodup ∧
      ∀ i r, w.phase i = .returned r ↔ (i, r) ∈ log := by
  have quiet : ∀ i, locks i = false → (body i).Only (Looking exec) := fun i free =>
    absurd ((all i).symm.trans free) nofun
  have found : ∃ log s, Orderly exec body locks start w log s := by
    clear complete
    induction moves with
    | refl => exact ⟨[], start, orderly_initial⟩
    | tail _ move ih =>
      obtain ⟨log, s, orderly⟩ := ih
      rcases orderly.move quiet move with same | ⟨i, r, _, _, longer⟩
      · exact ⟨log, s, same⟩
      · exact ⟨_, _, longer⟩
  obtain ⟨log, s, orderly⟩ := found
  have free : w.holder = none := by
    rcases holder : w.holder with _ | i
    · rfl
    · obtain ⟨_, p, running⟩ := orderly.held i holder
      obtain ⟨r, returned⟩ := complete i
      rw [returned] at running
      cases running
  rw [orderly.idle free]
  exact ⟨log, orderly.serial, orderly.once, fun i r => orderly.returned i r (all i)⟩

/-- A thread that is left alone runs to its end. -/
theorem moves_return {w : World Op Answer R S ι} {i : ι} (running : w.phase i = .running p) :
    Moves exec body locks w (w.put i (.returned (Prog.run exec p w.state).1)
      (Prog.run exec p w.state).2 (if locks i then none else w.holder)) := by
  induction p generalizing w with
  | done r => exact .single (.finish running)
  | call op next ih =>
    have after := ih (exec op w.state).1 (put_phase_self w i
      (.running (next (exec op w.state).1)) (exec op w.state).2 w.holder)
    rw [put_put] at after
    exact .head (.step running) after

section Waiting

variable {w : World Op Answer R S ι} {i : ι} (waiting : w.phase i = .waiting)
  (free : locks i = true → w.holder = none)

include waiting free

/-- A thread that need not wait for the lock can run from its start to its end. -/
theorem moves_call : Moves exec body locks w (w.put i (.returned (Prog.run exec (body i) w.state).1)
    (Prog.run exec (body i) w.state).2 w.holder) := by
  let holder := if locks i then some i else w.holder
  have ran : Moves exec body locks (w.put i (.running (body i)) w.state holder) _ :=
    moves_return (put_phase_self ..)
  have left : (if locks i then none else holder) = w.holder := by
    by_cases locked : locks i = true
    · rw [if_pos locked, free locked]
    · rw [if_neg locked]
      exact if_neg locked
  rw [put_put, put_holder, left] at ran
  exact .head (.start waiting free) ran

/-- The first command of such a thread. -/
theorem moves_first {op : Op} {next : Answer op → Prog Op Answer R} (first : body i = .call op next) :
    Moves exec body locks w (w.put i (.running (next (exec op w.state).1)) (exec op w.state).2
      (if locks i then some i else w.holder)) := by
  let holder := if locks i then some i else w.holder
  have stepped : Move exec body locks (w.put i (.running (body i)) w.state holder) _ :=
    .step (by rw [put_phase_self, first])
  rw [put_put] at stepped
  exact .head (.start waiting free) (.single stepped)

end Waiting

end Locked

end World

end OpaqueDb.Theory
