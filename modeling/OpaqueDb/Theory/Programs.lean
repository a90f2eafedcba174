/-
# Theory.Programs -- programs of commands

A program calls commands and goes on with their answers.  What a command does is left
open: `run` takes it from a function, `Steps` from a relation, so that one program text
has its undisturbed run, its runs under faults and the runs that stop half way.

`Only` says which commands a program may call, whatever it is answered; `Along` what each step
of a run may do; `Steady` what a program that only looks returns, whoever moves in between.
-/
import Mathlib.Logic.Function.Basic

namespace OpaqueDb.Theory

set_option autoImplicit false

inductive Prog (Op : Type) (Answer : Op → Type) (α : Type) where
  | done (a : α)
  | call (op : Op) (next : Answer op → Prog Op Answer α)

namespace Prog

variable {Op : Type} {Answer : Op → Type} {α β S : Type}

protected def bind : Prog Op Answer α → (α → Prog Op Answer β) → Prog Op Answer β
  | done a, f => f a
  | call op next, f => call op fun r => (next r).bind f

instance : Monad (Prog Op Answer) where
  pure := done
  bind := Prog.bind

instance : LawfulMonad (Prog Op Answer) :=
  LawfulMonad.mk' _
    (fun p => by
      induction p with
      | done a => rfl
      | call op next ih => exact congrArg (call op) (funext ih))
    (fun _ _ => rfl)
    (fun p f g => by
      induction p with
      | done a => rfl
      | call op next ih => exact congrArg (call op) (funext ih))

/-! ## The undisturbed run -/

section Run

variable (exec : (op : Op) → S → Answer op × S)

def run : Prog Op Answer α → S → α × S
  | done a, s => (a, s)
  | call op next, s => run (next (exec op s).1) (exec op s).2

@[simp] theorem run_done (a : α) (s : S) : run exec (done a : Prog Op Answer α) s = (a, s) := rfl

@[simp] theorem run_call (op : Op) (next : Answer op → Prog Op Answer α) (s : S) :
    run exec (call op next) s = run exec (next (exec op s).1) (exec op s).2 := rfl

theorem run_bind (p : Prog Op Answer α) (f : α → Prog Op Answer β) (s : S) :
    run exec (p >>= f) s = run exec (f (run exec p s).1) (run exec p s).2 := by
  induction p generalizing s with
  | done a => rfl
  | call op next ih => exact ih (exec op s).1 (exec op s).2

end Run

/-! ## Runs that may fail or stop -/

variable {f : α → Prog Op Answer β} {p : Prog Op Answer α}

variable {a : α} {s : S}

section Steps

variable (may : S → (op : Op) → Answer op → S → Prop)

/-- The run has come from the first state and program to the second. -/
inductive Steps : S → Prog Op Answer α → S → Prog Op Answer α → Prop
  | refl (s : S) (p : Prog Op Answer α) : Steps s p s p
  | step {s s' t : S} {op : Op} {r : Answer op} {next : Answer op → Prog Op Answer α}
      {q : Prog Op Answer α} (first : may s op r s') (rest : Steps s' (next r) t q) :
      Steps s (call op next) t q

variable {may}

theorem Steps.call_done {op : Op} {next : Answer op → Prog Op Answer α} {t : S}
    (steps : Steps may s (call op next) t (done a)) :
    ∃ r s', may s op r s' ∧ Steps may s' (next r) t (done a) := by
  cases steps with
  | step first rest => exact ⟨_, _, first, rest⟩

variable {q : Prog Op Answer β}

/-- A run of two parts is inside the first or has finished it. -/
theorem Steps.bind {t : S} (steps : Steps may s (p >>= f) t q) :
    (∃ p', Steps may s p t p' ∧ q = p' >>= f) ∨
      ∃ a u, Steps may s p u (done a) ∧ Steps may u (f a) t q := by
  induction p generalizing s with
  | done a => exact Or.inr ⟨a, s, .refl _ _, steps⟩
  | call op next ih =>
    cases steps with
    | refl => exact Or.inl ⟨call op next, .refl _ _, rfl⟩
    | @step _ s' _ _ r _ _ first rest =>
      rcases ih r rest with ⟨p', before, rfl⟩ | ⟨a, u, before, after⟩
      · exact Or.inl ⟨p', .step first before, rfl⟩
      · exact Or.inr ⟨a, u, .step first before, after⟩

theorem Steps.bind_done {t : S} {b : β} (steps : Steps may s (p >>= f) t (done b)) :
    ∃ a u, Steps may s p u (done a) ∧ Steps may u (f a) t (done b) := by
  rcases steps.bind with ⟨p', before, finished⟩ | found
  · cases p' with
    | done a =>
      refine ⟨a, t, before, ?_⟩
      rw [finished]
      exact .refl _ _
    | call op next => cases finished
  · exact found

theorem Steps.then {u t : S} (before : Steps may s p u (done a)) (after : Steps may u (f a) t q) :
    Steps may s (p >>= f) t q := by
  induction p generalizing s with
  | done b =>
    cases before
    exact after
  | call op next ih =>
    obtain ⟨r, s', first, rest⟩ := before.call_done
    exact .step first (ih r rest)

/-- The undisturbed run is one of the runs. -/
theorem steps_run (exec : (op : Op) → S → Answer op × S)
    (usual : ∀ s op, may s op (exec op s).1 (exec op s).2) (p : Prog Op Answer α) (s : S) :
    Steps may s p (run exec p s).2 (done (run exec p s).1) := by
  induction p generalizing s with
  | done a => exact .refl _ _
  | call op next ih => exact .step (usual s op) (ih _ _)

end Steps

/-! ## The commands of a program -/

section Only

variable (allowed : Op → Prop)

/-- The program calls allowed commands only. -/
def Only : Prog Op Answer α → Prop
  | done _ => True
  | call op next => allowed op ∧ ∀ r, Only (next r)

variable {allowed}

theorem Only.bind (first : p.Only allowed) (rest : ∀ a, (f a).Only allowed) :
    (p >>= f).Only allowed := by
  induction p with
  | done a => exact rest a
  | call op next ih => exact ⟨first.1, fun r => ih r (first.2 r)⟩

theorem Only.mono {allowed' : Op → Prop} (only : p.Only allowed)
    (more : ∀ op, allowed op → allowed' op) : p.Only allowed' := by
  induction p with
  | done a => trivial
  | call op next ih => exact ⟨more op only.1, fun r => ih r (only.2 r)⟩

end Only

/-! ## Every step of a run -/

section Along

variable (may : S → (op : Op) → Answer op → S → Prop) (relates : S → S → Prop)

/-- Every step of every run relates the state before it to the state after it. -/
def Along : Prog Op Answer α → S → Prop
  | done _, _ => True
  | call op next, s => ∀ r s', may s op r s' → relates s s' ∧ Along (next r) s'

variable {may relates}

theorem Along.bind (first : p.Along may relates s)
    (rest : ∀ a t, Steps may s p t (done a) → (f a).Along may relates t) :
    (p >>= f).Along may relates s := by
  induction p generalizing s with
  | done a => exact rest a s (.refl _ _)
  | call op next ih =>
    intro r s' step
    obtain ⟨related, after⟩ := first r s' step
    exact ⟨related, ih r after fun a t steps => rest a t (.step step steps)⟩

/-- What the steps keep may be used for each of them. -/
theorem Along.mono (keeps : S → Prop) {relates' : S → S → Prop} (along : p.Along may relates s)
    (start : keeps s) (more : ∀ s t, keeps s → relates s t → relates' s t ∧ keeps t) :
    p.Along may relates' s := by
  induction p generalizing s with
  | done a => trivial
  | call op next ih =>
    intro r s' step
    obtain ⟨related, after⟩ := along r s' step
    obtain ⟨related', kept⟩ := more s s' start related
    exact ⟨related', ih r after kept⟩

/-- Commands that relate any two states relate the states of a run. -/
theorem Only.along {allowed : Op → Prop} (only : p.Only allowed)
    (each : ∀ op, allowed op → ∀ s r s', may s op r s' → relates s s') (s : S) :
    p.Along may relates s := by
  induction p generalizing s with
  | done a => trivial
  | call op next ih => exact fun r s' step => ⟨each op only.1 s r s' step, ih r (only.2 r) s'⟩

end Along

/-! ## Programs that only look -/

section Steady

variable (exec : (op : Op) → S → Answer op × S) (holds : S → Prop)

/-- On whatever states with the property its commands come, the program leaves them alone and
returns the result. -/
def Steady (result : α) : Prog Op Answer α → Prop
  | done a => a = result
  | call op next => ∀ s, holds s → (exec op s).2 = s ∧ Steady result (next (exec op s).1)

variable {exec holds}

theorem Steady.bind {b : β} (first : p.Steady exec holds a) (rest : (f a).Steady exec holds b) :
    (p >>= f).Steady exec holds b := by
  induction p with
  | done c =>
    cases first
    exact rest
  | call op next ih => exact fun s there => ⟨(first s there).1, ih _ (first s there).2⟩

theorem Steady.run (steady : p.Steady exec holds a) (there : holds s) : p.run exec s = (a, s) := by
  induction p with
  | done b =>
    cases steady
    rfl
  | call op next ih =>
    obtain ⟨same, rest⟩ := steady s there
    rw [run_call, same]
    exact ih _ rest

end Steady

end Prog

end OpaqueDb.Theory
