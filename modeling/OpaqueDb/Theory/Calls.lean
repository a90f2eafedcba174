/-
# Theory.Calls -- calls that may fail and keep what they changed

A call takes a state to a result or an error, and to the state it has reached: what it changed
before it failed stays changed.  `eval_bind_ok` and `eval_bind_error` follow a call through its
steps, and `Keeps` says what it leaves alone on any way through them.

A call whose state is a record only adds to it.  `Records` says what such a call computes, what
it may add and what it must have added once it has succeeded; it has one rule for each way calls
are put together.
-/
import Mathlib.Data.Set.Basic

namespace OpaqueDb.Theory

open List

set_option autoImplicit false

abbrev Call (E S α : Type) := ExceptT E (StateM S) α

namespace Call

variable {E S α β : Type}

/-- The result of a call and the state after it. -/
def eval (call : Call E S α) (s : S) : Except E α × S :=
  ExceptT.run call s

/-- One step, by its result and the state it leaves. -/
def step (f : S → Except E α × S) : Call E S α :=
  ExceptT.mk f

def lift (result : Except E α) : Call E S α :=
  step fun s => (result, s)

def current : Call E S S :=
  step fun s => (.ok s, s)

def change (f : S → S) : Call E S Unit :=
  step fun s => (.ok (), f s)

/-! ## Following a call -/

@[simp] theorem eval_step (f : S → Except E α × S) (s : S) : eval (step f) s = f s :=
  rfl

@[simp] theorem eval_lift (result : Except E α) (s : S) : eval (lift result) s = (result, s) :=
  rfl

@[simp] theorem eval_current (s : S) : eval (current : Call E S S) s = (.ok s, s) :=
  rfl

@[simp] theorem eval_pure (a : α) (s : S) : eval (pure a : Call E S α) s = (.ok a, s) :=
  rfl

private theorem bind_apply (first : StateM S α) (next : α → StateM S β) (s : S) :
    (first >>= next) s = next (first s).1 (first s).2 :=
  rfl

variable {call : Call E S α} {s s' : S}

variable {a : α}

theorem eval_bind_ok (done : call.eval s = (.ok a, s')) (next : α → Call E S β) :
    eval (call >>= next) s = (next a).eval s' := by
  simp only [eval, ExceptT.run_bind] at done ⊢
  rw [bind_apply, done]

theorem eval_bind_error {e : E} (failed : call.eval s = (.error e, s')) (next : α → Call E S β) :
    eval (call >>= next) s = (.error e, s') := by
  simp only [eval, ExceptT.run_bind] at failed ⊢
  rw [bind_apply, failed]
  rfl

variable {next : α → Call E S β}

/-- A call that succeeds has come through its first part. -/
theorem eval_bind_inv {b : β} (done : (eval (call >>= next) s).1 = .ok b) :
    ∃ a s', call.eval s = (.ok a, s') ∧ eval (call >>= next) s = (next a).eval s' := by
  rcases run : call.eval s with ⟨e | a, s'⟩
  · rw [eval_bind_error run] at done
    cases done
  · exact ⟨a, s', rfl, eval_bind_ok run next⟩

/-- A call that succeeds has come through a result it starts with. -/
theorem eval_lift_inv {result : Except E α} {b : β}
    (done : (eval (lift result >>= next) s).1 = .ok b) :
    ∃ a, result = .ok a ∧ eval (lift result >>= next) s = (next a).eval s := by
  obtain ⟨a, s', lifted, run⟩ := eval_bind_inv done
  rw [Prod.mk.injEq] at lifted
  obtain ⟨known, rfl⟩ := lifted
  exact ⟨a, known, run⟩

/-! ## What a call leaves alone -/

/-- The call leaves what `f` reads of the state as it is, whether it fails or not. -/
def Keeps {τ : Type} (f : S → τ) (call : Call E S α) : Prop :=
  ∀ s, f (call.eval s).2 = f s

namespace Keeps

variable {τ : Type} {f : S → τ}

theorem pure (a : α) : Keeps f (Pure.pure a : Call E S α) :=
  fun _ => rfl

theorem lift (result : Except E α) : Keeps f (Call.lift result : Call E S α) :=
  fun _ => rfl

theorem current : Keeps f (Call.current : Call E S S) :=
  fun _ => rfl

theorem change {g : S → S} (same : ∀ s, f (g s) = f s) : Keeps f (Call.change g : Call E S Unit) :=
  same

theorem bind_at {call : Call E S α} {s : S} (first : f (call.eval s).2 = f s)
    (rest : ∀ a, Keeps f (next a)) : f (eval (call >>= next) s).2 = f s := by
  rcases run : call.eval s with ⟨e | a, s'⟩
  · rw [eval_bind_error run, ← first, run]
  · rw [eval_bind_ok run, rest a s', ← first, run]

theorem bind {call : Call E S α} (first : Keeps f call) (rest : ∀ a, Keeps f (next a)) :
    Keeps f (call >>= next) :=
  fun s => bind_at (first s) rest

end Keeps

/-! ## Calls that keep a record -/

section Record

variable {σ : Type}

def note (x : σ) : Call E (List σ) Unit :=
  change (· ++ [x])

/-- The call's outcome, whatever it is; what it changed stays. -/
def attempt (call : Call E S α) : Call E S (Except E α) :=
  step fun s => (.ok (call.eval s).1, (call.eval s).2)

/-- Calls that each run to their end; the first failure is the result. -/
def attemptAll {γ : Type} (l : List γ) (part : γ → Call E S β) : Call E S (List β) := do
  let outcomes ← l.mapM fun c => attempt (part c)
  lift (outcomes.mapM id)

/-- The call gives `result`, adds only what is in `may`, and all of `must` if it succeeds. -/
def Records (call : Call E (List σ) α) (result : Except E α) (may must : Set σ) : Prop :=
  ∀ log, ∃ more, call.eval log = (result, log ++ more) ∧ (∀ x ∈ more, x ∈ may) ∧
    ∀ a, result = .ok a → ∀ x ∈ must, x ∈ more

namespace Records

variable {call : Call E (List σ) α} {result : Except E α} {may may' must must' : Set σ}

theorem pure (a : α) : Records (Pure.pure a : Call E (List σ) α) (.ok a) may ∅ :=
  fun log => ⟨[], by rw [append_nil]; rfl, by simp, by simp⟩

theorem lift (result : Except E α) : Records (Call.lift result : Call E (List σ) α) result may ∅ :=
  fun log => ⟨[], by rw [append_nil]; rfl, by simp, by simp⟩

theorem note {x : σ} (allowed : x ∈ may) :
    Records (Call.note x : Call E (List σ) Unit) (.ok ()) may {x} :=
  fun _ => ⟨[x], rfl, by simpa using allowed, fun _ _ _ due => mem_singleton.2 due⟩

theorem mono (records : Records call result may must) (wider : may ⊆ may') (fewer : must' ⊆ must) :
    Records call result may' must' := by
  intro log
  obtain ⟨more, run, inside, all⟩ := records log
  exact ⟨more, run, fun x member => wider (inside x member),
    fun a done x due => all a done x (fewer due)⟩

/-- The rest of a call whose first part does not fail. -/
theorem andThen (first : Records call (.ok a) may must) {next : α → Call E (List σ) β}
    {after : Except E β} (rest : Records (next a) after may must') :
    Records (call >>= next) after may (must ∪ must') := by
  intro log
  obtain ⟨more, run, inside, all⟩ := first log
  obtain ⟨later, run', inside', all'⟩ := rest (log ++ more)
  refine ⟨more ++ later, by rw [eval_bind_ok run, run', append_assoc], ?_, ?_⟩
  · intro x member
    exact (mem_append.1 member).elim (inside x) (inside' x)
  · intro b done x due
    rw [mem_append]
    exact due.imp (all a rfl x) (all' b done x)

theorem bind (first : Records call result may must) {next : α → Call E (List σ) β}
    {after : α → Except E β} (rest : ∀ a, Records (next a) (after a) may must') :
    Records (call >>= next) (result >>= after) may (must ∪ must') := by
  intro log
  obtain ⟨more, run, inside, all⟩ := first log
  cases result with
  | error e => exact ⟨more, eval_bind_error run next, inside, fun _ done => by cases done⟩
  | ok a => exact andThen first (rest a) log

theorem map (records : Records call (.ok a) may must) (f : α → β) :
    Records (call >>= fun x => Pure.pure (f x)) (.ok (f a)) may must :=
  (andThen records (pure (f a))).mono (Set.Subset.refl _) Set.subset_union_left

variable {γ : Type} {l : List γ} {due : γ → Set σ}

/-- A fold records what each of its steps must. -/
theorem foldlM {step : β → γ → Call E (List σ) β} {pureStep : β → γ → Except E β} (b : β)
    (each : ∀ b, ∀ c ∈ l, Records (step b c) (pureStep b c) may (due c)) :
    Records (l.foldlM step b) (l.foldlM pureStep b) may {x | ∃ c ∈ l, x ∈ due c} := by
  induction l generalizing b with
  | nil => exact (pure b).mono (Set.Subset.refl _) (by simp)
  | cons c l ih =>
    refine (bind (each b c mem_cons_self) fun b' => ih b' fun b'' c' member =>
      each b'' c' (mem_cons_of_mem c member)).mono (Set.Subset.refl _) ?_
    rintro x ⟨c', member, here⟩
    rcases mem_cons.1 member with rfl | later
    · exact .inl here
    · exact .inr ⟨c', later, here⟩

/-- A fold whose steps do not fail. -/
theorem foldl {step : β → γ → Call E (List σ) β} {pureStep : β → γ → β} (b : β)
    (each : ∀ b, ∀ c ∈ l, Records (step b c) (.ok (pureStep b c)) may (due c)) :
    Records (l.foldlM step b) (.ok (l.foldl pureStep b)) may {x | ∃ c ∈ l, x ∈ due c} := by
  have folded := foldlM b each
  have same : l.foldlM (fun b c => Except.ok (pureStep b c)) b =
      (.ok (l.foldl pureStep b) : Except E β) := foldlM_pure
  rwa [same] at folded

theorem mapM {step : γ → Call E (List σ) β} {f : γ → β}
    (each : ∀ c ∈ l, Records (step c) (.ok (f c)) may (due c)) :
    Records (l.mapM step) (.ok (l.map f)) may {x | ∃ c ∈ l, x ∈ due c} := by
  induction l with
  | nil => exact (pure []).mono (Set.Subset.refl _) (by simp)
  | cons c l ih =>
    rw [mapM_cons]
    have later := fun b =>
      bind (ih fun c' member => each c' (mem_cons_of_mem c member)) fun bs => pure (b :: bs)
    refine (bind (each c mem_cons_self) later).mono (Set.Subset.refl _) ?_
    rintro x ⟨c', member, here⟩
    rcases mem_cons.1 member with rfl | member
    · exact .inl here
    · exact .inr (.inl ⟨c', member, here⟩)

protected theorem attempt (records : Records call result may must) :
    Records (attempt call) (.ok result : Except E (Except E α)) may
      {x | x ∈ must ∧ ∃ a, result = .ok a} := by
  intro log
  obtain ⟨more, run, inside, all⟩ := records log
  refine ⟨more, by rw [attempt, eval_step, run], inside, ?_⟩
  rintro _ _ x ⟨due, a, done⟩
  exact all a done x due

theorem ok_of_mapM {f : γ → Except E β} {bs : List β} (done : l.mapM f = .ok bs) {c : γ}
    (member : c ∈ l) : ∃ b, f c = .ok b := by
  induction l generalizing bs with
  | nil => cases member
  | cons c' l ih =>
    rw [mapM_cons] at done
    cases first : f c' with
    | error e =>
      rw [first] at done
      cases done
    | ok b =>
      rcases mem_cons.1 member with rfl | later
      · exact ⟨b, first⟩
      · cases rest : l.mapM f with
        | error e =>
          rw [first, rest] at done
          cases done
        | ok bs' => exact ih rest later

theorem attemptAll {part : γ → Call E (List σ) β} {purePart : γ → Except E β}
    (each : ∀ c ∈ l, Records (part c) (purePart c) may must) (some_ : l ≠ []) :
    Records (Call.attemptAll l part) (l.mapM purePart) may must := by
  intro log
  obtain ⟨more, run, inside, all⟩ := mapM (fun c member => (each c member).attempt) log
  have same : (l.map purePart).mapM id = l.mapM purePart := mapM_map
  refine ⟨more, ?_, inside, ?_⟩
  · rw [Call.attemptAll, eval_bind_ok run, eval_lift, same]
  · intro bs done x due
    obtain ⟨c, member⟩ := exists_mem_of_ne_nil l some_
    exact all _ rfl x ⟨c, member, due, ok_of_mapM done member⟩

end Records

end Record

end Call

end OpaqueDb.Theory
