/-
# Theory.Frames -- logs of framed entries and what a cut leaves of them

A log is a sequence of frames, read from the front one at a time; the reader stops at the
first thing it does not accept.  `Framing` is what a format needs for that: a frame is read
back with whatever follows it, and a part of a frame is not taken for one.

A log whose last frame may be incomplete (`LogOf`) reads as its entries (`LogOf.unframe`),
and a log cut anywhere is one again: it keeps every entry that ended before the cut
(`LogOf.cut`), and of whole frames exactly those (`LogOf.take`).
-/
import Mathlib.Algebra.Ring.Nat
import Mathlib.Data.List.Infix

namespace OpaqueDb.Theory

open List

set_option autoImplicit false

universe u v

/-- The reading loop; the fuel is the length of the data. -/
def unframe {α : Type u} {β : Type v} (next : List β → Option (α × List β)) : Nat → List β → List α
  | 0, _ => []
  | fuel + 1, data =>
    match next data with
    | none => []
    | some (entry, rest) => entry :: unframe next fuel rest

variable {fuel : Nat}

section Unframe

variable {α : Type u} {β : Type v} {next : List β → Option (α × List β)}

theorem unframe_stop {data : List β} (stop : next data = none) (fuel : Nat) :
    unframe next fuel data = [] := by
  cases fuel with
  | zero => rfl
  | succ fuel => rw [unframe, stop]

/-- A reader that takes something from the data each time has fuel enough in their length. -/
theorem unframe_enough
    (takes : ∀ (data : List β) (a : α) (rest : List β), next data = some (a, rest) →
      rest.length < data.length) {data : List β} (enough : data.length ≤ fuel) :
    unframe next fuel data = unframe next data.length data := by
  induction fuel using Nat.strong_induction_on generalizing data with
  | _ fuel ih =>
    rcases step : next data with _ | ⟨a, rest⟩
    · rw [unframe_stop step, unframe_stop step]
    have shorter := takes data a rest step
    obtain ⟨fuel, rfl⟩ : ∃ m, fuel = m + 1 := ⟨fuel - 1, by omega⟩
    obtain ⟨size, long⟩ : ∃ m, data.length = m + 1 := ⟨data.length - 1, by omega⟩
    rw [long, unframe, unframe, step]
    simp only
    rw [ih fuel (Nat.lt_succ_self _) (by omega)]
    by_cases fits : size < fuel + 1
    · rw [ih size fits (by omega)]
    · omega

end Unframe

/-! ## Entries that end before a cut -/

section Within

variable {α : Type u} {β : Type v}

/-- Where entry `i` ends, the entries being laid out one after another. -/
def endOf (size : α → Nat) (entries : List α) (i : Nat) : Nat :=
  ((entries.take (i + 1)).map size).sum

/-- The entries that end within the first `n` places. -/
def within (size : α → Nat) (n : Nat) (entries : List α) : List α :=
  (entries.zipIdx.filter fun entry => endOf size entries entry.2 ≤ n).map Prod.fst

variable (size : α → Nat)

theorem within_nil (n : Nat) : within size n [] = [] := rfl

theorem endOf_cons_zero (a : α) (entries : List α) : endOf size (a :: entries) 0 = size a := by
  simp [endOf]

theorem endOf_cons_succ (a : α) (entries : List α) (i : Nat) :
    endOf size (a :: entries) (i + 1) = size a + endOf size entries i := by
  simp [endOf]

theorem within_cons (n : Nat) (a : α) (entries : List α) : within size n (a :: entries) =
      if size a ≤ n then a :: within size (n - size a) entries else [] := by
  have later : (entries.zipIdx 1).filter (fun entry => endOf size (a :: entries) entry.2 ≤ n) =
      (entries.zipIdx.filter fun entry => size a + endOf size entries entry.2 ≤ n).map
        (Prod.map id (· + 1)) := by
    rw [zipIdx_succ, filter_map]
    refine congrArg _ (filter_congr fun entry _ => ?_)
    simp [endOf_cons_succ]
  rw [within, zipIdx_cons, filter_cons, endOf_cons_zero, later]
  by_cases fits : size a ≤ n
  · rw [if_pos fits, if_pos (by simpa using fits), map_cons, map_map]
    refine congrArg (a :: ·) ?_
    refine congrArg _ (filter_congr fun entry _ => ?_)
    exact decide_eq_decide.2 (by omega)
  · have none_ : entries.zipIdx.filter
        (fun entry => decide (size a + endOf size entries entry.2 ≤ n)) = [] := by
      refine filter_eq_nil_iff.2 fun entry _ => ?_
      rw [decide_eq_true_eq]
      omega
    rw [if_neg fits, if_neg (by simpa using fits), none_]
    rfl

theorem within_map (size : β → Nat) (g : α → β) (n : Nat) (entries : List α) :
    within size n (entries.map g) = (within (size ∘ g) n entries).map g := by
  induction entries generalizing n with
  | nil => rfl
  | cons a entries ih =>
    rw [map_cons, within_cons, within_cons, ih, Function.comp_apply]
    split_ifs
    · rfl
    · rfl

end Within

/-! ## Logs -/

structure Framing (α : Type u) (β : Type v) where
  Valid : α → Prop
  frame : α → List β
  next : List β → Option (α × List β)
  frame_pos : ∀ a, 0 < (frame a).length
  next_frame : ∀ {a}, Valid a → ∀ rest, next (frame a ++ rest) = some (a, rest)
  next_part : ∀ {a}, Valid a → ∀ n, n < (frame a).length → next ((frame a).take n) = none
  next_nil : next [] = none

namespace Framing

variable {α : Type u} {β : Type v} (f : Framing α β)

def frames (entries : List α) : List β :=
  (entries.map f.frame).flatten

@[simp] theorem frames_nil : f.frames [] = [] := rfl

@[simp] theorem frames_cons (a : α) (entries : List α) :
    f.frames (a :: entries) = f.frame a ++ f.frames entries := rfl

@[simp] theorem frames_append (entries later : List α) :
    f.frames (entries ++ later) = f.frames entries ++ f.frames later := by
  simp [frames]

theorem length_le_frames (entries : List α) : entries.length ≤ (f.frames entries).length := by
  induction entries with
  | nil => exact le_rfl
  | cons a entries ih =>
    have := f.frame_pos a
    rw [frames_cons, length_cons, length_append]
    omega

/-- Nothing, or the beginning of a frame. -/
def Torn (tail : List β) : Prop :=
  tail = [] ∨ ∃ a n, f.Valid a ∧ n < (f.frame a).length ∧ tail = (f.frame a).take n

variable {tail : List β}

theorem Torn.next (torn : f.Torn tail) : f.next tail = none := by
  rcases torn with rfl | ⟨a, n, valid, short, rfl⟩
  · exact f.next_nil
  · exact f.next_part valid n short

theorem Torn.take (torn : f.Torn tail) (n : Nat) : f.Torn (tail.take n) := by
  rcases torn with rfl | ⟨a, m, valid, short, rfl⟩
  · exact .inl take_nil
  · rw [take_take]
    exact .inr ⟨a, min n m, valid, by omega, rfl⟩

/-- The data are the entries' frames, and at most the beginning of another one. -/
def LogOf (entries : List α) (data : List β) : Prop :=
  (∀ a ∈ entries, f.Valid a) ∧ ∃ tail, f.Torn tail ∧ data = f.frames entries ++ tail

variable {f}

theorem LogOf.empty : f.LogOf [] [] :=
  ⟨fun _ member => (not_mem_nil member).elim, [], .inl rfl, rfl⟩

variable {entries : List α}

/-- The frames at the front are read one by one. -/
theorem unframe_frames (valid : ∀ a ∈ entries, f.Valid a) (fuel : Nat) (data : List β) :
    unframe f.next (fuel + entries.length) (f.frames entries ++ data) =
      entries ++ unframe f.next fuel data := by
  induction entries with
  | nil => rfl
  | cons a entries ih =>
    have first := f.next_frame (valid a mem_cons_self) (f.frames entries ++ data)
    rw [frames_cons, append_assoc, length_cons, ← Nat.add_assoc, Theory.unframe, first]
    simp only
    rw [ih fun b member => valid b (mem_cons_of_mem _ member), cons_append]

/-- **A log reads as its entries.** -/
theorem LogOf.unframe {data : List β} (log : f.LogOf entries data) (enough : entries.length ≤ fuel)
    : unframe f.next fuel data = entries := by
  obtain ⟨valid, tail, torn, rfl⟩ := log
  obtain ⟨left, rfl⟩ := Nat.exists_eq_add_of_le' enough
  rw [unframe_frames valid, unframe_stop torn.next, append_nil]

theorem LogOf.length_le {data : List β} (log : f.LogOf entries data) :
    entries.length ≤ data.length := by
  obtain ⟨_, tail, _, rfl⟩ := log
  rw [length_append]
  exact (f.length_le_frames entries).trans (Nat.le_add_right _ _)

/-- **A cut log** is a log of the entries that ended before the cut. -/
theorem LogOf.cut {data : List β} (log : f.LogOf entries data) (n : Nat) :
    ∃ kept, f.LogOf kept (data.take n) ∧
      ∀ front, front <+: entries → (f.frames front).length ≤ n → front <+: kept := by
  obtain ⟨valid, tail, torn, rfl⟩ := log
  induction entries generalizing n with
  | nil =>
    refine ⟨[], ⟨fun _ member => (not_mem_nil member).elim, tail.take n, torn.take f n, ?_⟩,
      fun front start _ => start⟩
    rw [frames_nil, nil_append, nil_append]
  | cons a entries ih =>
    have first := valid a mem_cons_self
    by_cases inside : n < (f.frame a).length
    · refine ⟨[], ⟨fun _ member => (not_mem_nil member).elim, (f.frame a).take n,
        .inr ⟨a, n, first, inside, rfl⟩, ?_⟩, ?_⟩
      · rw [frames_cons, append_assoc, take_append_of_le_length inside.le, frames_nil, nil_append]
      · -- a nonempty front starts with the frame that is cut
        intro front start short
        cases front with
        | nil => exact nil_prefix
        | cons b front =>
          obtain ⟨rfl, _⟩ := cons_prefix_cons.1 start
          rw [frames_cons, length_append] at short
          omega
    · obtain ⟨kept, ⟨valid', tail', torn', rest⟩, ended⟩ :=
        ih (n - (f.frame a).length) fun b member => valid b (mem_cons_of_mem _ member)
      refine ⟨a :: kept, ⟨?_, tail', torn', ?_⟩, ?_⟩
      · exact forall_mem_cons.2 ⟨first, valid'⟩
      · rw [frames_cons, append_assoc, take_append, take_of_length_le
          (Nat.not_lt.1 inside), rest, frames_cons, append_assoc]
      · intro front start short
        cases front with
        | nil => exact nil_prefix
        | cons b front =>
          obtain ⟨rfl, later⟩ := cons_prefix_cons.1 start
          rw [frames_cons, length_append] at short
          exact cons_prefix_cons.2 ⟨rfl, ended front later (by omega)⟩

/-- Part of a frame, or all of it, behind a log without an incomplete frame. -/
theorem LogOf.write (valid : ∀ a ∈ entries, f.Valid a) {a : α} (fits : f.Valid a) {n : Nat}
    (short : n < (f.frame a).length) : f.LogOf entries (f.frames entries ++ (f.frame a).take n) :=
  ⟨valid, (f.frame a).take n, .inr ⟨a, n, fits, short, rfl⟩, rfl⟩

/-- Cut anywhere, whole frames leave a log of those that end before the cut. -/
theorem LogOf.take (valid : ∀ a ∈ entries, f.Valid a) (n : Nat) :
    f.LogOf (within (fun a => (f.frame a).length) n entries) ((f.frames entries).take n) := by
  induction entries generalizing n with
  | nil =>
    rw [within_nil, frames_nil, take_nil]
    exact .empty
  | cons a entries ih =>
    have first := valid a mem_cons_self
    rw [within_cons, frames_cons]
    split_ifs with fits
    · obtain ⟨valid', tail, torn, rest⟩ :=
        ih (fun b member => valid b (mem_cons_of_mem _ member)) (n - (f.frame a).length)
      refine ⟨forall_mem_cons.2 ⟨first, valid'⟩, tail, torn, ?_⟩
      rw [take_append, take_of_length_le fits, rest, frames_cons, append_assoc]
    · rw [take_append_of_le_length (Nat.not_le.1 fits).le]
      exact .write (fun _ member => (not_mem_nil member).elim) first (Nat.not_le.1 fits)

theorem LogOf.extend {entries : List α} (valid : ∀ a ∈ entries, f.Valid a) {a : α}
    (fits : f.Valid a) : f.LogOf (entries ++ [a]) (f.frames entries ++ f.frame a) := by
  refine ⟨?_, [], .inl rfl, by simp⟩
  intro b member
  rcases mem_append.1 member with old | new
  · exact valid b old
  · rw [mem_singleton.1 new]
    exact fits

end Framing

end OpaqueDb.Theory
