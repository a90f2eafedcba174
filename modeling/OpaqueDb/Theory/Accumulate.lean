/-
# Theory.Accumulate -- accumulating loops that can fail

A loop that adds one contribution per item to an accumulator computes the sum of the
contributions, as long as no step fails.  The accumulator is any encoding of an
additive monoid (`foldlM_add`), so a list of planes and a single counter are the same
case.  Spreading the items over workers by index and adding the workers' results
gives the same sum (`sum_residues`).
-/
import Mathlib.Algebra.BigOperators.Group.Finset.Piecewise
import Mathlib.Data.List.GetD

namespace OpaqueDb.Theory

open List

set_option autoImplicit false

universe u v w

section Loops

variable {ε : Type u} {α β : Type v}

variable {l : List α}

variable {step : β → α → Except ε β}

/-- A monadic fold none of whose steps fails is the plain fold. -/
theorem foldlM_eq_ok {next : β → α → β} :
    ∀ {init : β}, (∀ acc, ∀ x ∈ l, step acc x = .ok (next acc x)) →
      l.foldlM step init = .ok (l.foldl next init) := by
  induction l with
  | nil => intro init _; rfl
  | cons x l ih =>
    intro init steps
    rw [foldlM_cons, steps init x mem_cons_self]
    exact ih fun acc y member => steps acc y (mem_cons_of_mem _ member)

/-- **An accumulating loop adds up its contributions.** -/
theorem foldlM_add {A : Type w} [AddCommMonoid A] (enc : A → β) {contribution : α → A} :
    ∀ {a : A}, (∀ a, ∀ x ∈ l, step (enc a) x = .ok (enc (a + contribution x))) →
      l.foldlM step (enc a) = .ok (enc (a + (l.map contribution).sum)) := by
  induction l with
  | nil => intro a _; rw [map_nil, sum_nil, add_zero]; rfl
  | cons x l ih =>
    intro a steps
    rw [foldlM_cons, steps a x mem_cons_self, map_cons, sum_cons, ← add_assoc]
    exact ih fun a y member => steps a y (mem_cons_of_mem _ member)

theorem foldl_add {A : Type w} [AddCommMonoid A] (enc : A → β) (step : β → α → β)
    {contribution : α → A} {a : A} (steps : ∀ a, ∀ x ∈ l, step (enc a) x = enc (a + contribution x)) :
    l.foldl step (enc a) = enc (a + (l.map contribution).sum) := by
  have sum : l.foldlM (fun acc x => (.ok (step acc x) : Except Unit β)) (enc a) = .ok _ :=
    foldlM_add enc fun a x member => congrArg _ (steps a x member)
  exact Except.ok.inj ((foldlM_eq_ok fun _ _ _ => rfl).symm.trans sum)

theorem mapM_eq_ok {step : α → Except ε β} {next : α → β} (steps : ∀ x ∈ l, step x = .ok (next x)) :
    l.mapM step = .ok (l.map next) := by
  induction l with
  | nil => rfl
  | cons x l ih =>
    rw [mapM_cons, steps x mem_cons_self, ih fun y member => steps y (mem_cons_of_mem _ member)]
    rfl

end Loops

/-! ## Tables -/

section Tables

variable {C : Type u}

/-- The list of the first `n` values of `a`. -/
def table (n : Nat) (a : Nat → C) : List C :=
  (range n).map a

variable (n : Nat) (a : Nat → C)

@[simp] theorem table_length : (table n a).length = n := by
  simp [table]

theorem replicate_eq_table (c : C) : replicate n c = table n fun _ => c := by
  rw [table, map_const', length_range]

theorem table_getD {n p : Nat} (d : C) (inside : p < n) : (table n a).getD p d = a p := by
  rw [getD_eq_getElem _ _ (by simpa using inside)]
  simp [table]

theorem table_congr {n : Nat} {a b : Nat → C} (same : ∀ p < n, a p = b p) : table n a = table n b :=
  map_congr_left fun p member => same p (mem_range.1 member)

theorem table_modify (p : Nat) (a : Nat → C) (f : C → C) :
    (table n a).modify p f = table n (Function.update a p (f (a p))) := by
  apply ext_getElem?
  intro q
  rw [getElem?_modify, table, table, getElem?_map, getElem?_map]
  by_cases inside : q < n
  · rw [getElem?_range inside]
    by_cases here : q = p
    · subst here
      simp
    · have elsewhere : p ≠ q := fun h => here h.symm
      simp [here, elsewhere]
  · rw [getElem?_eq_none (by simpa using inside)]
    rfl

/-- Adding to one entry of a table adds a table with that single entry. -/
theorem table_modify_add [AddCommMonoid C] (p : Nat) (a : Nat → C) (c : C) :
    (table n a).modify p (· + c) = table n (a + Pi.single p c) := by
  rw [table_modify]
  congr 1
  funext q
  by_cases here : q = p
  · subst here
    simp
  · simp [here]

theorem zipWith_table (b : Nat → C) [Add C] :
    zipWith (· + ·) (table n a) (table n b) = table n (a + b) := by
  rw [table, table, zipWith_map, zipWith_self]
  rfl

end Tables

/-! ## Sums over a filtered list -/

theorem sum_map_filter {α : Type u} {A : Type v} [AddCommMonoid A] (keep : α → Bool) (f : α → A)
    (l : List α) : ((l.filter keep).map f).sum = (l.map fun x => if keep x then f x else 0).sum := by
  induction l with
  | nil => rfl
  | cons x l ih =>
    rw [map_cons, sum_cons, ← ih, filter_cons]
    split
    · rw [map_cons, sum_cons]
    · rw [zero_add]

/-- Summing class by class over classes below `n` sums everything. -/
theorem sum_classes {α : Type u} {A : Type v} [AddCommMonoid A] {n : Nat} (cls : α → Nat) (f : α → A)
    (l : List α) (below : ∀ x ∈ l, cls x < n) :
    ((range n).map fun c => ((l.filter fun x => cls x = c).map f).sum).sum =
      (l.map f).sum := by
  induction l with
  | nil => simp
  | cons x l ih =>
    have rest := ih fun y member => below y (mem_cons_of_mem _ member)
    have split : ∀ c, (((x :: l).filter fun y => cls y = c).map f).sum =
        (if cls x = c then f x else 0) + ((l.filter fun y => cls y = c).map f).sum := by
      intro c
      by_cases here : cls x = c
      · simp [here]
      · simp [here]
    have owner : ((range n).map fun c => if cls x = c then f x else 0).sum = f x := by
      show ∑ c ∈ Finset.range n, (if cls x = c then f x else 0) = f x
      rw [Finset.sum_ite_eq, if_pos (Finset.mem_range.2 (below x mem_cons_self))]
    simp only [split]
    rw [sum_map_add, owner, rest, map_cons, sum_cons]

/-! ## Workers -/

section Workers

variable {α : Type u} {A : Type v} [AddCommMonoid A]

/-- The entries whose index leaves remainder `t` modulo `n`. -/
def residue (n t : Nat) (l : List (α × Nat)) : List α :=
  (l.filter fun p => p.2 % n == t).map Prod.fst

/-- Every entry is counted by exactly one worker. -/
theorem sum_residues {n : Nat} (pos : 0 < n) (f : α → A) (l : List (α × Nat)) :
    ((range n).map fun t => ((residue n t l).map f).sum).sum = ((l.map Prod.fst).map f).sum := by
  have classes := sum_classes (fun p : α × Nat => p.2 % n) (fun p => f p.1) l
    fun p _ => Nat.mod_lt p.2 pos
  simp only [residue, map_map]
  exact classes

end Workers

end OpaqueDb.Theory
