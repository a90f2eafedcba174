/-
# Theory.Partition -- lists sorted into classes and cut into windows

A list sorted into classes is a permutation of its classes one after the other
(`classes_perm`).  Keeping only the classes with a single element loses nothing exactly
when no class has two (`sole_flatMap_iff`), and a count that never exceeds the class
sizes is right in total only when it is right in each (`eq_of_sum_eq`).  Windows of equal
width at consecutive offsets concatenate to the list up to their end (`windows_flatMap`).
-/
import Mathlib.Algebra.Order.BigOperators.Group.List
import Mathlib.Algebra.Order.Ring.Nat
import Mathlib.Data.List.Perm.Subperm

namespace OpaqueDb.Theory

open List

set_option autoImplicit false

universe u v w

variable {α : Type u} {ι : Type v}

/-! ## Classes -/

section Classes

variable {κ : Type w} [DecidableEq κ]

theorem classes_perm_filter (f : α → κ) (l : List α) {classes : List κ} (once : classes.Nodup) :
    (classes.flatMap fun c => l.filter fun x => f x = c).Perm (l.filter fun x => f x ∈ classes) := by
  induction classes with
  | nil => simp
  | cons c classes ih =>
    obtain ⟨new, once⟩ := nodup_cons.1 once
    have first : l.filter (fun x => f x = c) =
        (l.filter fun x => f x ∈ c :: classes).filter fun x => f x = c := by
      rw [filter_filter]
      apply filter_congr
      simp only [← Bool.decide_and, decide_eq_decide, mem_cons]
      tauto
    have others : l.filter (fun x => f x ∈ classes) =
        (l.filter fun x => f x ∈ c :: classes).filter fun x => !decide (f x = c) := by
      rw [filter_filter]
      apply filter_congr
      intro x _
      have apart : f x ∈ classes → f x ≠ c := fun member same => new (same ▸ member)
      simp only [← decide_not, ← Bool.decide_and, decide_eq_decide, mem_cons]
      tauto
    rw [flatMap_cons]
    refine ((ih once).append_left _).trans ?_
    rw [first, others]
    exact filter_append_perm _ _

/-- **The classes one after the other** hold the list. -/
theorem classes_perm {f : α → κ} {l : List α} {classes : List κ} (once : classes.Nodup)
    (covered : ∀ x ∈ l, f x ∈ classes) :
    (classes.flatMap fun c => l.filter fun x => f x = c).Perm l := by
  have all := classes_perm_filter f l once
  rwa [filter_eq_self.2 fun x member => decide_eq_true (covered x member)] at all

end Classes

/-- A kept element stands behind the kept ones before it. -/
theorem filter_getElem?_countP {p : α → Bool} {l : List α} {i : Nat} {a : α}
    (known : l[i]? = some a) (kept : p a = true) :
    (l.filter p)[(l.take i).countP p]? = some a := by
  obtain ⟨inside, rfl⟩ := List.getElem?_eq_some_iff.1 known
  have split : l = l.take i ++ l[i] :: l.drop (i + 1) := by
    rw [getElem_cons_drop, take_append_drop]
  have kept_ : l.filter p = (l.take i).filter p ++ l[i] :: (l.drop (i + 1)).filter p := by
    conv_lhs => rw [split]
    rw [filter_append, filter_cons_of_pos kept]
  rw [kept_, countP_eq_length_filter, getElem?_append_right le_rfl, Nat.sub_self]
  rfl

variable {f : ι → List α} {l : List ι}

/-- What contributes nothing may be left out. -/
theorem flatMap_filter_of_nil {p : ι → Bool} (nothing : ∀ i ∈ l, p i = false → f i = []) :
    (l.filter p).flatMap f = l.flatMap f := by
  induction l with
  | nil => rfl
  | cons i l ih =>
    have rest := ih fun j member => nothing j (mem_cons_of_mem _ member)
    by_cases kept : p i = true
    · rw [filter_cons_of_pos kept, flatMap_cons, flatMap_cons, rest]
    · rw [filter_cons_of_neg kept, flatMap_cons, rest,
        nothing i mem_cons_self (by simpa using kept), nil_append]

/-! ## Classes with one element -/

/-- The list if it has exactly one element. -/
def sole : List α → List α
  | [a] => [a]
  | _ => []

theorem sole_of_length_le {l : List α} (short : l.length ≤ 1) : sole l = l := by
  match l, short with
  | [], _ => rfl
  | [_], _ => rfl

theorem sole_length_le (l : List α) : (sole l).length ≤ l.length := by
  match l with
  | [] => exact Nat.le_refl _
  | [_] => exact Nat.le_refl _
  | _ :: _ :: _ => simp [sole]

theorem length_le_one_of_sole {l : List α} (kept : l.length ≤ (sole l).length) : l.length ≤ 1 := by
  match l, kept with
  | [], _ => simp
  | [_], _ => simp
  | _ :: _ :: _, kept => simp [sole] at kept

theorem sole_flatMap_length_le (f : ι → List α) (l : List ι) :
    (l.flatMap fun b => sole (f b)).length ≤ (l.flatMap f).length := by
  induction l with
  | nil => simp
  | cons b l ih =>
    have here := sole_length_le (f b)
    simp only [flatMap_cons, length_append]
    omega

theorem short_of_sole_flatMap (kept : (l.flatMap f).length ≤ (l.flatMap fun b => sole (f b)).length)
    : ∀ b ∈ l, (f b).length ≤ 1 := by
  induction l with
  | nil => simp
  | cons b l ih =>
    have here := sole_length_le (f b)
    have rest := sole_flatMap_length_le f l
    simp only [flatMap_cons, length_append] at kept
    rw [forall_mem_cons]
    exact ⟨length_le_one_of_sole (by omega), ih (by omega)⟩

/-- **Dropping crowded classes loses nothing exactly when there are none.** -/
theorem sole_flatMap_iff :
    (l.flatMap f).Subperm (l.flatMap fun b => sole (f b)) ↔ ∀ b ∈ l, (f b).length ≤ 1 := by
  constructor
  · intro kept
    exact short_of_sole_flatMap kept.length_le
  · intro short
    rw [flatMap_congr fun b member => sole_of_length_le (short b member)]

/-! ## Sums over classes -/

/-- Termwise smaller sums agree only when every term does. -/
theorem eq_of_sum_eq {f g : ι → Nat} (below : ∀ b ∈ l, f b ≤ g b)
    (same : (l.map f).sum = (l.map g).sum) : ∀ b ∈ l, f b = g b := by
  induction l with
  | nil => simp
  | cons b l ih =>
    have here := below b mem_cons_self
    have later : ∀ c ∈ l, f c ≤ g c := fun c member => below c (mem_cons_of_mem _ member)
    have rest : (l.map f).sum ≤ (l.map g).sum := sum_le_sum later
    simp only [map_cons, sum_cons] at same
    rw [forall_mem_cons]
    exact ⟨by omega, ih later (by omega)⟩

/-! ## Windows -/

theorem windows_flatMap (l : List α) (width n : Nat) :
    ((range n).flatMap fun j => (l.drop (j * width)).take width) = l.take (n * width) := by
  induction n with
  | zero => simp
  | succ n ih =>
    rw [range_succ, flatMap_append, flatMap_singleton, ih, Nat.succ_mul, take_add]

/-- The related elements whose left one is kept. -/
theorem forall₂_filter {α β : Type} {R : α → β → Prop} {as : List α} {bs : List β}
    (related : Forall₂ R as bs) (p : α → Bool) :
    Forall₂ R (as.filter p) (((as.zip bs).filter fun c => p c.1).map Prod.snd) := by
  induction related with
  | nil => exact .nil
  | @cons a b _ _ first _ ih =>
    cases kept : p a with
    | true =>
      simp only [zip_cons_cons, filter_cons, kept]
      exact .cons first ih
    | false =>
      simp only [zip_cons_cons, filter_cons, kept]
      exact ih

theorem exists_forall₂ {α β : Type} {R : α → β → Prop} {as : List α}
    (each : ∀ a ∈ as, ∃ b, R a b) : ∃ bs, Forall₂ R as bs := by
  induction as with
  | nil => exact ⟨[], .nil⟩
  | cons a as ih =>
    obtain ⟨b, first⟩ := each a mem_cons_self
    obtain ⟨bs, rest⟩ := ih fun a' listed => each a' (mem_cons_of_mem _ listed)
    exact ⟨b :: bs, .cons first rest⟩

end OpaqueDb.Theory
