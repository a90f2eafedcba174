/-
# Theory.StableSort -- what a stable sort returns

A stable sort permutes its input, puts nothing in front of what has to stand before it, and
keeps elements of one key in their order.  Where keys that are not apart are equal there is
one such list (`StableSort.unique`), and insertion sort returns it (`stableSort_insertionSort`),
also when the order is one only among the elements that are sorted.
-/
import Mathlib.Data.List.Sort

namespace OpaqueDb.Theory

open List

set_option autoImplicit false

universe u v

structure StableSort {α : Type u} {κ : Type v} [DecidableEq κ] (before : κ → κ → Prop) (key : α → κ)
    (input output : List α) : Prop where
  perm : output.Perm input
  sorted : output.Pairwise fun a b => ¬ before (key b) (key a)
  stable : ∀ k, output.filter (key · = k) = input.filter (key · = k)

section

variable {α : Type u} {κ : Type v} [DecidableEq κ] {before : κ → κ → Prop} {key : α → κ}

/-- **A stable sort has one result.**  The first elements of two results have one key, so they are
the first of that key in the input. -/
theorem StableSort.unique {input output output' : List α}
    (apart : ∀ a ∈ input, ∀ b ∈ input, ¬ before (key a) (key b) → ¬ before (key b) (key a) →
      key a = key b)
    (irrefl : ∀ k, ¬ before k k)
    (sort : StableSort before key input output) (sort' : StableSort before key input output') :
    output = output' := by
  have perm := sort.perm.trans sort'.perm.symm
  have filters := fun k =>
    (sort.stable k).trans (sort'.stable k).symm
  have among : ∀ a ∈ output, a ∈ input := fun a member => sort.perm.subset member
  have sorted := sort.sorted
  have sorted' := sort'.sorted
  clear sort sort'
  induction output generalizing output' with
  | nil => exact perm.symm.eq_nil.symm
  | cons a output ih =>
    cases output' with
    | nil => exact perm.eq_nil
    | cons b output' =>
      rw [pairwise_cons] at sorted sorted'
      have second : b ∈ a :: output := perm.symm.subset mem_cons_self
      have first : a ∈ b :: output' := perm.subset mem_cons_self
      have noneBefore : ¬ before (key b) (key a) := by
        rcases mem_cons.1 second with rfl | later
        · exact irrefl _
        · exact sorted.1 b later
      have noneBefore' : ¬ before (key a) (key b) := by
        rcases mem_cons.1 first with rfl | later
        · exact irrefl _
        · exact sorted'.1 a later
      have same : key a = key b :=
        apart a (among a mem_cons_self) b (among b second) noneBefore' noneBefore
      obtain rfl : a = b := by
        have heads := filters (key a)
        rw [filter_cons, filter_cons, if_pos (by simp), if_pos (by simp [same])] at heads
        exact (cons.inj heads).1
      have rest : ∀ k, output.filter (key · = k) = output'.filter (key · = k) := by
        intro k
        have whole := filters k
        rw [filter_cons, filter_cons] at whole
        split_ifs at whole with here
        · exact (cons.inj whole).2
        · exact whole
      rw [ih perm.cons_inv rest (fun c member => among c (mem_cons_of_mem _ member)) sorted.2
        sorted'.2]

variable {l : List α} {r : α → α → Prop}

/-- Insertion sort sorts by a relation that is an order among the elements only. -/
theorem pairwise_insertionSort_of [DecidableRel r] (total : ∀ a ∈ l, ∀ b ∈ l, r a b ∨ r b a)
    (trans : ∀ a ∈ l, ∀ b ∈ l, ∀ c ∈ l, r a b → r b c → r a c) :
    (l.insertionSort r).Pairwise r := by
  let among : {a // a ∈ l} → {a // a ∈ l} → Prop := fun a b => r a b
  have : Std.Total among := ⟨fun a b => total a a.2 b b.2⟩
  have : IsTrans _ among := ⟨fun a b c => trans a a.2 b b.2 c c.2⟩
  have sorted := pairwise_insertionSort among l.attach
  have same : (l.attach.insertionSort among).map Subtype.val = l.insertionSort r := by
    rw [map_insertionSort among r Subtype.val l.attach fun _ _ _ _ => Iff.rfl,
      attach_map_subtype_val]
  rw [← same, pairwise_map]
  exact sorted

/-- Elements that stay where they are relative to each other. -/
theorem filter_insertionSort [DecidableRel r] {p : α → Bool}
    (alike : ∀ a ∈ l, ∀ b ∈ l, p a = true → p b = true → r a b) :
    (l.insertionSort r).filter p = l.filter p := by
  have kept : (l.filter p).Pairwise r := by
    refine List.Pairwise.imp_of_mem (R := fun _ _ => True) ?_ (pairwise_of_forall fun _ _ => trivial)
    intro a b first second _
    obtain ⟨member, chosen⟩ := mem_filter.1 first
    obtain ⟨member', chosen'⟩ := mem_filter.1 second
    exact alike a member b member' chosen chosen'
  have inside : (l.filter p).Sublist ((l.insertionSort r).filter p) := by
    have sub := (sublist_insertionSort kept filter_sublist).filter p
    simpa using sub
  refine (inside.eq_of_length ?_).symm
  exact ((perm_insertionSort r l).filter p).length_eq.symm

/-- **Insertion sort is stable.** -/
theorem stableSort_insertionSort [DecidableRel r]
    (same : ∀ a ∈ l, ∀ b ∈ l, r a b ↔ ¬ before (key b) (key a))
    (asymm : ∀ a ∈ l, ∀ b ∈ l, before (key a) (key b) → ¬ before (key b) (key a))
    (between : ∀ a ∈ l, ∀ b ∈ l, ∀ c ∈ l, before (key a) (key c) →
      before (key a) (key b) ∨ before (key b) (key c)) :
    StableSort before key l (l.insertionSort r) := by
  have sorted : (l.insertionSort r).Pairwise r := by
    refine pairwise_insertionSort_of (fun a ha b hb => ?_) fun a ha b hb c hc first second => ?_
    · rw [same a ha b hb, same b hb a ha]
      by_cases later : before (key b) (key a)
      · exact .inr (asymm b hb a ha later)
      · exact .inl later
    · rw [same a ha b hb] at first
      rw [same b hb c hc] at second
      rw [same a ha c hc]
      intro later
      rcases between c hc b hb a ha later with early | early
      · exact second early
      · exact first early
  refine ⟨perm_insertionSort r l, ?_, fun k => filter_insertionSort ?_⟩
  · refine List.Pairwise.imp_of_mem ?_ sorted
    intro a b first second le
    exact (same a ((mem_insertionSort r).1 first) b ((mem_insertionSort r).1 second)).1 le
  · intro a ha b hb chosen chosen'
    have keys : key b = key a :=
      (of_decide_eq_true chosen').trans (of_decide_eq_true chosen).symm
    rw [same a ha b hb, keys]
    exact fun later => asymm a ha a ha later later

end

end OpaqueDb.Theory
