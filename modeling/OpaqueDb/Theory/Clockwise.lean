/-
# Theory.Clockwise -- points on a ring and the one that serves a position

Points of a linear order are read as a ring: from a position one goes upwards to the
greatest point and then on from the least one.  `clockwise` is the order in which the
points are met, `Serves` says which node stands at the first point met.

`Serves.of_added` is what makes the hashing on such a ring consistent: when a node takes
points, new ones or another's, a position is served by that node or as before.
-/
import Mathlib.Data.Prod.Lex

namespace OpaqueDb.Theory

open List

set_option autoImplicit false

universe u v

section Clockwise

variable {α : Type u} {β : Type v} [LinearOrder α]

/-- How late a point is met on the way up from `h`: those below `h` come after the others. -/
def clockwise (h p : α) : Bool ×ₗ α :=
  toLex (decide (p < h), p)

theorem clockwise_le_of_le {h p q : α} (reached : h ≤ p) (least : h ≤ q → p ≤ q) :
    clockwise h p ≤ clockwise h q := by
  rw [clockwise, clockwise, Prod.Lex.toLex_le_toLex, decide_eq_false (not_lt.2 reached)]
  by_cases behind : q < h
  · exact .inl (by simp [behind])
  · exact .inr ⟨by simp [behind], least (not_lt.1 behind)⟩

theorem clockwise_le_of_lt {h p q : α} (passed : q < h) (least : p ≤ q) :
    clockwise h p ≤ clockwise h q := by
  rw [clockwise, clockwise, Prod.Lex.toLex_le_toLex, decide_eq_true passed,
    decide_eq_true (least.trans_lt passed)]
  exact .inr ⟨rfl, least⟩

theorem clockwise_injective (h : α) : Function.Injective (clockwise h) := by
  intro p q same
  exact congrArg (fun met => (ofLex met).2) same

/-- The node at the first point met from `h`. -/
def Serves (points : Set (α × β)) (h : α) (node : β) : Prop :=
  ∃ p, (p, node) ∈ points ∧ ∀ q ∈ points, clockwise h p ≤ clockwise h q.1

/-- Where no point has two nodes, a position is served by one. -/
theorem Serves.unique {points : Set (α × β)}
    (apart : ∀ p a b, (p, a) ∈ points → (p, b) ∈ points → a = b) {h : α} {a b : β}
    (first : Serves points h a) (second : Serves points h b) : a = b := by
  obtain ⟨p, here, before⟩ := first
  obtain ⟨q, there, before'⟩ := second
  obtain rfl : p = q := clockwise_injective h (le_antisymm (before _ there) (before' _ here))
  exact apart p a b here there

/-- `wide` has the points of `points`, and whatever else it has belongs to `node`. -/
structure Added (node : β) (wide points : Set (α × β)) : Prop where
  new : ∀ q ∈ wide, q.2 = node ∨ q ∈ points
  kept : ∀ q ∈ points, ∃ m, (q.1, m) ∈ wide

/-- **A node that takes points serves the position itself or leaves it where it was.** -/
theorem Serves.of_added {node : β} {wide points : Set (α × β)} (added : Added node wide points)
    {h : α} {b : β} (serves : Serves wide h b) : b = node ∨ Serves points h b := by
  obtain ⟨p, here, before⟩ := serves
  rcases added.new _ here with own | old
  · exact .inl own
  · refine .inr ⟨p, old, fun q member => ?_⟩
    obtain ⟨m, still⟩ := added.kept q member
    exact before (q.1, m) still

end Clockwise

/-! ## Rings as ascending lists -/

section Lists

variable {α : Type u} {β : Type v} [LinearOrder α]

/-- Points in strictly ascending order. -/
def Ascending (ring : List (α × β)) : Prop :=
  ring.Pairwise fun p q => p.1 < q.1

theorem Ascending.apart {ring : List (α × β)} (ascending : Ascending ring) (p : α) (a b : β)
    (first : (p, a) ∈ ring) (second : (p, b) ∈ ring) : a = b := by
  induction ring with
  | nil => cases first
  | cons head rest ih =>
    obtain ⟨below, later⟩ := pairwise_cons.1 ascending
    rcases mem_cons.1 first with here | old <;> rcases mem_cons.1 second with here' | old'
    · exact congrArg Prod.snd (here.trans here'.symm)
    · exact absurd (below _ old') (by rw [← here]; exact lt_irrefl p)
    · exact absurd (below _ old) (by rw [← here']; exact lt_irrefl p)
    · exact ih later old old'

/-- The first point at or after the position, found by a scan of the ring. -/
theorem serves_of_find {ring : List (α × β)} (ascending : Ascending ring) {h : α} {entry : α × β}
    (found : ring.find? (fun entry => decide (h ≤ entry.1)) = some entry) :
    Serves {e | e ∈ ring} h entry.2 := by
  obtain ⟨reached, front, back, rfl, before⟩ := find?_eq_some_iff_append.1 found
  refine ⟨entry.1, by simp, fun q member => clockwise_le_of_le (of_decide_eq_true reached) ?_⟩
  intro atOrAfter
  rcases mem_append.1 member with early | late
  · exact absurd atOrAfter (by simpa using before q early)
  · rcases mem_cons.1 late with rfl | later
    · exact le_rfl
    · exact ((pairwise_cons.1 (pairwise_append.1 ascending).2.1).1 q later).le

/-- Past the last point the ring starts again at the first. -/
theorem serves_of_wrap {first : α × β} {rest : List (α × β)} (ascending : Ascending (first :: rest))
    {h : α} (past : (first :: rest).find? (fun entry => decide (h ≤ entry.1)) = none) :
    Serves {e | e ∈ first :: rest} h first.2 := by
  refine ⟨first.1, mem_cons_self, fun q member => clockwise_le_of_lt ?_ ?_⟩
  · simpa using find?_eq_none.1 past q member
  · rcases mem_cons.1 member with rfl | later
    · exact le_rfl
    · exact ((pairwise_cons.1 ascending).1 q later).le

end Lists

end OpaqueDb.Theory
