/-
# Theory.Windows -- changes inside a window, and rolling checksums that see them

Two lists of one length agree outside a window (`Window`) when they are a common front, two
parts no longer than the window and a common back.  A checksum that is rolled over a list
one element at a time tells such lists apart as soon as a step can be undone when its element
is known, and short lists rolled from one state are told apart (`rolled_ne`).
-/
import Mathlib.Data.List.Infix

namespace OpaqueDb.Theory

open List

set_option autoImplicit false

universe u v

/-- One length, and no difference outside some `width` consecutive places. -/
def Window {β : Type u} (width : Nat) (a b : List β) : Prop :=
  a.length = b.length ∧ ∃ start, ∀ i, i < start ∨ start + width ≤ i → a[i]? = b[i]?

namespace Window

variable {β : Type u} {width : Nat} {a b : List β}

theorem of_short (lengths : a.length = b.length) (short : a.length ≤ width) : Window width a b := by
  refine ⟨lengths, 0, fun i out => ?_⟩
  rw [getElem?_eq_none (by omega), getElem?_eq_none (by omega)]

/-- The differing parts between a common front and a common back. -/
theorem split (near : Window width a b) : ∃ front mine other back : List β,
    a = front ++ (mine ++ back) ∧ b = front ++ (other ++ back) ∧ mine.length = other.length ∧
      mine.length ≤ width := by
  obtain ⟨lengths, start, same⟩ := near
  have fronts : a.take start = b.take start := by
    refine ext_getElem? fun i => ?_
    rw [getElem?_take, getElem?_take]
    split_ifs with inside
    · exact same i (.inl inside)
    · rfl
  have backs : (a.drop start).drop width = (b.drop start).drop width := by
    refine ext_getElem? fun i => ?_
    rw [drop_drop, drop_drop, getElem?_drop, getElem?_drop]
    exact same _ (.inr (by omega))
  refine ⟨a.take start, (a.drop start).take width, (b.drop start).take width,
    (a.drop start).drop width, ?_, ?_, ?_, ?_⟩
  · rw [take_append_drop, take_append_drop]
  · rw [fronts, backs, take_append_drop, take_append_drop]
  · rw [length_take, length_take, length_drop, length_drop, lengths]
  · rw [length_take]
    omega

end Window

section Rolled

variable {β : Type u} {σ : Type v} {step : σ → β → σ}

variable (undone : ∀ b, Function.Injective (step · b))
include undone

/-- Rolled over one list, two states stay apart. -/
theorem foldl_injective (back : List β) : Function.Injective (back.foldl step ·) := by
  induction back with
  | nil => exact fun _ _ same => same
  | cons b back ih => exact fun _ _ same => undone b (ih same)

/-- **Lists that differ only inside a window are rolled to different states.** -/
theorem rolled_ne {width : Nat}
    (short : ∀ (s : σ) (mine other : List β), mine.length = other.length → mine.length ≤ width →
      mine.foldl step s = other.foldl step s → mine = other) {a b : List β}
    (near : Window width a b) (differ : a ≠ b) (s : σ) : a.foldl step s ≠ b.foldl step s := by
  obtain ⟨front, mine, other, back, rfl, rfl, lengths, narrow⟩ := near.split
  intro same
  simp only [foldl_append] at same
  have met := foldl_injective undone back same
  exact differ (by rw [short _ mine other lengths narrow met])

end Rolled

end OpaqueDb.Theory
