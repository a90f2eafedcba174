/-
# Theory.Blocks -- slot vectors made of aligned blocks

A slot vector is cut into blocks of `width` slots, and some items each own one block.
`spread` is the vector in which every owned block holds its item's values and every
other slot is zero.  It is closed under what a slot machine does to such vectors:
writing the blocks one after another produces it (`fill_getD`), products stay inside
the blocks (`spread_mul`), and adding up whole blocks of a segment adds up the values
of the items that start there (`sum_blocks`).
-/
import Mathlib.Algebra.BigOperators.Ring.Finset
import Mathlib.Algebra.Order.Ring.Nat
import Mathlib.Data.List.GetD

namespace OpaqueDb.Theory

open List

set_option autoImplicit false

universe u v

/-- Write `values` into consecutive slots from `start` on. -/
def writeBlock (slots : List Nat) (start : Nat) (values : List Nat) : List Nat :=
  values.zipIdx.foldl (fun slots p => slots.set (start + p.2) p.1) slots

theorem writeBlock_length (slots : List Nat) (start : Nat) (values : List Nat) :
    (writeBlock slots start values).length = slots.length := by
  unfold writeBlock
  generalize values.zipIdx = writes
  induction writes generalizing slots with
  | nil => rfl
  | cons p writes ih => rw [foldl_cons, ih, length_set]

theorem writeFrom_getD (values : List Nat) : ∀ (slots : List Nat) (start n j : Nat),
    start + n + values.length ≤ slots.length →
    ((values.zipIdx n).foldl (fun slots p => slots.set (start + p.2) p.1) slots).getD j 0 =
      if start + n ≤ j ∧ j < start + n + values.length then values.getD (j - (start + n)) 0
      else slots.getD j 0 := by
  induction values with
  | nil =>
    intro slots start n j _
    have outside : ¬ (start + n ≤ j ∧ j < start + n + ([] : List Nat).length) := by
      simp only [length_nil]
      omega
    rw [if_neg outside]
    rfl
  | cons value values ih =>
    intro slots start n j fits
    rw [length_cons] at fits ⊢
    rw [zipIdx_cons, foldl_cons, ih _ _ _ _ (by rw [length_set]; omega)]
    by_cases head : j = start + n
    · subst head
      rw [if_neg (by omega), if_pos (by omega), Nat.sub_self, getD_cons_zero,
        getD_eq_getElem _ _ (by rw [length_set]; omega), getElem_set_self]
    · have kept : (slots.set (start + n) value).getD j 0 = slots.getD j 0 := by
        rw [getD_eq_getElem?_getD, getElem?_set_ne (fun h => head h.symm), ← getD_eq_getElem?_getD]
      by_cases inside : start + n ≤ j ∧ j < start + n + (values.length + 1)
      · have shift : j - (start + n) = (j - (start + (n + 1))) + 1 := by omega
        rw [if_pos (by omega), if_pos inside, shift, getD_cons_succ]
      · rw [if_neg (by omega), if_neg inside, kept]

theorem writeBlock_getD (slots : List Nat) (start : Nat) (values : List Nat) (j : Nat)
    (fits : start + values.length ≤ slots.length) :
    (writeBlock slots start values).getD j 0 =
      if start ≤ j ∧ j < start + values.length then values.getD (j - start) 0
      else slots.getD j 0 :=
  writeFrom_getD values slots start 0 j fits

/-! ## Items and their blocks -/

section Spread

variable {ι : Type u} {R : Type v} {width : Nat} {start : ι → Nat}

/-- Every item starts a block and no two items share one. -/
structure Blocks (width : Nat) (start : ι → Nat) (items : List ι) : Prop where
  aligned : ∀ item ∈ items, width ∣ start item
  distinct : items.Pairwise fun a b => start a ≠ start b

/-- The vector whose block at `start item` holds `values item`, zero elsewhere. -/
def spread [AddCommMonoid R] (width : Nat) (start : ι → Nat) (values : ι → Nat → R)
    (items : List ι) (j : Nat) : R :=
  (items.map fun item => if start item = j / width * width then values item (j % width) else 0).sum

variable [AddCommMonoid R] {values : ι → Nat → R} {items : List ι}

theorem sum_at_distinct {f : ι → R} {item : ι}
    (distinct : items.Pairwise fun a b => start a ≠ start b) (member : item ∈ items) :
    (items.map fun other => if start other = start item then f other else 0).sum = f item := by
  induction items with
  | nil => exact absurd member not_mem_nil
  | cons head items ih =>
    rw [map_cons, sum_cons]
    rw [pairwise_cons] at distinct
    rcases mem_cons.1 member with rfl | later
    · have others : (items.map fun other => if start other = start item then f other else 0) =
          items.map fun _ => 0 :=
        map_congr_left fun other mem => if_neg fun same => distinct.1 other mem same.symm
      rw [if_pos rfl, others, sum_map_zero, add_zero]
    · rw [if_neg (distinct.1 item later), zero_add, ih distinct.2 later]

theorem block_start (pos : 0 < width) {s i : Nat} (aligned : width ∣ s) (inside : i < width) :
    (s + i) / width * width = s ∧ (s + i) % width = i := by
  obtain ⟨q, rfl⟩ := aligned
  rw [Nat.mul_add_div pos, Nat.div_eq_of_lt inside, Nat.add_zero, Nat.mul_comm q, Nat.mul_add_mod,
    Nat.mod_eq_of_lt inside]
  exact ⟨rfl, rfl⟩

/-- Inside an owned block the vector holds the owner's values. -/
theorem spread_at (values : ι → Nat → R) (blocks : Blocks width start items) {item : ι} (member : item ∈ items)
    {i : Nat} (inside : i < width) :
    spread width start values items (start item + i) = values item i := by
  obtain ⟨base, offset⟩ := block_start (by omega) (blocks.aligned item member) inside
  rw [spread, base, offset]
  exact sum_at_distinct (f := fun item => values item i) blocks.distinct member

/-- Outside the owned blocks it is zero. -/
theorem spread_off {j : Nat} (unowned : ∀ item ∈ items, start item ≠ j / width * width) :
    spread width start values items j = 0 := by
  have zeros : (items.map fun item =>
      if start item = j / width * width then values item (j % width) else 0) =
      items.map fun _ => 0 :=
    map_congr_left fun item member => if_neg (unowned item member)
  rw [spread, zeros, sum_map_zero]

/-- Every slot is either inside an owned block or zero. -/
theorem owned_or_off (pos : 0 < width) (start : ι → Nat) (items : List ι) (j : Nat) :
    (∃ item ∈ items, ∃ i < width, j = start item + i) ∨
      ∀ item ∈ items, start item ≠ j / width * width := by
  by_cases owned : ∃ item ∈ items, start item = j / width * width
  · obtain ⟨item, member, base⟩ := owned
    refine Or.inl ⟨item, member, j % width, Nat.mod_lt _ pos, ?_⟩
    rw [base, Nat.mul_comm, Nat.div_add_mod]
  · exact Or.inr fun item member base => owned ⟨item, member, base⟩

/-- Two vectors over the same blocks agree once they agree on the owned blocks and
vanish elsewhere. -/
theorem eq_spread (pos : 0 < width) (blocks : Blocks width start items) {x : Nat → R} {j : Nat}
    (on : ∀ item ∈ items, ∀ i < width, j = start item + i → x j = values item i)
    (off : (∀ item ∈ items, start item ≠ j / width * width) → x j = 0) :
    x j = spread width start values items j := by
  rcases owned_or_off pos start items j with ⟨item, member, i, inside, rfl⟩ | unowned
  · rw [on item member i inside rfl, spread_at _ blocks member inside]
  · rw [off unowned, spread_off unowned]

/-- Adding up the `count` blocks from `base` on adds up the items that start there. -/
theorem sum_blocks (pos : 0 < width) (blocks : Blocks width start items) {base count i : Nat}
    (alignedBase : width ∣ base) (inside : i < width) :
    ∑ w ∈ Finset.range count, spread width start values items (base + w * width + i) =
      (items.map fun item =>
        if base ≤ start item ∧ start item < base + count * width then values item i else 0).sum := by
  have entry : ∀ w, spread width start values items (base + w * width + i) =
      (items.map fun item =>
        if start item = base + w * width then values item i else 0).sum := by
    intro w
    obtain ⟨block, offset⟩ := block_start pos
      (Nat.dvd_add alignedBase (Nat.dvd_mul_left width w)) inside
    rw [spread, block, offset]
  simp only [entry]
  clear entry
  induction items with
  | nil => simp
  | cons item items ih =>
    have rest := ih ⟨fun other mem => blocks.aligned other (mem_cons_of_mem _ mem),
      (pairwise_cons.1 blocks.distinct).2⟩
    simp only [map_cons, sum_cons]
    rw [Finset.sum_add_distrib, rest]
    congr 1
    obtain ⟨q, hq⟩ := blocks.aligned item mem_cons_self
    obtain ⟨b, hb⟩ := alignedBase
    by_cases owned : base ≤ start item ∧ start item < base + count * width
    · have lower : b ≤ q := Nat.le_of_mul_le_mul_left (by omega) pos
      have split : width * q = width * b + (q - b) * width := by
        rw [Nat.mul_comm (q - b), ← Nat.mul_add]
        congr 1
        omega
      have within : q - b < count := by
        apply Nat.lt_of_mul_lt_mul_right (a := width)
        omega
      rw [if_pos owned, Finset.sum_eq_single_of_mem (q - b) (Finset.mem_range.2 within)]
      · rw [if_pos (by omega)]
      · intro w _ ne
        apply if_neg
        intro same
        apply ne
        apply Nat.eq_of_mul_eq_mul_right pos
        omega
    · rw [if_neg owned]
      apply Finset.sum_eq_zero
      intro w member
      apply if_neg
      have := Nat.mul_lt_mul_of_pos_right (Finset.mem_range.1 member) pos
      omega

end Spread

/-! ## Products and writes -/

section Build

variable {ι : Type u} {width : Nat} {start : ι → Nat} {items : List ι}

theorem spread_mul {R : Type v} [NonUnitalNonAssocSemiring R] {v w : ι → Nat → R}
    (pos : 0 < width) (blocks : Blocks width start items) (j : Nat) :
    spread width start v items j * spread width start w items j =
      spread width start (fun item i => v item i * w item i) items j := by
  apply eq_spread (x := fun j => spread width start v items j * spread width start w items j)
    pos blocks
  · intro item member i inside at_
    simp only [at_, spread_at _ blocks member inside]
  · intro unowned
    simp [spread_off unowned]

theorem spread_natCast {R : Type v} [NonAssocSemiring R] (values : ι → Nat → Nat) (j : Nat) :
    ((spread width start values items j : Nat) : R) =
      spread width start (fun item i => (values item i : R)) items j := by
  induction items with
  | nil => simp [spread]
  | cons item items ih =>
    unfold spread at ih ⊢
    rw [map_cons, map_cons, sum_cons, Nat.cast_add]
    congr 1
    split
    · rfl
    · exact Nat.cast_zero

theorem fill_length (start : ι → Nat) (items : List ι) (values : ι → List Nat) (slots : List Nat) :
    (items.foldl (fun slots item => writeBlock slots (start item) (values item)) slots).length =
      slots.length := by
  induction items generalizing slots with
  | nil => rfl
  | cons item items ih => rw [foldl_cons, ih, writeBlock_length]

/-- Writing every item's values into its own block produces the spread vector. -/
theorem fill_getD {size : Nat} (pos : 0 < width) (values : ι → List Nat) (j : Nat)
    (blocks : Blocks width start items) (room : ∀ item ∈ items, start item + width ≤ size)
    (short : ∀ item ∈ items, (values item).length ≤ width) :
    (items.foldl (fun slots item => writeBlock slots (start item) (values item))
        (replicate size 0)).getD j 0 =
      spread width start (fun item i => (values item).getD i 0) items j := by
  induction items using reverseRecOn with
  | nil =>
    simp only [foldl_nil, getD_eq_getElem?_getD, getElem?_replicate]
    split <;> rfl
  | append_singleton items item ih =>
    have member : item ∈ items ++ [item] := by simp
    have apart := pairwise_append.1 blocks.distinct
    have earlier := ih
      ⟨fun other mem => blocks.aligned other (mem_append_left _ mem), apart.1⟩
      (fun other mem => room other (mem_append_left _ mem))
      (fun other mem => short other (mem_append_left _ mem))
    rw [foldl_append, foldl_cons, foldl_nil]
    have fits := room item member
    have le := short item member
    rw [writeBlock_getD _ _ _ _ (by rw [fill_length, length_replicate]; omega), earlier]
    unfold spread
    rw [map_append, sum_append, map_singleton, sum_singleton]
    have aligned := blocks.aligned item member
    by_cases here : start item = j / width * width
    · -- The block is this item's; no earlier item has written to it.
      have split := Nat.div_add_mod j width
      rw [Nat.mul_comm] at split
      have others : (items.map fun other =>
          if start other = j / width * width then (values other).getD (j % width) 0 else 0) =
          items.map fun _ => 0 :=
        map_congr_left fun other mem =>
          if_neg (here ▸ apart.2.2 other mem item (mem_singleton_self item))
      rw [if_pos here, others, sum_map_zero, zero_add]
      by_cases written : j < start item + (values item).length
      · rw [if_pos (by omega), (by omega : j - start item = j % width)]
      · rw [if_neg (by omega)]
        exact (getD_eq_default _ _ (by omega)).symm
    · rw [if_neg here]
      apply if_neg
      rintro ⟨lower, upper⟩
      apply here
      have inBlock := block_start pos aligned (i := j - start item) (by omega)
      rw [← inBlock.1, (by omega : start item + (j - start item) = j)]

end Build

end OpaqueDb.Theory
