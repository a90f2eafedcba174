/-
# Backend.Matcher -- what one batch computes

The slot program of `processBatch`, read as arithmetic on block vectors
(`Theory.spread`): the AND tree is one at an occupied block start exactly when every
bit of the key agrees with the operand (`equalityIndicator_start`); the union, the
occupancy mask and the inversion for `<>` leave the indicator of the predicate at the
occupied starts and zero everywhere else, padding blocks included; the broadcast
copies it over the block (`selection_eq`); the block sum adds the blocks of one bucket
and half-row (`blockSum_cell`).
-/
import OpaqueDb.Backend.Layout
import OpaqueDb.Theory.Accumulate
import Mathlib.Algebra.BigOperators.Pi

namespace OpaqueDb.Backend

open OpaqueDb.Core Crypto Theory List Theory.HalfRows

set_option autoImplicit false

variable {ctx : CryptoContext}

/-! ## Operands and predicates -/

/-- The slots of an encrypted operand: bit `j % key_bits` of the value at slot `j`. -/
def tile (keyBits : Nat) (value : UInt64) : Ciphertext ctx :=
  fun j => ((value.toNat >>> ((j : Nat) % keyBits) % 2 : Nat) : ZMod ctx.plainModulus)

theorem encodeBatch_eq {values : List Nat} (whole : values.length = ctx.slotCount) :
    encodeBatch ctx values =
      .ok fun j => ((values.getD j 0 : Nat) : ZMod ctx.plainModulus) := by
  rw [encodeBatch, if_neg (by omega)]

theorem encryptOperand_eq {keyBits : Nat} (pos : 0 < keyBits) (value : UInt64) :
    encryptOperand ctx value keyBits = .ok (tile keyBits value) := by
  rw [encryptOperand, encodeBatch_eq (by simp)]
  show Except.ok _ = Except.ok _
  congr 1
  funext j
  have slot : (j : Nat) < ((range ctx.slotCount).map fun i =>
      (keyToBits value keyBits).getD (i % keyBits) 0).length := by
    rw [length_map, length_range]
    exact j.isLt
  have bit : (j : Nat) % keyBits < (keyToBits value keyBits).length := by
    rw [keyToBits_length]
    exact Nat.mod_lt _ pos
  rw [encrypt, getD_eq_getElem _ _ slot, getElem_map, getElem_range, getD_eq_getElem _ _ bit]
  simp [keyToBits, tile]

/-- The predicate of a query over its operand values. -/
def satisfies (op : Op) (operands : List UInt64) (key : UInt64) : Bool :=
  if op = .ne then !operands.contains key else operands.contains key

/-- The predicate as a slot value. -/
def indicator (ctx : CryptoContext) (op : Op) (operands : List UInt64) (key : UInt64) :
    ZMod ctx.plainModulus :=
  if satisfies op operands key then 1 else 0

/-! ## The slots of a batch -/

/-- The items of a batch own distinct blocks inside the slot vector. -/
structure BatchLayout (g : Geometry ctx) (items : List (Nat × Nat)) : Prop
    extends Blocks g.keyBits Prod.snd items where
  inside : ∀ item ∈ items, item.2 < ctx.slotCount

section Batch

variable {g : Geometry ctx} {items : List (Nat × Nat)} (layout : BatchLayout g items)
include layout

theorem BatchLayout.room : ∀ item ∈ items, item.2 + g.keyBits ≤ ctx.slotCount := by
  intro item member
  obtain ⟨q, hq⟩ := layout.aligned item member
  obtain ⟨n, hn⟩ : g.keyBits ∣ ctx.slotCount := Dvd.dvd.mul_left g.keyBits_dvd_row 2
  have inside := layout.inside item member
  rw [hq, hn] at inside
  have next : q + 1 ≤ n := Nat.lt_of_mul_lt_mul_left inside
  calc item.2 + g.keyBits = g.keyBits * (q + 1) := by rw [hq, Nat.mul_succ]
    _ ≤ g.keyBits * n := Nat.mul_le_mul_left _ next
    _ = ctx.slotCount := hn.symm

theorem keySlots_getD (keys : List UInt64) (j : Nat) :
    (keySlots g keys items).getD j 0 = spread g.keyBits Prod.snd
      (fun item i => (keyToBits (keyAt keys item.1) g.keyBits).getD i 0) items j := by
  have filled := fill_getD g.keyBits_pos (fun item => keyToBits (keyAt keys item.1) g.keyBits) j
    layout.toBlocks layout.room fun item _ => (keyToBits_length _ _).le
  exact filled

omit layout in
theorem keySlots_length (keys : List UInt64) : (keySlots g keys items).length = ctx.slotCount := by
  rw [keySlots, fill_length Prod.snd _
    (fun item => keyToBits (keyAt keys item.1) g.keyBits), length_replicate]

theorem startMask_getD (j : Nat) :
    (startMask ctx items).getD j 0 =
      spread g.keyBits Prod.snd (fun _ i => if i = 0 then 1 else 0) items j := by
  have mask := fill_getD g.keyBits_pos (fun _ => [1]) j layout.toBlocks layout.room
    fun _ _ => g.keyBits_pos
  have first : (fun (_ : Nat × Nat) i => [1].getD i 0) = fun _ i => if i = 0 then 1 else 0 := by
    funext _ i
    cases i <;> simp
  rw [first] at mask
  exact mask

omit layout in
theorem startMask_length : (startMask ctx items).length = ctx.slotCount := by
  have filled := fill_length Prod.snd items (fun _ => [1])
    (replicate ctx.slotCount 0)
  rw [length_replicate] at filled
  exact filled

end Batch

/-! ## The AND tree -/

theorem andTree_eq (s : Ciphertext ctx) (n : Nat) :
    (range n).foldl (fun s i => s * rotateRows s (2 ^ i : Nat)) s =
      doubling (· * ·) (turn 1) s n := by
  have loop := rotate_loop (· * ·) 1 s n
  simp only [mul_one] at loop
  exact loop

variable (g : Geometry ctx)

variable {s : Nat}

/-- Inside a block the rotation does not wrap. -/
theorem turn_in_block {d : Nat} (aligned : g.keyBits ∣ s) (inside : s < 2 * ctx.row)
    (bit : d < g.keyBits) : ((turn 1)^[d] (⟨s, inside⟩ : Fin (2 * ctx.row)) : Nat) = s + d := by
  have pos : 0 < ctx.row := by omega
  have column : s % ctx.row + g.keyBits ≤ ctx.row := by
    obtain ⟨q, hq⟩ := (Nat.dvd_mod_iff g.keyBits_dvd_row).2 aligned
    obtain ⟨n, hn⟩ := g.keyBits_dvd_row
    have below := Nat.mod_lt s pos
    rw [hq] at below ⊢
    have next : q + 1 ≤ n := by
      apply Nat.lt_of_mul_lt_mul_left (a := g.keyBits)
      omega
    calc g.keyBits * q + g.keyBits = g.keyBits * (q + 1) := by rw [Nat.mul_succ]
      _ ≤ g.keyBits * n := Nat.mul_le_mul_left _ next
      _ = ctx.row := hn.symm
  rw [turn_iterate, mul_one]
  exact turn_val_add d _ (by simp only; omega)

variable {R : Type}

/-- `1 - (a - b) ^ 2` on bits is equality. -/
theorem bit_eq_indicator [CommRing R] (a b : Nat) :
    -((((a % 2 : Nat) : R) - ((b % 2 : Nat) : R)) * (((a % 2 : Nat) : R) - ((b % 2 : Nat) : R))) + 1 =
      if a % 2 = b % 2 then 1 else 0 := by
  rcases Nat.mod_two_eq_zero_or_one a with ha | ha <;>
    rcases Nat.mod_two_eq_zero_or_one b with hb | hb <;> simp [ha, hb]

/-- **The AND tree decides key equality at an occupied block start.** -/
theorem equalityIndicator_start (keyPt : Plaintext ctx) (aligned : g.keyBits ∣ s)
    (inside : s < 2 * ctx.row) {key value : UInt64} (keyInside : key.toNat < 2 ^ g.keyBits)
    (valueInside : value.toNat < 2 ^ g.keyBits)
    (block : ∀ (d : Nat) (j : Fin (2 * ctx.row)), d < g.keyBits → (j : Nat) = s + d →
      keyPt j = ((key.toNat >>> d % 2 : Nat) : ZMod ctx.plainModulus)) :
    equalityIndicator g keyPt 1 (tile g.keyBits value) ⟨s, inside⟩ =
      if key = value then 1 else 0 := by
  unfold equalityIndicator
  rw [andTree_eq, doubling_mul, ← g.keyBits_eq,
    window_prod_ite _ _ (fun j : Fin (2 * ctx.row) => value.toNat >>> ((j : Nat) % g.keyBits) % 2 =
      key.toNat >>> ((j : Nat) % g.keyBits) % 2)]
  · have offset : ∀ d < g.keyBits,
        ((turn 1)^[d] (⟨s, inside⟩ : Fin (2 * ctx.row)) : Nat) % g.keyBits = d := by
      intro d bit
      rw [turn_in_block g aligned inside bit]
      exact (block_start g.keyBits_pos aligned bit).2
    congr 1
    apply propext
    constructor
    · intro same
      apply keyBits_ext keyInside valueInside
      intro d bit
      have here := same d bit
      rw [offset d bit] at here
      exact here.symm
    · rintro rfl d _
      rfl
  · intro d bit
    have at_ := turn_in_block g aligned inside bit
    have offset : (s + d) % g.keyBits = d := (block_start g.keyBits_pos aligned bit).2
    simp only [Pi.add_apply, Pi.neg_apply, Pi.mul_apply, Pi.sub_apply, tile]
    rw [block d _ bit at_, at_, offset]
    exact bit_eq_indicator _ _

/-! ## Union, mask and inversion -/

/-- The ciphertexts of a query are the tiles of distinct operand values. -/
structure Encrypts (g : Geometry ctx) (query : EncryptedQuery ctx) (operands : List UInt64) :
    Prop where
  tiles : query.query :: query.extraOperands = operands.map (tile g.keyBits)
  distinct : operands.Nodup
  inside : ∀ value ∈ operands, value.toNat < 2 ^ g.keyBits

theorem unionIndicator_eq (keyPt ones : Plaintext ctx) (query : EncryptedQuery ctx) :
    unionIndicator g keyPt ones query =
      ((query.query :: query.extraOperands).map (equalityIndicator g keyPt ones)).sum := by
  exact foldl_add id _ fun _ _ _ => rfl

theorem sum_indicator [AddCommMonoidWithOne R] {key : UInt64} :
    ∀ {operands : List UInt64}, operands.Nodup →
      (operands.map fun value => if key = value then (1 : R) else 0).sum =
        if operands.contains key then 1 else 0
  | [], _ => by simp
  | value :: operands, distinct => by
    obtain ⟨fresh, rest⟩ := nodup_cons.1 distinct
    rw [map_cons, sum_cons, sum_indicator rest]
    by_cases here : key = value
    · subst here
      simp [fresh]
    · simp [here]

section Selection

variable {g : Geometry ctx} {items : List (Nat × Nat)} (layout : BatchLayout g items)
  {query : EncryptedQuery ctx} {operands : List UInt64} (encrypts : Encrypts g query operands)
  {keys : List UInt64} (keysInside : ∀ item ∈ items, (keyAt keys item.1).toNat < 2 ^ g.keyBits)
include layout encrypts keysInside

/-- The key plaintext of a batch. -/
def keyPlain (g : Geometry ctx) (keys : List UInt64) (items : List (Nat × Nat)) : Plaintext ctx :=
  fun j => (((keySlots g keys items).getD j 0 : Nat) : ZMod ctx.plainModulus)

variable {item : Nat × Nat}

omit encrypts keysInside in
theorem keyPlain_block (member : item ∈ items) (d : Nat) (j : Fin (2 * ctx.row))
    (bit : d < g.keyBits) (at_ : (j : Nat) = item.2 + d) : keyPlain g keys items j =
      (((keyAt keys item.1).toNat >>> d % 2 : Nat) : ZMod ctx.plainModulus) := by
  rw [keyPlain, keySlots_getD layout, at_, spread_at _ layout.toBlocks member bit,
    getD_eq_getElem _ _ (by rw [keyToBits_length]; exact bit)]
  simp [keyToBits]

theorem unionIndicator_start (member : item ∈ items) (inside : item.2 < 2 * ctx.row) :
    unionIndicator g (keyPlain g keys items) 1 query ⟨item.2, inside⟩ =
      if operands.contains (keyAt keys item.1) then 1 else 0 := by
  rw [unionIndicator_eq, encrypts.tiles, map_map, Pi.list_sum_apply, map_map,
    ← sum_indicator encrypts.distinct]
  congr 1
  apply map_congr_left
  intro value mem
  exact equalityIndicator_start g _ (layout.aligned item member) inside (keysInside item member)
    (encrypts.inside value mem) (keyPlain_block layout member)

/-- The occupancy plaintext of a batch. -/
def startPlain (ctx : CryptoContext) (items : List (Nat × Nat)) : Plaintext ctx :=
  fun j => (((startMask ctx items).getD j 0 : Nat) : ZMod ctx.plainModulus)

variable (j : Fin (2 * ctx.row))

omit encrypts keysInside in
theorem startPlain_eq : startPlain ctx items j =
      spread g.keyBits Prod.snd (fun _ i => if i = 0 then 1 else 0) items j := by
  rw [startPlain, startMask_getD layout, spread_natCast]
  congr 1
  funext _ i
  split
  · exact Nat.cast_one
  · exact Nat.cast_zero

omit encrypts keysInside in
/-- A batch with a row has a nonzero occupancy plaintext. -/
theorem startPlain_ne_zero (occupied : items ≠ []) : startPlain ctx items ≠ 0 := by
  obtain ⟨item, member⟩ := exists_mem_of_ne_nil items occupied
  have inside : item.2 < 2 * ctx.row := layout.inside item member
  have one := startPlain_eq layout ⟨item.2, inside⟩
  have start := spread_at (fun _ i => if i = 0 then (1 : ZMod ctx.plainModulus) else 0)
    layout.toBlocks member g.keyBits_pos
  rw [Nat.add_zero, if_pos rfl] at start
  rw [start] at one
  have : Fact (1 < ctx.plainModulus) := ⟨ctx.prime.one_lt⟩
  intro zero
  rw [zero] at one
  exact zero_ne_one one

/-- The indicator at the occupied starts, after the mask and for `<>` the inversion. -/
theorem masked_eq : (if query.op = .ne then
        -(unionIndicator g (keyPlain g keys items) 1 query * startPlain ctx items) +
          startPlain ctx items
      else unionIndicator g (keyPlain g keys items) 1 query * startPlain ctx items) j =
      spread g.keyBits Prod.snd (fun item i =>
        if i = 0 then indicator ctx query.op operands (keyAt keys item.1) else 0) items j := by
  rcases owned_or_off g.keyBits_pos Prod.snd items (j : Nat) with
    ⟨item, member, i, inside, at_⟩ | unowned
  · have mask := startPlain_eq layout j
    rw [at_, spread_at _ layout.toBlocks member inside] at mask
    rw [at_, spread_at _ layout.toBlocks member inside]
    by_cases first : i = 0
    · subst first
      have start : unionIndicator g (keyPlain g keys items) 1 query j =
          if operands.contains (keyAt keys item.1) then 1 else 0 := by
        have same : j = ⟨item.2, layout.inside item member⟩ := Fin.ext at_
        rw [same]
        exact unionIndicator_start layout encrypts keysInside member _
      rw [if_pos rfl] at mask ⊢
      rw [indicator, satisfies]
      by_cases inverted : query.op = .ne
      · rw [if_pos inverted, if_pos inverted, Pi.add_apply, Pi.neg_apply, Pi.mul_apply, mask, start]
        cases operands.contains (keyAt keys item.1) <;> simp
      · rw [if_neg inverted, if_neg inverted, Pi.mul_apply, mask, start, mul_one]
    · rw [if_neg first] at mask ⊢
      split <;> simp [mask]
  · have mask := startPlain_eq layout j
    rw [spread_off unowned] at mask ⊢
    split <;> simp [mask]

end Selection

/-! ## The broadcast -/

theorem broadcast_eq (sel : Ciphertext ctx) :
    broadcast g sel = doubling (· + ·) (turn (-1)) sel g.levels := by
  have loop := rotate_loop (· + ·) (-1) sel g.levels
  simp only [mul_neg, mul_one] at loop
  exact loop

/-- The broadcast copies a block start over its block. -/
theorem broadcast_spread {g : Geometry ctx} {items : List (Nat × Nat)} {sel : Ciphertext ctx}
    (value : Nat × Nat → ZMod ctx.plainModulus)
    (starts : ∀ j : Fin (2 * ctx.row), sel j =
      spread g.keyBits Prod.snd (fun item i => if i = 0 then value item else 0) items j)
    (j : Fin (2 * ctx.row)) :
    broadcast g sel j = spread g.keyBits Prod.snd (fun item _ => value item) items j := by
  have pos := g.keyBits_pos
  have reach : ∀ d, (turn (-1))^[d] j = turn (-(d : Int)) j := by
    intro d
    rw [turn_iterate, mul_neg, mul_one]
  have others : ∀ d < g.keyBits, d ≠ (j : Nat) % g.keyBits →
      sel ((turn (-1))^[d] j) = 0 := by
    intro d bit ne
    have off := block_start_in_window g.keyBits_dvd_row j bit ne
    rw [reach, starts]
    apply sum_eq_zero
    intro x member
    obtain ⟨item, _, rfl⟩ := mem_map.1 member
    simp [if_neg off]
  have start : (turn (-(((j : Nat) % g.keyBits : Nat) : Int)) j : Nat) =
      (j : Nat) / g.keyBits * g.keyBits := by
    have column : (j : Nat) % g.keyBits ≤ (j : Nat) % ctx.row := by
      rw [← Nat.mod_mod_of_dvd (j : Nat) g.keyBits_dvd_row]
      exact Nat.mod_le _ _
    have split := Nat.div_add_mod' (j : Nat) g.keyBits
    rw [turn_val_sub _ _ column]
    omega
  rw [broadcast_eq, doubling_add, ← g.keyBits_eq,
    window_sum_single _ _ _ ((j : Nat) % g.keyBits) _ (Nat.mod_lt _ pos) others, reach, starts, start]
  unfold spread
  rw [Nat.mul_mod_left, Nat.mul_div_cancel _ pos]
  simp

/-- **The selection of a batch**: the predicate's indicator over every occupied
block, zero over every other. -/
theorem selection_eq {g : Geometry ctx} {items : List (Nat × Nat)}
    (layout : BatchLayout g items) {query : EncryptedQuery ctx} {operands : List UInt64}
    (encrypts : Encrypts g query operands) {keys : List UInt64}
    (keysInside : ∀ item ∈ items, (keyAt keys item.1).toNat < 2 ^ g.keyBits)
    (occupied : items ≠ []) :
    selection g keys query 1 items = .ok fun j => spread g.keyBits Prod.snd
      (fun item _ => indicator ctx query.op operands (keyAt keys item.1)) items j := by
  have keyPt : encodeBatch ctx (keySlots g keys items) = .ok (keyPlain g keys items) :=
    encodeBatch_eq (keySlots_length keys)
  have startPt : encodeBatch ctx (startMask ctx items) = .ok (startPlain ctx items) :=
    encodeBatch_eq startMask_length
  have masked : caught (multiplyPlain (unionIndicator g (keyPlain g keys items) 1 query)
      (startPlain ctx items)) =
      .ok (unionIndicator g (keyPlain g keys items) 1 query * startPlain ctx items) := by
    rw [multiplyPlain, if_neg (startPlain_ne_zero layout occupied)]
    rfl
  rw [selection, keyPt, startPt]
  simp only [bind, Except.bind, masked]
  congr 1
  funext j
  exact broadcast_spread (fun item => indicator ctx query.op operands (keyAt keys item.1))
    (masked_eq layout encrypts keysInside) j

/-! ## The block sum -/

theorem blockSumLoop_eq (seg : g.seg = 2 ^ s) (out : Ciphertext ctx) :
    ∀ fuel i, i ≤ s → s ≤ i + fuel →
      blockSumLoop g.stride fuel (2 ^ i * g.keyBits)
        (doubling (· + ·) (turn g.keyBits) out i) =
        doubling (· + ·) (turn g.keyBits) out s := by
  intro fuel
  induction fuel with
  | zero =>
    intro i le enough
    rw [blockSumLoop, (by omega : i = s)]
  | succ fuel ih =>
    intro i le enough
    have pos := g.keyBits_pos
    rw [blockSumLoop, g.stride_eq, seg]
    by_cases more : i < s
    · have below : 2 ^ i * g.keyBits < 2 ^ s * g.keyBits :=
        Nat.mul_lt_mul_of_pos_right (Nat.pow_lt_pow_right (by decide) more) pos
      have next : doubling (· + ·) (turn g.keyBits) out i +
          rotateRows (doubling (· + ·) (turn g.keyBits) out i) (2 ^ i * g.keyBits : Nat) =
          doubling (· + ·) (turn g.keyBits) out (i + 1) := by
        funext j
        rw [doubling, turn_iterate]
        rfl
      rw [if_pos below, next, ← Nat.mul_assoc, ← Nat.pow_succ']
      have later := ih (i + 1) (by omega) (by omega)
      rw [g.stride_eq, seg] at later
      exact later
    · have done : i = s := by omega
      rw [done, if_neg (lt_irrefl _)]

/-- **The block sum at the first block of a bucket** adds the bucket's blocks in
that half-row. -/
theorem blockSum_cell (x : Nat → ZMod ctx.plainModulus) {half bucket i : Nat}
    (inBucket : bucket < g.buckets) (bit : i < g.keyBits)
    (inside : cell g half bucket i < 2 * ctx.row) :
    blockSum g (fun j => x j) ⟨cell g half bucket i, inside⟩ =
      ∑ w ∈ Finset.range g.seg, x (cell g half bucket 0 + w * g.keyBits + i) := by
  obtain ⟨s, seg, _⟩ := g.row_factors
  have enough : s ≤ g.stride := by
    have := s.lt_two_pow_self
    have := Nat.le_mul_of_pos_right g.seg g.keyBits_pos
    rw [g.stride_eq]
    omega
  have loop := blockSumLoop_eq g seg (fun j => x j) g.stride 0 (Nat.zero_le _) (by omega)
  rw [pow_zero, Nat.one_mul] at loop
  have unfolded : blockSum g (fun j => x j) =
      doubling (· + ·) (turn g.keyBits) (fun j => x j) s := loop
  rw [unfolded, doubling_add, window_sum, ← seg]
  apply Finset.sum_congr rfl
  intro w member
  have column := cell_mod_row g half inBucket
    (lt_of_lt_of_le bit g.keyBits_le_stride)
  have block := block_in_stride g (Finset.mem_range.1 member) bit
  have fits : cell g half bucket i % ctx.row + w * g.keyBits < ctx.row := by
    have := segment_lt g inBucket block
    omega
  rw [turn_iterate, ← Nat.cast_mul, turn_val_add _ _ fits]
  congr 1
  simp only [cell]
  omega

end OpaqueDb.Backend
