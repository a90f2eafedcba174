/-
# Core.SlotCodec -- payload bytes in slot values

Each slot holds `bytes_per_slot` payload bytes as a little-endian integer.  The
matcher lays a record across blocks of `key_bits` slots, one block a plane, so one
plane carries `payloadBytesPerBlock` bytes and a record takes `payloadPlaneCount`
planes.  All sizes are 32-bit in the source; `u32` marks where a result is reduced.

A packed slot is the little-endian value of its bytes (`packLoop_getD`), below what they
can hold (`packLoop_getD_lt`), and a chunk takes no more slots than its block has
(`packLoop_length_le`).
-/
import OpaqueDb.Core.Text
import OpaqueDb.Theory.Radix

namespace OpaqueDb.Core

open Theory List

set_option autoImplicit false

/-- Reduction to an unsigned 32-bit word. -/
def u32 (n : Nat) : Nat :=
  n % 2 ^ 32

theorem u32_of_lt {n : Nat} (h : n < 2 ^ 32) : u32 n = n :=
  Nat.mod_eq_of_lt h

def kMaxBytesPerSlot : Nat := 7

def bytesPerSlotError : Status :=
  invalidArgument ["bytes_per_slot must be between 1 and ", dec kMaxBytesPerSlot]

/-- The packing loop: one slot value from the next `bytes_per_slot` bytes.  The
fuel is the byte count, and every turn consumes at least one byte. -/
def packLoop (bytesPerSlot : Nat) : Nat → Bytes → List Nat
  | 0, _ => []
  | _ + 1, [] => []
  | fuel + 1, b :: rest =>
    orBytes ((b :: rest).take bytesPerSlot) ::
      packLoop bytesPerSlot fuel ((b :: rest).drop bytesPerSlot)

def packBytesToSlots (payload : Bytes) (bytesPerSlot : Nat) : StatusOr (List Nat) :=
  if bytesPerSlot = 0 ∨ bytesPerSlot > kMaxBytesPerSlot then .error bytesPerSlotError
  else .ok (packLoop bytesPerSlot payload.length payload)

def unpackSlotsToBytes (slots : List Nat) (recordBytes bytesPerSlot : Nat) : StatusOr Bytes :=
  if bytesPerSlot = 0 ∨ bytesPerSlot > kMaxBytesPerSlot then .error bytesPerSlotError
  else
    let neededSlots := u32 (recordBytes + bytesPerSlot - 1) / bytesPerSlot
    if slots.length < neededSlots then
      .error (invalidArgument ["have ", dec slots.length, " slots, need ",
        dec neededSlots, " to unpack ", dec recordBytes, " bytes"])
    else
      .ok (((slots.take neededSlots).flatMap fun value => leBytes bytesPerSlot value).take
        recordBytes)

def payloadBytesPerBlock (keyBits bytesPerSlot : Nat) : Nat :=
  u32 (keyBits * bytesPerSlot)

def payloadPlaneCount (recordBytes keyBits bytesPerSlot : Nat) : Nat :=
  let per := payloadBytesPerBlock keyBits bytesPerSlot
  if per = 0 then 0 else u32 (recordBytes + per - 1) / per

def bucketStride (slotCount buckets : Nat) : Nat :=
  let row := slotCount / 2
  if buckets = 0 then row else row / buckets

/-! ## The rotation keys -/

/-- `for (s = start; s < bound; s <<= 1)` over 32-bit words, and the values of `s`.  A word is
shifted out after 32 turns; from then on the loop does not end. -/
def doublings (bound : Nat) : Nat → Nat → Option (List Nat)
  | 0, _ => none
  | fuel + 1, s => if s < bound then (s :: ·) <$> doublings bound fuel (u32 (2 * s)) else some []

def requiredGaloisSteps (slotCount keyBits : Nat) : Option (List Int) :=
  if keyBits = 0 ∨ slotCount < 2 then some []
  else do
    let within ← doublings keyBits 33 1
    let across ← doublings (slotCount / 2) 33 keyBits
    return (within.flatMap fun s : Nat => [(s : Int), -(s : Int)]) ++
      across.map fun s : Nat => (s : Int)

theorem doublings_eq (bound fuel : Nat) {s : Nat} (some_ : 0 < s) (word : bound ≤ 2 ^ 31)
    (enough : bound ≤ s * 2 ^ fuel) :
    ∃ l, doublings bound (fuel + 1) s = some l ∧ ∀ x, x ∈ l ↔ x < bound ∧ ∃ j, x = s * 2 ^ j := by
  induction fuel generalizing s with
  | zero =>
    refine ⟨[], by rw [doublings, if_neg (by omega)], fun x => ⟨by simp, ?_⟩⟩
    rintro ⟨below, j, rfl⟩
    have := Nat.le_mul_of_pos_right s (Nat.two_pow_pos j)
    omega
  | succ fuel ih =>
    by_cases below : s < bound
    · obtain ⟨l, listed, mem⟩ := ih (s := 2 * s) (by omega) (by rw [pow_succ'] at enough; lia)
      refine ⟨s :: l, ?_, fun x => ?_⟩
      · rw [doublings, if_pos below, u32_of_lt (by omega), listed]
        rfl
      · rw [mem_cons, mem]
        constructor
        · rintro (rfl | ⟨inside, j, rfl⟩)
          · exact ⟨below, 0, by simp⟩
          · exact ⟨inside, j + 1, by rw [pow_succ']; ring⟩
        · rintro ⟨inside, _ | j, rfl⟩
          · exact .inl (by simp)
          · exact .inr ⟨inside, j, by rw [pow_succ']; ring⟩
    · refine ⟨[], by rw [doublings, if_neg below], fun x => ⟨by simp, ?_⟩⟩
      rintro ⟨inside, j, rfl⟩
      have := Nat.le_mul_of_pos_right s (Nat.two_pow_pos j)
      omega

/-- The listed steps: both ways inside a block, and forward from block to block. -/
theorem requiredGaloisSteps_eq {slotCount keyBits : Nat} (slots : 2 ≤ slotCount)
    (word : slotCount < 2 ^ 32) (some_ : 0 < keyBits) (fits : keyBits ≤ slotCount / 2) :
    ∃ steps, requiredGaloisSteps slotCount keyBits = some steps ∧ ∀ s : Int, s ∈ steps ↔
      (∃ i, 2 ^ i < keyBits ∧ (s = (2 ^ i : Nat) ∨ s = -((2 ^ i : Nat) : Int))) ∨
        ∃ j, keyBits * 2 ^ j < slotCount / 2 ∧ s = (keyBits * 2 ^ j : Nat) := by
  obtain ⟨within, listed, mem⟩ := doublings_eq keyBits 32 Nat.one_pos (by omega) (by omega)
  obtain ⟨across, listed', mem'⟩ := doublings_eq (slotCount / 2) 32 some_ (by omega)
    (by have := Nat.le_mul_of_pos_left (2 ^ 32) some_; omega)
  refine ⟨_, by rw [requiredGaloisSteps, if_neg (by omega), listed, listed']; rfl, fun s => ?_⟩
  rw [mem_append, mem_flatMap, mem_map]
  refine or_congr ⟨?_, ?_⟩ ⟨?_, ?_⟩
  · rintro ⟨x, inside, either⟩
    obtain ⟨below, i, rfl⟩ := (mem x).1 inside
    rw [Nat.one_mul] at below either
    exact ⟨i, below, by simpa using either⟩
  · rintro ⟨i, below, either⟩
    exact ⟨2 ^ i, (mem _).2 ⟨below, i, (Nat.one_mul _).symm⟩, by simpa using either⟩
  · rintro ⟨x, inside, rfl⟩
    obtain ⟨below, j, rfl⟩ := (mem' x).1 inside
    exact ⟨j, below, rfl⟩
  · rintro ⟨j, below, rfl⟩
    exact ⟨keyBits * 2 ^ j, (mem' _).2 ⟨below, j, rfl⟩, rfl⟩

/-! ## The packed slots -/

/-- Slot `s` of the packing is the value of the `s`-th chunk; past the end it reads
as zero, which is the value of the empty chunk. -/
theorem packLoop_getD (bytesPerSlot : Nat) (pos : 0 < bytesPerSlot) :
    ∀ (fuel : Nat) (payload : Bytes) (s : Nat), payload.length ≤ fuel →
      (packLoop bytesPerSlot fuel payload).getD s 0 =
        leValue ((payload.drop (s * bytesPerSlot)).take bytesPerSlot)
  | 0, payload, s, fits => by
    have empty : payload = [] := length_eq_zero_iff.1 (Nat.le_zero.1 fits)
    simp [packLoop, empty, leValue]
  | fuel + 1, [], s, _ => by simp [packLoop, leValue]
  | fuel + 1, b :: rest, 0, _ => by simp [packLoop, orBytes_eq]
  | fuel + 1, b :: rest, s + 1, fits => by
    have shorter : ((b :: rest).drop bytesPerSlot).length ≤ fuel := by
      rw [length_drop, length_cons] at *
      omega
    rw [packLoop, getD_cons_succ, packLoop_getD bytesPerSlot pos fuel _ s shorter, drop_drop,
      Nat.succ_mul, Nat.add_comm]

/-- The packing of a chunk fits the block it is meant for. -/
theorem packLoop_length_le (bytesPerSlot blocks : Nat) :
    ∀ (fuel : Nat) (payload : Bytes), payload.length ≤ blocks * bytesPerSlot →
      (packLoop bytesPerSlot fuel payload).length ≤ blocks := by
  intro fuel
  induction fuel generalizing blocks with
  | zero => intro payload _; simp [packLoop]
  | succ fuel ih =>
    intro payload fits
    cases payload with
    | nil => simp [packLoop]
    | cons b rest =>
      cases blocks with
      | zero => simp at fits
      | succ blocks =>
        have shorter : ((b :: rest).drop bytesPerSlot).length ≤ blocks * bytesPerSlot := by
          rw [length_drop]
          rw [Nat.succ_mul] at fits
          omega
        rw [packLoop, length_cons]
        have := ih blocks _ shorter
        omega

/-- A packed slot value stays below `256 ^ bytes_per_slot`. -/
theorem packLoop_getD_lt (bytesPerSlot : Nat) (pos : 0 < bytesPerSlot) (payload : Bytes) (s : Nat) :
    (packLoop bytesPerSlot payload.length payload).getD s 0 < 256 ^ bytesPerSlot := by
  rw [packLoop_getD bytesPerSlot pos _ _ s le_rfl]
  refine lt_of_lt_of_le (leValue_lt _) (Nat.pow_le_pow_right (by omega) ?_)
  rw [length_take]
  exact Nat.min_le_left _ _

end OpaqueDb.Core
