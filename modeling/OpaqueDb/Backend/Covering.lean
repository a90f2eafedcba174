/-
# Backend.Covering -- the planes of a record cover it

The number of planes and the bytes of each are computed in 32-bit words.  Under an accepted
configuration a block holds at most 448 bytes, and nothing bounds the record but its word.  The
planes are then a partition of the record exactly if the record and one block more do not pass the
word (`planes_cover_iff`); otherwise the rounding sum wraps, and there is no plane at all
(`planes_zero`).
-/
import OpaqueDb.Backend.EndToEnd
import OpaqueDb.Config.Validate

namespace OpaqueDb.Backend

open OpaqueDb.Core Crypto Theory Config

set_option autoImplicit false

variable {ctx : CryptoContext}

namespace Geometry

/-- The matcher runs on the sizes of this configuration. -/
structure Of (g : Geometry ctx) (config : Config) : Prop where
  keyBits : g.keyBits = config.crypto.keyBits
  bytesPerSlot : g.bytesPerSlot = config.crypto.bytesPerSlot
  recordBytes : g.recordBytes = config.storage.recordBytes

/-- The planes are as many as the record needs, and their ranges are a partition of it into parts
that fit a block; of a whole record, just the range is packed. -/
structure Covers (g : Geometry ctx) : Prop where
  above : ((g.planes : Int) - 1) * g.bytesPerBlock < g.recordBytes
  below : g.recordBytes ≤ g.planes * g.bytesPerBlock
  nonempty : ∀ p < g.planes, (planeRange g p).1 < (planeRange g p).2
  fits : ∀ p < g.planes, (planeRange g p).2 ≤ (planeRange g p).1 + g.bytesPerBlock
  inside : ∀ p < g.planes, (planeRange g p).2 ≤ g.recordBytes
  partition : ∀ i < g.recordBytes, ∃! p, p < g.planes ∧ (planeRange g p).1 ≤ i ∧ i < (planeRange g p).2
  packed : ∀ p < g.planes, ∀ record : Bytes, record.length = g.recordBytes →
    packChunk g p record = some <$> packBytesToSlots ((record.drop (planeRange g p).1).take
      ((planeRange g p).2 - (planeRange g p).1)) g.bytesPerSlot

variable {g : Geometry ctx}

theorem Of.per_le {config : Config} (of : g.Of config) (valid : validate config = .ok ()) :
    g.per ≤ 448 := by
  have keyBits := (accepted_of_validate valid).keyBits_le
  have slots := config.crypto.bytesPerSlot_range.2
  rw [← of.keyBits] at keyBits
  rw [← of.bytesPerSlot] at slots
  calc g.per ≤ 64 * 7 := Nat.mul_le_mul keyBits slots

section Small

variable (small : g.per ≤ 448)
include small

theorem bytesPerBlock_of_small : g.bytesPerBlock = g.per :=
  u32_of_lt (by rw [← Geometry.per]; omega)

theorem planes_of_small : g.planes = u32 (g.recordBytes + g.per - 1) / g.per := by
  have per : payloadBytesPerBlock g.keyBits g.bytesPerSlot = g.per := bytesPerBlock_of_small small
  rw [Geometry.planes, payloadPlaneCount, per, if_neg (Nat.ne_of_gt (per_pos g))]

/-- Where the sum wraps, what is left of it is less than a block. -/
theorem planes_zero (word : g.recordBytes < 2 ^ 32) (wraps : 2 ^ 32 < g.recordBytes + g.per) :
    g.planes = 0 := by
  rw [planes_of_small small, u32]
  exact Nat.div_eq_of_lt (by omega)

variable (room : g.recordBytes + g.per ≤ 2 ^ 32)
include room

/-- Rounding up: the last plane is the first that reaches the end of the record. -/
theorem planes_bounds :
    g.recordBytes ≤ g.planes * g.per ∧ g.planes * g.per < g.recordBytes + g.per := by
  have pos := per_pos g
  rw [planes_of_small small, u32_of_lt (by omega)]
  have split := Nat.div_add_mod' (g.recordBytes + g.per - 1) g.per
  have rest := Nat.mod_lt (g.recordBytes + g.per - 1) pos
  omega

/-- No bound of a plane's range wraps. -/
theorem planeRange_of_room {p : Nat} (plane : p < g.planes) :
    planeRange g p = (p * g.per, min g.recordBytes ((p + 1) * g.per)) := by
  obtain ⟨_, above⟩ := planes_bounds small room
  have pos := per_pos g
  have next : (p + 1) * g.per ≤ g.planes * g.per := Nat.mul_le_mul_right _ plane
  have count : p + 1 ≤ (p + 1) * g.per := Nat.le_mul_of_pos_right _ pos
  rw [Nat.succ_mul] at next count
  rw [planeRange, bytesPerBlock_of_small small, u32_of_lt (by omega), u32_of_lt (n := p + 1) (by omega),
    u32_of_lt (by rw [Nat.succ_mul]; omega)]

theorem plane_starts_inside {p : Nat} (plane : p < g.planes) : p * g.per < g.recordBytes := by
  obtain ⟨_, above⟩ := planes_bounds small room
  have next : (p + 1) * g.per ≤ g.planes * g.per := Nat.mul_le_mul_right _ plane
  rw [Nat.succ_mul] at next
  omega

theorem covers_of_room : g.Covers := by
  obtain ⟨below, above⟩ := planes_bounds small room
  have pos := per_pos g
  have block := bytesPerBlock_of_small small
  have range : ∀ p < g.planes, planeRange g p = (p * g.per, min g.recordBytes ((p + 1) * g.per)) :=
    fun p plane => planeRange_of_room small room plane
  have starts : ∀ p < g.planes, p * g.per < g.recordBytes := fun p plane =>
    plane_starts_inside small room plane
  constructor
  case above =>
    rw [block, sub_mul]
    omega
  case below =>
    rw [block]
    exact below
  case nonempty =>
    intro p plane
    have := starts p plane
    rw [range p plane, Nat.succ_mul]
    omega
  case fits =>
    intro p plane
    rw [range p plane, Nat.succ_mul]
    omega
  case inside =>
    intro p plane
    rw [range p plane]
    exact Nat.min_le_left _ _
  case partition =>
    intro i inside
    have plane : i / g.per < g.planes := (Nat.div_lt_iff_lt_mul pos).2 (by omega)
    have split := Nat.div_add_mod' i g.per
    have rest := Nat.mod_lt i pos
    refine ⟨i / g.per, ⟨plane, ?_, ?_⟩, ?_⟩
    · rw [range _ plane]
      exact Nat.div_mul_le_self i g.per
    · rw [range _ plane, Nat.succ_mul]
      omega
    · rintro p ⟨plane', start, stop⟩
      rw [range p plane'] at start stop
      have before : i < (p + 1) * g.per := lt_of_lt_of_le stop (Nat.min_le_right _ _)
      exact (Nat.div_eq_of_lt_le start before).symm
  case packed =>
    intro p plane record whole
    have start := starts p plane
    have bounds := range p plane
    have stop : u32 (min (planeRange g p).2 (u32 record.length) + 2 ^ 32 - (planeRange g p).1) =
        (planeRange g p).2 - (planeRange g p).1 := by
      rw [bounds, whole, u32_of_lt (n := g.recordBytes) (by omega), u32, Nat.succ_mul]
      omega
    unfold packChunk
    dsimp only
    rw [if_neg (by rw [bounds, whole]; omega), stop]

end Small

end Geometry

/-- **The planes cover the record** exactly if the record and one block more fit a word. -/
theorem planes_cover_iff {config : Config} (valid : validate config = .ok ())
    (word : config.storage.recordBytes < 2 ^ 32) {g : Geometry ctx} (of : g.Of config) :
    g.Covers ↔
      config.storage.recordBytes + config.crypto.keyBits * config.crypto.bytesPerSlot ≤ 2 ^ 32 := by
  have small := of.per_le valid
  have sum : config.storage.recordBytes + config.crypto.keyBits * config.crypto.bytesPerSlot =
      g.recordBytes + g.per := by
    rw [Geometry.per, of.keyBits, of.bytesPerSlot, of.recordBytes]
  rw [← of.recordBytes] at word
  rw [sum]
  constructor
  · intro covers
    by_contra wraps
    have none_ := Geometry.planes_zero small word (by omega)
    have below := covers.below
    have positive := g.payload_pos
    rw [none_, Nat.zero_mul] at below
    omega
  · intro room
    exact Geometry.covers_of_room small room

/-- The default configuration with records of this size. -/
def largeConfig (recordBytes : Nat) : Config where
  storage := { recordBytes }

def largeGeometry (recordBytes : Nat) (positive : recordBytes ≠ 0) : Geometry defaultContext where
  keyBits := 16
  bytesPerSlot := 2
  recordBytes
  buckets := 16
  keyBits_pow := ⟨4, rfl⟩
  buckets_pow := ⟨4, rfl⟩
  payload_pos := by omega
  room := by decide

theorem largeGeometry_of (recordBytes : Nat) (positive : recordBytes ≠ 0) :
    (largeGeometry recordBytes positive).Of (largeConfig recordBytes) := by
  have slots : CryptoConfig.bytesPerSlot {} = 2 := by decide
  exact ⟨rfl, slots.symm, rfl⟩

/-- The largest record that is covered takes just under two to the twenty-seven planes. -/
theorem largest_record_covered :
    validate (largeConfig 4294967264) = .ok () ∧
      (largeGeometry 4294967264 (by decide)).Covers := by
  have valid : validate (largeConfig 4294967264) = .ok () := by decide
  refine ⟨valid, (planes_cover_iff valid (by decide) (largeGeometry_of _ (by decide))).2 (by decide)⟩

/-- One byte more, and it has no plane. -/
theorem larger_record_dropped :
    validate (largeConfig 4294967265) = .ok () ∧
      (largeGeometry 4294967265 (by decide)).planes = 0 ∧
      ¬ (largeGeometry 4294967265 (by decide)).Covers := by
  have none_ : (largeGeometry 4294967265 (by decide)).planes = 0 := by decide
  refine ⟨by decide, none_, fun covers => ?_⟩
  have below := covers.below
  rw [none_, Nat.zero_mul] at below
  exact absurd below (by decide)

/-- A configuration of small keys and records. -/
def smallConfig : Config where
  crypto := { keyBits := 2, resultBuckets := 2 }
  storage := { recordBytes := 3 }

theorem sampleGeometry_of : sampleGeometry.Of smallConfig :=
  ⟨rfl, by decide, rfl⟩

end OpaqueDb.Backend
