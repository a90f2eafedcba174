/-
# Backend.SlotLayout -- where the rows lie, and what is multiplied with

The placement gives every row one block in one batch.  The blocks are aligned, each lies inside
one half-row and inside the segment of its row's bucket, and no two of a batch overlap; a batch
that exists has a row.  So the occupancy plaintext of a batch is never zero.

A payload plane whose slots are all zero is skipped.  Under an accepted configuration the library's
batching prime is above every value that the bytes of a slot can have, so a plane with data is not
zero modulo the prime either (`slot_layout`).
-/
import OpaqueDb.Backend.Covering

namespace OpaqueDb.Backend

open OpaqueDb.Core Crypto Theory Config List

set_option autoImplicit false

variable {ctx : CryptoContext}

/-! ## The blocks -/

/-- The placement puts row `r` into batch `b` at this slot. -/
def Assigned (g : Geometry ctx) (keys : List UInt64) (r b slot : Nat) : Prop :=
  ∃ items, (place g keys).batched[b]? = some items ∧ (r, slot) ∈ items

variable (g : Geometry ctx) (keys : List UInt64)

theorem assigned_iff (r b slot : Nat) : Assigned g keys r b slot ↔
      r < keys.length ∧ b = batchAt g keys r ∧ slot = slotAt g keys r := by
  have placed := place_placed g keys
  have items_iff : ∀ b, (r, slot) ∈ batchItems g keys keys.length b ↔
      r < keys.length ∧ b = batchAt g keys r ∧ slot = slotAt g keys r := by
    intro b
    simp only [batchItems, mem_map, mem_filter, mem_range, decide_eq_true_eq, Prod.mk.injEq]
    constructor
    · rintro ⟨s, ⟨inside, batch⟩, rfl, rfl⟩
      exact ⟨inside, batch.symm, rfl⟩
    · rintro ⟨inside, batch, at_⟩
      exact ⟨r, ⟨inside, batch.symm⟩, rfl, at_.symm⟩
  constructor
  · rintro ⟨items, found, member⟩
    have contents := placed.batch b
    rw [getD_eq_getElem?_getD, found, Option.getD_some] at contents
    rw [contents] at member
    exact (items_iff b).1 member
  · intro at_
    have inside := batchAt_lt g keys at_.1
    rw [← at_.2.1] at inside
    refine ⟨_, getElem?_eq_getElem inside, ?_⟩
    have contents := placed.batch b
    rw [getD_eq_getElem _ _ inside] at contents
    rw [contents]
    exact (items_iff b).2 at_

/-- The block of row `r` at this slot: aligned, inside one half-row, and inside the segment of the
row's bucket. -/
structure Laid (g : Geometry ctx) (keys : List UInt64) (r slot : Nat) : Prop where
  aligned : g.keyBits ∣ slot
  inside : slot + g.keyBits ≤ ctx.slotCount
  halfRow : slot % ctx.row + g.keyBits ≤ ctx.row
  fromSegment : rowBucket g.buckets keys r * g.stride ≤ slot % ctx.row
  toSegment : slot % ctx.row + g.keyBits ≤ (rowBucket g.buckets keys r + 1) * g.stride

theorem slotAt_laid (r : Nat) : Laid g keys r (slotAt g keys r) := by
  have column : rowOrder g.buckets keys r % g.seg < g.seg := Nat.mod_lt _ g.seg_pos
  have bucket := rowBucket_lt g keys r
  have half := rowHalf_lt g keys r
  have bits := g.keyBits_pos
  have block := block_in_stride g column (show g.keyBits - 1 < g.keyBits by omega)
  have start : rowOrder g.buckets keys r % g.seg * g.keyBits < g.stride := by omega
  have at_ := slotAt_eq g keys r
  have offset := cell_mod_row g (rowHalf g keys r) bucket start
  rw [← at_] at offset
  have segments : (rowBucket g.buckets keys r + 1) * g.stride ≤ ctx.row := by
    rw [g.row_eq_stride]
    exact Nat.mul_le_mul_right _ bucket
  have toSegment : slotAt g keys r % ctx.row + g.keyBits ≤
      (rowBucket g.buckets keys r + 1) * g.stride := by
    rw [Nat.succ_mul]
    omega
  have halves : rowHalf g keys r * ctx.row ≤ 1 * ctx.row := Nat.mul_le_mul_right _ (by omega)
  refine ⟨?_, ?_, by omega, by omega, toSegment⟩
  · have strides : g.keyBits ∣ g.stride := by
      rw [g.stride_eq]
      exact Nat.dvd_mul_left _ _
    rw [at_]
    exact Nat.dvd_add (Dvd.dvd.mul_left g.keyBits_dvd_row _)
      (Nat.dvd_add (Dvd.dvd.mul_left strides _) (Nat.dvd_mul_left _ _))
  · rw [CryptoContext.slotCount]
    rw [cell] at *
    omega

/-- Aligned blocks at different slots do not meet. -/
theorem blocks_apart {width a b : Nat} (aligned : width ∣ a) (aligned' : width ∣ b) (differ : a ≠ b) :
    a + width ≤ b ∨ b + width ≤ a := by
  obtain ⟨i, rfl⟩ := aligned
  obtain ⟨j, rfl⟩ := aligned'
  rcases Nat.lt_or_gt_of_ne (fun same : i = j => differ (by rw [same])) with before | behind
  · have := Nat.mul_le_mul_left width before
    exact .inl this
  · have := Nat.mul_le_mul_left width behind
    exact .inr this

theorem batch_blocks_apart : ∀ items ∈ (place g keys).batched,
      items.Pairwise fun a b => a.2 + g.keyBits ≤ b.2 ∨ b.2 + g.keyBits ≤ a.2 := by
  intro items batch
  obtain ⟨layout, _⟩ := batch_layout g keys items batch
  refine layout.distinct.imp_of_mem fun {a b} first second differ => ?_
  exact blocks_apart (layout.aligned a first) (layout.aligned b second) differ

/-! ## The plaintexts -/

/-- The batch multiplies by this plaintext for plane `p`. -/
def Multiplied (g : Geometry ctx) (rows : List Bytes) (items : List (Nat × Nat)) (p : Nat)
    (plain : Plaintext ctx) : Prop :=
  ∃ slots, planeSlots g rows items p = .ok slots ∧ slots.all (· == 0) = false ∧
    encodeBatch ctx slots = .ok plain

theorem addPlane_multiplied {g : Geometry ctx} {rows : List Bytes} {items : List (Nat × Nat)} {p : Nat}
    {plain : Plaintext ctx} (multiplied : Multiplied g rows items p plain) (sel : Ciphertext ctx)
    (acc : List (Ciphertext ctx)) :
    addPlane g rows items sel acc p =
      (caught (multiplyPlain sel plain)).map fun out => acc.modify p (· + blockSum g out) := by
  obtain ⟨slots, packed, some_, encoded⟩ := multiplied
  unfold addPlane
  rw [packed]
  simp only [bind, Except.bind, some_, encoded]
  rfl

variable {items : List (Nat × Nat)} {slots : List Nat} {g : Geometry ctx} {p : Nat}

/-- What the empty slots have and every write keeps, the packed plane has. -/
theorem planeSlots_inv {rows : List Bytes} {I : List Nat → Prop}
    (start : I (replicate ctx.slotCount 0))
    (write : ∀ slots at_ record chunk, packChunk g p record = .ok (some chunk) → I slots →
      I (writeBlock slots at_ chunk)) (packed : planeSlots g rows items p = .ok slots) :
    I slots := by
  unfold planeSlots at packed
  revert packed start
  generalize replicate ctx.slotCount 0 = filled
  intro start packed
  induction items generalizing filled with
  | nil =>
    cases pure_eq_ok.1 packed
    exact start
  | cons item items ih =>
    obtain ⟨next, here, rest⟩ := bind_eq_ok.1 packed
    refine ih next ?_ rest
    obtain ⟨chunk, known, written⟩ := bind_eq_ok.1 here
    cases chunk with
    | none =>
      cases pure_eq_ok.1 written
      exact start
    | some chunk =>
      cases pure_eq_ok.1 written
      exact write _ _ _ _ known start

theorem planeSlots_length {rows : List Bytes} (packed : planeSlots g rows items p = .ok slots) :
    slots.length = ctx.slotCount :=
  planeSlots_inv (I := fun slots => slots.length = ctx.slotCount) length_replicate
    (fun _ _ _ _ _ same => (writeBlock_length _ _ _).trans same) packed

/-- A plaintext vanishes exactly if every slot is a multiple of the modulus. -/
theorem plain_eq_zero_iff (whole : slots.length = ctx.slotCount) :
    (fun j => ((slots.getD j 0 : Nat) : ZMod ctx.plainModulus) : Plaintext ctx) = 0 ↔
      ∀ value ∈ slots, ctx.plainModulus ∣ value := by
  constructor
  · intro zero value member
    obtain ⟨j, inside, rfl⟩ := mem_iff_getElem.1 member
    have slot := congrFun zero ⟨j, by rw [← CryptoContext.slotCount]; omega⟩
    rw [getD_eq_getElem _ _ inside] at slot
    exact (ZMod.natCast_eq_zero_iff _ _).1 slot
  · intro multiples
    funext j
    have inside : (j : Nat) < slots.length := whole ▸ j.isLt
    rw [getD_eq_getElem _ _ inside]
    exact (ZMod.natCast_eq_zero_iff _ _).2 (multiples _ (getElem_mem inside))

theorem mem_writeBlock {slots values : List Nat} {start v : Nat}
    (member : v ∈ writeBlock slots start values) : v ∈ slots ∨ v ∈ values := by
  unfold writeBlock at member
  have writes : ∀ write ∈ values.zipIdx, write.1 ∈ values := fun write listed =>
    fst_mem_of_mem_zipIdx listed
  revert member writes
  generalize values.zipIdx = list
  intro member writes
  induction list generalizing slots with
  | nil => exact .inl member
  | cons write list ih =>
    rcases ih member fun other listed => writes other (mem_cons_of_mem write listed) with
      before | written
    · rcases mem_or_eq_of_mem_set before with kept | rfl
      · exact .inl kept
      · exact .inr (writes write mem_cons_self)
    · exact .inr written

/-- A packed value fits the bytes of its slot. -/
theorem packBytesToSlots_lt {payload : Bytes} {bytesPerSlot : Nat} {values : List Nat}
    (packed : packBytesToSlots payload bytesPerSlot = .ok values) :
    ∀ value ∈ values, value < 2 ^ (8 * bytesPerSlot) := by
  unfold packBytesToSlots at packed
  split at packed
  · cases packed
  cases packed
  intro value member
  obtain ⟨s, inside, rfl⟩ := mem_iff_getElem.1 member
  have bound := packLoop_getD_lt bytesPerSlot (by omega) payload s
  rwa [getD_eq_getElem _ _ inside, show (256 : Nat) = 2 ^ 8 by decide, ← pow_mul] at bound

theorem packChunk_lt {g : Geometry ctx} {p : Nat} {record : Bytes} {chunk : List Nat}
    (packed : packChunk g p record = .ok (some chunk)) :
    ∀ value ∈ chunk, value < 2 ^ (8 * g.bytesPerSlot) := by
  unfold packChunk at packed
  dsimp only at packed
  split at packed
  · cases packed
  obtain ⟨values, known, same⟩ := map_eq_ok.1 packed
  obtain rfl := Option.some.inj same
  exact packBytesToSlots_lt known

theorem planeSlots_lt {rows : List Bytes} (packed : planeSlots g rows items p = .ok slots) :
    ∀ value ∈ slots, value < 2 ^ (8 * g.bytesPerSlot) := by
  refine planeSlots_inv (I := fun slots => ∀ value ∈ slots, value < 2 ^ (8 * g.bytesPerSlot))
    ?_ ?_ packed
  · intro value member
    rw [eq_of_mem_replicate member]
    exact Nat.two_pow_pos _
  · intro before at_ record chunk known below value member
    rcases mem_writeBlock member with kept | written
    · exact below value kept
    · exact packChunk_lt known value written

/-- Where a slot cannot hold the modulus, a plane with data has a plaintext that is not zero. -/
theorem multiplied_nonzero (carried : 2 ^ (8 * g.bytesPerSlot) ≤ ctx.plainModulus)
    {rows : List Bytes} {plain : Plaintext ctx} (multiplied : Multiplied g rows items p plain) :
    plain ≠ 0 := by
  obtain ⟨slots, packed, data, encoded⟩ := multiplied
  have whole := planeSlots_length packed
  obtain rfl := Except.ok.inj ((encodeBatch_eq whole).symm.trans encoded)
  obtain ⟨value, member, nonzero⟩ : ∃ value ∈ slots, value ≠ 0 := by simpa using data
  intro zero
  have le := Nat.le_of_dvd (Nat.pos_of_ne_zero nonzero) ((plain_eq_zero_iff whole).1 zero value member)
  have := planeSlots_lt packed value member
  omega

/-- The context of a configuration: as many slots as the degree, and a plaintext modulus of the
configured bits that is one modulo twice the degree, as the library looks one up. -/
structure Batching (ctx : CryptoContext) (config : Config) : Prop where
  slots : ctx.slotCount = config.crypto.polyModulusDegree
  bits : 2 ^ (config.crypto.plainModulusBits - 1) ≤ ctx.plainModulus
  one : ctx.plainModulus % (2 * config.crypto.polyModulusDegree) = 1

theorem Batching.carried {config : Config} (batching : Batching ctx config)
    (valid : validate config = .ok ()) (of : g.Of config) :
    2 ^ (8 * g.bytesPerSlot) ≤ ctx.plainModulus := by
  rw [of.bytesPerSlot]
  exact two_pow_le_batching (accepted_of_validate valid) ctx.prime.one_lt batching.bits batching.one

/-- **The slot layout.**  Under an accepted configuration every row has one place, its block lies
in its bucket's segment of one half-row, the blocks of a batch are apart, every batch has a row, and
neither its occupancy plaintext nor a payload plaintext that is multiplied with is zero. -/
theorem slot_layout {config : Config} (valid : validate config = .ok ())
    (batching : Batching ctx config) (g : Geometry ctx) (of : g.Of config) (keys : List UInt64)
    (rows : List Bytes) :
    (∀ r < keys.length, ∃! at_ : Nat × Nat, Assigned g keys r at_.1 at_.2) ∧
    (∀ r b slot, Assigned g keys r b slot → Laid g keys r slot) ∧
    (∀ items ∈ (place g keys).batched, items ≠ [] ∧
      (items.Pairwise fun a b => a.2 + g.keyBits ≤ b.2 ∨ b.2 + g.keyBits ≤ a.2) ∧
      ∃ plain, encodeBatch ctx (startMask ctx items) = .ok plain ∧ plain ≠ 0) ∧
    ∀ items p plain, Multiplied g rows items p plain → plain ≠ 0 ∧
      ∀ sel acc, addPlane g rows items sel acc p =
        (caught (multiplyPlain sel plain)).map fun out => acc.modify p (· + blockSum g out) := by
  refine ⟨?_, ?_, ?_, ?_⟩
  · intro r row
    refine ⟨(batchAt g keys r, slotAt g keys r), (assigned_iff g keys r _ _).2 ⟨row, rfl, rfl⟩, ?_⟩
    rintro ⟨b, slot⟩ at_
    obtain ⟨_, batch, place_⟩ := (assigned_iff g keys r b slot).1 at_
    exact Prod.ext batch place_
  · intro r b slot at_
    obtain ⟨_, _, rfl⟩ := (assigned_iff g keys r b slot).1 at_
    exact slotAt_laid g keys r
  · intro items batch
    have occupied := batch_ne_nil g keys items batch
    obtain ⟨layout, _⟩ := batch_layout g keys items batch
    exact ⟨occupied, batch_blocks_apart g keys items batch, _, encodeBatch_eq startMask_length,
      startPlain_ne_zero layout occupied⟩
  · intro items p plain multiplied
    exact ⟨multiplied_nonzero (batching.carried valid of) multiplied, addPlane_multiplied multiplied⟩

/-- The record of a row makes a plane with data. -/
theorem record_multiplied :
    ∃ plain, Multiplied sampleGeometry [[1, 2, 3]] [(0, 0)] 0 plain := by
  have layout : BatchLayout sampleGeometry [(0, 0)] := ⟨⟨by decide, by decide⟩, by decide⟩
  have whole : ∀ item ∈ [(0, 0)], (rowAt [[1, 2, 3]] item.1).length = sampleGeometry.recordBytes := by
    decide
  obtain ⟨slots, packed, size, contents⟩ :=
    planeSlots_eq sampleGeometry_carries layout whole (show 0 < sampleGeometry.planes by decide)
  have first : slots.getD 0 0 = 513 := contents 0
  have inside : 0 < slots.length := by
    rw [size]
    decide
  rw [getD_eq_getElem _ _ inside] at first
  refine ⟨_, slots, packed, ?_, encodeBatch_eq size⟩
  have value : ∃ value ∈ slots, value ≠ 0 := ⟨_, getElem_mem inside, by rw [first]; decide⟩
  simpa using value

theorem slot_layout_one_row :
    validate smallConfig = .ok () ∧ Batching defaultContext smallConfig ∧
    (∃! at_ : Nat × Nat, Assigned sampleGeometry [1] 0 at_.1 at_.2) ∧
    ∃ plain, Multiplied sampleGeometry [[1, 2, 3]] [(0, 0)] 0 plain ∧ plain ≠ 0 := by
  have valid : validate smallConfig = .ok () := by decide
  have batching : Batching defaultContext smallConfig := ⟨rfl, by decide, by decide⟩
  obtain ⟨place, _, _, nonzero⟩ :=
    slot_layout valid batching sampleGeometry sampleGeometry_of [1] [[1, 2, 3]]
  obtain ⟨plain, multiplied⟩ := record_multiplied
  exact ⟨valid, batching, place 0 (by decide), plain, multiplied, (nonzero _ _ _ multiplied).1⟩

end OpaqueDb.Backend
