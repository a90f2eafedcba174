/-
# Core.KeyCodec -- from a typed key to the integer the matcher compares

`encodeKeyValue` maps a column's value into the universe of `key_bits` bits: an INT
is reinterpreted as unsigned and must fit, a TEXT goes through FNV-1a and is
truncated.  `keyToBits` is the slot pattern of a key; `packKey` and `unpackKey` are
its stored form.

Every encoding stays inside the universe (`encodeKeyValue_lt`); a key below the universe
is determined by its bits (`keyBits_ext`).
-/
import OpaqueDb.Core.Schema
import OpaqueDb.Theory.Radix

namespace OpaqueDb.Core

open Theory

set_option autoImplicit false

/-- FNV-1a over the bytes. -/
def fnv1a (s : Bytes) : UInt64 :=
  s.foldl (fun hash c => (hash ^^^ c.toUInt64) * 0x100000001b3) 0xcbf29ce484222325

def keyMask (keyBits : Nat) : UInt64 :=
  if keyBits ≥ 64 then 0xffffffffffffffff else UInt64.ofNat (2 ^ keyBits - 1)

structure KeyEncoding where
  value : UInt64
  lossy : Bool
  deriving DecidableEq, Repr

def encodeKeyValue (type : ColumnType) (value : Value) (keyBits : Nat) : StatusOr KeyEncoding :=
  let mask := keyMask keyBits
  match type with
  | .int =>
    match value with
    | .int i =>
      let u := i.toUInt64
      if keyBits < 64 ∧ u > mask then
        .error ⟨.outOfRange, strCat ["int key ", decInt i.toInt, " does not fit in ",
          dec keyBits, " bits (max ", dec mask.toNat, "); raise crypto.key_bits"]⟩
      else .ok ⟨u, false⟩
    | _ => .error (invalidArgument ["match key expects an integer value"])
  | .text =>
    match value with
    | .text s => .ok ⟨fnv1a s &&& mask, true⟩
    | _ => .error (invalidArgument ["match key expects a text value"])
  | .real =>
    .error (invalidArgument ["a REAL column cannot be a match key; equality on floating ",
      "point is not well defined"])
  | .json =>
    .error (invalidArgument ["a JSON column cannot be a match key; it is payload only"])

/-- The bits of a key, least significant first. -/
def keyToBits (value : UInt64) (keyBits : Nat) : List Nat :=
  (List.range keyBits).map fun b => value.toNat >>> b % 2

def keyRecordBytes (keyBits : Nat) : Nat :=
  (keyBits + 7) / 8

def packKey (value : UInt64) (keyBits : Nat) : Bytes :=
  leBytes (keyRecordBytes keyBits) value.toNat

def unpackKey (packed : Bytes) (keyBits : Nat) : StatusOr UInt64 :=
  let n := keyRecordBytes keyBits
  if packed.length ≠ n then
    .error (invalidArgument ["key record is ", dec packed.length, " bytes, expected ",
      dec n])
  else .ok (UInt64.ofNat (orBytes packed) &&& keyMask keyBits)

/-! ## The universe -/

variable {keyBits : Nat}

variable (v : UInt64)

theorem and_keyMask (small : keyBits ≤ 64) :
    (v &&& keyMask keyBits).toNat = v.toNat % 2 ^ keyBits := by
  by_cases wide : keyBits ≥ 64
  · have full : keyBits = 64 := by omega
    have mask : keyMask keyBits = UInt64.ofNat (2 ^ 64 - 1) := by
      rw [keyMask, if_pos wide]
      rfl
    rw [mask, UInt64.toNat_and, UInt64.toNat_ofNat', full, Nat.mod_eq_of_lt (by decide),
      Nat.and_two_pow_sub_one_eq_mod]
  · have lt : 2 ^ keyBits - 1 < 2 ^ 64 := by
      have : 2 ^ keyBits ≤ 2 ^ 64 := Nat.pow_le_pow_right (by decide) small
      omega
    rw [keyMask, if_neg wide, UInt64.toNat_and, UInt64.toNat_ofNat', Nat.mod_eq_of_lt lt,
      Nat.and_two_pow_sub_one_eq_mod]

variable {k : KeyEncoding}

theorem encodeKeyValue_lt {type : ColumnType} {value : Value} (small : keyBits ≤ 64)
    (encoded : encodeKeyValue type value keyBits = .ok k) : k.value.toNat < 2 ^ keyBits := by
  unfold encodeKeyValue at encoded
  split at encoded
  · split at encoded
    · rename_i i
      simp only at encoded
      split at encoded
      · exact absurd encoded (by simp)
      · rename_i fits
        cases encoded
        by_cases wide : keyBits < 64
        · have le : i.toUInt64 ≤ keyMask keyBits := by
            simpa [wide] using fits
          have mask : (keyMask keyBits).toNat = 2 ^ keyBits - 1 := by
            have : 2 ^ keyBits < 2 ^ 64 := Nat.pow_lt_pow_right (by decide) wide
            rw [keyMask, if_neg (by omega), UInt64.toNat_ofNat', Nat.mod_eq_of_lt (by omega)]
          have := UInt64.le_iff_toNat_le.1 le
          have := Nat.two_pow_pos keyBits
          simp only
          omega
        · have full : keyBits = 64 := by omega
          rw [full]
          exact UInt64.toNat_lt _
    · exact absurd encoded (by simp)
  · split at encoded
    · cases encoded
      rw [and_keyMask _ small]
      exact Nat.mod_lt _ (Nat.two_pow_pos keyBits)
    · exact absurd encoded (by simp)
  · exact absurd encoded (by simp)
  · exact absurd encoded (by simp)

/-- An INT key reads back from its encoding. -/
theorem encodeKeyValue_int {v : Value} (encoded : encodeKeyValue .int v keyBits = .ok k) :
    v = .int k.value.toInt64 := by
  cases v with
  | int i =>
    simp only [encodeKeyValue] at encoded
    split at encoded
    · exact absurd encoded (by simp)
    · cases encoded
      simp
  | real _ => simp [encodeKeyValue] at encoded
  | text _ => simp [encodeKeyValue] at encoded

/-! ## Bits and stored keys -/

theorem shiftRight_mod_two (n b : Nat) : n >>> b % 2 = (n.testBit b).toNat := by
  rw [Nat.testBit_eq_decide_div_mod_eq, Nat.shiftRight_eq_div_pow]
  rcases Nat.mod_two_eq_zero_or_one (n / 2 ^ b) with h | h <;> simp [h]

/-- A key below the universe is determined by its `key_bits` bits. -/
theorem keyBits_ext {v w : UInt64} (hv : v.toNat < 2 ^ keyBits) (hw : w.toNat < 2 ^ keyBits)
    (same : ∀ b < keyBits, v.toNat >>> b % 2 = w.toNat >>> b % 2) : v = w := by
  apply UInt64.toNat_inj.1
  apply Nat.eq_of_testBit_eq
  intro b
  by_cases inside : b < keyBits
  · have bits := same b inside
    rw [shiftRight_mod_two, shiftRight_mod_two] at bits
    cases hb : v.toNat.testBit b <;> cases hc : w.toNat.testBit b <;> simp_all
  · have wide : 2 ^ keyBits ≤ 2 ^ b := Nat.pow_le_pow_right (by decide) (by omega)
    rw [Nat.testBit_lt_two_pow (lt_of_lt_of_le hv wide),
      Nat.testBit_lt_two_pow (lt_of_lt_of_le hw wide)]

theorem keyToBits_length (keyBits : Nat) : (keyToBits v keyBits).length = keyBits := by
  simp [keyToBits]

theorem packKey_length (keyBits : Nat) : (packKey v keyBits).length = keyRecordBytes keyBits :=
  leBytes_length _ _

/-- A stored key reads back as itself. -/
theorem unpackKey_packKey {v : UInt64} (small : keyBits ≤ 64) (hv : v.toNat < 2 ^ keyBits) :
    unpackKey (packKey v keyBits) keyBits = .ok v := by
  have room : 2 ^ keyBits ≤ 256 ^ keyRecordBytes keyBits := by
    have : (256 : Nat) = 2 ^ 8 := by decide
    rw [this, ← pow_mul]
    apply Nat.pow_le_pow_right (by decide)
    rw [keyRecordBytes]
    omega
  have read : orBytes (packKey v keyBits) = v.toNat := by
    rw [orBytes_eq, packKey, leValue_leBytes, Nat.mod_eq_of_lt (by omega)]
  unfold unpackKey
  simp only [packKey_length, ne_eq, not_true_eq_false, if_false, read]
  congr 1
  apply UInt64.toNat_inj.1
  rw [and_keyMask _ small, UInt64.ofNat_toNat, Nat.mod_eq_of_lt hv]

end OpaqueDb.Core
