/-
# Crypto.Ops -- exact slot arithmetic, and the client's encode and decode

The FHE library is modelled as exact slot-wise arithmetic: a plaintext and a
ciphertext are both the vector of slot values modulo the plaintext prime, two
half-rows with cyclic rotation, and encryption, relinearisation and modulus
switching leave that vector alone.  The one refusal kept is the library's own: a
product with the zero plaintext would be a transparent ciphertext
(`multiplyPlain`).

`buildEncryptedOperands` is the client's side of a query, `decryptResults` its side
of a reply: it reads `buckets` blocks, adds the two half-rows outside the modulus,
takes the presence count first, and unpacks the record only when the count is one.
A result blob is carried as its list of ciphertexts.
-/
import OpaqueDb.Core.KeyCodec
import OpaqueDb.Core.SlotCodec
import OpaqueDb.Theory.HalfRows
import Mathlib.Data.ZMod.Basic

namespace OpaqueDb.Crypto

open OpaqueDb.Core Theory

set_option autoImplicit false

/-- The parameters of a node or a client.  The slot count is the 32-bit
`poly_modulus_degree`, a power of two split into two half-rows; the plaintext
modulus is a 64-bit prime. -/
structure CryptoContext where
  row : Nat
  plainModulus : Nat
  row_pow : row.isPowerOfTwo
  slots_lt : 2 * row < 2 ^ 32
  prime : plainModulus.Prime
  modulus_lt : plainModulus < 2 ^ 64

variable (ctx : CryptoContext)

def CryptoContext.slotCount : Nat :=
  2 * ctx.row

abbrev Plaintext := HalfRows ctx.row (ZMod ctx.plainModulus)

abbrev Ciphertext := HalfRows ctx.row (ZMod ctx.plainModulus)

/-! ## The library's operations -/

def encodeBatch (values : List Nat) : StatusOr (Plaintext ctx) :=
  if values.length > ctx.slotCount then
    .error (invalidArgument ["batch of ", dec values.length, " values exceeds ",
      dec ctx.slotCount, " slots"])
  else .ok fun j => (values.getD j 0 : ZMod ctx.plainModulus)

variable (plain : Plaintext ctx)

def decodeBatch : List Nat :=
  List.ofFn fun j => (plain j).val

variable {ctx}

def encrypt : Ciphertext ctx :=
  plain

variable (cipher : Ciphertext ctx)

def decrypt : Plaintext ctx :=
  cipher

def rotateRows (steps : Int) : Ciphertext ctx :=
  HalfRows.rotate steps cipher

/-- Multiplication by a plaintext; by zero it would be transparent, which the
library refuses with an exception. -/
def multiplyPlain (plain : Plaintext ctx) : Except Bytes (Ciphertext ctx) :=
  if plain = 0 then .error (bytes "result ciphertext is transparent") else .ok (cipher * plain)

variable (ctx)

/-! ## The operands -/

/-- The tiled operand: slot `i` holds bit `i % key_bits` of the value. -/
def encryptOperand (value : UInt64) (keyBits : Nat) : StatusOr (Ciphertext ctx) := do
  let bits := keyToBits value keyBits
  let plain ← encodeBatch ctx ((List.range ctx.slotCount).map fun i => bits.getD (i % keyBits) 0)
  return encrypt plain

variable (values : List UInt64)

/-- First occurrences in order: the `seen` set of the source. -/
def dedup : List UInt64 :=
  values.foldl (fun distinct value =>
    if distinct.contains value then distinct else distinct ++ [value]) []

def buildEncryptedOperands (keyBits : Nat) : StatusOr (List (Ciphertext ctx)) :=
  if keyBits = 0 ∨ keyBits > 64 then
    .error (invalidArgument ["key_bits must be in [1, 64]"])
  else if values.isEmpty then
    .error (invalidArgument ["operand list is empty"])
  else (dedup values).mapM fun value => encryptOperand ctx value keyBits

/-! ## The reply -/

structure BucketResult where
  present : Bool := false
  collided : Bool := false
  count : Nat := 0
  record : Bytes := []
  deriving DecidableEq, Repr, Inhabited

variable (blob : List (Ciphertext ctx))

/-- `DeserializeCiphertexts` up to its count check; the framing is not modelled here. -/
def deserializeCiphertexts (maxCount : Nat) : StatusOr (List (Ciphertext ctx)) :=
  if blob.length > maxCount then
    .error (invalidArgument ["ciphertext list declares ", dec blob.length,
      " items, over the limit ", dec maxCount])
  else .ok blob

/-- One bucket's block of a decoded ciphertext: the two half-rows added as 64-bit
words, outside the plaintext modulus. -/
def bucketBlock (slots : List Nat) (row base keyBits : Nat) : List Nat :=
  (List.range keyBits).map fun i => (slots.getD (base + i) 0 + slots.getD (row + base + i) 0) % 2 ^ 64

/-- `vector::resize`, filling with zero. -/
def resize (n : Nat) (l : Bytes) : Bytes :=
  l.take n ++ List.replicate (n - l.length) 0

variable (slots : List (List Nat))

/-- The record of one bucket: every plane's block unpacked and concatenated. -/
def bucketRecord (row base keyBits recordBytes bytesPerSlot planes : Nat) : StatusOr Bytes := do
  let chunks ← (List.range planes).mapM fun p =>
    unpackSlotsToBytes (bucketBlock (slots.getD p []) row base keyBits)
      (payloadBytesPerBlock keyBits bytesPerSlot) bytesPerSlot
  return resize recordBytes chunks.flatten

def decodeBucket (row base keyBits recordBytes bytesPerSlot planes : Nat) : StatusOr BucketResult :=
  let count := (bucketBlock (slots.getD planes []) row base keyBits).getD 0 0
  if count = 0 then .ok {}
  else if count ≥ 2 then .ok { present := true, collided := true, count := count }
  else do
    let record ← bucketRecord slots row base keyBits recordBytes bytesPerSlot planes
    return { present := true, count := count, record := record }

/-- The window of buckets read from the decoded planes. -/
def decodeWindow (keyBits recordBytes bytesPerSlot planes buckets offset limit : Nat) :
    StatusOr (List BucketResult) :=
  let row := (slots.getD 0 []).length / 2
  if row < keyBits then
    .error (internalError [bytes "decoded plane has fewer slots than key_bits"])
  else if row % buckets ≠ 0 then
    .error (internalError [bytes "slot row ", dec row, bytes " is not divisible by buckets ",
      dec buckets])
  else
    let stride := row / buckets
    let start := if offset < buckets then offset else buckets
    let remaining := buckets - start
    let window := if limit < remaining then limit else remaining
    (List.range' start window).mapM fun g =>
      decodeBucket slots row (g * stride) keyBits recordBytes bytesPerSlot planes

def decryptResults (keyBits recordBytes bytesPerSlot buckets offset limit : Nat) :
    StatusOr (List BucketResult) :=
  if buckets = 0 then .error (invalidArgument ["buckets must be positive"])
  else do
    let planes := payloadPlaneCount recordBytes keyBits bytesPerSlot
    let expected := u32 (planes + 1)
    let ciphers ← deserializeCiphertexts ctx blob expected
    if ciphers.length ≠ expected then
      .error (internalError [bytes "result has ", dec ciphers.length,
        bytes " ciphertexts, expected ", dec expected])
    else
      decodeWindow (ciphers.map fun cipher => decodeBatch ctx (decrypt cipher)) keyBits recordBytes
        bytesPerSlot planes buckets offset limit

end OpaqueDb.Crypto
