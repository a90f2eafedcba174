/-
# Crypto.Wire -- lists of ciphertexts as bytes

A list of ciphertexts travels as a four-byte count and then each ciphertext as a counted string.
The library that saves and loads a ciphertext is arbitrary (`CipherLibrary`); the reader is the
source's, with its moving offset, and a read of a byte that is not there is `none`.

Reading never leaves the buffer, whatever it holds (`readItems_spec`).  What is written is read
back, and what is accepted is a count and that many counted strings and nothing else
(`ciphertext_lists_framed`).  So the lists the other modules pass around instead of bytes stand for
their bytes.
-/
import OpaqueDb.Core.Buffers
import OpaqueDb.Crypto.Ops

namespace OpaqueDb.Crypto.Wire

open OpaqueDb.Core Theory List OpaqueDb.Core.Reading

set_option autoImplicit false

/-- Ciphertexts as the library has them.  A blob that does not load throws. -/
structure CipherLibrary (C : Type) where
  save : C → Bytes
  load : Bytes → Except Bytes C
  /-- Its parameters are the first of the modulus chain. -/
  topLevel : C → Bool
  /-- Its parameters name a level of the modulus chain. -/
  onChain : C → Bool
  size : C → Nat

section Wire

variable {C : Type} (lib : CipherLibrary C)

def serializeCiphertexts (ciphers : List C) : Bytes :=
  leBytes 4 ciphers.length ++ (ciphers.map fun cipher => counted (lib.save cipher)).flatten

/-- The `i`-th blob, loaded and checked. -/
def loadItem (requireTopLevel : Bool) (i : Nat) (blob : Bytes) : StatusOr C :=
  match lib.load blob with
  | .error what => .error (invalidArgument ["ciphertext ", dec i, " rejected: ", what])
  | .ok cipher =>
    if requireTopLevel ∧ ¬ lib.topLevel cipher then
      .error (invalidArgument
        ["ciphertext ", dec i, " has unexpected encryption parameters"])
    else if ¬ requireTopLevel ∧ ¬ lib.onChain cipher then
      .error (invalidArgument
        ["ciphertext ", dec i, " is not bound to a valid modulus level"])
    else if lib.size cipher < 2 ∨ lib.size cipher > 3 then
      .error (invalidArgument ["ciphertext ", dec i, " has unexpected size ",
        dec (lib.size cipher)])
    else .ok cipher

/-- The next `n` items, the first of them the `i`-th, and the offset behind them. -/
def readItems (requireTopLevel : Bool) (b : Bytes) : Nat → Nat → Nat → Reading (List C × Nat)
  | 0, _, offset => return ([], offset)
  | n + 1, i, offset => do
    match ← lift (readU32At b offset) with
    | none => fail (invalidArgument ["ciphertext ", dec i, ": truncated length"])
    | some length =>
      let offset := offset + 4
      if length > sizeSub b.length offset then
        fail (invalidArgument
          ["ciphertext ", dec i, ": length runs past the buffer"])
      else do
        let blob ← lift (readBytes b offset length)
        let cipher ← ExceptT.mk (some (loadItem lib requireTopLevel i blob))
        let (later, last) ← readItems requireTopLevel b n (i + 1) (offset + length)
        return (cipher :: later, last)

def deserializeCiphertexts (b : Bytes) (maxCount : UInt32) (requireTopLevel : Bool) :
    Reading (List C) := do
  match ← lift (readU32At b 0) with
  | none => fail (invalidArgument ["ciphertext list: truncated count"])
  | some count =>
    if count > maxCount.toNat then
      fail (invalidArgument ["ciphertext list declares ", dec count,
        " items, over the limit ", dec maxCount.toNat])
    else do
      let (ciphers, offset) ← readItems lib requireTopLevel b count 0 4
      if offset ≠ b.length then
        fail (invalidArgument ["ciphertext list has trailing bytes"])
      else return ciphers

/-- The ciphertext comes back through its blob, and the checks admit it. -/
structure CipherLibrary.Loadable (requireTopLevel : Bool) (cipher : C) : Prop where
  short : (lib.save cipher).length < 2 ^ 32
  loads : lib.load (lib.save cipher) = .ok cipher
  level : if requireTopLevel then lib.topLevel cipher = true else lib.onChain cipher = true
  size : 2 ≤ lib.size cipher ∧ lib.size cipher ≤ 3

variable {lib} {requireTopLevel : Bool}

theorem loadItem_save {cipher : C} (loadable : lib.Loadable requireTopLevel cipher) (i : Nat) :
    loadItem lib requireTopLevel i (lib.save cipher) = .ok cipher := by
  have level := loadable.level
  have size := loadable.size
  have fits : ¬ (lib.size cipher < 2 ∨ lib.size cipher > 3) := by omega
  unfold loadItem
  rw [loadable.loads]
  cases requireTopLevel with
  | true => simp_all
  | false => simp_all

theorem load_of_loadItem {i : Nat} {blob : Bytes} {cipher : C}
    (loaded : loadItem lib requireTopLevel i blob = .ok cipher) : lib.load blob = .ok cipher := by
  unfold loadItem at loaded
  split at loaded
  · cases loaded
  · rename_i found known
    split_ifs at loaded
    cases loaded
    exact known

/-! ## Reading -/

/-- The buffer holds these blobs as counted strings from one offset to the other, and they load to
these ciphertexts. -/
structure Items (lib : CipherLibrary C) (b : Bytes) (offset : Nat) (ciphers : List C) (last : Nat)
    (blobs : List Bytes) : Prop where
  inside : last ≤ b.length
  between : b.drop offset = (blobs.map counted).flatten ++ b.drop last
  short : ∀ blob ∈ blobs, blob.length < 2 ^ 32
  loaded : Forall₂ (fun blob cipher => lib.load blob = .ok cipher) blobs ciphers

variable (lib requireTopLevel) in
/-- **The loop** never leaves the buffer: it ends with an error, or it has read that many items. -/
theorem readItems_spec (b : Bytes) (n i : Nat) {offset : Nat} (start : offset ≤ b.length) :
    (∃ status, readItems lib requireTopLevel b n i offset = some (.error status)) ∨
      ∃ ciphers last blobs, readItems lib requireTopLevel b n i offset = some (.ok (ciphers, last)) ∧
        ciphers.length = n ∧ Items lib b offset ciphers last blobs := by
  induction n generalizing i offset with
  | zero => exact .inr ⟨[], offset, [], rfl, rfl, start, rfl, by simp, .nil⟩
  | succ n ih =>
    unfold readItems
    by_cases front : offset + 4 ≤ b.length
    swap
    · rw [readU32At_of_lt (by omega)]
      exact .inl ⟨_, rfl⟩
    rw [readU32At_of_le front, lift_some_bind]
    dsimp only
    rw [sizeSub_of_le front]
    by_cases long : u32Value b offset > b.length - (offset + 4)
    · rw [if_pos long]
      exact .inl ⟨_, rfl⟩
    rw [if_neg long, readBytes_eq (by omega), lift_some_bind]
    have inside : offset + 4 + u32Value b offset ≤ b.length := by omega
    cases found : loadItem lib requireTopLevel i ((b.drop (offset + 4)).take (u32Value b offset)) with
    | error status => exact .inl ⟨status, rfl⟩
    | ok cipher =>
      have here := counted_of_read inside
      rcases ih (i + 1) inside with ⟨status, rest⟩ | ⟨ciphers, last, blobs, rest, count, items⟩
      · refine .inl ⟨status, ?_⟩
        show (readItems lib requireTopLevel b n (i + 1) (offset + 4 + u32Value b offset) >>=
          fun read => pure (cipher :: read.1, read.2) : Reading (List C × Nat)) = _
        rw [rest]
        rfl
      · refine .inr ⟨cipher :: ciphers, last,
          (b.drop (offset + 4)).take (u32Value b offset) :: blobs, ?_, congrArg Nat.succ count,
          items.inside, ?_, ?_, .cons (load_of_loadItem found) items.loaded⟩
        · show (readItems lib requireTopLevel b n (i + 1) (offset + 4 + u32Value b offset) >>=
            fun read => pure (cipher :: read.1, read.2) : Reading (List C × Nat)) = _
          rw [rest]
          rfl
        · rw [here, items.between, map_cons, flatten_cons, append_assoc]
        · refine forall_mem_cons.2 ⟨?_, items.short⟩
          exact lt_of_le_of_lt (length_take_le _ _) (u32Value_lt b offset)

variable {ciphers : List C}

/-- Written items are read back. -/
theorem readItems_written (loadable : ∀ cipher ∈ ciphers, lib.Loadable requireTopLevel cipher)
    {b rest : Bytes} (i : Nat) {offset : Nat} (written : b.drop offset =
      (ciphers.map fun cipher => counted (lib.save cipher)).flatten ++ rest) :
    ∃ last, readItems lib requireTopLevel b ciphers.length i offset = some (.ok (ciphers, last)) ∧
      b.drop last = rest ∧ (offset ≤ b.length → last ≤ b.length) := by
  induction ciphers generalizing i offset with
  | nil => exact ⟨offset, rfl, written, id⟩
  | cons cipher ciphers ih =>
    have first := loadable cipher mem_cons_self
    rw [map_cons, flatten_cons, append_assoc] at written
    obtain ⟨inside, length, blob, behind⟩ := read_counted written first.short
    obtain ⟨last, read, end_, within⟩ := ih
      (fun other member => loadable other (mem_cons_of_mem cipher member)) (i + 1) behind
    refine ⟨last, ?_, end_, fun _ => within inside⟩
    rw [length_cons]
    unfold readItems
    rw [readU32At_of_le (by omega), lift_some_bind, length]
    dsimp only
    rw [sizeSub_of_le (by omega), if_neg (by omega), readBytes_eq inside, lift_some_bind, blob,
      loadItem_save first]
    rw [read]
    rfl

/-! ## Whole lists -/

variable (lib requireTopLevel) in
/-- Reading a list ends with an error, or the bytes are a count and that many items. -/
theorem deserializeCiphertexts_spec (b : Bytes) (maxCount : UInt32) :
    (∃ status, deserializeCiphertexts lib b maxCount requireTopLevel = some (.error status)) ∨
      ∃ ciphers blobs, deserializeCiphertexts lib b maxCount requireTopLevel = some (.ok ciphers) ∧
        ciphers.length ≤ maxCount.toNat ∧
        b = leBytes 4 ciphers.length ++ (blobs.map counted).flatten ∧
        (∀ blob ∈ blobs, blob.length < 2 ^ 32) ∧
        Forall₂ (fun blob cipher => lib.load blob = .ok cipher) blobs ciphers := by
  unfold deserializeCiphertexts
  by_cases front : 0 + 4 ≤ b.length
  swap
  · rw [readU32At_of_lt (by omega)]
    exact .inl ⟨_, rfl⟩
  rw [readU32At_of_le front, lift_some_bind]
  dsimp only
  by_cases many : u32Value b 0 > maxCount.toNat
  · rw [if_pos many]
    exact .inl ⟨_, rfl⟩
  rw [if_neg many]
  rcases readItems_spec lib requireTopLevel b (u32Value b 0) 0
    (show 4 ≤ b.length by omega) with ⟨status, read⟩ | ⟨ciphers, last, blobs, read, count, items⟩
  · rw [read]
    exact .inl ⟨status, rfl⟩
  · rw [read]
    by_cases whole : last = b.length
    swap
    · refine .inl ⟨invalidArgument ["ciphertext list has trailing bytes"], ?_⟩
      show (if last ≠ b.length then _ else _ : Reading (List C)) = _
      rw [if_pos whole]
      rfl
    refine .inr ⟨ciphers, blobs, ?_, by omega, ?_, items.short, items.loaded⟩
    · show (if last ≠ b.length then _ else _ : Reading (List C)) = _
      rw [if_neg (not_not.2 whole)]
      rfl
    · have four : (b.take 4).length = 4 := by
        rw [length_take]
        omega
      have field := leBytes_leValue (b.take 4)
      rw [four] at field
      have between := items.between
      rw [whole, drop_length, append_nil] at between
      rw [← between, count, u32Value, drop_zero, field, take_append_drop]

theorem serializeCiphertexts_length (ciphers : List C) :
    (serializeCiphertexts lib ciphers).length =
      4 + (ciphers.map fun cipher => counted (lib.save cipher)).flatten.length := by
  rw [serializeCiphertexts, length_append, leBytes_length]

/-- The count in front is the number of ciphertexts, if it has a field. -/
theorem serializeCiphertexts_count (small : ciphers.length < 2 ^ 32) :
    u32Value (serializeCiphertexts lib ciphers) 0 = ciphers.length := by
  rw [u32Value, drop_zero, serializeCiphertexts, take_left' (leBytes_length 4 _), leValue_leBytes]
  exact Nat.mod_eq_of_lt small

/-- A list that fits the limit is read back. -/
theorem deserializeCiphertexts_written {maxCount : UInt32} (few : ciphers.length ≤ maxCount.toNat)
    (loadable : ∀ cipher ∈ ciphers, lib.Loadable requireTopLevel cipher) :
    deserializeCiphertexts lib (serializeCiphertexts lib ciphers) maxCount requireTopLevel =
      some (.ok ciphers) := by
  have small : ciphers.length < 2 ^ 32 := lt_of_le_of_lt few maxCount.toNat_lt
  have length : (serializeCiphertexts lib ciphers).length = _ := serializeCiphertexts_length ciphers
  have behind : (serializeCiphertexts lib ciphers).drop 4 =
      (ciphers.map fun cipher => counted (lib.save cipher)).flatten ++ [] := by
    rw [serializeCiphertexts, drop_left' (leBytes_length 4 _), append_nil]
  obtain ⟨last, read, end_, within⟩ := readItems_written loadable 0 behind
  have whole : last = (serializeCiphertexts lib ciphers).length := by
    have past := drop_eq_nil_iff.1 end_
    omega
  unfold deserializeCiphertexts
  rw [readU32At_of_le (by omega), lift_some_bind, serializeCiphertexts_count small]
  dsimp only
  rw [if_neg (by omega), read]
  show (if last ≠ (serializeCiphertexts lib ciphers).length then _ else _ : Reading (List C)) = _
  rw [if_neg (not_not.2 whole)]
  rfl

end Wire

/-- **Ciphertext lists are framed.** -/
theorem ciphertext_lists_framed {C : Type} (lib : CipherLibrary C) (maxCount : UInt32)
    (requireTopLevel : Bool) :
    (∀ ciphers : List C, ciphers.length ≤ maxCount.toNat →
      (∀ cipher ∈ ciphers, lib.Loadable requireTopLevel cipher) →
      deserializeCiphertexts lib (serializeCiphertexts lib ciphers) maxCount requireTopLevel =
        some (.ok ciphers)) ∧
    (∀ b ciphers, deserializeCiphertexts lib b maxCount requireTopLevel = some (.ok ciphers) →
      ∃ blobs : List Bytes, ciphers.length ≤ maxCount.toNat ∧
        b = leBytes 4 ciphers.length ++ (blobs.map counted).flatten ∧
        (∀ blob ∈ blobs, blob.length < 2 ^ 32) ∧
        Forall₂ (fun blob cipher => lib.load blob = .ok cipher) blobs ciphers) ∧
    ∀ b, deserializeCiphertexts lib b maxCount requireTopLevel ≠ none := by
  refine ⟨fun ciphers few loadable => deserializeCiphertexts_written few loadable, ?_, ?_⟩
  · intro b ciphers accepted
    rcases deserializeCiphertexts_spec lib requireTopLevel b maxCount with
      ⟨status, failed⟩ | ⟨found, blobs, read, few, shape, short, loaded⟩
    · cases failed.symm.trans accepted
    · cases read.symm.trans accepted
      exact ⟨blobs, few, shape, short, loaded⟩
  · intro b past
    rcases deserializeCiphertexts_spec lib requireTopLevel b maxCount with
      ⟨status, failed⟩ | ⟨found, blobs, read, _⟩
    · cases failed.symm.trans past
    · cases read.symm.trans past

/-- A library of single bytes, all of them fresh. -/
def byteLibrary : CipherLibrary UInt8 where
  save cipher := [cipher]
  load
    | [cipher] => .ok cipher
    | _ => .error (bytes "not a ciphertext")
  topLevel _ := true
  onChain _ := true
  size _ := 2

/-- Two ciphertexts travel. -/
theorem two_ciphertexts_framed :
    (∀ cipher ∈ [7, 9], byteLibrary.Loadable true cipher) ∧
    serializeCiphertexts byteLibrary [7, 9] = [2, 0, 0, 0, 1, 0, 0, 0, 7, 1, 0, 0, 0, 9] ∧
    deserializeCiphertexts byteLibrary (serializeCiphertexts byteLibrary [7, 9]) 2 true =
      some (.ok [7, 9]) := by
  have loadable : ∀ cipher ∈ [7, 9], byteLibrary.Loadable true cipher := fun cipher _ =>
    ⟨by simp [byteLibrary], rfl, rfl, by simp [byteLibrary]⟩
  exact ⟨loadable, by decide, (ciphertext_lists_framed byteLibrary 2 true).1 _ (by decide) loadable⟩

end OpaqueDb.Crypto.Wire
