/-
# Core.Buffers -- counted strings in a buffer

A counted string is four bytes of length and then the string.  Its reader asks for the bytes that
are left before it reads, by a subtraction of sizes that would wrap below zero; a read of a byte
that is not there is `none`.

`readU32At_of_le` and `counted_of_read` say what is read where the check passes, and
`read_counted` that a counted string is read back.
-/
import OpaqueDb.Core.Records

namespace OpaqueDb.Core

open Theory List

set_option autoImplicit false

/-- A read that finds its bytes is passed on. -/
@[simp] theorem Reading.lift_some_bind {α β : Type} (a : α) (f : α → Reading β) :
    (Reading.lift (some a) >>= f) = f a := rfl

/-- A result that needs no byte. -/
def Reading.of {α : Type} (result : StatusOr α) : Reading α :=
  ExceptT.mk (some result)

@[simp] theorem Reading.of_ok_bind {α β : Type} (a : α) (f : α → Reading β) :
    (Reading.of (.ok a) >>= f) = f a := rfl

/-- A difference of sizes; below zero it wraps. -/
def sizeSub (a b : Nat) : Nat :=
  if b ≤ a then a - b else a + 2 ^ 64 - b

theorem sizeSub_of_le {a b : Nat} (le : b ≤ a) : sizeSub a b = a - b :=
  if_pos le

/-- The four bytes at an offset as a number, if the buffer has them. -/
def readU32At (b : Bytes) (offset : Nat) : Option (Option Nat) :=
  if offset > b.length ∨ sizeSub b.length offset < 4 then some none
  else (fun read => some (orBytes read)) <$> readBytes b offset 4

/-- The number four bytes make. -/
def u32Value (b : Bytes) (offset : Nat) : Nat :=
  leValue ((b.drop offset).take 4)

variable {offset : Nat}

theorem readU32At_of_le {b : Bytes} (inside : offset + 4 ≤ b.length) :
    readU32At b offset = some (some (u32Value b offset)) := by
  rw [readU32At, sizeSub_of_le (by omega), if_neg (by omega), readBytes_eq inside]
  exact congrArg (fun v => some (some v)) (orBytes_eq _)

theorem readU32At_of_lt {b : Bytes} (outside : b.length < offset + 4) :
    readU32At b offset = some none := by
  rw [readU32At, if_pos]
  by_cases past : offset > b.length
  · exact .inl past
  · rw [sizeSub_of_le (by omega)]
    omega

/-! ## Counted strings -/

def counted (s : Bytes) : Bytes :=
  leBytes 4 s.length ++ s

theorem counted_length (s : Bytes) : (counted s).length = 4 + s.length := by
  rw [counted, length_append, leBytes_length]

theorem u32Value_lt (b : Bytes) (offset : Nat) : u32Value b offset < 2 ^ 32 := by
  have bound : 256 ^ ((b.drop offset).take 4).length ≤ 256 ^ 4 :=
    Nat.pow_le_pow_right (by decide) (length_take_le ..)
  exact lt_of_lt_of_le (leValue_lt _) bound

/-- **What was read is a counted string.** -/
theorem counted_of_read {b : Bytes} (inside : offset + 4 + u32Value b offset ≤ b.length) :
    b.drop offset = counted ((b.drop (offset + 4)).take (u32Value b offset)) ++
      b.drop (offset + 4 + u32Value b offset) := by
  have four : ((b.drop offset).take 4).length = 4 := by
    rw [length_take, length_drop]
    omega
  have length : ((b.drop (offset + 4)).take (u32Value b offset)).length = u32Value b offset := by
    rw [length_take, length_drop]
    omega
  have count : leBytes 4 (u32Value b offset) = (b.drop offset).take 4 := by
    have field := leBytes_leValue ((b.drop offset).take 4)
    rwa [four] at field
  rw [counted, length, count, append_assoc, ← drop_drop (i := u32Value b offset), take_append_drop,
    ← drop_drop, take_append_drop]

/-- **A counted string is read back**, as long as its length has a field. -/
theorem read_counted {b s rest : Bytes} (at_ : b.drop offset = counted s ++ rest)
    (short : s.length < 2 ^ 32) : offset + 4 + s.length ≤ b.length ∧ u32Value b offset = s.length ∧
      (b.drop (offset + 4)).take s.length = s ∧ b.drop (offset + 4 + s.length) = rest := by
  have total := congrArg List.length at_
  rw [length_drop, length_append, counted_length] at total
  have behind : b.drop (offset + 4) = s ++ rest := by
    rw [← drop_drop, at_, counted, append_assoc, drop_left' (leBytes_length 4 _)]
  refine ⟨by omega, ?_, ?_, ?_⟩
  · rw [u32Value, at_, counted, append_assoc, take_left' (leBytes_length 4 _), leValue_leBytes]
    exact Nat.mod_eq_of_lt short
  · rw [behind, take_left]
  · rw [← drop_drop, behind, drop_left]

end OpaqueDb.Core
