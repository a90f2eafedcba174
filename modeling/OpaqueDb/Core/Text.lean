/-
# Core.Text -- byte strings, statuses and the ASCII helpers

Every text of the source is a byte string, so `Bytes` is a list of bytes and not
a Lean `String`: a SQL text, a CSV cell and an identifier may hold any byte.  A
fallible function returns `StatusOr`, with the code and the message the source
builds.

The helpers are the string-library calls the modelled code makes: `ascii_isspace`
and its siblings, `StripAsciiWhitespace`, `StrCat` of integers, `StrSplit` with
`SkipEmpty`, and `SimpleAtoi` for the two integer widths.
-/
import Mathlib.Algebra.Group.Int.Defs
import Mathlib.Algebra.Ring.Nat
import Mathlib.Data.List.DropRight
import Mathlib.Data.List.Forall2

namespace OpaqueDb.Core

open List

set_option autoImplicit false

abbrev Bytes := List UInt8

/-- The bytes of an ASCII text. -/
def bytes (s : String) : Bytes :=
  s.toList.map fun c => UInt8.ofNat c.toNat

instance : Coe String Bytes := ⟨bytes⟩

/-- Byte strings are compared byte by byte, as `std::string` does. -/
instance Bytes.le_isTrans : IsTrans Bytes (· ≤ ·) :=
  ⟨fun _ _ _ => List.le_trans⟩

instance Bytes.le_antisymm : Std.Antisymm fun a b : Bytes => a ≤ b :=
  ⟨fun _ _ => List.le_antisymm⟩

instance Bytes.le_total : Std.Total fun a b : Bytes => a ≤ b :=
  ⟨List.le_total⟩

/-! ## Statuses -/

inductive StatusCode where
  | invalidArgument
  | outOfRange
  | unimplemented
  | notFound
  | alreadyExists
  | failedPrecondition
  | unauthenticated
  | permissionDenied
  | resourceExhausted
  | unavailable
  | dataLoss
  | internal
  /-- Not a code of the source: a read the source does not guard. -/
  | undefinedRead
  deriving DecidableEq, Repr

structure Status where
  code : StatusCode
  message : Bytes
  deriving DecidableEq, Repr

abbrev StatusOr (α : Type) := Except Status α

variable (pieces : List Bytes)

/-- `StrCat` of its pieces. -/
def strCat : Bytes :=
  pieces.flatten

def invalidArgument : Status :=
  ⟨.invalidArgument, strCat pieces⟩

def unimplemented : Status :=
  ⟨.unimplemented, strCat pieces⟩

def internalError : Status :=
  ⟨.internal, strCat pieces⟩

/-! ## Success of a status-returning computation -/

theorem bind_eq_ok {α β : Type} {x : StatusOr α} {f : α → StatusOr β} {b : β} :
    x >>= f = .ok b ↔ ∃ a, x = .ok a ∧ f a = .ok b := by
  cases x with
  | error e => simp [bind, Except.bind]
  | ok a => simp [bind, Except.bind]

theorem map_eq_ok {α β : Type} {x : StatusOr α} {f : α → β} {b : β} :
    f <$> x = .ok b ↔ ∃ a, x = .ok a ∧ f a = b := by
  cases x with
  | error e => simp
  | ok a => simp

theorem pure_eq_ok {α : Type} {a b : α} : (pure a : StatusOr α) = .ok b ↔ a = b := by
  simp [pure, Except.pure]

/-- A list computation succeeds when each of its elements does. -/
theorem mapM_eq_ok_iff {α β : Type} {f : α → StatusOr β} {l : List α} {r : List β} :
    l.mapM f = .ok r ↔ Forall₂ (fun a b => f a = .ok b) l r := by
  induction l generalizing r with
  | nil => simp [pure, Except.pure]
  | cons a l ih =>
    rw [mapM_cons, bind_eq_ok]
    constructor
    · rintro ⟨b, first, others⟩
      obtain ⟨bs, rest, last⟩ := bind_eq_ok.1 others
      obtain rfl := pure_eq_ok.1 last
      exact .cons first (ih.1 rest)
    · intro related
      cases related with
      | @cons _ b _ bs first rest => exact ⟨b, first, bind_eq_ok.2 ⟨bs, ih.2 rest, rfl⟩⟩

theorem exists_of_mem_mapM {α β : Type} {f : α → StatusOr β} {l : List α} {r : List β}
    (run : l.mapM f = .ok r) {b : β} (member : b ∈ r) : ∃ a ∈ l, f a = .ok b := by
  have related := mapM_eq_ok_iff.1 run
  clear run
  induction related with
  | nil => cases member
  | @cons a _ _ _ first rest ih =>
    rcases mem_cons.1 member with rfl | member
    · exact ⟨a, mem_cons_self, first⟩
    · obtain ⟨a', listed, known⟩ := ih member
      exact ⟨a', mem_cons_of_mem _ listed, known⟩

/-! ## ASCII -/

variable (c : UInt8)

/-- Space, or one of the five control characters from tab to carriage return. -/
def isSpace : Bool :=
  c == 32 || (9 ≤ c && c ≤ 13)

def isDigit : Bool :=
  48 ≤ c && c ≤ 57

def isAlpha : Bool :=
  (65 ≤ c && c ≤ 90) || (97 ≤ c && c ≤ 122)

def isAlnum : Bool :=
  isAlpha c || isDigit c

def toUpper : UInt8 :=
  if 97 ≤ c ∧ c ≤ 122 then c - 32 else c

def asciiStrToUpper (s : Bytes) : Bytes :=
  s.map toUpper

def toLower : UInt8 :=
  if 65 ≤ c ∧ c ≤ 90 then c + 32 else c

def asciiStrToLower (s : Bytes) : Bytes :=
  s.map toLower

def stripLeadingWhitespace (s : Bytes) : Bytes :=
  s.dropWhile isSpace

def stripTrailingWhitespace (s : Bytes) : Bytes :=
  s.rdropWhile isSpace

def stripAsciiWhitespace (s : Bytes) : Bytes :=
  stripTrailingWhitespace (stripLeadingWhitespace s)

/-! ## Trimmed texts -/

/-- No whitespace at either end. -/
structure Trimmed (s : Bytes) : Prop where
  head : ∀ c, s.head? = some c → isSpace c = false
  last : ∀ c, s.getLast? = some c → isSpace c = false

theorem strip_trimmed (s : Bytes) : Trimmed (stripAsciiWhitespace s) := by
  unfold stripAsciiWhitespace stripTrailingWhitespace stripLeadingWhitespace
  constructor
  · intro c first
    obtain ⟨rest, whole⟩ := rdropWhile_prefix isSpace (s.dropWhile isSpace)
    have leading : (s.dropWhile isSpace).head? = some c := by
      rw [← whole, head?_append, first]
      rfl
    have visible := head?_dropWhile_not isSpace s
    rw [leading] at visible
    exact visible
  · intro c last
    have nonempty : (s.dropWhile isSpace).rdropWhile isSpace ≠ [] := by
      intro empty
      rw [empty] at last
      cases last
    have visible := rdropWhile_last_not isSpace _ nonempty
    rw [getLast?_eq_some_getLast nonempty] at last
    cases last
    simpa using visible

variable {s : Bytes}

theorem Trimmed.strip (trimmed : Trimmed s) : stripAsciiWhitespace s = s := by
  unfold stripAsciiWhitespace stripTrailingWhitespace stripLeadingWhitespace
  have leading : s.dropWhile isSpace = s := by
    cases s with
    | nil => rfl
    | cons c s =>
      rw [dropWhile_cons, trimmed.head c rfl]
      rfl
  rw [leading, rdropWhile_eq_self_iff]
  intro nonempty
  have visible := trimmed.last _ (getLast?_eq_some_getLast nonempty)
  simp [visible]

/-- Text without whitespace is not stripped. -/
theorem stripAsciiWhitespace_of_solid (solid : ∀ c ∈ s, isSpace c = false) :
    stripAsciiWhitespace s = s :=
  Trimmed.strip ⟨fun c first => solid c (mem_of_mem_head? first),
    fun c last => solid c (mem_of_getLast? last)⟩

/-! ## Numbers in text -/

/-- The decimal digits of a natural number, as `StrCat` writes them. -/
def dec (n : Nat) : Bytes :=
  (Nat.toDigits 10 n).map fun c => UInt8.ofNat c.toNat

/-- `StrCat` of a signed integer. -/
def decInt (i : Int) : Bytes :=
  if i < 0 then bytes "-" ++ dec i.natAbs else dec i.natAbs

/-- The value of a run of decimal digits. -/
def digitsValue (s : Bytes) : Nat :=
  s.foldl (fun value c => value * 10 + (c.toNat - 48)) 0

variable (text : Bytes)

/-- The sign and the digits of a number text: surrounding whitespace and one
optional sign are consumed, and at least one digit must remain. -/
def parseSign : Option (Bool × Bytes) :=
  match stripAsciiWhitespace text with
  | [] => none
  | c :: rest =>
    let negative := c == 45
    let digits := if negative || c == 43 then rest else c :: rest
    if digits.isEmpty || !digits.all isDigit then none else some (negative, digits)

/-- `SimpleAtoi` into a signed 64-bit integer. -/
def simpleAtoi64 : Option Int :=
  match parseSign text with
  | none => none
  | some (negative, digits) =>
    let v : Int := if negative then -(digitsValue digits : Int) else digitsValue digits
    if -(2 ^ 63) ≤ v ∧ v < 2 ^ 63 then some v else none

/-- `SimpleAtoi` into an unsigned 64-bit integer: a minus sign is refused. -/
def simpleAtou64 : Option Nat :=
  match parseSign text with
  | none => none
  | some (negative, digits) =>
    if negative ∨ 2 ^ 64 ≤ digitsValue digits then none else some (digitsValue digits)

/-! ## Reading a printed number -/

variable {n : Nat}

theorem dec_digits {d : UInt8} (member : d ∈ dec n) : isDigit d = true := by
  obtain ⟨c, inside, rfl⟩ := mem_map.1 member
  have digit := Nat.isDigit_of_mem_toDigits (by decide) (by decide) inside
  simp only [Char.isDigit, Bool.and_eq_true, decide_eq_true_eq] at digit
  have bounds : 48 ≤ c.toNat ∧ c.toNat ≤ 57 := digit
  simp only [isDigit, Bool.and_eq_true, decide_eq_true_eq, UInt8.le_iff_toNat_le,
    UInt8.toNat_ofNat']
  rw [Nat.mod_eq_of_lt (by omega)]
  exact bounds

theorem dec_ne_nil (n : Nat) : dec n ≠ [] := by
  simp [dec]

theorem dec_length_le {k : Nat} (positive : 0 < k) (small : n < 10 ^ k) : (dec n).length ≤ k := by
  rw [dec, length_map]
  exact (Nat.length_toDigits_le_iff (by decide) positive).2 small

theorem digitsValue_dec (n : Nat) : digitsValue (dec n) = n := by
  have read : ∀ (cs : List Char) (init : Nat), (∀ c ∈ cs, c.toNat < 256) →
      (cs.map fun c => UInt8.ofNat c.toNat).foldl (fun value c => value * 10 + (c.toNat - 48)) init =
        Nat.ofDigitChars 10 cs init := by
    intro cs
    induction cs with
    | nil => exact fun init _ => Nat.ofDigitChars_nil.symm
    | cons c cs ih =>
      intro init small
      rw [map_cons, foldl_cons, ih _ fun d member => small d (mem_cons_of_mem _ member),
        UInt8.toNat_ofNat', Nat.mod_eq_of_lt (small c mem_cons_self), Nat.mul_comm]
      rfl
  rw [digitsValue, dec, read, Nat.ofDigitChars_toDigits (by decide) (by decide)]
  intro c member
  have digit := Nat.isDigit_of_mem_toDigits (by decide) (by decide) member
  simp only [Char.isDigit, Bool.and_eq_true, decide_eq_true_eq] at digit
  have bound : c.toNat ≤ 57 := digit.2
  omega

theorem isSpace_of_isDigit {c : UInt8} (digit : isDigit c = true) : isSpace c = false := by
  simp only [isDigit, isSpace, Bool.and_eq_true, decide_eq_true_eq,
    Bool.or_eq_false_iff, beq_eq_false_iff_ne, ne_eq, ← UInt8.toNat_inj, Bool.and_eq_false_iff,
    decide_eq_false_iff_not] at digit ⊢
  have lower : 48 ≤ c.toNat := digit.1
  refine ⟨?_, Or.inr ?_⟩
  · show ¬ c.toNat = 32
    omega
  · show ¬ c.toNat ≤ 13
    omega

variable {digits : Bytes}

theorem parseSign_digits (some_ : digits ≠ []) (all : ∀ d ∈ digits, isDigit d = true) :
    parseSign digits = some (false, digits) := by
  obtain ⟨c, rest, rfl⟩ := exists_cons_of_ne_nil some_
  have solid : stripAsciiWhitespace (c :: rest) = c :: rest :=
    stripAsciiWhitespace_of_solid fun d member => isSpace_of_isDigit (all d member)
  have first := all c mem_cons_self
  have unsigned : (c == 45) = false ∧ (c == 43) = false := by
    constructor <;> rw [beq_eq_false_iff_ne] <;> rintro rfl <;> revert first <;> decide
  rw [parseSign, solid]
  simp [unsigned.1, unsigned.2, all_eq_true.2 all]

theorem parseSign_minus (some_ : digits ≠ []) (all : ∀ d ∈ digits, isDigit d = true) :
    parseSign (bytes "-" ++ digits) = some (true, digits) := by
  have solid : stripAsciiWhitespace (bytes "-" ++ digits) = bytes "-" ++ digits := by
    refine stripAsciiWhitespace_of_solid fun d member => ?_
    rcases mem_append.1 member with sign | digit
    · rw [mem_singleton.1 sign]
      decide
    · exact isSpace_of_isDigit (all d digit)
  rw [parseSign, solid]
  show (if digits.isEmpty || !digits.all isDigit then none else some (true, digits)) = _
  rw [all_eq_true.2 all, if_neg (by simpa using some_)]

theorem simpleAtou64_printed (n : Nat) :
    simpleAtou64 (dec n) = if 2 ^ 64 ≤ n then none else some n := by
  rw [simpleAtou64, parseSign_digits (dec_ne_nil n) fun d member => dec_digits member]
  simp [digitsValue_dec]

theorem simpleAtou64_dec (small : n < 2 ^ 64) : simpleAtou64 (dec n) = some n := by
  rw [simpleAtou64_printed, if_neg (Nat.not_le.2 small)]

theorem simpleAtou64_lt {text : Bytes} (read : simpleAtou64 text = some n) : n < 2 ^ 64 := by
  unfold simpleAtou64 at read
  split at read
  · cases read
  · split at read
    · cases read
    · rename_i range
      cases read
      exact Nat.not_le.1 fun large => range (Or.inr large)

variable {i : Int}

theorem simpleAtou64_negative (negative : i < 0) : simpleAtou64 (decInt i) = none := by
  rw [simpleAtou64, decInt, if_pos negative,
    parseSign_minus (dec_ne_nil _) fun d member => dec_digits member]
  simp

theorem simpleAtoi64_decInt (low : -(2 ^ 63) ≤ i) (high : i < 2 ^ 63) :
    simpleAtoi64 (decInt i) = some i := by
  unfold simpleAtoi64 decInt
  by_cases negative : i < 0
  · rw [if_pos negative, parseSign_minus (dec_ne_nil _) fun d member => dec_digits member]
    have same : -((digitsValue (dec i.natAbs) : Nat) : Int) = i := by
      rw [digitsValue_dec]
      omega
    simp only [if_true, same, low, high, and_self]
  · rw [if_neg negative, parseSign_digits (dec_ne_nil _) fun d member => dec_digits member]
    have same : ((digitsValue (dec i.natAbs) : Nat) : Int) = i := by
      rw [digitsValue_dec]
      omega
    simp only [Bool.false_eq_true, if_false, same, low, high, and_self, if_true]

/-! ## Splitting -/

/-- `StrSplit` at every occurrence of `sep`: `n` separators give `n + 1` parts. -/
def strSplit (sep : UInt8) : Bytes → List Bytes
  | [] => [[]]
  | c :: rest =>
    if c = sep then [] :: strSplit sep rest
    else
      match strSplit sep rest with
      | [] => [[c]]
      | part :: parts => (c :: part) :: parts

/-- `StrSplit` with `SkipEmpty`. -/
def strSplitSkipEmpty (sep : UInt8) (s : Bytes) : List Bytes :=
  (strSplit sep s).filter fun part => !part.isEmpty

example : strSplitSkipEmpty 44 (bytes ",a,,bc") = [bytes "a", bytes "bc"] := by decide

theorem strSplit_ne_nil (sep : UInt8) (a : Bytes) : strSplit sep a ≠ [] := by
  cases a with
  | nil => exact cons_ne_nil _ _
  | cons c a =>
    rw [strSplit]
    split_ifs
    · exact cons_ne_nil _ _
    · split <;> exact cons_ne_nil _ _

theorem strSplit_append (sep : UInt8) (a b : Bytes) :
    strSplit sep (a ++ sep :: b) = strSplit sep a ++ strSplit sep b := by
  induction a with
  | nil => simp [strSplit]
  | cons c a ih =>
    rw [cons_append, strSplit, strSplit]
    by_cases same : c = sep
    · rw [if_pos same, if_pos same, ih, cons_append]
    · rw [if_neg same, if_neg same, ih]
      rcases parts : strSplit sep a with _ | ⟨part, others⟩
      · exact absurd parts (strSplit_ne_nil sep a)
      · rfl

variable {sep : UInt8}

theorem strSplit_of_absent {a : Bytes} (absent : sep ∉ a) : strSplit sep a = [a] := by
  induction a with
  | nil => rfl
  | cons c a ih =>
    obtain ⟨other, rest⟩ := not_or.1 (fun member => absent (mem_cons.2 member))
    rw [strSplit, if_neg (Ne.symm other), ih rest]

theorem absent_of_mem_strSplit {a part : Bytes} (member : part ∈ strSplit sep a) : sep ∉ part := by
  induction a generalizing part with
  | nil =>
    rw [mem_singleton.1 member]
    exact not_mem_nil
  | cons c a ih =>
    rw [strSplit] at member
    by_cases same : c = sep
    · rw [if_pos same] at member
      rcases mem_cons.1 member with rfl | later
      · exact not_mem_nil
      · exact ih later
    · rw [if_neg same] at member
      rcases parts : strSplit sep a with _ | ⟨first, others⟩
      · exact absurd parts (strSplit_ne_nil sep a)
      · rw [parts] at member ih
        rcases mem_cons.1 member with rfl | later
        · rw [mem_cons]
          exact not_or.2 ⟨Ne.symm same, ih mem_cons_self⟩
        · exact ih (mem_cons_of_mem _ later)

/-- Joined parts that do not hold the separator come apart again. -/
theorem strSplit_intercalate {parts : List Bytes} (some_ : parts ≠ [])
    (absent : ∀ part ∈ parts, sep ∉ part) :
    strSplit sep (intercalate [sep] parts) = parts := by
  induction parts with
  | nil => exact absurd rfl some_
  | cons part parts ih =>
    have here := strSplit_of_absent (absent part mem_cons_self)
    cases parts with
    | nil => simpa [intercalate] using here
    | cons next parts =>
      have later := ih (cons_ne_nil _ _) fun other member =>
        absent other (mem_cons_of_mem _ member)
      have joined : intercalate [sep] (part :: next :: parts) =
          part ++ sep :: intercalate [sep] (next :: parts) := by
        simp [intercalate]
      rw [joined, strSplit_append, here, later]
      rfl

end OpaqueDb.Core
