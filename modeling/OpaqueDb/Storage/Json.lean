/-
# Storage.Json -- JSON documents and the library that prints and reads them

A document is what the JSON library holds in memory: an integer is unsigned or signed, an
object is a map with its keys in order.

The library is a parameter (`JsonLibrary`): its parser reads back the documents that it prints, and
what it prints, with an indent of two, is bounded from both sides (`Json.atLeast`, `Json.atMost`).
`JsonLibrary.exact` meets the assumptions with a shorter notation of its own, in which no two
documents are written the same (`write_inj`).
-/
import OpaqueDb.Core.Text
import OpaqueDb.Theory.Radix
import Mathlib.Data.List.Lex

namespace OpaqueDb.Storage

open OpaqueDb.Core Theory List

set_option autoImplicit false

/-- A float is carried as the text it is printed as. -/
inductive Json where
  | null
  | bool (b : Bool)
  | unsigned (n : UInt64)
  | integer (i : Int64)
  | float (text : Bytes)
  | string (s : Bytes)
  | array (items : List Json)
  | object (fields : List (Bytes × Json))

namespace Json

def get? (j : Json) (key : String) : Option Json :=
  match j with
  | .object fields => fields.lookup (bytes key)
  | _ => none

/-! ## Documents in normal form -/

/-- A document as the parser returns it: no integer below 2^63 is held as a signed one, and
the keys of an object are in order. -/
inductive Canonical (Text : Bytes → Prop) : Json → Prop
  | null : Canonical Text .null
  | bool (b : Bool) : Canonical Text (.bool b)
  | unsigned (n : UInt64) : Canonical Text (.unsigned n)
  | integer {i : Int64} (negative : i.toInt < 0) : Canonical Text (.integer i)
  | string {s : Bytes} (text : Text s) : Canonical Text (.string s)
  | array {items : List Json} (each : ∀ j ∈ items, Canonical Text j) : Canonical Text (.array items)
  | object {fields : List (Bytes × Json)} (sorted : (fields.map Prod.fst).Pairwise (· < ·))
      (keys : ∀ field ∈ fields, Text field.1)
      (values : ∀ field ∈ fields, Canonical Text field.2) : Canonical Text (.object fields)

/-! ## How long a printed document is -/

/-- A byte that a string is printed with as it is. -/
def plainByte (c : UInt8) : Bool :=
  32 ≤ c && c != 34 && c != 92

/-- The quotes, and six characters for a byte that is escaped. -/
def quotedAtMost (s : Bytes) : Nat :=
  2 + (s.map fun c => if plainByte c then 1 else 6).sum

mutual

/-- The most a document takes at this indent, with its items and fields on lines of their own. -/
def atMost (indent : Nat) : Json → Nat
  | .null => 4
  | .bool _ => 5
  | .unsigned _ => 20
  | .integer _ => 20
  | .float text => text.length
  | .string s => quotedAtMost s
  | .array items => indent + 3 + itemsAtMost (indent + 2) items
  | .object fields => indent + 3 + fieldsAtMost (indent + 2) fields

def itemsAtMost (indent : Nat) : List Json → Nat
  | [] => 0
  | j :: rest => indent + 2 + atMost indent j + itemsAtMost indent rest

def fieldsAtMost (indent : Nat) : List (Bytes × Json) → Nat
  | [] => 0
  | (key, j) :: rest => indent + 4 + quotedAtMost key + atMost indent j + fieldsAtMost indent rest

end

mutual

/-- The least a document takes. -/
def atLeast : Json → Nat
  | .string s => s.length + 2
  | .array items => 2 + itemsAtLeast items
  | .object fields => 2 + fieldsAtLeast fields
  | _ => 0

def itemsAtLeast : List Json → Nat
  | [] => 0
  | j :: rest => atLeast j + itemsAtLeast rest

def fieldsAtLeast : List (Bytes × Json) → Nat
  | [] => 0
  | (_, j) :: rest => atLeast j + fieldsAtLeast rest

end

theorem atLeast_of_field {fields : List (Bytes × Json)} {key : Bytes} {j : Json}
    (listed : (key, j) ∈ fields) : atLeast j ≤ atLeast (.object fields) := by
  have inner : atLeast j ≤ fieldsAtLeast fields := by
    induction fields with
    | nil => cases listed
    | cons field rest ih =>
      rw [fieldsAtLeast]
      rcases mem_cons.1 listed with rfl | later
      · exact Nat.le_add_right _ _
      · exact (ih later).trans (Nat.le_add_left _ _)
  rw [atLeast]
  omega

theorem quotedAtMost_of_plain {s : Bytes} (plain : ∀ c ∈ s, plainByte c = true) :
    quotedAtMost s = 2 + s.length := by
  have ones : (s.map fun c => if plainByte c then 1 else 6) = s.map fun _ => 1 :=
    map_congr_left fun c member => if_pos (plain c member)
  simp [quotedAtMost, ones]

end Json

/-! ## The library -/

/-- The JSON library: the strings it prints, all ASCII ones among them, its printer, and a parser
that inverts it. -/
structure JsonLibrary where
  Text : Bytes → Prop
  text_of_ascii : ∀ s : Bytes, (∀ c ∈ s, c < 128) → Text s
  dump : Json → Bytes
  parse : Bytes → Option Json
  parse_dump : ∀ j : Json, j.Canonical Text → parse (dump j) = some j
  atLeast_le : ∀ j : Json, j.atLeast ≤ (dump j).length
  le_atMost : ∀ j : Json, (dump j).length ≤ j.atMost 0

/-! ## A library -/

namespace Json

/-- A string of ASCII characters ends before the first other byte. -/
def quote (s : Bytes) : Bytes :=
  34 :: (s ++ [255])

/-- The first byte of a document. -/
def tag : Json → Nat
  | .null => 110
  | .bool _ => 98
  | .unsigned _ => 117
  | .integer _ => 105
  | .float _ => 0
  | .string _ => 34
  | .array _ => 91
  | .object _ => 123

mutual

def write : Json → Bytes
  | .null => [110]
  | .bool b => [98, if b then 1 else 0]
  | .unsigned n => 117 :: leBytes 8 n.toNat
  | .integer i => 105 :: leBytes 8 i.toUInt64.toNat
  | .float text => text
  | .string s => quote s
  | .array items => 91 :: (writeItems items ++ [93])
  | .object fields => 123 :: (writeFields fields ++ [125])

def writeItems : List Json → Bytes
  | [] => []
  | j :: rest => write j ++ writeItems rest

def writeFields : List (Bytes × Json) → Bytes
  | [] => []
  | (key, j) :: rest => quote key ++ (write j ++ writeFields rest)

end

def Ascii (s : Bytes) : Prop :=
  ∀ c ∈ s, c < 128

variable {rest rest' : Bytes}

theorem quote_inj {s t : Bytes} (first : Ascii s) (second : Ascii t)
    (same : quote s ++ rest = quote t ++ rest') : s = t ∧ rest = rest' := by
  have cut : ∀ {s rest : Bytes}, Ascii s → (s ++ 255 :: rest).takeWhile (· < 128) = s := by
    intro s rest ascii
    rw [takeWhile_append_of_pos (by simpa [Ascii] using ascii), takeWhile_cons_of_neg (by decide), append_nil]
  simp only [quote, cons_append, append_assoc, nil_append, cons.injEq, true_and] at same
  obtain rfl : s = t := by rw [← cut first, same, cut second]
  exact ⟨rfl, (cons.inj (append_cancel_left same)).2⟩

theorem write_tag {j : Json} (canonical : Canonical Ascii j) :
    ∃ body, write j = UInt8.ofNat (tag j) :: body := by
  cases canonical <;> exact ⟨_, by rw [write]; rfl⟩

theorem tag_eq {j k : Json} (first : Canonical Ascii j) (second : Canonical Ascii k)
    (same : write j ++ rest = write k ++ rest') : tag j = tag k := by
  have small : ∀ j : Json, tag j < 256 := fun j => by cases j <;> simp [tag]
  obtain ⟨_, shape⟩ := write_tag first
  obtain ⟨_, shape'⟩ := write_tag second
  rw [shape, shape'] at same
  have tags := congrArg UInt8.toNat (cons.inj same).1
  rwa [UInt8.toNat_ofNat_of_lt' (small j), UInt8.toNat_ofNat_of_lt' (small k)] at tags

theorem leBytes_append_inj {n v w : Nat} (small : v < 256 ^ n)
    (small' : w < 256 ^ n) (same : leBytes n v ++ rest = leBytes n w ++ rest') :
    v = w ∧ rest = rest' := by
  obtain ⟨digits, others⟩ := append_inj same (by rw [leBytes_length, leBytes_length])
  exact ⟨leBytes_inj small small' digits, others⟩

/-- An item does not start like the end of an array. -/
theorem write_ne_end {j : Json} (canonical : Canonical Ascii j) :
    write j ++ rest ≠ 93 :: rest' := by
  obtain ⟨_, shape⟩ := write_tag canonical
  rw [shape]
  intro same
  have first := (cons.inj same).1
  cases canonical <;> simp [tag] at first

mutual

/-- **A document is read in one way only**, whatever follows it. -/
theorem write_inj (j : Json) {k : Json} {rest rest' : Bytes} (first : Canonical Ascii j)
    (second : Canonical Ascii k) (same : write j ++ rest = write k ++ rest') : j = k ∧ rest = rest' := by
  have tags := tag_eq first second same
  match j, k with
  | .null, .null => exact ⟨rfl, append_cancel_left same⟩
  | .bool b, .bool b' =>
    simp only [write, cons_append, nil_append, cons.injEq, true_and] at same
    refine ⟨?_, same.2⟩
    cases b <;> cases b' <;> simp_all
  | .unsigned a, .unsigned b =>
    simp only [write, cons_append, cons.injEq, true_and] at same
    obtain ⟨value, others⟩ := leBytes_append_inj a.toNat_lt b.toNat_lt same
    exact ⟨by rw [UInt64.toNat_inj.1 value], others⟩
  | .integer a, .integer b =>
    simp only [write, cons_append, cons.injEq, true_and] at same
    obtain ⟨value, others⟩ := leBytes_append_inj a.toUInt64.toNat_lt b.toUInt64.toNat_lt same
    exact ⟨by rw [← a.toInt64_toUInt64, UInt64.toNat_inj.1 value, b.toInt64_toUInt64], others⟩
  | .string s, .string t =>
    cases first with | string ascii =>
    cases second with | string ascii' =>
    simp only [write] at same
    obtain ⟨rfl, others⟩ := quote_inj ascii ascii' same
    exact ⟨rfl, others⟩
  | .array items, .array items' =>
    cases first with | array each =>
    cases second with | array each' =>
    simp only [write, cons_append, append_assoc, nil_append, cons.injEq, true_and] at same
    obtain ⟨rfl, others⟩ := writeItems_inj items each each' same
    exact ⟨rfl, others⟩
  | .object fields, .object fields' =>
    cases first with | object _ names values =>
    cases second with | object _ names' values' =>
    simp only [write, cons_append, append_assoc, nil_append, cons.injEq, true_and] at same
    obtain ⟨rfl, others⟩ := writeFields_inj fields
      (fun field member => ⟨names field member, values field member⟩)
      (fun field member => ⟨names' field member, values' field member⟩) same
    exact ⟨rfl, others⟩

theorem writeItems_inj (items : List Json) {items' : List Json} {rest rest' : Bytes}
    (first : ∀ j ∈ items, Canonical Ascii j) (second : ∀ j ∈ items', Canonical Ascii j)
    (same : writeItems items ++ 93 :: rest = writeItems items' ++ 93 :: rest') :
    items = items' ∧ rest = rest' := by
  match items, items' with
  | [], [] => exact ⟨rfl, (cons.inj same).2⟩
  | [], k :: items' =>
    rw [writeItems, writeItems, append_assoc] at same
    exact absurd same.symm (write_ne_end (second k mem_cons_self))
  | j :: items, [] =>
    rw [writeItems, writeItems, append_assoc] at same
    exact absurd same (write_ne_end (first j mem_cons_self))
  | j :: items, k :: items' =>
    rw [writeItems, writeItems, append_assoc, append_assoc] at same
    obtain ⟨rfl, later⟩ := write_inj j (first j mem_cons_self) (second k mem_cons_self) same
    obtain ⟨rfl, others⟩ := writeItems_inj items (fun j member => first j (mem_cons_of_mem _ member))
      (fun j member => second j (mem_cons_of_mem _ member)) later
    exact ⟨rfl, others⟩

theorem writeFields_inj (fields : List (Bytes × Json)) {fields' : List (Bytes × Json)}
    {rest rest' : Bytes}
    (first : ∀ field ∈ fields, Ascii field.1 ∧ Canonical Ascii field.2)
    (second : ∀ field ∈ fields', Ascii field.1 ∧ Canonical Ascii field.2)
    (same : writeFields fields ++ 125 :: rest = writeFields fields' ++ 125 :: rest') :
    fields = fields' ∧ rest = rest' := by
  match fields, fields' with
  | [], [] => exact ⟨rfl, (cons.inj same).2⟩
  | [], (key, k) :: fields' => cases (cons.inj same).1
  | (key, j) :: fields, [] => cases (cons.inj same).1
  | (key, j) :: fields, (key', k) :: fields' =>
    simp only [writeFields, append_assoc] at same
    have here := first (key, j) mem_cons_self
    have here' := second (key', k) mem_cons_self
    obtain ⟨rfl, value⟩ := quote_inj here.1 here'.1 same
    obtain ⟨rfl, later⟩ := write_inj j here.2 here'.2 value
    obtain ⟨rfl, others⟩ := writeFields_inj fields
      (fun field member => first field (mem_cons_of_mem _ member))
      (fun field member => second field (mem_cons_of_mem _ member)) later
    exact ⟨rfl, others⟩

end

theorem quote_length (s : Bytes) :
    s.length + 2 ≤ (quote s).length ∧ (quote s).length ≤ quotedAtMost s := by
  have ones : s.length ≤ (s.map fun c => if plainByte c then 1 else 6).sum := by
    induction s with
    | nil => simp
    | cons c s ih =>
      rw [map_cons, sum_cons, length_cons]
      split <;> omega
  simp only [quote, quotedAtMost, length_cons, length_append, length_nil]
  omega

mutual

theorem write_length (n : Nat) (j : Json) :
    atLeast j ≤ (write j).length ∧ (write j).length ≤ atMost n j := by
  match j with
  | .null => simp [atLeast, write, atMost]
  | .bool b => simp [atLeast, write, atMost]
  | .unsigned m => simp [atLeast, write, atMost, leBytes_length]
  | .integer i => simp [atLeast, write, atMost, leBytes_length]
  | .float text => simp [atLeast, write, atMost]
  | .string s =>
    rw [atLeast, write, atMost]
    exact quote_length s
  | .array items =>
    have inner := writeItems_length (n + 2) items
    simp only [atLeast, write, atMost, length_cons, length_append, length_nil]
    omega
  | .object fields =>
    have inner := writeFields_length (n + 2) fields
    simp only [atLeast, write, atMost, length_cons, length_append, length_nil]
    omega

theorem writeItems_length (n : Nat) (items : List Json) :
    itemsAtLeast items ≤ (writeItems items).length ∧
      (writeItems items).length ≤ itemsAtMost n items := by
  match items with
  | [] => simp [itemsAtLeast, writeItems]
  | j :: rest =>
    have here := write_length n j
    have later := writeItems_length n rest
    simp only [itemsAtLeast, writeItems, itemsAtMost, length_append]
    omega

theorem writeFields_length (n : Nat) (fields : List (Bytes × Json)) :
    fieldsAtLeast fields ≤ (writeFields fields).length ∧
      (writeFields fields).length ≤ fieldsAtMost n fields := by
  match fields with
  | [] => simp [fieldsAtLeast, writeFields]
  | (key, j) :: rest =>
    have name := quote_length key
    have here := write_length n j
    have later := writeFields_length n rest
    simp only [fieldsAtLeast, writeFields, fieldsAtMost, length_append]
    omega

end

end Json

open Classical in
/-- The parser that reads the written documents and nothing else. -/
noncomputable def JsonLibrary.exact : JsonLibrary where
  Text := Json.Ascii
  text_of_ascii _ ascii := ascii
  dump := Json.write
  parse text := if known : ∃ j : Json, j.Canonical Json.Ascii ∧ j.write = text then
    some known.choose else none
  parse_dump j canonical := by
    have known : ∃ k : Json, k.Canonical Json.Ascii ∧ k.write = j.write := ⟨j, canonical, rfl⟩
    have same : known.choose.write ++ [] = j.write ++ [] := by rw [known.choose_spec.2]
    rw [dif_pos known, (Json.write_inj _ known.choose_spec.1 canonical same).1]
  atLeast_le j := (Json.write_length 0 j).1
  le_atMost j := (Json.write_length 0 j).2

end OpaqueDb.Storage
