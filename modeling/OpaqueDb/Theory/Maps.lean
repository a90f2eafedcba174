/-
# Theory.Maps -- selecting and listing the entries of a finite map

Two operations of an ordered map that `Finmap` does not have: dropping every entry that
fails a test, and walking over the entries in the order of their keys.
-/
import Mathlib.Data.Finmap
import Mathlib.Data.Finset.Sort

namespace OpaqueDb.Theory

set_option autoImplicit false

section Maps

variable {κ α : Type}

/-- The entries that pass the test. -/
def keep (test : κ → α → Bool) (m : Finmap fun _ : κ => α) : Finmap fun _ : κ => α where
  entries := m.entries.filter fun entry => test entry.1 entry.2
  nodupKeys := Multiset.nodup_keys.1
    (Multiset.nodup_of_le (Multiset.map_le_map (Multiset.filter_le _ _))
      (Multiset.nodup_keys.2 m.nodupKeys))

@[simp] theorem lookup_keep [DecidableEq κ] (test : κ → α → Bool) (m : Finmap fun _ : κ => α)
    (k : κ) : (keep test m).lookup k = (m.lookup k).filter (test k) := by
  ext a
  rw [Finmap.lookup_eq_some_iff, Option.filter_eq_some_iff, Finmap.lookup_eq_some_iff]
  exact Multiset.mem_filter

theorem keep_of_all [DecidableEq κ] {test : κ → α → Bool} {m : Finmap fun _ : κ => α}
    (all : ∀ k a, m.lookup k = some a → test k a = true) : keep test m = m := by
  refine Finmap.ext_lookup fun k => ?_
  rw [lookup_keep]
  rcases found : m.lookup k with _ | a
  · rfl
  · exact Option.filter_some_pos (all k a found)

section Listing

variable [DecidableEq κ] [LE κ] [DecidableLE κ] [IsTrans κ (· ≤ ·)]
  [Std.Antisymm fun a b : κ => a ≤ b] [Std.Total fun a b : κ => a ≤ b]

/-- The entries in the order of their keys. -/
def listing (m : Finmap fun _ : κ => α) : List (κ × α) :=
  (m.keys.sort (· ≤ ·)).filterMap fun k => (m.lookup k).map (k, ·)

variable (m : Finmap fun _ : κ => α)

@[simp] theorem mem_listing (k : κ) (a : α) : (k, a) ∈ listing m ↔ m.lookup k = some a := by
  simp only [listing, List.mem_filterMap, Finset.mem_sort, Option.map_eq_some_iff,
    Prod.mk.injEq]
  constructor
  · rintro ⟨_, _, _, found, rfl, rfl⟩
    exact found
  · exact fun found => ⟨k, Finmap.mem_of_lookup_eq_some found, a, found, rfl, rfl⟩

theorem listing_keys : (listing m).map Prod.fst = m.keys.sort (· ≤ ·) := by
  rw [listing, List.map_filterMap]
  refine (List.filterMap_congr fun k member => ?_).trans List.filterMap_some
  rw [Finset.mem_sort, Finmap.mem_keys, Finmap.mem_iff] at member
  obtain ⟨a, found⟩ := member
  rw [found]
  rfl

theorem listing_nodup : ((listing m).map Prod.fst).Nodup := by
  rw [listing_keys]
  exact Finset.sort_nodup _ _

/-- The entries in order are looked up as the map is. -/
theorem lookup_listing [BEq κ] [LawfulBEq κ] (k : κ) : (listing m).lookup k = m.lookup k := by
  have first : ∀ {l : List (κ × α)}, (l.map Prod.fst).Nodup → ∀ {a}, (k, a) ∈ l →
      l.lookup k = some a := by
    intro l once a member
    induction l with
    | nil => cases member
    | cons entry l ih =>
      obtain ⟨new, once⟩ := List.nodup_cons.1 once
      rcases List.mem_cons.1 member with rfl | later
      · exact List.lookup_cons_self
      · have other : k ≠ entry.1 := by
          rintro rfl
          exact new (List.mem_map.2 ⟨_, later, rfl⟩)
        rw [List.lookup_cons, beq_false_of_ne other]
        exact ih once later
  cases found : m.lookup k with
  | some a => exact first (listing_nodup m) ((mem_listing m k a).2 found)
  | none =>
    rw [List.lookup_eq_none_iff]
    rintro ⟨k', a⟩ member
    rw [bne_iff_ne]
    rintro rfl
    rw [(mem_listing m k a).1 member] at found
    cases found

end Listing

end Maps

end OpaqueDb.Theory
