/-
# Theory.Rearrange -- named values, rearranged together with their names

A permutation of `n` places moves the entries of a list of that length and leaves any other list
alone.  If names and values are rearranged alike, every name keeps its value (`lookup_rearrange`).
-/
import Mathlib.Data.Fintype.Perm

namespace OpaqueDb.Theory

set_option autoImplicit false

universe u v

/-- The list whose `i`-th entry was the `σ i`-th. -/
def rearrange {α : Type u} {n : Nat} (σ : Equiv.Perm (Fin n)) (l : List α) : List α :=
  if same : l.length = n then List.ofFn fun i => l.get ((σ i).cast same.symm) else l

section Rearrange

variable {α : Type u} {β : Type v} {n : Nat} (σ : Equiv.Perm (Fin n))

variable {l : List α}

theorem rearrange_of_length (same : l.length = n) :
    rearrange σ l = List.ofFn fun i => l.get ((σ i).cast same.symm) :=
  dif_pos same

theorem rearrange_of_other (other : l.length ≠ n) : rearrange σ l = l :=
  dif_neg other

theorem rearrange_perm (l : List α) : (rearrange σ l).Perm l := by
  by_cases same : l.length = n
  · subst same
    rw [rearrange_of_length σ rfl]
    have entries : List.ofFn l.get = l := List.ofFn_get l
    conv_rhs => rw [← entries]
    exact Equiv.Perm.ofFn_comp_perm σ l.get
  · rw [rearrange_of_other σ same]

theorem length_rearrange (l : List α) : (rearrange σ l).length = l.length :=
  (rearrange_perm σ l).length_eq

/-- One place has one order. -/
theorem rearrange_single (single : l.length = 1) : rearrange σ l = l := by
  obtain ⟨a, rfl⟩ := List.length_eq_one_iff.1 single
  exact List.perm_singleton.1 (rearrange_perm σ [a])

theorem getElem?_rearrange (same : l.length = n) (i : Fin n) :
    (rearrange σ l)[(i : Nat)]? = l[(σ i : Nat)]? := by
  have inside : (σ i : Nat) < l.length := same ▸ (σ i).isLt
  rw [rearrange_of_length σ same, List.getElem?_eq_getElem (by simp), List.getElem?_eq_getElem inside,
    List.getElem_ofFn]
  rfl

theorem map_rearrange (f : α → β) (l : List α) : (rearrange σ l).map f = rearrange σ (l.map f) := by
  by_cases same : l.length = n
  · rw [rearrange_of_length σ same, rearrange_of_length σ ((List.length_map f).trans same), List.map_ofFn]
    refine congrArg List.ofFn (funext fun i => ?_)
    simp
  · rw [rearrange_of_other σ same, rearrange_of_other σ (by rwa [List.length_map])]

variable [BEq α] [LawfulBEq α]

/-- The place of a name among names that are all different. -/
theorem findIdx?_of_nodup {names : List α} (once : names.Nodup) {name : α} {i : Nat}
    (at_ : names[i]? = some name) : names.findIdx? (· == name) = some i := by
  obtain ⟨inside, here⟩ := List.getElem?_eq_some_iff.1 at_
  rw [List.findIdx?_eq_some_iff_getElem]
  refine ⟨inside, by simp [here], fun j before same => ?_⟩
  have equal : names[j] = names[i] := by
    rw [here]
    simpa using same
  exact absurd ((once.getElem_inj_iff).1 equal) (Nat.ne_of_lt before)

/-- **A name keeps its value.** -/
theorem lookup_rearrange {names : List α} (once : names.Nodup) (whole : names.length = n)
    {values : List β} (same : values.length = n) {name : α} (listed : name ∈ names) :
    ∃ i j, names.findIdx? (· == name) = some i ∧ (rearrange σ names).findIdx? (· == name) = some j ∧
      (rearrange σ values)[j]? = values[i]? := by
  obtain ⟨i, inside, here⟩ := List.mem_iff_getElem.1 listed
  have at_ : names[i]? = some name := by rw [List.getElem?_eq_getElem inside, here]
  have place : (σ (σ.symm ⟨i, whole ▸ inside⟩) : Nat) = i := by rw [Equiv.apply_symm_apply]
  refine ⟨i, σ.symm ⟨i, whole ▸ inside⟩, findIdx?_of_nodup once at_, ?_, ?_⟩
  · refine findIdx?_of_nodup ((rearrange_perm σ names).nodup_iff.2 once) ?_
    rw [getElem?_rearrange σ whole, place, at_]
  · rw [getElem?_rearrange σ same, place]

end Rearrange

end OpaqueDb.Theory
