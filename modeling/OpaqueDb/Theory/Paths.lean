/-
# Theory.Paths -- where a path leads

A path is a list of components: names, `.` and `..`.  Walked from a place in a directory
tree it leads to another place, without looking at the tree: `..` undoes the last name,
stays put at the root and climbs out of a relative start.

A walk that never climbs above where it started (`inside`) ends under its start, wherever
that is (`walk_of_inside`).  One that does climb leaves some start for good
(`walk_escapes`): a start whose own name the walk never spells.
-/
import Mathlib.Data.List.Infix

namespace OpaqueDb.Theory

set_option autoImplicit false

universe u

inductive Component (α : Type u) where
  | here
  | up
  | name (a : α)
  deriving DecidableEq, Repr

/-- A place, seen from the root or from a working directory: so far up, then down these
names. -/
@[ext] structure Place (α : Type u) where
  absolute : Bool
  ups : Nat := 0
  names : List α := []
  deriving DecidableEq, Repr

variable {α : Type u}

variable {p : Place α}

namespace Place

def enter (p : Place α) : Component α → Place α
  | .here => p
  | .up =>
    if p.names.isEmpty then (if p.absolute then p else { p with ups := p.ups + 1 })
    else { p with names := p.names.dropLast }
  | .name a => { p with names := p.names ++ [a] }

def walk (p : Place α) (components : List (Component α)) : Place α :=
  components.foldl enter p

/-- `q` is `p` or somewhere under it. -/
def Within (p q : Place α) : Prop :=
  q.absolute = p.absolute ∧ q.ups = p.ups ∧ p.names <+: q.names

/-- `q` is strictly under `p`. -/
def Below (p q : Place α) : Prop :=
  p.Within q ∧ p ≠ q

theorem walk_append (p : Place α) (first second : List (Component α)) :
    p.walk (first ++ second) = (p.walk first).walk second :=
  List.foldl_append

@[simp] theorem walk_cons (p : Place α) (c : Component α) (cs : List (Component α)) :
    p.walk (c :: cs) = (p.enter c).walk cs := rfl

/-- The place under `p` along these names. -/
def down (p : Place α) (names : List α) : Place α :=
  { p with names := p.names ++ names }

theorem down_within_iff {first second : List α} :
    (p.down first).Within (p.down second) ↔ first <+: second := by
  simp [Within, down]

theorem down_below_iff {first second : List α} :
    (p.down first).Below (p.down second) ↔ first <+: second ∧ first ≠ second := by
  rw [Below, down_within_iff]
  simp [down]

end Place

/-! ## Walks that stay inside -/

/-- The names under the start after one more component; `none` above the start. -/
def descend : List α → Component α → Option (List α)
  | names, .here => some names
  | names, .up => if names.isEmpty then none else some names.dropLast
  | names, .name a => some (names ++ [a])

def insideFrom (names : List α) : List (Component α) → Option (List α)
  | [] => some names
  | c :: cs => (descend names c).bind fun next => insideFrom next cs

/-- The names a walk leaves under its start, if it never climbs above it. -/
def inside (components : List (Component α)) : Option (List α) :=
  insideFrom [] components

theorem insideFrom_names (names more : List α) :
    insideFrom names (more.map .name) = some (names ++ more) := by
  induction more generalizing names with
  | nil => simp [insideFrom]
  | cons a more ih => simp [insideFrom, descend, ih]

theorem enter_of_descend {names next : List α} {c : Component α}
    (descends : descend names c = some next) : (p.down names).enter c = p.down next := by
  cases c with
  | here => obtain rfl := Option.some.inj descends; rfl
  | up =>
    simp only [descend] at descends
    split_ifs at descends with none_
    obtain rfl := Option.some.inj descends
    have some_ : names ≠ [] := by simpa using none_
    have visible : (p.down names).names.isEmpty = false := by simp [Place.down, some_]
    rw [Place.enter, if_neg (by simp [visible])]
    simp only [Place.down]
    rw [List.dropLast_append_of_ne_nil some_]
  | name a =>
    obtain rfl := Option.some.inj descends
    simp [Place.enter, Place.down]

variable {cs : List (Component α)}

/-- **A walk that stays inside ends under its start**, whatever the start. -/
theorem walk_of_insideFrom {names ends : List α} (stays : insideFrom names cs = some ends) :
    (p.down names).walk cs = p.down ends := by
  induction cs generalizing names with
  | nil => obtain rfl := Option.some.inj stays; rfl
  | cons c cs ih =>
    obtain ⟨next, descends, later⟩ := Option.bind_eq_some_iff.1 stays
    rw [Place.walk_cons, enter_of_descend descends]
    exact ih later

theorem walk_of_inside {ends : List α} (stays : inside cs = some ends) :
    p.walk cs = p.down ends := by
  have same : p.down [] = p := by simp [Place.down]
  conv_lhs => rw [← same]
  exact walk_of_insideFrom stays

/-! ## Walks that climb out -/

theorem walk_avoids {x : α} (unspelled : .name x ∉ cs) (absent : x ∉ p.names) :
    x ∉ (p.walk cs).names := by
  induction cs generalizing p with
  | nil => exact absent
  | cons c cs ih =>
    refine ih (fun member => unspelled (List.mem_cons_of_mem _ member)) ?_
    cases c with
    | here => exact absent
    | up =>
      unfold Place.enter
      split_ifs
      · exact absent
      · exact absent
      · exact fun member => absent (List.dropLast_subset _ member)
    | name a =>
      have other : x ≠ a := fun same => unspelled (same ▸ List.mem_cons_self)
      simp [Place.enter, absent, other]

/-- **A walk that climbs out does not come back** to a start whose name it never spells. -/
theorem walk_escapes {x : α} (unspelled : .name x ∉ cs) {names : List α}
    (climbs : insideFrom names cs = none) :
    ¬ [x] <+: ((Place.mk true 0 [x]).down names |>.walk cs).names := by
  induction cs generalizing names with
  | nil => cases climbs
  | cons c cs ih =>
    have later : .name x ∉ cs := fun member => unspelled (List.mem_cons_of_mem _ member)
    rcases descends : descend names c with _ | next
    · obtain ⟨rfl, rfl⟩ : c = .up ∧ names = [] := by
        cases c with
        | here => cases descends
        | up =>
          refine ⟨rfl, ?_⟩
          simp only [descend] at descends
          split_ifs at descends with none_
          exact List.isEmpty_iff.1 none_
        | name a => cases descends
      have gone := walk_avoids later (p := Place.mk true 0 []) (x := x) (by simp)
      rintro ⟨rest, same⟩
      refine gone ?_
      have left : ((Place.mk true 0 [x]).down []).walk (.up :: cs) =
          (Place.mk true 0 []).walk cs := rfl
      rw [left] at same
      rw [← same]
      simp
    · rw [insideFrom, descends] at climbs
      rw [Place.walk_cons, enter_of_descend descends]
      exact ih later climbs

end OpaqueDb.Theory
