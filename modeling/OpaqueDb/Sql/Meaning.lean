/-
# Sql.Meaning -- what a WHERE clause says, and that its plan says the same

A predicate tree has its usual reading on a row: a cell for each column, a value at each
value position.  The ordered operators and LIKE are taken as given, because the planner
refuses them; `=`, `<>`, IN, AND and OR are not.

The plan keeps only a column, an operator and a count of operands.  `planMatch_inv` says
which trees the planner lets through, and on those the two readings agree
(`Matches.holds_iff`).
-/
import OpaqueDb.Sql.LogicalPlan

namespace OpaqueDb.Sql

open OpaqueDb.Core List Sql.Predicate

set_option autoImplicit false

universe u

/-! ## Reading a predicate -/

/-- The comparisons of a type of values that are not equality. -/
structure Comparisons (V : Type u) where
  less : V → V → Prop
  atMost : V → V → Prop
  like : V → V → Prop

section Reading

variable {V : Type u} (order : Comparisons V)

def CompareOp.Holds : CompareOp → V → V → Prop
  | .eq, x, v => x = v
  | .ne, x, v => x ≠ v
  | .lt, x, v => order.less x v
  | .le, x, v => order.atMost x v
  | .gt, x, v => order.less v x
  | .ge, x, v => order.atMost v x

/-- The predicate is true on a row, given by its cells. -/
def Predicate.Holds (cell : Bytes → V) : Predicate V → Prop
  | .comparison column op v => op.Holds order (cell column) v
  | .inList column vs => ∃ v ∈ vs, cell column = v
  | .like column v => order.like (cell column) v
  | .between column low high => order.atMost low (cell column) ∧ order.atMost (cell column) high
  | .and left right => left.Holds cell ∧ right.Holds cell
  | .or left right => left.Holds cell ∨ right.Holds cell

variable {order} {cell : Bytes → V} {column : Bytes}

variable {p : Predicate V}

theorem Union.holds_iff (union : Union column p) : p.Holds order cell ↔ cell column ∈ p.values := by
  induction union with
  | equality v => simp [Predicate.Holds, CompareOp.Holds, values]
  | or _ _ first second =>
    simp [Predicate.Holds, values, first, second]

theorem Matches.holds_iff (matches_ : Matches column .eq p) :
    p.Holds order cell ↔ cell column ∈ p.values := by
  cases matches_ with
  | comparison v equality => simp [Predicate.Holds, CompareOp.Holds, values]
  | inList some_ => simp [Predicate.Holds, values]
  | or union => exact union.holds_iff

theorem Union.matches (union : Union column p) : Matches column .eq p := by
  cases union with
  | equality v => exact .comparison v (.inl rfl)
  | or first second => exact .or (.or first second)

/-- Only a single comparison is a match by `<>`. -/
theorem Matches.differs (matches_ : Matches column .ne p) :
    ∃ v, p.values = [v] ∧ (p.Holds order cell ↔ cell column ≠ v) := by
  cases matches_ with
  | comparison v equality => exact ⟨v, rfl, Iff.rfl⟩

end Reading

/-! ## What the planner lets through -/

/-- Every value position holds a bound parameter. -/
def Predicate.Bound (p : Predicate Parameter) : Prop :=
  ∃ names : List Bytes, p.values = names.map .bound

theorem Parameter.eq_bound {param : Parameter} (lifted : ¬ param.isLiteral = true) :
    param = .bound param.name := by
  cases param with
  | bound name => rfl
  | literal v => exact absurd rfl lifted

/-- The collector only gets through a union, on the column it started with if it had one. -/
theorem collect_inv : ∀ {p : Predicate Parameter} {found result : Collected},
    (∀ c ∈ p.columns, c ≠ []) → collect p found = .ok result →
    Union result.column p ∧ p.Bound ∧ result.column ≠ [] ∧
      (found.column = [] ∨ found.column = result.column)
  | .comparison column op param, found, result, named, collected => by
    have columnNamed : column ≠ [] := named column (mem_singleton_self _)
    unfold collect at collected
    split_ifs at collected with other literal fresh differs
    all_goals obtain rfl := Except.ok.inj collected
    all_goals obtain rfl : op = .eq := not_not.1 other
    all_goals
      have bound : (comparison column .eq param).Bound :=
        ⟨[param.name], by rw [values, map_singleton, ← Parameter.eq_bound literal]⟩
    · exact ⟨.equality param, bound, columnNamed, .inl (isEmpty_iff.1 fresh)⟩
    · obtain rfl : found.column = column := not_not.1 differs
      exact ⟨.equality param, bound, columnNamed, .inr rfl⟩
  | .or left right, found, result, named, collected => by
    obtain ⟨middle, first, second⟩ := bind_eq_ok.1 collected
    obtain ⟨unionLeft, ⟨before, boundLeft⟩, started, began⟩ :=
      collect_inv (fun c member => named c (mem_append_left _ member)) first
    obtain ⟨unionRight, ⟨after, boundRight⟩, ended, went⟩ :=
      collect_inv (fun c member => named c (mem_append_right _ member)) second
    have same : middle.column = result.column := went.resolve_left started
    rw [same] at unionLeft began
    refine ⟨.or unionLeft unionRight, ⟨before ++ after, ?_⟩, ended, began⟩
    rw [values, boundLeft, boundRight, map_append]
  | .inList _ _, _, _, _, collected => by cases collected
  | .like _ _, _, _, _, collected => by cases collected
  | .between _ _ _, _, _, _, collected => by cases collected
  | .and _ _, _, _, _, collected => by cases collected

/-- **The planner only accepts a match with bound values.** -/
theorem planMatch_inv {p : Predicate Parameter} (named : ∀ c ∈ p.columns, c ≠ []) {found : Match}
    (planned : planMatch p = .ok found) : Matches found.column found.op p ∧ p.Bound := by
  cases p with
  | comparison column op param =>
    simp only [planMatch] at planned
    split_ifs at planned with other literal
    obtain rfl := Except.ok.inj planned
    have equality : op = .eq ∨ op = .ne := by
      by_contra neither
      exact other ⟨fun same => neither (.inl same), fun same => neither (.inr same)⟩
    refine ⟨.comparison param equality, [param.name], ?_⟩
    rw [values, map_singleton, ← Parameter.eq_bound literal]
  | inList column params =>
    cases params with
    | nil => cases planned
    | cons first others =>
      simp only [planMatch] at planned
      split_ifs at planned with literal
      obtain rfl := Except.ok.inj planned
      refine ⟨.inList (cons_ne_nil _ _), (first :: others).map Parameter.name, ?_⟩
      rw [map_map]
      refine (map_id _).symm.trans (map_congr_left fun param member => ?_)
      refine Parameter.eq_bound fun lifted => literal ?_
      exact any_eq_true.2 ⟨param, member, lifted⟩
  | or left right =>
    obtain ⟨result, collected, planned⟩ := bind_eq_ok.1 planned
    obtain ⟨union, bound, _⟩ := collect_inv named collected
    cases parameters : result.parameters with
    | nil => rw [parameters] at planned; cases planned
    | cons first others =>
      rw [parameters] at planned
      obtain rfl := Except.ok.inj planned
      exact ⟨.or union, bound⟩
  | like column param => cases planned
  | between column low high => cases planned
  | and left right => cases planned

/-- A statement with a plan has a match with bound values for its WHERE, and the plan is its. -/
theorem buildLogicalPlan_inv {stmt : SelectStatement} (named : stmt.Named) {plan : LogicalPlan}
    (built : buildLogicalPlan stmt = .ok plan) :
    ∃ p, stmt.where_ = some p ∧ Matches plan.matchColumn plan.op p ∧ p.Bound ∧
      plan.matchOperands = p.values.length := by
  rcases where_ : stmt.where_ with _ | p
  · rw [buildLogicalPlan, where_] at built
    cases built
  · have planned := built
    rw [buildLogicalPlan, where_] at planned
    obtain ⟨found, matched, _⟩ := bind_eq_ok.1 planned
    obtain ⟨matches_, names, bound⟩ := planMatch_inv (named.where_ p where_).columns matched
    obtain ⟨_, rfl⟩ := (buildLogicalPlan_iff named where_ matches_ bound).1 built
    exact ⟨p, rfl, matches_, ⟨names, bound⟩, rfl⟩

/-! ## The plan of a parsed statement -/

/-- **The plan means what the WHERE clause says**, and every statement with such a WHERE
clause and no repeated column has a plan. -/
theorem plan_means_where {sql : Bytes} {stmt : SelectStatement} (parsed : parse sql = .ok stmt) :
    (∀ plan, buildLogicalPlan stmt = .ok plan →
      ∃ p, stmt.where_ = some p ∧ p.Bound ∧ plan.matchOperands = p.values.length ∧
        (plan.op = .eq ∨ plan.op = .ne) ∧
        ∀ (V : Type u) (order : Comparisons V) (assigned : Predicate V),
          assigned.shape = p.shape → ∀ cell : Bytes → V,
          (plan.op = .eq →
            (assigned.Holds order cell ↔ cell plan.matchColumn ∈ assigned.values)) ∧
          (plan.op = .ne →
            ∃ v, assigned.values = [v] ∧
              (assigned.Holds order cell ↔ cell plan.matchColumn ≠ v))) ∧
    ∀ p, stmt.where_ = some p → p.Bound → stmt.projection.Nodup →
      ((∃ column op param, p = .comparison column op param ∧ (op = .eq ∨ op = .ne)) ∨
        (∃ column params, p = .inList column params) ∨ ∃ column, Union column p) →
      ∃ plan, buildLogicalPlan stmt = .ok plan := by
  have named := parse_named parsed
  constructor
  · intro plan built
    obtain ⟨p, where_, matches_, bound, operands⟩ := buildLogicalPlan_inv named built
    refine ⟨p, where_, bound, operands, matches_.equality, ?_⟩
    intro V order assigned same cell
    have assignedMatch : Matches plan.matchColumn plan.op assigned := matches_.of_shape same
    constructor
    · intro equal
      rw [equal] at assignedMatch
      exact assignedMatch.holds_iff
    · intro differs
      rw [differs] at assignedMatch
      exact assignedMatch.differs
  · rintro p where_ ⟨names, bound⟩ distinct shape
    obtain ⟨column, op, matches_⟩ : ∃ column op, Matches column op p := by
      rcases shape with ⟨column, op, param, rfl, equality⟩ | ⟨column, params, rfl⟩ | ⟨column, union⟩
      · exact ⟨column, op, .comparison param equality⟩
      · exact ⟨column, .eq, .inList (named.where_ _ where_).valued⟩
      · exact ⟨column, .eq, union.matches⟩
    exact ⟨_, (buildLogicalPlan_iff named where_ matches_ bound).2 ⟨distinct, rfl⟩⟩

theorem plan_means_where_union :
    ∃ stmt, parse (bytes "SELECT a FROM t WHERE k = :v0 OR k = :v1") = .ok stmt ∧
      ∃ plan, buildLogicalPlan stmt = .ok plan ∧ plan.op = .eq ∧ plan.matchOperands = 2 ∧
        (or (.comparison (bytes "k") .eq 3) (.comparison (bytes "k") .eq 5)).Holds
          ⟨(· < ·), (· ≤ ·), (· = ·)⟩ (fun _ => 5) := by
  have parsed : parse (bytes "SELECT a FROM t WHERE k = :v0 OR k = :v1") = .ok
      { table := bytes "t"
        projection := [bytes "a"]
        projectionAliases := [bytes "a"]
        where_ := some (.or (.comparison (bytes "k") .eq (.bound (bytes "v0")))
          (.comparison (bytes "k") .eq (.bound (bytes "v1")))) } := by
    decide
  obtain ⟨means, accepts⟩ := plan_means_where parsed
  obtain ⟨plan, built⟩ := accepts _ rfl ⟨[bytes "v0", bytes "v1"], rfl⟩ (by decide)
    (.inr (.inr ⟨bytes "k", .or (.equality _) (.equality _)⟩))
  obtain ⟨p, same, _, operands, op, reads⟩ := means plan built
  obtain rfl := Option.some.inj same
  have twice : plan.op ≠ .ne := fun differs => by
    obtain ⟨v, single, _⟩ := (reads Nat ⟨(· < ·), (· ≤ ·), (· = ·)⟩
      (.or (.comparison (bytes "k") .eq 3) (.comparison (bytes "k") .eq 5)) rfl fun _ => 5).2 differs
    cases single
  have equal := op.resolve_right twice
  exact ⟨_, parsed, plan, built, equal, operands, ((reads Nat _ _ rfl _).1 equal).2 (by decide)⟩

end OpaqueDb.Sql
