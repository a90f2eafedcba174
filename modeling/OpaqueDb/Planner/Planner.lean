/-
# Planner.Planner -- a logical plan against a schema and the registered backends

`plan` resolves the match column, routes the operator by the column's encoding,
expands the projection and picks a backend.  The registry holds what each linked
backend declares; the source links one, `reference`.

`plan_eq_ok` lists what an accepted plan has established.
-/
import OpaqueDb.Backend.Reference
import OpaqueDb.Sql.LogicalPlan

namespace OpaqueDb.Planner

open OpaqueDb.Core Backend Sql

set_option autoImplicit false

inductive Privacy where
  | queryPrivate
  | dataPrivate
  | fullyPrivate
  deriving DecidableEq, Repr

/-- What the planner reads of a backend's capabilities. -/
structure BackendCapabilities where
  name : Bytes
  operators : List Op
  privacyModes : List Privacy
  deriving DecidableEq, Repr

variable (caps : BackendCapabilities)

def BackendCapabilities.supports (op : Op) : Bool :=
  caps.operators.contains op

def BackendCapabilities.supportsPrivacy (privacy : Privacy) : Bool :=
  caps.privacyModes.contains privacy

/-- `ReferenceBackend::StaticCapabilities`. -/
def referenceCapabilities : BackendCapabilities where
  name := bytes "reference"
  operators := [.eq, .ne]
  privacyModes := [.queryPrivate]

/-- The linked backends, by name. -/
def registered : List BackendCapabilities :=
  [referenceCapabilities]

structure PhysicalPlan where
  table : Bytes
  backendName : Bytes
  op : Op
  matchColumn : Bytes
  matchColumnIndex : Nat
  parameter : Bytes
  matchOperands : Nat
  count : Bool
  projection : List Bytes
  projectionIndices : List Nat
  limit : Option Nat
  offset : Option Nat
  deriving DecidableEq, Repr

def routeOperator (encoding : ColumnEncoding) (op : CompareOp) : StatusOr Op :=
  match encoding with
  | .eq | .index =>
    match op with
    | .eq => .ok .eq
    | .ne => .ok .ne
    | _ => .error (invalidArgument ["an EQ or INDEX column supports only '=' and '<>'; ",
        "declare a RANGE encoding for ordered comparisons"])
  | .prefix_ => .error (unimplemented ["PREFIX column matching is not yet evaluated"])
  | .range => .error (unimplemented ["RANGE column matching is not yet evaluated"])
  | .raw => .error (invalidArgument ["a RAW column is payload only and cannot be matched"])

variable (all : List BackendCapabilities)

def selectBackend (op : Op) (backendHint : Bytes) : StatusOr Bytes :=
  if !backendHint.isEmpty then
    match all.find? fun caps => caps.name == backendHint with
    | none => .error ⟨.notFound, strCat ["no backend named '", backendHint,
        "' is registered"]⟩
    | some caps =>
      if !caps.supports op then
        .error ⟨.failedPrecondition, strCat ["backend '", backendHint,
          "' does not support ", op.toBytes]⟩
      else if !caps.supportsPrivacy .queryPrivate then
        .error ⟨.failedPrecondition, strCat ["backend '", backendHint,
          "' does not support QueryPrivate mode"]⟩
      else .ok caps.name
  else
    match all.find? fun caps => caps.supports op && caps.supportsPrivacy .queryPrivate with
    | some caps => .ok caps.name
    | none => .error ⟨.notFound, strCat ["no registered backend supports ", op.toBytes,
        " in QueryPrivate mode"]⟩

/-- The projected columns with their indices: none for a count, every column but the
primary key for `*`. -/
def resolveProjection (schema : Schema) (logical : LogicalPlan) : StatusOr (List (Bytes × Nat)) :=
  if logical.count then .ok []
  else if logical.selectAll then
    .ok ((schema.columns.zipIdx.filter fun p => p.1.encoding != .eq).map fun p => (p.1.name, p.2))
  else logical.projection.mapM fun column =>
    match schema.indexOf column with
    | none => .error (invalidArgument ["unknown projected column '", column, "'"])
    | some index => .ok (column, index)

def plan (schema : Schema) (logical : LogicalPlan) (backendHint : Bytes) : StatusOr PhysicalPlan :=
  if logical.table ≠ schema.table then
    .error (invalidArgument ["query names table '", logical.table,
      "' but the schema is '", schema.table, "'"])
  else
    match schema.indexOf logical.matchColumn with
    | none => .error (invalidArgument ["unknown match column '", logical.matchColumn, "'"])
    | some matchIndex => do
      let op ← routeOperator (schema.columns.getD matchIndex { name := [] }).encoding logical.op
      let projected ← resolveProjection schema logical
      let backendName ← selectBackend all op backendHint
      return {
        table := logical.table
        backendName := backendName
        op := op
        matchColumn := logical.matchColumn
        matchColumnIndex := matchIndex
        parameter := logical.parameter
        matchOperands := logical.matchOperands
        count := logical.count
        projection := projected.map Prod.fst
        projectionIndices := projected.map Prod.snd
        limit := logical.limit
        offset := logical.offset }

/-! ## Accepted plans -/

/-- Only the two equalities are routed, and only on a searchable column. -/
theorem routeOperator_eq_ok {encoding : ColumnEncoding} {compare : CompareOp} {op : Op}
    (routed : routeOperator encoding compare = .ok op) :
    isSearchable encoding = true ∧ (op = .eq ∧ compare = .eq ∨ op = .ne ∧ compare = .ne) := by
  cases encoding <;> cases compare <;> cases routed <;> simp [isSearchable]

variable {schema : Schema}

/-- The searchable columns have a rank. -/
theorem searchableRank_of_searchable {index : Nat} (inside : index < schema.columns.length)
    (searchable : isSearchable (schema.columns.getD index { name := [] }).encoding = true) :
    ∃ rank, schema.searchableRank index = some rank ∧ rank < schema.searchableCount := by
  rw [List.getD_eq_getElem _ _ inside] at searchable
  have ranked : schema.searchableRank index =
      some ((schema.columns.take index).countP fun c => isSearchable c.encoding) := by
    simp [Schema.searchableRank, inside, searchable]
  exact ⟨_, ranked, Schema.searchableRank_lt ranked⟩

/-- **What a plan has established.** -/
structure Planned (schema : Schema) (logical : LogicalPlan) (physical : PhysicalPlan) : Prop where
  table : logical.table = schema.table
  column : schema.indexOf logical.matchColumn = some physical.matchColumnIndex
  op : physical.op = .eq ∧ logical.op = .eq ∨ physical.op = .ne ∧ logical.op = .ne
  operands : physical.matchOperands = logical.matchOperands
  rank : ∃ rank, schema.searchableRank physical.matchColumnIndex = some rank ∧
    rank < schema.searchableCount

theorem plan_eq_ok {all : List BackendCapabilities} {logical : LogicalPlan} {hint : Bytes}
    {physical : PhysicalPlan} (planned : plan all schema logical hint = .ok physical) :
    Planned schema logical physical := by
  unfold plan at planned
  split at planned
  · cases planned
  · rename_i table
    cases found : schema.indexOf logical.matchColumn with
    | none => simp [found] at planned
    | some index =>
      simp only [found] at planned
      obtain ⟨op, routed, planned₁⟩ := bind_eq_ok.1 planned
      obtain ⟨projected, _, planned₂⟩ := bind_eq_ok.1 planned₁
      obtain ⟨name, _, planned₃⟩ := bind_eq_ok.1 planned₂
      obtain rfl := pure_eq_ok.1 planned₃
      obtain ⟨searchable, op_⟩ := routeOperator_eq_ok routed
      have inside : index < schema.columns.length := (List.findIdx?_eq_some_iff_findIdx_eq.1 found).1
      exact ⟨not_not.1 table, found, op_, rfl, searchableRank_of_searchable inside searchable⟩

end OpaqueDb.Planner
