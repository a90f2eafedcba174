/-
# Sql.LogicalPlan -- from a parsed statement to the match it asks for

`buildLogicalPlan` walks the WHERE predicate.  One comparison by `=` or `<>`, an IN
list, or an OR of equalities on one column is a match on one column with one operand
for each value position; everything else is refused.

* `planMatch_of_matches`: the walk accepts every such match with bound, named values,
  and reads off column, operator and operand count;
* `parse_named`: names in a parsed statement are never empty, so the builder's own
  emptiness checks do not fire and a plan exists unless a column is projected twice
  (`buildLogicalPlan_iff`).
-/
import OpaqueDb.Sql.Prepare

namespace OpaqueDb.Sql

open OpaqueDb.Core List Sql.Predicate

set_option autoImplicit false

universe u v

structure LogicalPlan where
  table : Bytes
  projection : List Bytes := []
  selectAll : Bool := false
  count : Bool := false
  matchColumn : Bytes
  op : CompareOp := .eq
  parameter : Bytes
  matchOperands : Nat := 1
  limit : Option Nat := none
  offset : Option Nat := none
  deriving DecidableEq, Repr

/-- The name of a bound parameter; a literal has none. -/
def Parameter.name : Parameter → Bytes
  | .bound name => name
  | .literal _ => []

/-! ## The predicate -/

/-- The state of an `OrEqualityCollector`. -/
structure Collected where
  column : Bytes := []
  parameters : List Bytes := []
  deriving DecidableEq, Repr

/-- `OrEqualityCollector`: flatten an OR of equalities on one column. -/
def collect : Predicate Parameter → Collected → StatusOr Collected
  | .comparison column op param, found =>
    if op ≠ .eq then
      .error (unimplemented ["OR currently supports only '=' terms on one column"])
    else if param.isLiteral then
      .error (invalidArgument ["OR values must be bound parameters; the client encrypts ",
        "inline literals, they are never sent in the template"])
    else if found.column.isEmpty then .ok ⟨column, found.parameters ++ [param.name]⟩
    else if found.column ≠ column then
      .error (unimplemented ["OR across different columns needs matching two columns at ",
        "once and is not yet evaluated; use OR on a single column or AND"])
    else .ok ⟨found.column, found.parameters ++ [param.name]⟩
  | .or left right, found => do
    let found ← collect left found
    collect right found
  | .inList _ _, _ => .error (unimplemented ["IN nested inside OR is not yet evaluated"])
  | .like _ _, _ => .error (unimplemented ["LIKE inside OR is not yet evaluated"])
  | .between _ _ _, _ => .error (unimplemented ["BETWEEN inside OR is not yet evaluated"])
  | .and _ _, _ => .error (unimplemented ["AND inside OR is not yet evaluated; OR must be a ",
      "flat union of single-column equalities"])

/-- What the `PlanningVisitor` sets on its builder. -/
structure Match where
  column : Bytes
  op : CompareOp
  parameter : Bytes
  operands : Nat
  deriving DecidableEq, Repr

def planMatch : Predicate Parameter → StatusOr Match
  | .comparison column op param =>
    if op ≠ .eq ∧ op ≠ .ne then
      .error (unimplemented ["operator ", op.toBytes,
        " is parsed but not yet evaluated; only '=' and '<>' are supported"])
    else if param.isLiteral then
      .error (invalidArgument ["the match value must be a bound parameter (:name); an ",
        "inline literal must be encrypted by the client, not sent in the template"])
    else .ok ⟨column, op, param.name, 1⟩
  | .inList column params =>
    match params with
    | [] => .error (invalidArgument ["IN list is empty"])
    | first :: others =>
      if (first :: others).any Parameter.isLiteral then
        .error (invalidArgument ["IN values must be bound parameters; the client encrypts ",
          "inline literals, they are never sent in the template"])
      else .ok ⟨column, .eq, first.name, (first :: others).length⟩
  | .like _ _ => .error (unimplemented ["LIKE is parsed but not yet evaluated"])
  | .between _ _ _ => .error (unimplemented ["BETWEEN is parsed but not yet evaluated"])
  | .and _ _ => .error (unimplemented ["multiple predicates joined by AND are parsed but not ",
      "yet evaluated"])
  | .or left right => do
    let found ← collect (.or left right) {}
    match found.parameters with
    | [] => .error readPastEnd
    | first :: others => return ⟨found.column, .eq, first, (first :: others).length⟩

/-! ## The builder -/

/-- The projected columns, given those seen before. -/
def checkProjection : List Bytes → List Bytes → StatusOr Unit
  | _, [] => .ok ()
  | seen, column :: rest =>
    if column.isEmpty then
      .error (invalidArgument ["logical plan: a projected column name is empty"])
    else if seen.contains column then
      .error (invalidArgument ["logical plan: column '", column, "' is projected twice"])
    else checkProjection (column :: seen) rest

/-- `LogicalPlanBuilder::Build`, once a match has been set. -/
def LogicalPlan.build (plan : LogicalPlan) : StatusOr LogicalPlan :=
  if plan.table.isEmpty then
    .error (invalidArgument ["logical plan: table is empty"])
  else if plan.projection.isEmpty ∧ ¬ plan.selectAll ∧ ¬ plan.count then
    .error (invalidArgument ["logical plan: no columns to project"])
  else do
    checkProjection [] plan.projection
    if plan.matchColumn.isEmpty ∨ plan.parameter.isEmpty then
      .error (invalidArgument
        ["logical plan: the WHERE clause has no bound equality match"])
    else .ok plan

def buildLogicalPlan (statement : SelectStatement) : StatusOr LogicalPlan :=
  match statement.where_ with
  | none => .error (invalidArgument ["logical plan: statement has no WHERE"])
  | some predicate => do
    let found ← planMatch predicate
    LogicalPlan.build {
      table := statement.table
      projection := statement.projection
      selectAll := statement.selectAll
      count := statement.countStar
      matchColumn := found.column
      op := found.op
      parameter := found.parameter
      matchOperands := found.operands
      limit := statement.limit
      offset := statement.offset }

/-! ## What is a match -/

/-- An OR of equalities on one column. -/
inductive Union {α : Type u} (column : Bytes) : Predicate α → Prop
  | equality (param : α) : Union column (.comparison column .eq param)
  | or {left right : Predicate α} (first : Union column left) (second : Union column right) :
      Union column (.or left right)

/-- A match on one column by one operator: a comparison, an IN list or a union. -/
inductive Matches {α : Type u} (column : Bytes) : CompareOp → Predicate α → Prop
  | comparison {op : CompareOp} (param : α) (equality : op = .eq ∨ op = .ne) :
      Matches column op (.comparison column op param)
  | inList {params : List α} (some_ : params ≠ []) : Matches column .eq (.inList column params)
  | or {left right : Predicate α} (union : Union column (.or left right)) :
      Matches column .eq (.or left right)

variable {op : CompareOp}

section Shapes

variable {α : Type u} {column : Bytes}

theorem Union.values_ne_nil {p : Predicate α} (union : Union column p) : p.values ≠ [] := by
  induction union with
  | equality param => simp [values]
  | or _ _ first _ => simp [values, first]

theorem Matches.values_ne_nil {p : Predicate α} (matches_ : Matches column op p) :
    p.values ≠ [] := by
  cases matches_ with
  | comparison param equality => simp [values]
  | inList some_ => exact some_
  | or union => exact union.values_ne_nil

theorem Matches.equality {p : Predicate α} (matches_ : Matches column op p) :
    op = .eq ∨ op = .ne := by
  cases matches_ with
  | comparison param equality => exact equality
  | inList some_ => exact .inl rfl
  | or union => exact .inl rfl

variable {β : Type v}

/-- Being a union depends on the shape alone. -/
theorem Union.of_shape : ∀ {p : Predicate α} {q : Predicate β}, q.shape = p.shape →
    Union column p → Union column q := by
  intro p q same union
  induction union generalizing q with
  | equality param =>
    cases q <;> simp only [Predicate.shape, Predicate.map, reduceCtorEq] at same
    obtain ⟨rfl, rfl, _⟩ := same
    exact .equality _
  | or _ _ first second =>
    cases q <;> simp only [Predicate.shape, Predicate.map, reduceCtorEq, Predicate.or.injEq] at same
    exact .or (first same.1) (second same.2)

theorem Matches.of_shape {p : Predicate α} {q : Predicate β} (same : q.shape = p.shape)
    (matches_ : Matches column op p) : Matches column op q := by
  cases matches_ with
  | comparison param equality =>
    cases q <;> simp only [Predicate.shape, Predicate.map, reduceCtorEq] at same
    obtain ⟨rfl, rfl, _⟩ := same
    exact .comparison _ equality
  | @inList params some_ =>
    cases q <;> simp only [Predicate.shape, Predicate.map, reduceCtorEq,
      Predicate.inList.injEq] at same
    obtain ⟨rfl, lists⟩ := same
    refine .inList fun none_ => some_ ?_
    rw [none_] at lists
    exact map_eq_nil_iff.1 lists.symm
  | or union =>
    cases q <;> simp only [Predicate.shape, Predicate.map, reduceCtorEq] at same
    refine .or (union.of_shape ?_)
    simp [Predicate.shape, Predicate.map, same]

end Shapes

/-! ## Planning a match -/

variable {p : Predicate Parameter} {column : Bytes}

theorem collect_union (union : Union column p) :
    ∀ {names : List Bytes} {found : Collected},
    p.values = names.map .bound → (found.column = [] ∨ found.column = column) →
    collect p found = .ok ⟨column, found.parameters ++ names⟩ := by
  induction union with
  | equality param =>
    intro names found bound started
    obtain ⟨name, rfl, rfl⟩ : ∃ name, names = [name] ∧ param = .bound name := by
      cases names with
      | nil => simp [values] at bound
      | cons name names =>
        simp only [values, map_cons, cons.injEq] at bound
        exact ⟨name, by rw [map_eq_nil_iff.1 bound.2.symm], bound.1⟩
    rcases started with fresh | same
    · simp [collect, Parameter.isLiteral, Parameter.name, fresh]
    · simp [collect, Parameter.isLiteral, Parameter.name, same]
  | @or left right _ _ first second =>
    intro names found bound started
    obtain ⟨before, after, rfl, here, there⟩ := map_eq_append_iff.1 bound.symm
    rw [collect, first here.symm started]
    show collect right ⟨column, found.parameters ++ before⟩ = _
    rw [second there.symm (.inr rfl), append_assoc]

/-- **A match is planned** as its column and operator, with one operand for each value. -/
theorem planMatch_of_matches (matches_ : Matches column op p) {first : Bytes}
    {others : List Bytes} (bound : p.values = (first :: others).map .bound) :
    planMatch p = .ok ⟨column, op, first, p.values.length⟩ := by
  cases matches_ with
  | comparison param equality =>
    simp only [values, map_cons, cons.injEq] at bound
    have supported : ¬ (op ≠ .eq ∧ op ≠ .ne) := by
      rcases equality with rfl | rfl <;> simp
    rw [planMatch, if_neg supported, bound.1]
    rfl
  | @inList params some_ =>
    obtain rfl : params = (first :: others).map .bound := bound
    have unlifted : ((first :: others).map Parameter.bound).any Parameter.isLiteral = false := by
      simp [Parameter.isLiteral]
    simp only [map_cons] at unlifted ⊢
    simp [planMatch, unlifted, Parameter.name, values]
  | or union =>
    rw [planMatch, collect_union union bound (.inl rfl), bound]
    simp [bind, Except.bind, pure, Except.pure]

theorem checkProjection_iff : ∀ {columns seen : List Bytes}, (∀ c ∈ columns, c ≠ []) →
    (checkProjection seen columns = .ok () ↔ columns.Nodup ∧ ∀ c ∈ columns, c ∉ seen) := by
  intro columns
  induction columns with
  | nil => intro seen _; simp [checkProjection]
  | cons column rest ih =>
    intro seen named
    have visible : column.isEmpty = false := by
      simpa using named column mem_cons_self
    rw [checkProjection, visible]
    by_cases repeated : column ∈ seen
    · simp [repeated]
    · simp only [Bool.false_eq_true, if_false, contains_iff_mem, repeated]
      rw [ih fun c member => named c (mem_cons_of_mem _ member)]
      rw [nodup_cons, forall_mem_cons]
      simp only [mem_cons, not_or]
      constructor
      · rintro ⟨distinct, fresh⟩
        exact ⟨⟨fun again => (fresh _ again).1 rfl, distinct⟩, repeated,
          fun c member => (fresh c member).2⟩
      · rintro ⟨⟨once, distinct⟩, _, fresh⟩
        exact ⟨distinct, fun c member => ⟨fun same => once (same ▸ member), fresh c member⟩⟩

/-! ## Names are never empty -/

/-- The columns a predicate names. -/
def Predicate.columns {α : Type u} : Predicate α → List Bytes
  | .comparison column _ _ => [column]
  | .inList column _ => [column]
  | .like column _ => [column]
  | .between column _ _ => [column]
  | .and left right => left.columns ++ right.columns
  | .or left right => left.columns ++ right.columns

structure Predicate.Named (p : Predicate Parameter) : Prop where
  columns : ∀ c ∈ p.columns, c ≠ []
  bound : ∀ name, .bound name ∈ p.values → name ≠ []
  valued : p.values ≠ []

/-- Every name of the statement that reaches a plan has at least one byte. -/
structure SelectStatement.Named (stmt : SelectStatement) : Prop where
  table : stmt.table ≠ []
  projected : stmt.projection ≠ [] ∨ stmt.selectAll = true ∨ stmt.countStar = true
  columns : ∀ c ∈ stmt.projection, c ≠ []
  where_ : ∀ p, stmt.where_ = some p → p.Named

/-- Identifiers and parameters carry a nonempty text. -/
def Labelled (ts : List Token) : Prop :=
  ∀ t ∈ ts, t.type = .identifier ∨ t.type = .parameter → t.text ≠ []

theorem labelled_pieces {tail : Bytes} : ∀ {ps : List Piece} (pos : Nat), WellLexed ps tail →
    Labelled (tokensFrom pos ps tail)
  | [], pos, _ => by
    intro t member
    obtain rfl := mem_singleton.1 member
    simp
  | p :: ps, pos, ⟨_, read, later⟩ => by
    intro t member
    rcases mem_cons.1 member with rfl | member
    · have shape := shape_of_reads ((reads_iff _ _).1 read).1
      generalize p.lexeme = lexeme, p.type = type, p.text = text at shape
      intro named
      cases shape with
      | @word c r start chars =>
        rcases named with identifier | parameter
        · have kind : keywordOrIdentifier (c :: r) = .identifier := identifier
          simp only [kind]
          exact cons_ne_nil _ _
        · rcases keywordOrIdentifier_mem (c :: r) with identifier | ⟨entry, member, same⟩
          · simp [identifier]
          · have other : ∀ entry ∈ keywords, entry.2 ≠ .parameter := by decide
            exact absurd (same.trans parameter) (other entry member)
      | parameter chars nonempty => exact nonempty
      | string kind => simp at named
      | number digits => simp
      | single operator =>
        unfold oneCharOperator at operator
        split_ifs at operator <;> cases operator <;> simp at named
      | pair operator =>
        unfold twoCharOperator at operator
        split_ifs at operator <;> cases operator <;> simp at named
    · exact labelled_pieces _ later t member

variable {ts : List Token}

theorem Labelled.left {us : List Token} (labelled : Labelled (ts ++ us)) : Labelled ts :=
  fun t member => labelled t (mem_append_left _ member)

theorem Labelled.right {us : List Token} (labelled : Labelled (ts ++ us)) : Labelled us :=
  fun t member => labelled t (mem_append_right _ member)

theorem Labelled.tail {t : Token} (labelled : Labelled (t :: ts)) : Labelled ts :=
  fun t member => labelled t (mem_cons_of_mem _ member)

theorem Labelled.identifier {t : Token} (labelled : Labelled (t :: ts))
    (type : t.type = .identifier) : t.text ≠ [] :=
  labelled t mem_cons_self (.inl type)

theorem ValuePhrase.named {param : Parameter} (phrase : ValuePhrase ts param)
    (labelled : Labelled ts) : param ≠ .bound [] := by
  cases phrase with
  | literal known => simp
  | @bound t type =>
    intro unnamed
    exact labelled t mem_cons_self (.inr type) (Parameter.bound.inj unnamed)

/-- What holds of every item's phrase holds of the list. -/
theorem CommaSeparated.forall {α : Type} {Item : List Token → α → Prop} {P : α → Prop}
    (each : ∀ {ts a}, Item ts a → Labelled ts → P a) {l : List α}
    (phrase : CommaSeparated Item ts l) (labelled : Labelled ts) : l ≠ [] ∧ ∀ a ∈ l, P a := by
  induction phrase with
  | single item => simpa using each item labelled
  | cons item type others ih =>
    refine ⟨by simp, fun b member => ?_⟩
    rcases mem_cons.1 member with rfl | member
    · exact each item labelled.left
    · exact (ih labelled.right.tail).2 b member

theorem ComparisonPhrase.named (phrase : ComparisonPhrase ts p) (labelled : Labelled ts) :
    p.Named := by
  cases phrase with
  | comparison column operator value =>
    refine ⟨by simpa [columns] using labelled.identifier column, fun name member => ?_,
      cons_ne_nil _ _⟩
    obtain rfl := mem_singleton.1 member
    rintro rfl
    exact value.named labelled.tail.tail rfl
  | inList column in_ open_ values close =>
    obtain ⟨some_, each⟩ := values.forall (P := (· ≠ .bound [])) ValuePhrase.named
      labelled.tail.tail.tail.left
    refine ⟨by simpa [columns] using labelled.identifier column, fun name member => ?_,
      some_⟩
    rintro rfl
    exact each _ member rfl
  | like column like value =>
    refine ⟨by simpa [columns] using labelled.identifier column, fun name member => ?_,
      cons_ne_nil _ _⟩
    obtain rfl := mem_singleton.1 member
    rintro rfl
    exact value.named labelled.tail.tail rfl
  | between column between first and_ second =>
    refine ⟨by simpa [columns] using labelled.identifier column, fun name member => ?_,
      cons_ne_nil _ _⟩
    have low := first.named labelled.tail.tail.left
    have high := second.named labelled.tail.tail.right.tail
    rintro rfl
    simp only [values, mem_cons, not_mem_nil, or_false] at member
    rcases member with same | same
    · exact low same.symm
    · exact high same.symm

theorem Chain.named {separator : TokenType} {Term : List Token → Predicate Parameter → Prop}
    {join : Predicate Parameter → Predicate Parameter → Predicate Parameter}
    (each : ∀ {ts p}, Term ts p → Labelled ts → p.Named)
    (joined : ∀ {p q : Predicate Parameter}, p.Named → q.Named → (join p q).Named)
    (phrase : Chain separator Term join ts p) (labelled : Labelled ts) : p.Named := by
  induction phrase with
  | single term => exact each term labelled
  | snoc left type right ih => exact joined (ih labelled.left) (each right labelled.right.tail)

variable {q : Predicate Parameter}

theorem Predicate.Named.and (first : p.Named) (second : q.Named) : (and p q).Named where
  columns := fun c member => (mem_append.1 member).elim (first.columns c) (second.columns c)
  bound := fun n member => (mem_append.1 member).elim (first.bound n) (second.bound n)
  valued := append_ne_nil_of_left_ne_nil first.valued _

theorem Predicate.Named.or (first : p.Named) (second : q.Named) : (Predicate.or p q).Named where
  columns := fun c member => (mem_append.1 member).elim (first.columns c) (second.columns c)
  bound := fun n member => (mem_append.1 member).elim (first.bound n) (second.bound n)
  valued := append_ne_nil_of_left_ne_nil first.valued _

theorem where_named {where_ : Option (Predicate Parameter)} (phrase : WherePhrase ts where_)
    (labelled : Labelled ts) : ∀ p, where_ = some p → p.Named := by
  cases phrase with
  | none => simp
  | some keyword predicate =>
    rintro _ ⟨⟩
    exact predicate.named (fun term => Chain.named ComparisonPhrase.named .and term) .or labelled.tail

theorem ColumnPhrase.column_ne {column : Bytes × Bytes} (phrase : ColumnPhrase ts column)
    (labelled : Labelled ts) : column.1 ≠ [] := by
  cases phrase with
  | plain type => exact labelled.identifier type
  | named type as_ display => exact labelled.identifier type

theorem Sentence.named {tokens : List Token} {stmt : SelectStatement} (sentence : Sentence tokens stmt)
    (labelled : Labelled tokens) : stmt.Named := by
  obtain ⟨s, f, t, e, ds, ps, ws, os, ls, ks, projection, rfl, _, _, columns, _, type, table, where_,
    _, _, _, _, projected, _, all, count⟩ := sentence.phrases
  have fromOn := labelled.right.right.tail
  have listed : projection = .all ∨ projection = .countStar ∨
      projection.columnsOf ≠ [] ∧ ∀ c ∈ projection.columnsOf, c.1 ≠ [] := by
    cases columns with
    | countStar => exact .inr (.inl rfl)
    | all => exact .inl rfl
    | columns list => exact .inr (.inr (list.forall (P := fun c : Bytes × Bytes => c.1 ≠ [])
        ColumnPhrase.column_ne labelled.right.left))
  refine ⟨table ▸ fromOn.identifier type, ?_, ?_, where_named where_ fromOn.tail.left⟩
  · rcases listed with rfl | rfl | ⟨some_, _⟩
    · simp [all]
    · simp [count]
    · exact .inl (by rw [projected]; simpa using some_)
  · intro c member
    rw [projected] at member
    obtain ⟨named, listed_, rfl⟩ := mem_map.1 member
    rcases listed with rfl | rfl | ⟨_, each⟩
    · cases listed_
    · cases listed_
    · exact each named listed_

/-- **A parsed statement has no empty name.** -/
theorem parse_named {sql : Bytes} {stmt : SelectStatement} (parsed : parse sql = .ok stmt) :
    stmt.Named := by
  obtain ⟨tokens, lexed, statement⟩ := bind_eq_ok.1 parsed
  obtain ⟨_, ps, tail, _, wellLexed, rfl, _⟩ := tokenize_iff.1 lexed
  obtain ⟨used, rest, same, sentence⟩ := parseStatement_sound statement
  have labelled := labelled_pieces 0 wellLexed
  rw [same] at labelled
  exact sentence.named labelled.left

theorem Union.column_mem {α : Type u} {p : Predicate α} (union : Union column p) :
    column ∈ p.columns := by
  induction union with
  | equality param => exact mem_singleton_self _
  | or _ _ first _ => exact mem_append_left _ first

theorem Matches.column_mem {α : Type u} {column : Bytes} {p : Predicate α}
    (matches_ : Matches column op p) : column ∈ p.columns := by
  cases matches_ with
  | comparison param equality => exact mem_singleton_self _
  | inList some_ => exact mem_singleton_self _
  | or union => exact union.column_mem

/-- The plan of a statement with a match on one column. -/
def matchPlan (stmt : SelectStatement) (column : Bytes) (op : CompareOp) (values : List Parameter) :
    LogicalPlan where
  table := stmt.table
  projection := stmt.projection
  selectAll := stmt.selectAll
  count := stmt.countStar
  matchColumn := column
  op := op
  parameter := (values.headD (.bound [])).name
  matchOperands := values.length
  limit := stmt.limit
  offset := stmt.offset

/-- **When a match has a plan.**  A named statement whose predicate is a match with bound
values is planned exactly when no column is projected twice. -/
theorem buildLogicalPlan_iff {stmt : SelectStatement} (named : stmt.Named) {p : Predicate Parameter}
    (where_ : stmt.where_ = some p) {column : Bytes} (matches_ : Matches column op p)
    {names : List Bytes} (bound : p.values = names.map .bound) {plan : LogicalPlan} :
    buildLogicalPlan stmt = .ok plan ↔
      stmt.projection.Nodup ∧ plan = matchPlan stmt column op p.values := by
  obtain ⟨first, others, rfl⟩ : ∃ first others, names = first :: others := by
    cases names with
    | nil => exact absurd bound matches_.values_ne_nil
    | cons first others => exact ⟨first, others, rfl⟩
  have predicate := named.where_ p where_
  have columnNamed := predicate.columns column matches_.column_mem
  have firstNamed : first ≠ [] := predicate.bound first (by rw [bound]; simp)
  have first_ : (p.values.headD (.bound [])).name = first := by rw [bound]; rfl
  have table : stmt.table.isEmpty = false := by simpa using named.table
  have projected : ¬ (stmt.projection.isEmpty ∧ ¬ stmt.selectAll ∧ ¬ stmt.countStar) := by
    rcases named.projected with h | h | h <;> simp [h]
  have matched : ¬ (column.isEmpty ∨ first.isEmpty) := by simp [columnNamed, firstNamed]
  have columns : checkProjection [] stmt.projection = .ok () ↔
      stmt.projection.Nodup ∧ ∀ c ∈ stmt.projection, c ∉ [] := checkProjection_iff named.columns
  simp only [buildLogicalPlan, where_, planMatch_of_matches matches_ bound, bind,
    Except.bind, LogicalPlan.build, table, projected, matched, Bool.false_eq_true, if_false]
  cases checked : checkProjection [] stmt.projection with
  | error e =>
    rw [checked] at columns
    simp only [reduceCtorEq, not_mem_nil, not_false_eq_true, implies_true, and_true,
      false_iff] at columns
    simp [columns]
  | ok _ =>
    rw [checked] at columns
    simp only [true_iff] at columns
    simp only [columns, true_and, Except.ok.injEq, matchPlan, first_]
    exact eq_comm

end OpaqueDb.Sql
