/-
# Client.Operands -- the operand count on both sides of a query

The client sends one ciphertext for each distinct encoded value; the node expects one
for each value position of the template.  `operand_count_iff`: for a match whose values
are all literals the node derives a plan exactly when the rewriting is faithful and no
column is projected twice, and it accepts the client's ciphertexts exactly when the
encoded literals are distinct.  A repeated value, or two texts with one hash, is
refused.
-/
import OpaqueDb.Client.QueryClient

namespace OpaqueDb.Client

open OpaqueDb.Core Crypto Theory Backend Sql Server Storage Config

set_option autoImplicit false

variable {ctx : CryptoContext}

section Template

variable {sql : Bytes} {prepared : PreparedQuery} {stmt : SelectStatement} {ps : List Piece}
  {p : Predicate Parameter}

variable (found : Prepared sql prepared stmt ps)
include found

variable (where_ : stmt.where_ = some p)
include where_

/-- The lifted literals of a literal-only predicate are its values. -/
theorem values_eq_literals (literal : ∀ v ∈ p.values, v.isLiteral = true) :
    p.values = prepared.literals.map .literal := by
  obtain ⟨where_', _, rebinds⟩ := parseStatement_lifts (found.lifts 0) found.statement
  rw [where_] at rebinds
  have abstracts := abstracts_of_rebinds rebinds fun q there => by
    cases there
    exact literal
  match where_', abstracts with
  | some _, ⟨_, values, _⟩ => exact values

/-- The predicate of a template that parses: the same match over bound names. -/
theorem template_where (literal : ∀ v ∈ p.values, v.isLiteral = true) {stmt' : SelectStatement}
    (template : parse prepared.sqlTemplate = .ok stmt') :
    ∃ (p' : Predicate Parameter) (names : List Bytes), stmt' = { stmt with where_ := some p' } ∧
      p'.shape = p.shape ∧ p'.values = names.map .bound ∧ p'.values.length = p.values.length := by
  obtain ⟨clear, fits⟩ := found.clear_of_parse template
  obtain ⟨where_', template', rebinds⟩ := found.parse_of_clear clear fits
  have same := Except.ok.inj (template.symm.trans template')
  rw [where_] at rebinds
  have abstracts := abstracts_of_rebinds rebinds fun q there => by
    cases there
    exact literal
  match where_', rebinds, abstracts with
  | some p', ⟨_, binds⟩, ⟨shape, _, names, bound⟩ =>
    exact ⟨p', names, same, shape, bound, binds.length_eq⟩

/-- **The plan of a template**: it exists exactly when the rewriting is faithful and no
column is projected twice, and it expects one operand for each literal. -/
theorem template_plan_iff {column : Bytes} {op : CompareOp} (matches_ : Matches column op p)
    (literal : ∀ v ∈ p.values, v.isLiteral = true) :
    ((∃ plan, (parse prepared.sqlTemplate >>= buildLogicalPlan) = .ok plan) ↔
      Rewritable (trimStatement sql) (liftedTokens .end_ (tokensFrom 0 ps [])) ∧
        stmt.projection.Nodup) ∧
    ∀ plan, (parse prepared.sqlTemplate >>= buildLogicalPlan) = .ok plan →
      plan.matchOperands = p.values.length := by
  refine ⟨⟨?_, ?_⟩, ?_⟩
  · rintro ⟨plan, derived⟩
    obtain ⟨stmt', template, built⟩ := bind_eq_ok.1 derived
    obtain ⟨p', names, rfl, shape, bound, _⟩ := template_where found where_ literal template
    have planned := (buildLogicalPlan_iff (parse_named template) rfl (matches_.of_shape shape) bound).1
      built
    exact ⟨found.rewritable_iff.2 (found.clear_of_parse template), planned.1⟩
  · rintro ⟨rewritable, once⟩
    obtain ⟨clear, fits⟩ := found.rewritable_iff.1 rewritable
    obtain ⟨_, template, _⟩ := found.parse_of_clear clear fits
    obtain ⟨p', names, same, shape, bound, _⟩ := template_where found where_ literal template
    rw [same] at template
    exact ⟨_, bind_eq_ok.2 ⟨_, template, (buildLogicalPlan_iff (parse_named template) rfl
      (matches_.of_shape shape) bound).2 ⟨once, rfl⟩⟩⟩
  · intro plan derived
    obtain ⟨stmt', template, built⟩ := bind_eq_ok.1 derived
    obtain ⟨p', names, rfl, shape, bound, length⟩ := template_where found where_ literal template
    obtain ⟨_, rfl⟩ := (buildLogicalPlan_iff (parse_named template) rfl (matches_.of_shape shape)
      bound).1 built
    exact length

end Template

/-! ## Both counts -/

/-- The node takes the operands exactly when they are as many as the plan expects. -/
theorem receiveOperands_iff {expected : Nat} (some_ : expected ≠ 0) (few : expected ≤ kMaxOperands)
    (ciphers : List (Ciphertext ctx)) :
    (∃ received, receiveOperands ctx expected ciphers = .ok received) ↔ ciphers.length = expected := by
  have range : ¬ (expected = 0 ∨ expected > kMaxOperands) := by omega
  have word : u32 expected = expected := u32_of_lt (by rw [kMaxOperands] at few; omega)
  rw [receiveOperands, if_neg range, deserializeCiphertexts, word]
  by_cases excess : ciphers.length > expected
  · rw [if_pos excess]
    constructor
    · rintro ⟨_, received⟩
      cases received
    · omega
  · rw [if_neg excess]
    show (∃ received, (if ciphers.length ≠ expected then _ else _) = _) ↔ _
    by_cases same : ciphers.length = expected
    · rw [if_neg (not_not.2 same)]
      cases ciphers with
      | nil => exact absurd same.symm some_
      | cons query extra => exact ⟨fun _ => same, fun _ => ⟨_, rfl⟩⟩
    · rw [if_pos same]
      constructor
      · rintro ⟨_, received⟩
        cases received
      · exact fun h => absurd h same

/-- **When the two counts agree.**  For a literal-only match of at most 64 literals that all
encode, the node derives a plan exactly when the rewriting is faithful and no column is
projected twice; the client's ciphertexts are then as many as the plan expects, and
taken, exactly when the encoded literals are distinct. -/
theorem operand_count_iff (ctx : CryptoContext) {sql : Bytes} {prepared : PreparedQuery}
    {stmt : SelectStatement} {tokens : List Token} {p : Predicate Parameter} {column : Bytes}
    {op : CompareOp} {keyBits : Nat} {operands : List UInt64} (value : UInt64)
    (range : 1 ≤ keyBits ∧ keyBits ≤ 64) (accepted : prepareClientQuery sql = .ok prepared)
    (parsed : parse sql = .ok stmt) (lexed : tokenize (trimStatement sql) = .ok tokens)
    (where_ : stmt.where_ = some p) (matches_ : Matches column op p)
    (literal : ∀ v ∈ p.values, v.isLiteral = true) (few : p.values.length ≤ 64)
    (encoded : encodeOperands keyBits prepared value = .ok operands) :
    ((∃ plan, (parse prepared.sqlTemplate >>= buildLogicalPlan) = .ok plan) ↔
      Rewritable (trimStatement sql) (liftedTokens .end_ tokens) ∧ stmt.projection.Nodup) ∧
    ∀ plan, (parse prepared.sqlTemplate >>= buildLogicalPlan) = .ok plan →
      ∃ ciphers, buildEncryptedOperands ctx operands keyBits = .ok ciphers ∧
        (ciphers.length = plan.matchOperands ↔ operands.Nodup) ∧
        ((∃ received, receiveOperands ctx plan.matchOperands ciphers = .ok received) ↔
          operands.Nodup) := by
  obtain ⟨stmt', ps, found⟩ := prepared_of_ok accepted
  obtain rfl : stmt' = stmt := Except.ok.inj (found.parsed.symm.trans parsed)
  obtain rfl : tokens = tokensFrom 0 ps [] := Except.ok.inj (lexed.symm.trans found.lexed)
  obtain ⟨exists_, expects⟩ := template_plan_iff found where_ matches_ literal
  refine ⟨exists_, fun plan derived => ?_⟩
  have values := values_eq_literals found where_ literal
  have some_ : prepared.literals ≠ [] := by
    intro none_
    rw [none_] at values
    exact matches_.values_ne_nil values
  have length : operands.length = plan.matchOperands := by
    have sent := (mapM_eq_ok_iff.1 encoded).length_eq
    rw [operandValues, if_neg (by simpa using some_)] at sent
    rw [expects plan derived, values, List.length_map, sent]
  have nonempty := encodeOperands_ne_nil encoded
  have agree : ((dedup operands).map (tile keyBits) : List (Ciphertext ctx)).length = plan.matchOperands ↔
      operands.Nodup := by
    rw [List.length_map, ← length]
    exact dedup_length_iff operands
  refine ⟨_, buildEncryptedOperands_dedup range.1 range.2 nonempty, agree, ?_⟩
  rw [receiveOperands_iff _ _, agree]
  · rw [← length]
    simpa using nonempty
  · rw [expects plan derived]
    exact few

theorem operand_count_two :
    ∃ plan ciphers,
      (parse (bytes "SELECT a FROM t WHERE k IN (:v0, :v1)") >>= buildLogicalPlan) = .ok plan ∧
      buildEncryptedOperands defaultContext [5, 6] 64 = .ok ciphers ∧
      ciphers.length = plan.matchOperands := by
  have lifted : prepareClientQuery (bytes "SELECT a FROM t WHERE k IN (5, 6)") =
      .ok ⟨bytes "SELECT a FROM t WHERE k IN (:v0, :v1)", [.int 5, .int 6], false, none, none⟩ := by
    decide
  obtain ⟨derives, counts⟩ := operand_count_iff defaultContext 0 (show 1 ≤ 64 ∧ 64 ≤ 64 by decide)
    lifted rfl rfl rfl (.inList (by decide)) (by decide) (by decide)
    (show encodeOperands 64 _ 0 = .ok [5, 6] from rfl)
  obtain ⟨plan, derived⟩ := derives.2 (by decide)
  obtain ⟨ciphers, built, agree, _⟩ := counts plan derived
  exact ⟨plan, ciphers, derived, built, agree.2 (by decide)⟩

/-- A value listed twice is sent once and expected twice: the node refuses the query. -/
theorem repeated_operand_refused :
    prepareClientQuery (bytes "SELECT a FROM t WHERE k IN (5, 5)") =
      .ok ⟨bytes "SELECT a FROM t WHERE k IN (:v0, :v1)", [.int 5, .int 5], false, none, none⟩ ∧
    runQuery defaultContext (sampleConfig 64 2) (sampleEngine 64 2 [])
        { clientId := bytes "me", sqlTemplate := bytes "SELECT a FROM t WHERE k IN (5, 5)" } =
      .error (invalidArgument ["encrypted query has ", dec 1, " ciphertexts, expected ",
        dec 2]) := by
  have lifted : prepareClientQuery (bytes "SELECT a FROM t WHERE k IN (5, 5)") =
      .ok ⟨bytes "SELECT a FROM t WHERE k IN (:v0, :v1)", [.int 5, .int 5], false, none, none⟩ := by
    decide
  have encoded : encodeOperands 64
      ⟨bytes "SELECT a FROM t WHERE k IN (:v0, :v1)", [.int 5, .int 5], false, none, none⟩ 0 =
        .ok [5, 5] := rfl
  have built : buildEncryptedOperands defaultContext [5, 5] 64 = .ok [tile 64 5] :=
    buildEncryptedOperands_dedup (by decide) (by decide) (by decide)
  have routed : route (sampleEngine 64 2 []) [] (bytes "SELECT a FROM t WHERE k IN (:v0, :v1)") [] 0 =
      .ok (sampleEpoch 64 [], ⟨bytes "t", bytes "reference", .eq, bytes "k", 0, bytes "v0", 2, false,
        [bytes "a"], [2], none, none⟩) := rfl
  have refused : execute (sampleEngine 64 2 []) (bytes "me") []
      (bytes "SELECT a FROM t WHERE k IN (:v0, :v1)") [(tile 64 5 : Ciphertext defaultContext)] [] =
      .error (invalidArgument ["encrypted query has ", dec 1, " ciphertexts, expected ",
        dec 2]) := by
    rw [execute, evaluateShard, if_neg (by decide), routed]
    rfl
  refine ⟨lifted, ?_⟩
  simp only [runQuery, lifted, bind, Except.bind]
  rw [show (sampleConfig 64 2).crypto.keyBits = 64 from rfl, encoded]
  simp only [built, refused]

end OpaqueDb.Client
