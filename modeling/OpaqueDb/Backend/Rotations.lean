/-
# Backend.Rotations -- the rotations of an evaluation

A rotation needs a key of the client's, and the client makes the keys that
`requiredGaloisSteps` lists.  `Traced` has the evaluation once more, with a record of the step of
every rotation it makes, also when it fails on the way.  Every traced function `Records` what the
matcher's function of the same name computes.

* `rotations_have_keys`: the evaluation rotates only by listed steps, and with one bucket a
  successful evaluation of a row rotates by each of them.
-/
import OpaqueDb.Backend.EndToEnd
import OpaqueDb.Theory.Calls

namespace OpaqueDb.Backend

open OpaqueDb.Core Crypto Theory List Theory.Call
open Theory.Call (Records)

set_option autoImplicit false

variable {ctx : CryptoContext}

/-- A computation with the steps of its rotations. -/
abbrev Traced (α : Type) : Type := Call Status (List Int) α

namespace Traced

def rotateRows (cipher : Ciphertext ctx) (steps : Int) : Traced (Ciphertext ctx) := do
  note steps
  return Crypto.rotateRows cipher steps

def equalityIndicator (g : Geometry ctx) (keyPt ones : Plaintext ctx) (operand : Ciphertext ctx) :
    Traced (Ciphertext ctx) :=
  let s := operand - keyPt
  let s := s * s
  let s := -s
  let s := s + ones
  (range g.levels).foldlM (fun s i => do
    let rot ← rotateRows s (2 ^ i : Nat)
    return s * rot) s

def unionIndicator (g : Geometry ctx) (keyPt ones : Plaintext ctx) (query : EncryptedQuery ctx) :
    Traced (Ciphertext ctx) := do
  let sel ← equalityIndicator g keyPt ones query.query
  query.extraOperands.foldlM (fun sel extra => do
    let eq ← equalityIndicator g keyPt ones extra
    return sel + eq) sel

def broadcast (g : Geometry ctx) (sel : Ciphertext ctx) : Traced (Ciphertext ctx) :=
  (range g.levels).foldlM (fun sel i => do
    let rot ← rotateRows sel (-((2 ^ i : Nat) : Int))
    return sel + rot) sel

def blockSumLoop (stride : Nat) : Nat → Nat → Ciphertext ctx → Traced (Ciphertext ctx)
  | 0, _, out => return out
  | fuel + 1, step, out =>
    if step < stride then do
      let rot ← rotateRows out step
      blockSumLoop stride fuel (2 * step) (out + rot)
    else return out

def blockSum (g : Geometry ctx) (out : Ciphertext ctx) : Traced (Ciphertext ctx) :=
  blockSumLoop g.stride g.stride g.keyBits out

def addPlane (g : Geometry ctx) (rows : List Bytes) (items : List (Nat × Nat)) (sel : Ciphertext ctx)
    (acc : List (Ciphertext ctx)) (p : Nat) : Traced (List (Ciphertext ctx)) := do
  let paySlots ← lift (planeSlots g rows items p)
  if paySlots.all (· == 0) then
    return acc
  let payPt ← lift (encodeBatch ctx paySlots)
  let out ← lift (caught (multiplyPlain sel payPt))
  let out ← blockSum g out
  return acc.modify p (· + out)

def selection (g : Geometry ctx) (keys : List UInt64) (query : EncryptedQuery ctx)
    (ones : Plaintext ctx) (items : List (Nat × Nat)) : Traced (Ciphertext ctx) := do
  let keyPt ← lift (encodeBatch ctx (keySlots g keys items))
  let startPt ← lift (encodeBatch ctx (startMask ctx items))
  let sel ← unionIndicator g keyPt ones query
  let sel ← lift (caught (multiplyPlain sel startPt))
  broadcast g (if query.op = .ne then -sel + startPt else sel)

def processBatch (g : Geometry ctx) (keys : List UInt64) (rows : List Bytes)
    (query : EncryptedQuery ctx) (ones : Plaintext ctx) (acc : List (Ciphertext ctx))
    (items : List (Nat × Nat)) : Traced (List (Ciphertext ctx)) := do
  let sel ← selection g keys query ones items
  let acc ← (range g.planes).foldlM (addPlane g rows items sel) acc
  let pres ← blockSum g sel
  return acc.modify g.planes (· + pres)

/-- A worker that fails does not stop the others. -/
def runBatches (hardwareConcurrency : Nat) (batched : List (List (Nat × Nat)))
    (seed : List (Ciphertext ctx))
    (process : List (Ciphertext ctx) → List (Nat × Nat) → Traced (List (Ciphertext ctx))) :
    Traced (List (Ciphertext ctx)) := do
  let nthreads := min batched.length (if hardwareConcurrency = 0 then 1 else hardwareConcurrency)
  if nthreads ≤ 1 then
    batched.foldlM process seed
  else
    let locals ← attemptAll (range nthreads) fun t =>
      (threadBatches batched nthreads t).foldlM process seed
    return locals.foldl reduceLocal seed

def evaluateRows (hardwareConcurrency : Nat) (g : Geometry ctx) (query : EncryptedQuery ctx)
    (keys : List UInt64) (rows : List Bytes) : Traced (List (Ciphertext ctx)) := do
  let ones ← lift (encodeBatch ctx (replicate ctx.slotCount 1))
  let zeroPt ← lift (encodeBatch ctx (replicate ctx.slotCount 0))
  let seed := replicate (g.planes + 1) (encrypt zeroPt)
  runBatches hardwareConcurrency (place g keys).batched seed (processBatch g keys rows query ones)

def evaluate (hardwareConcurrency : Nat) (query : EncryptedQuery ctx) (keys : KeyColumn)
    (payload : PayloadColumns) : Traced (List (Ciphertext ctx)) := do
  match ← lift (acceptedGeometry query keys payload) with
  | none => return []
  | some g => evaluateRows hardwareConcurrency g query keys.keys payload.rows

end Traced

/-! ## The checks -/

variable (hardwareConcurrency : Nat) (query : EncryptedQuery ctx)

variable {payload : PayloadColumns}

/-- An accepted geometry is the query's and the columns'. -/
theorem accepted_geometry {query : EncryptedQuery ctx} {keys : KeyColumn} {g : Geometry ctx}
    (checked : acceptedGeometry query keys payload = .ok (some g)) :
    g.keyBits = keys.keyBits ∧ g.buckets = effectiveBuckets query.resultBuckets ∧
      keys.keys ≠ [] := by
  unfold acceptedGeometry at checked
  simp only at checked
  split_ifs at checked with _ _ _ _ empty
  · cases checked
  · injection checked with same
    injection same with same
    subst same
    exact ⟨rfl, rfl, fun none_ => empty (by rw [none_]; rfl)⟩

/-- A row is evaluated only on an accepted geometry. -/
theorem accepted_of_evaluate {hardwareConcurrency : Nat} {query : EncryptedQuery ctx}
    {keys : KeyColumn} {planes : List (Ciphertext ctx)}
    (done : evaluate hardwareConcurrency query keys payload = .ok planes) (some_ : keys.keys ≠ []) :
    ∃ g, acceptedGeometry query keys payload = .ok (some g) := by
  rw [evaluate] at done
  obtain ⟨found, checked, _⟩ := bind_eq_ok.1 done
  cases found with
  | some g => exact ⟨g, checked⟩
  | none =>
    unfold acceptedGeometry at checked
    simp only at checked
    split_ifs at checked with _ _ _ _ empty
    · exact absurd (length_eq_zero_iff.1 empty) some_
    · cases checked

/-! ## The steps -/

/-- The steps of a doubling sum that starts at `step`. -/
def doublingSteps (stride step : Nat) : Set Int :=
  {s | ∃ j, step * 2 ^ j < stride ∧ s = (step * 2 ^ j : Nat)}

variable {step stride : Nat}

theorem doublingSteps_of_le (past : stride ≤ step) : doublingSteps stride step = ∅ := by
  rw [Set.eq_empty_iff_forall_notMem]
  rintro _ ⟨j, below, rfl⟩
  have := Nat.le_mul_of_pos_right step (Nat.two_pow_pos j)
  omega

theorem doublingSteps_of_lt (below : step < stride) :
    doublingSteps stride step = {(step : Int)} ∪ doublingSteps stride (2 * step) := by
  have doubled : ∀ j, step * 2 ^ (j + 1) = 2 * step * 2 ^ j := fun j => by rw [pow_succ']; ring
  ext s
  constructor
  · rintro ⟨_ | j, inside, rfl⟩
    · exact .inl (by simp)
    · exact .inr ⟨j, doubled j ▸ inside, by rw [doubled]⟩
  · rintro (rfl | ⟨j, inside, rfl⟩)
    · exact ⟨0, by simpa using below, by simp⟩
    · exact ⟨j + 1, doubled j ▸ inside, by rw [doubled]⟩

namespace Geometry

variable (g : Geometry ctx)

/-- Forward inside a block, by the AND tree. -/
def reduceSteps : Set Int :=
  {s | ∃ i ∈ range g.levels, s = (2 ^ i : Nat)}

/-- Backward inside a block, by the broadcast. -/
def broadcastSteps : Set Int :=
  {s | ∃ i ∈ range g.levels, s = -((2 ^ i : Nat) : Int)}

/-- Forward from block to block, inside a bucket. -/
def sumSteps : Set Int :=
  doublingSteps g.stride g.keyBits

def steps : Set Int :=
  g.reduceSteps ∪ g.broadcastSteps ∪ g.sumSteps

end Geometry

namespace Traced

theorem rotateRows_records (cipher : Ciphertext ctx) {step : Int} {may : Set Int}
    (allowed : step ∈ may) :
    Records (rotateRows cipher step) (.ok (Crypto.rotateRows cipher step)) may {step} :=
  (Records.note allowed).map fun _ => Crypto.rotateRows cipher step

variable (g : Geometry ctx)

theorem equalityIndicator_records (keyPt ones : Plaintext ctx) (operand : Ciphertext ctx) :
    Records (equalityIndicator g keyPt ones operand)
      (.ok (Backend.equalityIndicator g keyPt ones operand)) g.steps g.reduceSteps := by
  have level : ∀ (s : Ciphertext ctx), ∀ i ∈ range g.levels,
      Records (rotateRows s (2 ^ i : Nat) >>= fun rot => pure (s * rot))
        (.ok (s * Crypto.rotateRows s (2 ^ i : Nat))) g.steps {((2 ^ i : Nat) : Int)} :=
    fun s i member => (rotateRows_records s (.inl (.inl ⟨i, member, rfl⟩))).map (s * ·)
  exact Records.foldl _ level

theorem unionIndicator_records (keyPt ones : Plaintext ctx) (query : EncryptedQuery ctx) :
    Records (unionIndicator g keyPt ones query)
      (.ok (Backend.unionIndicator g keyPt ones query)) g.steps g.reduceSteps := by
  have operand : ∀ (sel : Ciphertext ctx), ∀ extra ∈ query.extraOperands,
      Records (equalityIndicator g keyPt ones extra >>= fun eq => pure (sel + eq))
        (.ok (sel + Backend.equalityIndicator g keyPt ones extra)) g.steps g.reduceSteps :=
    fun sel extra _ => (equalityIndicator_records g keyPt ones extra).map (sel + ·)
  exact (Records.andThen (equalityIndicator_records g keyPt ones query.query)
    (Records.foldl _ operand)).mono (Set.Subset.refl _) Set.subset_union_left

theorem broadcast_records (sel : Ciphertext ctx) :
    Records (broadcast g sel) (.ok (Backend.broadcast g sel)) g.steps g.broadcastSteps := by
  have level : ∀ (s : Ciphertext ctx), ∀ i ∈ range g.levels,
      Records (rotateRows s (-((2 ^ i : Nat) : Int)) >>= fun rot => pure (s + rot))
        (.ok (s + Crypto.rotateRows s (-((2 ^ i : Nat) : Int)))) g.steps
        {-((2 ^ i : Nat) : Int)} :=
    fun s i member => (rotateRows_records s (.inl (.inr ⟨i, member, rfl⟩))).map (s + ·)
  exact Records.foldl _ level

theorem blockSumLoop_records (fuel : Nat) (out : Ciphertext ctx) (some_ : 0 < step)
    (enough : stride ≤ step + fuel) :
    Records (blockSumLoop stride fuel step out) (.ok (Backend.blockSumLoop stride fuel step out))
      (doublingSteps stride step) (doublingSteps stride step) := by
  induction fuel generalizing step out with
  | zero =>
    rw [doublingSteps_of_le (by omega)]
    exact Records.pure out
  | succ fuel ih =>
    rw [blockSumLoop, Backend.blockSumLoop]
    by_cases below : step < stride
    · rw [if_pos below, if_pos below, doublingSteps_of_lt below]
      have later := ih (out + Crypto.rotateRows out step) (Nat.mul_pos Nat.two_pos some_) (by omega)
      exact Records.andThen (rotateRows_records out (.inl rfl))
        (later.mono Set.subset_union_right (Set.Subset.refl _))
    · rw [if_neg below, if_neg below, doublingSteps_of_le (by omega)]
      exact Records.pure out

theorem blockSum_records (out : Ciphertext ctx) :
    Records (blockSum g out) (.ok (Backend.blockSum g out)) g.steps g.sumSteps :=
  (blockSumLoop_records g.stride out g.keyBits_pos (by omega)).mono Set.subset_union_right
    (Set.Subset.refl _)

theorem addPlane_records (rows : List Bytes) (items : List (Nat × Nat)) (sel : Ciphertext ctx)
    (acc : List (Ciphertext ctx)) (p : Nat) :
    Records (addPlane g rows items sel acc p) (Backend.addPlane g rows items sel acc p) g.steps ∅ := by
  have block := fun out =>
    ((blockSum_records g out).map fun out => acc.modify p (· + out)).mono (Set.Subset.refl _)
      (Set.empty_subset _)
  refine (Records.bind (.lift _) fun paySlots => ?_).mono (Set.Subset.refl _)
    (Set.empty_subset (∅ ∪ ∅))
  split
  · exact .pure acc
  · exact (Records.bind (.lift _) fun payPt => Records.bind (.lift _) block).mono
      (Set.Subset.refl _) (Set.empty_subset _)

theorem selection_records (keys : List UInt64) (query : EncryptedQuery ctx) (ones : Plaintext ctx)
    (items : List (Nat × Nat)) :
    Records (selection g keys query ones items) (Backend.selection g keys query ones items) g.steps
      (g.reduceSteps ∪ g.broadcastSteps) := by
  have spread : ∀ keyPt startPt,
      Records (unionIndicator g keyPt ones query >>= fun sel =>
        lift (caught (multiplyPlain sel startPt)) >>= fun sel =>
          broadcast g (if query.op = .ne then -sel + startPt else sel))
        (caught (multiplyPlain (Backend.unionIndicator g keyPt ones query) startPt) >>= fun sel =>
          .ok (Backend.broadcast g (if query.op = .ne then -sel + startPt else sel)))
        g.steps (g.reduceSteps ∪ (∅ ∪ g.broadcastSteps)) := fun keyPt startPt =>
    Records.andThen (unionIndicator_records g keyPt ones query)
      (Records.bind (.lift _) fun sel => broadcast_records g _)
  refine (Records.bind (.lift _) fun keyPt => Records.bind (.lift _) (spread keyPt)).mono
    (Set.Subset.refl _) ?_
  simp only [Set.empty_union]
  exact Set.Subset.refl _

theorem processBatch_records (keys : List UInt64) (rows : List Bytes) (query : EncryptedQuery ctx)
    (ones : Plaintext ctx) (acc : List (Ciphertext ctx)) (items : List (Nat × Nat)) :
    Records (processBatch g keys rows query ones acc items)
      (Backend.processBatch g keys rows query ones acc items) g.steps g.steps := by
  refine (Records.bind (selection_records g keys query ones items) fun sel =>
    Records.bind (Records.foldlM acc fun acc p _ => addPlane_records g rows items sel acc p)
      fun acc => (blockSum_records g sel).map fun pres => acc.modify g.planes (· + pres)).mono
    (Set.Subset.refl _) ?_
  rintro s (inside | across)
  · exact .inl inside
  · exact .inr (.inr across)

variable {batched : List (List (Nat × Nat))}

theorem threadBatches_ne_nil {n t : Nat} (worker : t < n) (enough : n ≤ batched.length) :
    threadBatches batched n t ≠ [] := by
  have inside : t < batched.length := by omega
  apply ne_nil_of_mem (a := batched[t])
  refine mem_map.2 ⟨(batched[t], t), mem_filter.2 ⟨?_, ?_⟩, rfl⟩
  · exact mk_mem_zipIdx_iff_getElem?.2 (getElem?_eq_getElem inside)
  · simpa using Nat.mod_eq_of_lt worker

/-- Some batch runs to its end if all do. -/
theorem runBatches_records (seed : List (Ciphertext ctx)) {may must : Set Int}
    {process : List (Ciphertext ctx) → List (Nat × Nat) → Traced (List (Ciphertext ctx))}
    {pureProcess : List (Ciphertext ctx) → List (Nat × Nat) → StatusOr (List (Ciphertext ctx))}
    (each : ∀ acc items, Records (process acc items) (pureProcess acc items) may must)
    (some_ : batched ≠ []) : Records (runBatches hardwareConcurrency batched seed process)
      (Backend.runBatches hardwareConcurrency batched seed pureProcess) may must := by
  have fold : ∀ l : List (List (Nat × Nat)), l ≠ [] →
      Records (l.foldlM process seed) (l.foldlM pureProcess seed) may must := by
    intro l nonempty
    refine (Records.foldlM seed fun acc items _ => each acc items).mono (Set.Subset.refl _) ?_
    obtain ⟨items, member⟩ := exists_mem_of_ne_nil l nonempty
    exact fun s due => ⟨items, member, due⟩
  have enough := Nat.min_le_left batched.length
    (if hardwareConcurrency = 0 then 1 else hardwareConcurrency)
  unfold runBatches Backend.runBatches
  generalize min batched.length (if hardwareConcurrency = 0 then 1 else hardwareConcurrency) = n
    at enough ⊢
  by_cases serial : n ≤ 1
  · simp only [if_pos serial]
    exact fold batched some_
  · simp only [if_neg serial]
    have workers := Records.attemptAll (l := range n) (fun t member => fold _
      (threadBatches_ne_nil (mem_range.1 member) enough)) (by rw [ne_eq, range_eq_nil]; omega)
    exact (Records.bind workers fun locals => .pure _).mono (Set.Subset.refl _)
      Set.subset_union_left

theorem evaluateRows_records (hardwareConcurrency : Nat) (query : EncryptedQuery ctx)
    {keys : List UInt64} (rows : List Bytes) (some_ : keys ≠ []) :
    Records (evaluateRows hardwareConcurrency g query keys rows)
      (Backend.evaluateRows hardwareConcurrency g query keys rows) g.steps g.steps := by
  have batched : (place g keys).batched ≠ [] := by
    have := batchAt_lt g keys (length_pos_iff.2 some_)
    exact ne_nil_of_length_pos (by omega)
  refine (Records.bind (.lift _) fun ones => Records.bind (.lift _) fun zeroPt =>
    runBatches_records hardwareConcurrency _ (processBatch_records g keys rows query ones)
      batched).mono (Set.Subset.refl _) ?_
  exact Set.subset_union_right.trans Set.subset_union_right

theorem evaluate_records (hardwareConcurrency : Nat) (query : EncryptedQuery ctx) (keys : KeyColumn)
    (payload : PayloadColumns) {g : Geometry ctx}
    (checked : acceptedGeometry query keys payload = .ok (some g)) :
    Records (evaluate hardwareConcurrency query keys payload)
      (Backend.evaluate hardwareConcurrency query keys payload) g.steps g.steps := by
  obtain ⟨_, _, some_⟩ := accepted_geometry checked
  rw [evaluate, Backend.evaluate, checked]
  exact (Records.andThen (.lift _) (evaluateRows_records g hardwareConcurrency query payload.rows
    some_)).mono (Set.Subset.refl _) Set.subset_union_right

/-- Without an accepted geometry nothing is rotated. -/
theorem evaluate_silent (keys : KeyColumn) (payload : PayloadColumns)
    (unaccepted : ∀ g, acceptedGeometry query keys payload ≠ .ok (some g)) :
    (evaluate hardwareConcurrency query keys payload).eval [] =
      (Backend.evaluate hardwareConcurrency query keys payload, []) := by
  rw [evaluate, Backend.evaluate]
  cases checked : acceptedGeometry query keys payload with
  | error status => rfl
  | ok found =>
    cases found with
    | none => rfl
    | some g => exact absurd checked (unaccepted g)

end Traced

/-! ## The listed steps -/

/-- The matcher's steps are listed, and all the listed ones are the matcher's if there is one
bucket. -/
theorem Geometry.steps_listed (g : Geometry ctx) :
    ∃ steps, requiredGaloisSteps ctx.slotCount g.keyBits = some steps ∧
      (∀ s ∈ g.steps, s ∈ steps) ∧ (g.buckets = 1 → ∀ s ∈ steps, s ∈ g.steps) := by
  have half : ctx.slotCount / 2 = ctx.row := Nat.mul_div_cancel_left _ (by decide)
  have stride := g.row_eq_stride
  have fits := Nat.le_mul_of_pos_left g.stride g.buckets_pos
  have block := g.keyBits_le_stride
  have some_ := g.keyBits_pos
  have two : 2 ≤ ctx.slotCount := by omega
  obtain ⟨steps, listed, mem⟩ := requiredGaloisSteps_eq two ctx.slots_lt some_ (by omega)
  have level : ∀ i, 2 ^ i < g.keyBits ↔ i ∈ range g.levels := by
    intro i
    rw [g.keyBits_eq, mem_range]
    exact Nat.pow_lt_pow_iff_right (by decide)
  refine ⟨steps, listed, ?_, fun one s member => ?_⟩
  · rintro s ((⟨i, inside, rfl⟩ | ⟨i, inside, rfl⟩) | ⟨j, inside, rfl⟩)
    · exact (mem _).2 (.inl ⟨i, (level i).2 inside, .inl rfl⟩)
    · exact (mem _).2 (.inl ⟨i, (level i).2 inside, .inr rfl⟩)
    · exact (mem _).2 (.inr ⟨j, by omega, rfl⟩)
  · rcases (mem s).1 member with ⟨i, inside, rfl | rfl⟩ | ⟨j, inside, rfl⟩
    · exact .inl (.inl ⟨i, (level i).1 inside, rfl⟩)
    · exact .inl (.inr ⟨i, (level i).1 inside, rfl⟩)
    · rw [one] at stride
      exact .inr ⟨j, by omega, rfl⟩

/-- **The rotation keys.**  An evaluation rotates only by steps the client has made keys for.
With one bucket, a successful evaluation over a row rotates by each of them. -/
theorem rotations_have_keys (hardwareConcurrency : Nat) (query : EncryptedQuery ctx)
    (keys : KeyColumn) (payload : PayloadColumns) (power : keys.keyBits.isPowerOfTwo)
    (fits : keys.keyBits ≤ ctx.slotCount / 2) :
    ∃ (steps rotations : List Int), requiredGaloisSteps ctx.slotCount keys.keyBits = some steps ∧
      (Traced.evaluate hardwareConcurrency query keys payload).eval [] =
        (evaluate hardwareConcurrency query keys payload, rotations) ∧
      (∀ s ∈ rotations, s ∈ steps) ∧
      (effectiveBuckets query.resultBuckets = 1 → keys.keys ≠ [] →
        (∃ planes, evaluate hardwareConcurrency query keys payload = .ok planes) →
        ∀ s ∈ steps, s ∈ rotations) := by
  have some_ := Nat.pos_of_isPowerOfTwo power
  have two : 2 ≤ ctx.slotCount := by omega
  by_cases checked : ∃ g, acceptedGeometry query keys payload = .ok (some g)
  · obtain ⟨g, checked⟩ := checked
    obtain ⟨bits, buckets, _⟩ := accepted_geometry checked
    obtain ⟨steps, listed, only, all⟩ := g.steps_listed
    obtain ⟨rotations, run, inside, used⟩ :=
      Traced.evaluate_records hardwareConcurrency query keys payload checked []
    refine ⟨steps, rotations, bits ▸ listed, run, fun s member => only s (inside s member), ?_⟩
    rintro one _ ⟨planes, done⟩ s member
    exact used planes done s (all (buckets.trans one) s member)
  · push Not at checked
    obtain ⟨steps, listed, _⟩ := requiredGaloisSteps_eq two ctx.slots_lt some_ fits
    refine ⟨steps, [], listed, Traced.evaluate_silent hardwareConcurrency query keys payload checked,
      by simp, ?_⟩
    rintro _ rows ⟨planes, done⟩
    obtain ⟨g, known⟩ := accepted_of_evaluate done rows
    exact absurd known (checked g)

/-- One row with a two-bit key, and a point query. -/
def oneGeometry : Geometry defaultContext :=
  { sampleGeometry with buckets := 1, buckets_pow := ⟨0, rfl⟩, room := by decide }

def onePoint : EncryptedQuery defaultContext :=
  { query := tile 2 1 }

theorem onePoint_answered : ∃ planes, evaluate 1 onePoint ⟨2, [1]⟩ ⟨3, 2, [[1, 2, 3]]⟩ = .ok planes :=
  have carries : oneGeometry.Carries := ⟨by decide, by decide, by decide, by decide⟩
  have inside : ∀ key ∈ [(1 : UInt64)], key.toNat < 2 ^ oneGeometry.keyBits := by
    simp [oneGeometry, sampleGeometry]
  have encrypts : Encrypts oneGeometry onePoint [1] := ⟨rfl, by decide, inside⟩
  ⟨_, evaluate_eq_partials carries ⟨rfl, inside, by decide⟩ (.inl rfl) encrypts rfl 1⟩

theorem rotations_have_keys_small : ∃ rotations,
    (Traced.evaluate 1 onePoint ⟨2, [1]⟩ ⟨3, 2, [[1, 2, 3]]⟩).eval [] =
      (evaluate 1 onePoint ⟨2, [1]⟩ ⟨3, 2, [[1, 2, 3]]⟩, rotations) ∧
    ∀ s, s ∈ rotations ↔
      s ∈ [1, -1, 2, 4, 8, 16, 32, 64, 128, 256, 512, 1024, 2048, 4096] := by
  obtain ⟨steps, rotations, listed, run, only, all⟩ :=
    rotations_have_keys 1 onePoint ⟨2, [1]⟩ ⟨3, 2, [[1, 2, 3]]⟩ ⟨1, rfl⟩ (by decide)
  obtain rfl : [1, -1, 2, 4, 8, 16, 32, 64, 128, 256, 512, 1024, 2048, 4096] = steps := by
    have known : requiredGaloisSteps defaultContext.slotCount 2 =
        some [1, -1, 2, 4, 8, 16, 32, 64, 128, 256, 512, 1024, 2048, 4096] := by decide +kernel
    injection known.symm.trans listed
  exact ⟨rotations, run, fun s => ⟨only s, all rfl (by decide) onePoint_answered s⟩⟩

end OpaqueDb.Backend
