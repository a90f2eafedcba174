/-
# Cli.Ordering -- what DISTINCT, ORDER BY and the window mean

The meaning of a result table, without the indices the client computes with: a record's
cells are its columns by name, DISTINCT keeps the first record of each row of cells, and ORDER
BY compares key by key, integers as numbers and texts byte by byte, and keeps records of equal
keys in their order.  `buildResultTable_meaning`: a table whose order columns are not REAL is
the window of that list.
-/
import OpaqueDb.Cli.Rendering
import OpaqueDb.Theory.StableSort

namespace OpaqueDb.Cli

open OpaqueDb.Core Sql Theory List
open Client (kDefaultSelectLimit)

set_option autoImplicit false

/-! ## The meaning -/

/-- The value of the column with this name. -/
def namedValue (schema : Schema) (values : List Value) (name : Bytes) : Option Value :=
  ((payloadNames schema).zip values).lookup name

/-- A record's cells and order keys, by the names of the columns. -/
def projected (lib : Library) (schema : Schema) (stmt : SelectStatement) (record : Bytes) :
    ResultRow :=
  match decodeRecord schema record with
  | .error _ => ⟨[], []⟩
  | .ok values =>
    ⟨if stmt.projection.isEmpty then values.map (valueToString lib)
      else stmt.projection.filterMap fun name =>
        (namedValue schema values name).map (valueToString lib),
      stmt.orderBy.filterMap fun item => namedValue schema values item.column⟩

/-- The rows whose cells no earlier row has. -/
def firstOfEach (rows : List ResultRow) : List ResultRow :=
  (rows.zipIdx.filter fun row => !(rows.take row.2).any (·.cells == row.1.cells)).map Prod.fst

/-- The rows a statement keeps, in the order of their records. -/
def keptRows (lib : Library) (schema : Schema) (stmt : SelectStatement) (records : List Bytes) :
    List ResultRow :=
  if stmt.distinct then firstOfEach (records.map (projected lib schema stmt))
  else records.map (projected lib schema stmt)

/-- One order key stands strictly before another. -/
def KeyBefore (descending : Bool) : Value → Value → Prop
  | .int a, .int b => if descending then b.toInt < a.toInt else a.toInt < b.toInt
  | .text a, .text b => if descending then b < a else a < b
  | _, _ => False

/-- The first key that differs decides. -/
def KeysBefore : List Bool → List Value → List Value → Prop
  | descending :: rest, a :: as, b :: bs =>
    KeyBefore descending a b ∨ (a = b ∧ KeysBefore rest as bs)
  | _, _, _ => False

/-- The statement's columns are columns of the payload, and its order columns are not REAL. -/
structure Sortable (schema : Schema) (stmt : SelectStatement) : Prop where
  columns : ∀ name ∈ stmt.projection, name ∈ payloadNames schema
  order : ∀ item ∈ stmt.orderBy, ∃ column ∈ payloadColumns schema.columns,
    column.name = item.column ∧ column.type ≠ .real

/-! ## Columns by name and by index -/

variable {names : List Bytes}

theorem lookup_zip {values : List Value} (lengths : values.length = names.length) (name : Bytes) :
    (names.zip values).lookup name =
      (payloadIndex names name).bind fun index => values[index]? := by
  induction names generalizing values with
  | nil => rfl
  | cons first names ih =>
    cases values with
    | nil => cases lengths
    | cons value values =>
      rw [zip_cons_cons, lookup_cons, payloadIndex, findIdx?_cons]
      by_cases same : name = first
      · simp [same]
      · have other : (first == name) = false := by simpa using fun eq => same eq.symm
        have other' : (name == first) = false := by simpa using same
        rw [other', other, ih (Nat.succ.inj lengths)]
        simp only [Bool.false_eq_true, if_false, Option.bind_map]
        rfl

theorem payloadIndex_of_mem {name : Bytes} (member : name ∈ names) :
    ∃ index, payloadIndex names name = some index := by
  rw [payloadIndex]
  cases found : names.findIdx? (· == name) with
  | none => exact absurd (findIdx?_eq_none_iff.1 found name member) (by simp)
  | some index => exact ⟨index, rfl⟩

/-- The values of columns that were looked up one after another. -/
theorem filterMap_forall₂ {α β γ : Type} {R : α → β → Prop} {f : α → Option γ} {g : β → Option γ}
    (same : ∀ a b, R a b → f a = g b) {as : List α} {bs : List β} (related : Forall₂ R as bs) :
    as.filterMap f = bs.filterMap g := by
  induction related with
  | nil => rfl
  | cons first _ ih => rw [filterMap_cons, filterMap_cons, same _ _ first, ih]

/-- Every index of a list, read in order. -/
theorem filterMap_zipIdx {α β γ : Type} (f : β → γ) {names : List α} {values : List β}
    (lengths : values.length = names.length) (front : List β) :
    (names.zipIdx front.length).filterMap (fun name => (front ++ values)[name.2]?.map f) =
      values.map f := by
  induction names generalizing values front with
  | nil =>
    rw [length_eq_zero_iff.1 lengths]
    rfl
  | cons name names ih =>
    cases values with
    | nil => cases lengths
    | cons value values =>
      have here : (front ++ value :: values)[front.length]? = some value := by
        rw [getElem?_append_right le_rfl, Nat.sub_self]
        rfl
      have later := ih (Nat.succ.inj lengths) (front ++ [value])
      rw [length_append, length_singleton, append_assoc, singleton_append] at later
      rw [zipIdx_cons, filterMap_cons, here, later]
      rfl

section Resolved

variable {lib : Library} {schema : Schema} {stmt : SelectStatement} {values : List Value}

variable {display : List (Nat × Bytes)}

theorem cells_of_display (displayed : displayColumns (payloadNames schema) stmt = .ok display)
    (lengths : values.length = (payloadNames schema).length) : cellsOf lib display values =
      if stmt.projection.isEmpty then values.map (valueToString lib)
      else stmt.projection.filterMap fun name =>
        (namedValue schema values name).map (valueToString lib) := by
  rw [displayColumns] at displayed
  split at displayed
  · rename_i star
    cases displayed
    rw [if_pos star, cellsOf, filterMap_map]
    exact filterMap_zipIdx (valueToString lib) lengths []
  · rename_i listed
    rw [if_neg listed]
    have related := mapM_eq_ok_iff.1 displayed
    have names : stmt.projection = stmt.projection.zipIdx.map Prod.fst := by simp
    conv_rhs => rw [names, filterMap_map]
    refine (filterMap_forall₂ ?_ related).symm
    rintro ⟨name, i⟩ ⟨index, header⟩ found
    rw [displayColumn] at found
    split at found
    · cases found
    · rename_i index' known
      cases found
      simp only [Function.comp_apply, namedValue]
      rw [lookup_zip lengths, known, Option.bind_some]

/-- The order columns are found, each under the direction of its item. -/
theorem orderColumns_ok (sortable : Sortable schema stmt) :
    ∃ order, orderColumns (payloadNames schema) stmt = .ok order ∧
      Forall₂ (fun (item : OrderByItem) (column : Nat × Bool) =>
        payloadIndex (payloadNames schema) item.column = some column.1 ∧
          item.descending = column.2) stmt.orderBy order := by
  have found : ∃ order, orderColumns (payloadNames schema) stmt = .ok order := by
    refine exists_mapM fun item member => ?_
    obtain ⟨column, stored, named, _⟩ := sortable.order item member
    obtain ⟨index, known⟩ := payloadIndex_of_mem
      (show item.column ∈ payloadNames schema from named ▸ mem_map_of_mem stored)
    rw [known]
    exact ⟨_, rfl⟩
  obtain ⟨order, resolved⟩ := found
  refine ⟨order, resolved, (mapM_eq_ok_iff.1 resolved).imp fun item column found => ?_⟩
  split at found
  · cases found
  · rename_i index known
    cases found
    exact ⟨known, rfl⟩

/-- A decoded record is shown as its columns by name. -/
theorem resultRow_projected {order : List (Nat × Bool)}
    (displayed : displayColumns (payloadNames schema) stmt = .ok display)
    (ordered : Forall₂ (fun (item : OrderByItem) (column : Nat × Bool) =>
      payloadIndex (payloadNames schema) item.column = some column.1 ∧
        item.descending = column.2) stmt.orderBy order) {record : Bytes}
    (decoded : decodeRecord schema record = .ok values) :
    resultRow lib schema display order record = .ok (projected lib schema stmt record) := by
  have length : values.length = (payloadNames schema).length := by
    rw [payloadNames, length_map, payloadColumns_length]
    exact decodeColumns_length decoded
  have keys : order.filterMap (fun column => values[column.1]?) =
      stmt.orderBy.filterMap fun item => namedValue schema values item.column := by
    refine (filterMap_forall₂ ?_ ordered).symm
    rintro item column ⟨known, _⟩
    rw [namedValue, lookup_zip length, known, Option.bind_some]
  rw [resultRow, projected, decoded]
  show (if values.length ≠ (payloadNames schema).length then _ else _) = _
  rw [if_neg (not_not.2 length), cells_of_display displayed length, keys]
  rfl

end Resolved

/-! ## The first row of each kind -/

variable (rows : List ResultRow)

theorem firstOfEach_concat (row : ResultRow) : firstOfEach (rows ++ [row]) =
      firstOfEach rows ++ if rows.any (·.cells == row.cells) then [] else [row] := by
  have old : rows.zipIdx.filter (fun other =>
      !((rows ++ [row]).take other.2).any (·.cells == other.1.cells)) =
      rows.zipIdx.filter fun other => !(rows.take other.2).any (·.cells == other.1.cells) := by
    refine filter_congr fun other member => ?_
    obtain ⟨_, below, _⟩ := mem_zipIdx member
    rw [take_append_of_le_length (by omega)]
  rw [firstOfEach, zipIdx_append, filter_append, map_append, old]
  simp only [zipIdx_cons, filter_cons, Nat.zero_add, take_left]
  cases rows.any (·.cells == row.cells) <;> rfl

/-- What has been seen is seen among the rows that were kept. -/
theorem any_firstOfEach (cells : List Bytes) :
    (firstOfEach rows).any (·.cells == cells) = rows.any (·.cells == cells) := by
  induction rows using reverseRecOn with
  | nil => rfl
  | append_singleton rows row ih =>
    rw [firstOfEach_concat, any_append, any_append, ih]
    by_cases seen : rows.any (·.cells == row.cells) = true
    · rw [if_pos seen]
      by_cases same : row.cells = cells
      · rw [← same, seen]
        rfl
      · simp [same]
    · rw [if_neg seen]

theorem distinctRows_eq : distinctRows rows = firstOfEach rows := by
  induction rows using reverseRecOn with
  | nil => rfl
  | append_singleton rows row ih =>
    rw [distinctRows, foldl_append, ← distinctRows, ih, firstOfEach_concat, foldl_cons, foldl_nil,
      any_firstOfEach]
    split
    · rw [append_nil]
    · rfl

/-! ## Order keys -/

/-- Two integers or two texts. -/
def SameKind : Value → Value → Prop
  | .int _, .int _ => True
  | .text _, .text _ => True
  | _, _ => False

variable {b a : Value}

theorem sameKind_of_type {type : ColumnType} (exact_ : type ≠ .real) (first : a.HasType type)
    (second : b.HasType type) : SameKind a b := by
  cases type <;> cases a <;> cases b <;> trivial

variable {descending : Bool}

theorem keyBefore_asymm (before : KeyBefore descending a b) : ¬ KeyBefore descending b a := by
  cases a <;> cases b <;> cases descending <;>
    simp only [KeyBefore, Bool.false_eq_true, if_false, if_true] at before ⊢ <;>
    first | exact not_false | omega | exact List.lt_asymm before

theorem keyBefore_irrefl (descending : Bool) (a : Value) : ¬ KeyBefore descending a a :=
  fun before => keyBefore_asymm before before

theorem eq_of_not_keyBefore (alike : SameKind a b) (first : ¬ KeyBefore descending a b)
    (second : ¬ KeyBefore descending b a) : a = b := by
  cases a <;> cases b <;> try exact alike.elim
  · cases descending <;>
      simp only [KeyBefore, Bool.false_eq_true, if_false, if_true] at first second <;>
      exact congrArg Value.int (Int64.toInt_inj.1 (by omega))
  · cases descending <;>
      simp only [KeyBefore] at first second
    · exact congrArg Value.text (List.le_antisymm (List.not_lt.1 second) (List.not_lt.1 first))
    · exact congrArg Value.text (List.le_antisymm (List.not_lt.1 first) (List.not_lt.1 second))

theorem keyBefore_trans {c : Value} (first : KeyBefore descending a b)
    (second : KeyBefore descending b c) : KeyBefore descending a c := by
  cases a <;> cases b <;> cases c <;> cases descending <;>
    simp only [KeyBefore, Bool.false_eq_true, if_false, if_true] at first second ⊢ <;>
    first | omega | exact List.lt_trans first second | exact List.lt_trans second first

variable {directions : List Bool}

theorem keysBefore_asymm {as bs : List Value} (before : KeysBefore directions as bs) :
    ¬ KeysBefore directions bs as := by
  induction directions generalizing as bs with
  | nil => cases as <;> exact before.elim
  | cons descending rest ih =>
    cases as with
    | nil => exact before.elim
    | cons a as =>
      cases bs with
      | nil => exact before.elim
      | cons b bs =>
        rintro (later | ⟨rfl, later⟩)
        · rcases before with early | ⟨rfl, _⟩
          · exact keyBefore_asymm early later
          · exact keyBefore_irrefl _ _ later
        · rcases before with early | ⟨_, early⟩
          · exact keyBefore_irrefl _ _ early
          · exact ih early later

/-- Nothing lies between two keys without being apart from one of them. -/
theorem keysBefore_between {directions : List Bool} {as bs cs : List Value}
    (alike : Forall₂ SameKind as bs) (alike' : Forall₂ SameKind bs cs)
    (before : KeysBefore directions as cs) :
    KeysBefore directions as bs ∨ KeysBefore directions bs cs := by
  induction directions generalizing as bs cs with
  | nil => cases as <;> exact before.elim
  | cons descending rest ih =>
    cases alike with
    | nil => exact before.elim
    | @cons a b as bs kind kinds =>
      cases alike' with
      | @cons _ c _ cs kind' kinds' =>
        by_cases early : KeyBefore descending a b
        · exact .inl (.inl early)
        by_cases late : KeyBefore descending b c
        · exact .inr (.inl late)
        -- neither step goes forward, so both are equal or one goes back
        have back : a = b ∨ KeyBefore descending b a := by
          by_cases back : KeyBefore descending b a
          · exact .inr back
          · exact .inl (eq_of_not_keyBefore kind early back)
        rcases before with first | ⟨rfl, first⟩
        · rcases back with rfl | back
          · exact absurd first late
          · exact absurd (keyBefore_trans back first) late
        · rcases back with rfl | back
          · rcases ih kinds kinds' first with sooner | later
            · exact .inl (.inr ⟨rfl, sooner⟩)
            · exact .inr (.inr ⟨rfl, later⟩)
          · exact absurd back late

theorem eq_of_not_keysBefore {directions : List Bool} {as bs : List Value}
    (alike : Forall₂ SameKind as bs) (enough : as.length ≤ directions.length)
    (first : ¬ KeysBefore directions as bs) (second : ¬ KeysBefore directions bs as) : as = bs := by
  induction alike generalizing directions with
  | nil => rfl
  | @cons a b as bs kind kinds ih =>
    cases directions with
    | nil => cases enough
    | cons descending rest =>
      simp only [KeysBefore, not_or, not_and] at first second
      obtain rfl := eq_of_not_keyBefore kind first.1 second.1
      rw [ih (Nat.le_of_succ_le_succ enough) (first.2 rfl) (second.2 rfl)]

theorem valueLess_iff (lib : Library) (doubles : Doubles) (alike : SameKind a b) :
    valueLess lib doubles a b = true ↔ KeyBefore false a b := by
  cases a <;> cases b <;> try exact alike.elim
  · simp only [valueLess, decide_eq_true_eq]
    exact Int64.lt_iff_toInt_lt
  · simp [valueLess, KeyBefore]

theorem keyBefore_descending (a b : Value) : KeyBefore true a b ↔ KeyBefore false b a := by
  cases a <;> cases b <;> simp only [KeyBefore, Bool.false_eq_true, if_false, if_true]

theorem SameKind.symm (alike : SameKind a b) : SameKind b a := by
  cases a <;> cases b <;> trivial

/-- The comparison of the sort is the order of the keys. -/
theorem orderLess_iff (lib : Library) (doubles : Doubles) {as bs : List Value}
    (alike : Forall₂ SameKind as bs) :
    orderLess (valueLess lib doubles) directions as bs = true ↔ KeysBefore directions as bs := by
  induction alike generalizing directions with
  | nil => cases directions <;> simp [orderLess, KeysBefore]
  | @cons a b as bs kind kinds ih =>
    cases directions with
    | nil => simp [orderLess, KeysBefore]
    | cons descending rest =>
      rw [orderLess, KeysBefore]
      by_cases less : valueLess lib doubles a b = true
      · have forward := (valueLess_iff lib doubles kind).1 less
        have differ : a ≠ b := by
          rintro rfl
          exact keyBefore_irrefl _ _ forward
        rw [if_pos less]
        cases descending
        · simp [forward]
        · simp [keyBefore_descending, keyBefore_asymm forward, differ]
      · have forward := mt (valueLess_iff lib doubles kind).2 less
        rw [if_neg less]
        by_cases more : valueLess lib doubles b a = true
        · have back := (valueLess_iff lib doubles kind.symm).1 more
          have differ : a ≠ b := by
            rintro rfl
            exact keyBefore_irrefl _ _ back
          rw [if_pos more]
          cases descending
          · simp [forward, differ]
          · simp [keyBefore_descending, back]
        · have back := mt (valueLess_iff lib doubles kind.symm).2 more
          obtain rfl := eq_of_not_keyBefore kind forward back
          rw [if_neg more, ih]
          simp [keyBefore_irrefl]

/-! ## The keys of one statement -/

/-- A column found by its name has its type. -/
theorem lookup_typed {columns : List Column} {values : List Value}
    (typed : Forall₂ (fun column (value : Value) => value.HasType column.type) columns values)
    (nodup : (columns.map Column.name).Nodup) {column : Column} (member : column ∈ columns) :
    ∃ value, ((columns.map Column.name).zip values).lookup column.name = some value ∧
      value.HasType column.type := by
  induction typed with
  | nil => cases member
  | @cons first value columns values type types ih =>
    rw [map_cons, zip_cons_cons, lookup_cons]
    rw [map_cons, nodup_cons] at nodup
    by_cases same : column.name = first.name
    · have here : column = first := by
        rcases mem_cons.1 member with rfl | later
        · rfl
        · exact absurd (same ▸ mem_map_of_mem later) nodup.1
      subst here
      exact ⟨value, by simp, type⟩
    · have later : column ∈ columns :=
        (mem_cons.1 member).resolve_left fun eq => same (eq ▸ rfl)
      have other : (column.name == first.name) = false := by simpa using same
      rw [other]
      exact ih nodup.2 later

/-- Lists of values that are found for the same names, of one kind each. -/
theorem alike_filterMap {α : Type} {items : List α} {f g : α → Option Value}
    (found : ∀ item ∈ items, ∃ a b, f item = some a ∧ g item = some b ∧ SameKind a b) :
    Forall₂ SameKind (items.filterMap f) (items.filterMap g) ∧
      (items.filterMap f).length = items.length := by
  induction items with
  | nil => exact ⟨.nil, rfl⟩
  | cons item items ih =>
    obtain ⟨a, b, first, second, kind⟩ := found item mem_cons_self
    obtain ⟨kinds, length⟩ := ih fun other member => found other (mem_cons_of_mem _ member)
    rw [filterMap_cons, filterMap_cons, first, second]
    exact ⟨.cons kind kinds, congrArg (· + 1) length⟩

section Meaning

variable {lib : Library} {schema : Schema} {stmt : SelectStatement} {records : List Bytes}

/-- The order keys of any two records are of one kind each, one for every order column. -/
theorem keys_alike (lib : Library) (valid : schema.validate = .ok ())
    (sortable : Sortable schema stmt) {first second : Bytes} {values values' : List Value}
    (decoded : decodeRecord schema first = .ok values)
    (decoded' : decodeRecord schema second = .ok values') :
    Forall₂ SameKind (projected lib schema stmt first).orderKeys
        (projected lib schema stmt second).orderKeys ∧
      (projected lib schema stmt first).orderKeys.length = stmt.orderBy.length := by
  have nodup : ((payloadColumns schema.columns).map Column.name).Nodup :=
    (filter_sublist.map Column.name).nodup (validate_nodup valid)
  simp only [projected, decoded, decoded']
  refine alike_filterMap fun item member => ?_
  obtain ⟨column, stored, named, exact_⟩ := sortable.order item member
  obtain ⟨a, found, typed⟩ := lookup_typed (decodeColumns_typed decoded) nodup stored
  obtain ⟨b, found', typed'⟩ := lookup_typed (decodeColumns_typed decoded') nodup stored
  rw [named] at found found'
  exact ⟨a, b, found, found', sameKind_of_type exact_ typed typed'⟩

theorem firstOfEach_sublist : (firstOfEach rows).Sublist rows := by
  have kept := (filter_sublist (l := rows.zipIdx)
    (p := fun row => !(rows.take row.2).any (·.cells == row.1.cells))).map Prod.fst
  rwa [zipIdx_map_fst] at kept

theorem mem_keptRows {row : ResultRow} (member : row ∈ keptRows lib schema stmt records) :
    ∃ record ∈ records, projected lib schema stmt record = row := by
  rw [keptRows] at member
  split at member
  · exact mem_map.1 ((firstOfEach_sublist _).subset member)
  · exact mem_map.1 member

/-- The sort of the client is the stable sort by the order keys. -/
theorem sortRows_stable (lib : Library) (doubles : Doubles) (valid : schema.validate = .ok ())
    (sortable : Sortable schema stmt)
    (decodes : ∀ record ∈ records, ∃ values, decodeRecord schema record = .ok values)
    {order : List (Nat × Bool)}
    (directions : order.map Prod.snd = stmt.orderBy.map OrderByItem.descending) :
    StableSort (KeysBefore (stmt.orderBy.map OrderByItem.descending)) ResultRow.orderKeys
      (keptRows lib schema stmt records)
      (sortRows (valueLess lib doubles) order (keptRows lib schema stmt records)) := by
  have alike : ∀ a ∈ keptRows lib schema stmt records, ∀ b ∈ keptRows lib schema stmt records,
      Forall₂ SameKind a.orderKeys b.orderKeys := by
    intro a first b second
    obtain ⟨record, listed, rfl⟩ := mem_keptRows first
    obtain ⟨other, listed', rfl⟩ := mem_keptRows second
    obtain ⟨_, decoded⟩ := decodes record listed
    obtain ⟨_, decoded'⟩ := decodes other listed'
    exact (keys_alike lib valid sortable decoded decoded').1
  rw [sortRows]
  split
  · rename_i unordered
    have none_ : stmt.orderBy.map OrderByItem.descending = [] := by
      rw [← directions, isEmpty_iff.1 unordered]
      rfl
    rw [none_]
    exact ⟨.refl _, pairwise_of_forall fun _ _ before => before.elim, fun _ => rfl⟩
  · rw [directions]
    refine stableSort_insertionSort (fun a ha b hb => ?_) (fun a _ b _ => keysBefore_asymm)
      fun a ha b hb c hc => keysBefore_between (alike a ha b hb) (alike b hb c hc)
    rw [← orderLess_iff lib doubles (alike b hb a ha), Bool.not_eq_true]

/-- **A result table is the window of the kept rows in their order.**  The columns are shown by
name, DISTINCT keeps the first record of each row of cells, and the order is that of the keys, with
records of equal keys as they came; there is only one such order. -/
theorem buildResultTable_meaning (lib : Library) (doubles : Doubles)
    (valid : schema.validate = .ok ())
    (decodes : ∀ record ∈ records, ∃ values, decodeRecord schema record = .ok values)
    (sortable : Sortable schema stmt) : ∃ headers ordered,
      (∀ rows, StableSort (KeysBefore (stmt.orderBy.map OrderByItem.descending)) ResultRow.orderKeys
        (keptRows lib schema stmt records) rows ↔ rows = ordered) ∧
      buildResultTable lib doubles schema records stmt =
        .ok ⟨headers, ((ordered.drop (stmt.offset.getD 0)).take (stmt.limit.getD 10)).map
          ResultRow.cells⟩ := by
  obtain ⟨display, displayed⟩ := displayColumns_ok sortable.columns
  obtain ⟨order, ordered, resolved⟩ := orderColumns_ok sortable
  have directions : order.map Prod.snd = stmt.orderBy.map OrderByItem.descending := by
    have same := filterMap_forall₂ (f := fun item : OrderByItem => some item.descending)
      (g := fun column : Nat × Bool => some column.2) (fun _ _ found => congrArg some found.2)
      resolved
    rw [filterMap_eq_map', filterMap_eq_map'] at same
    exact same.symm
  have rows : records.mapM (resultRow lib schema display order) =
      .ok (records.map (projected lib schema stmt)) := by
    rw [mapM_eq_ok_iff, forall₂_map_right_iff, forall₂_same]
    intro record member
    obtain ⟨values, decoded⟩ := decodes record member
    exact resultRow_projected displayed resolved decoded
  have sorted := sortRows_stable lib doubles valid sortable decodes directions
  refine ⟨display.map Prod.snd, _, fun rows => ⟨fun other => ?_, fun same => same ▸ sorted⟩, ?_⟩
  · refine other.unique (fun a first b second => ?_)
      (fun _ before => keysBefore_asymm before before) sorted
    obtain ⟨record, listed, rfl⟩ := mem_keptRows first
    obtain ⟨record', listed', rfl⟩ := mem_keptRows second
    obtain ⟨_, decoded⟩ := decodes record listed
    obtain ⟨_, decoded'⟩ := decodes record' listed'
    obtain ⟨kinds, length⟩ := keys_alike lib valid sortable decoded decoded'
    exact eq_of_not_keysBefore kinds (by rw [length, length_map])
  · rw [buildResultTable]
    refine bind_eq_ok.2
      ⟨display, displayed, bind_eq_ok.2 ⟨order, ordered, bind_eq_ok.2 ⟨_, rows, ?_⟩⟩⟩
    simp only [distinctRows_eq]
    rfl

end Meaning

/-- `SELECT DISTINCT a FROM t ORDER BY c DESC LIMIT 2 OFFSET 1`. -/
def distinctStatement : SelectStatement where
  projection := [bytes "a"]
  table := bytes "t"
  distinct := true
  orderBy := [⟨bytes "c", true⟩]
  limit := some 2
  offset := some 1

/-- Four records, two of which show `x`. -/
def fourRecords : List Bytes :=
  [Client.sampleRecord 97 120, Client.sampleRecord 98 121, Client.sampleRecord 99 120,
    Client.sampleRecord 100 122]

/-- Of the two records that show `x` the first is kept, and it comes last. -/
theorem distinct_descending_window :
    buildResultTable strictLibrary ⟨fun _ _ => false, fun _ => 0⟩ Client.sampleSchema fourRecords
      distinctStatement = .ok ⟨[bytes "a"], [[bytes "y"], [bytes "x"]]⟩ ∧ ∃ ordered,
    (∀ rows, StableSort (KeysBefore [true]) ResultRow.orderKeys
      (keptRows strictLibrary Client.sampleSchema distinctStatement fourRecords) rows ↔
        rows = ordered) ∧
    ((ordered.drop 1).take 2).map ResultRow.cells = [[bytes "y"], [bytes "x"]] := by
  have table : buildResultTable strictLibrary ⟨fun _ _ => false, fun _ => 0⟩ Client.sampleSchema
      fourRecords distinctStatement = .ok ⟨[bytes "a"], [[bytes "y"], [bytes "x"]]⟩ := by
    decide +kernel
  have valid : Client.sampleSchema.validate = .ok () := by decide
  have decodes : ∀ record ∈ fourRecords, ∃ values,
      decodeRecord Client.sampleSchema record = .ok values := by
    simp only [fourRecords, mem_cons, not_mem_nil, or_false]
    rintro record (rfl | rfl | rfl | rfl) <;> exact ⟨_, rfl⟩
  have sortable : Sortable Client.sampleSchema distinctStatement :=
    ⟨by decide, fun item member => ⟨⟨bytes "c", .index, .text⟩, by decide, by
      obtain rfl := mem_singleton.1 member
      exact ⟨rfl, by decide⟩⟩⟩
  obtain ⟨headers, ordered, unique, shown⟩ := buildResultTable_meaning strictLibrary
    ⟨fun _ _ => false, fun _ => 0⟩ valid decodes sortable
  rw [table] at shown
  injection shown with same
  injection same with _ rows
  exact ⟨table, ordered, unique, rows.symm⟩

end OpaqueDb.Cli
