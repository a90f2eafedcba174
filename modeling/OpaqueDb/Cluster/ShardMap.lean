/-
# Cluster.ShardMap -- the consistent-hash ring

Every node is placed on a ring of 64-bit points, `virtual_nodes` times; a key belongs to
the first point at or after its hash, wrapping around.  The ring is an ordered map from
points to nodes: a point that two nodes hash to keeps the one written last.

A ring over at least one node has an owner for every key, and the owner is one of the
nodes (`ownerOfHash_mem`).  Which one it is depends on the set of nodes alone, and a node
that joins takes keys over or leaves them where they are (`consistent_hashing`): the ring's
points are those of `Theory.Clockwise`, and placing a node only adds to them.
-/
import OpaqueDb.Core.Text
import OpaqueDb.Theory.Clockwise
import Mathlib.Data.List.Sort
import Mathlib.Data.List.Dedup

namespace OpaqueDb.Cluster

open OpaqueDb.Core Theory List

set_option autoImplicit false

/-- FNV-1a, with the ring's own offset. -/
def stableHash (data : Bytes) : UInt64 :=
  data.foldl (fun hash c => (hash ^^^ c.toUInt64) * 1099511628211) 1469598103934665603

/-- Points in ascending order, each with its node. -/
abbrev Ring := List (UInt64 × Bytes)

/-- `ring[point] = node`: a point already taken changes its node. -/
def Ring.assign (ring : Ring) (point : UInt64) (node : Bytes) : Ring :=
  match ring with
  | [] => [(point, node)]
  | entry :: rest =>
    if point < entry.1 then (point, node) :: entry :: rest
    else if point = entry.1 then (point, node) :: rest
    else entry :: Ring.assign rest point node

structure ShardMap where
  virtualNodes : Nat := 128
  nodes : List Bytes := []
  ring : Ring := []

/-- The points of one node, written over the ring. -/
def placeNode (virtualNodes : Nat) (ring : Ring) (node : Bytes) : Ring :=
  (range virtualNodes).foldl (fun ring v =>
    ring.assign (stableHash (strCat [node, "#", dec v])) node) ring

def rebuild (virtualNodes : Nat) (nodes : List Bytes) : Ring :=
  nodes.foldl (placeNode virtualNodes) []

/-- The node ids sorted and without repetition. -/
def uniqueIds (nodeIds : List Bytes) : List Bytes :=
  nodeIds.dedup.insertionSort (· ≤ ·)

def ShardMap.setNodes (map : ShardMap) (nodeIds : List Bytes) : ShardMap :=
  let nodes := uniqueIds nodeIds
  { map with nodes := nodes, ring := rebuild map.virtualNodes nodes }

def ShardMap.ownerOfHash (map : ShardMap) (keyHash : UInt64) : StatusOr Bytes :=
  match map.ring with
  | [] => .error ⟨.failedPrecondition, bytes "shard map has no nodes"⟩
  | first :: rest =>
    match (first :: rest).find? fun entry => keyHash ≤ entry.1 with
    | some entry => .ok entry.2
    | none => .ok first.2

def ShardMap.ownerOfKey (map : ShardMap) (key : Bytes) : StatusOr Bytes :=
  map.ownerOfHash (stableHash key)

def ShardMap.serialize (map : ShardMap) : Bytes :=
  intercalate [10] map.nodes

def ShardMap.parse (text : Bytes) (virtualNodes : Nat) : ShardMap :=
  { virtualNodes : ShardMap }.setNodes (strSplitSkipEmpty 10 text)

/-! ## The nodes of a ring -/

variable {entry : UInt64 × Bytes}

theorem mem_assign {ring : Ring} {point : UInt64} {node : Bytes}
    (member : entry ∈ ring.assign point node) : entry = (point, node) ∨ entry ∈ ring := by
  induction ring with
  | nil => exact .inl (mem_singleton.1 member)
  | cons head rest ih =>
    unfold Ring.assign at member
    split at member
    · exact mem_cons.1 member
    · split at member
      · rcases mem_cons.1 member with new | old
        · exact .inl new
        · exact .inr (mem_cons_of_mem _ old)
      · rcases mem_cons.1 member with rfl | old
        · exact .inr mem_cons_self
        · exact (ih old).imp id (mem_cons_of_mem _)

theorem assign_ne_nil (ring : Ring) (point : UInt64) (node : Bytes) : ring.assign point node ≠ [] := by
  unfold Ring.assign
  split
  · simp
  · split
    · simp
    · split <;> simp

variable {node : Bytes} {virtualNodes : Nat}

/-- Placing a node adds entries of that node only, and at least one if it has points. -/
theorem mem_placeNode {ring : Ring} (member : entry ∈ placeNode virtualNodes ring node) :
    entry.2 = node ∨ entry ∈ ring := by
  unfold placeNode at member
  generalize range virtualNodes = points at member
  induction points generalizing ring with
  | nil => exact .inr member
  | cons v points ih =>
    rcases ih member with same | old
    · exact .inl same
    · rcases mem_assign old with rfl | old
      · exact .inl rfl
      · exact .inr old

theorem placeNode_ne_nil (several : 1 ≤ virtualNodes) (ring : Ring) (node : Bytes) :
    placeNode virtualNodes ring node ≠ [] := by
  obtain ⟨n, rfl⟩ : ∃ n, virtualNodes = n + 1 := ⟨virtualNodes - 1, by omega⟩
  rw [placeNode, range_succ, foldl_append]
  exact assign_ne_nil _ _ _

variable {nodes : List Bytes}

theorem mem_rebuild {ring : Ring} (member : entry ∈ nodes.foldl (placeNode virtualNodes) ring) :
    entry.2 ∈ nodes ∨ entry ∈ ring := by
  induction nodes generalizing ring with
  | nil => exact .inr member
  | cons node nodes ih =>
    rcases ih member with listed | old
    · exact .inl (mem_cons_of_mem _ listed)
    · rcases mem_placeNode old with rfl | old
      · exact .inl mem_cons_self
      · exact .inr old

theorem rebuild_ne_nil (several : 1 ≤ virtualNodes) (some_ : nodes ≠ []) :
    rebuild virtualNodes nodes ≠ [] := by
  obtain ⟨others, last, rfl⟩ : ∃ others last, nodes = others ++ [last] :=
    ⟨nodes.dropLast, nodes.getLast some_, (dropLast_append_getLast some_).symm⟩
  rw [rebuild, foldl_append]
  exact placeNode_ne_nil several _ _

theorem mem_uniqueIds {nodeIds : List Bytes} {node : Bytes} :
    node ∈ uniqueIds nodeIds ↔ node ∈ nodeIds := by
  rw [uniqueIds, mem_insertionSort, mem_dedup]

theorem uniqueIds_nodup (nodeIds : List Bytes) : (uniqueIds nodeIds).Nodup :=
  ((perm_insertionSort _ _).nodup_iff).2 nodeIds.nodup_dedup

variable {nodeIds : List Bytes} {map : ShardMap}

/-- **Every key has an owner among the nodes.** -/
theorem ownerOfHash_mem (several : 1 ≤ map.virtualNodes) (some_ : nodeIds ≠ []) (keyHash : UInt64) :
    ∃ node ∈ uniqueIds nodeIds, (map.setNodes nodeIds).ownerOfHash keyHash = .ok node := by
  have nodes : uniqueIds nodeIds ≠ [] := by
    obtain ⟨node, member⟩ := exists_mem_of_ne_nil _ some_
    exact ne_nil_of_mem (mem_uniqueIds.2 member)
  have placed : ∀ entry ∈ rebuild map.virtualNodes (uniqueIds nodeIds),
      entry.2 ∈ uniqueIds nodeIds := by
    intro entry member
    rcases mem_rebuild member with listed | old
    · exact listed
    · cases old
  have filled := rebuild_ne_nil several nodes
  unfold ShardMap.ownerOfHash ShardMap.setNodes
  simp only
  split
  · rename_i empty
    exact absurd empty filled
  · rename_i first rest ring
    rw [ring] at placed
    split
    · rename_i entry found
      exact ⟨entry.2, placed entry (mem_of_find?_eq_some found), rfl⟩
    · exact ⟨first.2, placed first mem_cons_self, rfl⟩

/-! ## The points of a ring -/

/-- The hashes in their own order. -/
instance hashOrder : LinearOrder UInt64 where
  le_refl _ := UInt64.le_refl _
  le_trans _ _ _ := UInt64.le_trans
  le_antisymm _ _ := UInt64.le_antisymm
  le_total := UInt64.le_total
  lt_iff_le_not_ge _ _ := Std.LawfulOrderLT.lt_iff _ _
  toDecidableLE := inferInstance
  toDecidableLT := inferInstance

section Points

variable {ring : Ring} {point : UInt64} {node : Bytes}

/-- Assigning a point replaces what stood there and nothing else. -/
theorem mem_assign_iff (ascending : Ascending ring) :
    entry ∈ ring.assign point node ↔ entry = (point, node) ∨ entry ∈ ring ∧ entry.1 ≠ point := by
  induction ring with
  | nil => simp [Ring.assign]
  | cons head rest ih =>
    obtain ⟨below, later⟩ := pairwise_cons.1 ascending
    rw [Ring.assign]
    split_ifs with before same
    · have distinct : ∀ e ∈ head :: rest, e.1 ≠ point := by
        intro e member
        rcases mem_cons.1 member with rfl | old
        · exact before.ne'
        · exact (before.trans (below e old)).ne'
      rw [mem_cons]
      exact or_congr_right ⟨fun old => ⟨old, distinct entry old⟩, And.left⟩
    · have distinct : ∀ e ∈ rest, e.1 ≠ point := fun e old => same ▸ (below e old).ne'
      rw [mem_cons, mem_cons]
      refine or_congr_right ⟨fun old => ⟨.inr old, distinct entry old⟩, ?_⟩
      rintro ⟨rfl | old, other⟩
      · exact absurd same.symm other
      · exact old
    · rw [mem_cons, ih later, mem_cons]
      constructor
      · rintro (rfl | new | ⟨old, other⟩)
        · exact .inr ⟨.inl rfl, fun equal => same equal.symm⟩
        · exact .inl new
        · exact .inr ⟨.inr old, other⟩
      · rintro (new | ⟨rfl | old, other⟩)
        · exact .inr (.inl new)
        · exact .inl rfl
        · exact .inr (.inr ⟨old, other⟩)

theorem assign_ascending (ascending : Ascending ring) : Ascending (ring.assign point node) := by
  induction ring with
  | nil => exact pairwise_singleton _ _
  | cons head rest ih =>
    obtain ⟨below, later⟩ := pairwise_cons.1 ascending
    rw [Ring.assign]
    split_ifs with before same
    · refine pairwise_cons.2 ⟨fun e member => ?_, ascending⟩
      rcases mem_cons.1 member with rfl | old
      · exact before
      · exact before.trans (below e old)
    · exact pairwise_cons.2 ⟨fun e old => same ▸ below e old, later⟩
    · refine pairwise_cons.2 ⟨fun e member => ?_, ih later⟩
      rcases mem_assign member with rfl | old
      · exact lt_of_le_of_ne (not_lt.1 before) (Ne.symm same)
      · exact below e old

/-- The points of a ring, each with its node. -/
def Ring.points (ring : Ring) : Set (UInt64 × Bytes) :=
  {entry | entry ∈ ring}

/-- A point the new node takes. -/
theorem added_assign {wide ring : Ring} (ascending : Ascending wide) {node : Bytes}
    (added : Added node wide.points ring.points) (point : UInt64) :
    Added node (wide.assign point node).points ring.points where
  new q member := by
    rcases (mem_assign_iff ascending).1 member with rfl | ⟨old, _⟩
    · exact .inl rfl
    · exact added.new q old
  kept q member := by
    obtain ⟨m, still⟩ := added.kept q member
    by_cases taken : q.1 = point
    · exact ⟨node, (mem_assign_iff ascending).2 (.inl (by rw [taken]))⟩
    · exact ⟨m, (mem_assign_iff ascending).2 (.inr ⟨still, taken⟩)⟩

/-- A point another node takes in both rings. -/
theorem added_assign_both {wide ring : Ring} (ascendingWide : Ascending wide)
    (ascending : Ascending ring) {node : Bytes} (added : Added node wide.points ring.points)
    (point : UInt64) (other : Bytes) :
    Added node (wide.assign point other).points (ring.assign point other).points where
  new q member := by
    rcases (mem_assign_iff ascendingWide).1 member with rfl | ⟨old, apart⟩
    · exact .inr ((mem_assign_iff ascending).2 (.inl rfl))
    · exact (added.new q old).imp id fun kept => (mem_assign_iff ascending).2 (.inr ⟨kept, apart⟩)
  kept q member := by
    rcases (mem_assign_iff ascending).1 member with rfl | ⟨old, apart⟩
    · exact ⟨other, (mem_assign_iff ascendingWide).2 (.inl rfl)⟩
    · obtain ⟨m, still⟩ := added.kept q old
      exact ⟨m, (mem_assign_iff ascendingWide).2 (.inr ⟨still, apart⟩)⟩

end Points

section Placing

variable (virtualNodes : Nat)

theorem placeNode_ascending {ring : Ring} (ascending : Ascending ring) (node : Bytes) :
    Ascending (placeNode virtualNodes ring node) := by
  unfold placeNode
  generalize range virtualNodes = points
  induction points generalizing ring with
  | nil => exact ascending
  | cons v points ih => exact ih (assign_ascending ascending)

theorem rebuild_ascending (nodes : List Bytes) : Ascending (rebuild virtualNodes nodes) := by
  have along : ∀ ring : Ring, Ascending ring → Ascending (nodes.foldl (placeNode virtualNodes) ring) := by
    induction nodes with
    | nil => exact fun ring ascending => ascending
    | cons node nodes ih => exact fun ring ascending => ih _ (placeNode_ascending _ ascending node)
  exact along [] List.Pairwise.nil

theorem added_placeNode {wide ring : Ring} (ascending : Ascending wide) {node : Bytes}
    (added : Added node wide.points ring.points) :
    Added node (placeNode virtualNodes wide node).points ring.points := by
  unfold placeNode
  generalize range virtualNodes = points
  induction points generalizing wide with
  | nil => exact added
  | cons v points ih => exact ih (assign_ascending ascending) (added_assign ascending added _)

theorem added_placeNode_both {wide ring : Ring} (ascendingWide : Ascending wide)
    (ascending : Ascending ring) {node : Bytes} (added : Added node wide.points ring.points)
    (other : Bytes) :
    Added node (placeNode virtualNodes wide other).points
      (placeNode virtualNodes ring other).points := by
  unfold placeNode
  generalize range virtualNodes = points
  induction points generalizing wide ring with
  | nil => exact added
  | cons v points ih =>
    exact ih (assign_ascending ascendingWide) (assign_ascending ascending)
      (added_assign_both ascendingWide ascending added _ other)

/-- Wherever the node stands in the order, the ring with it adds its points to the ring
without it. -/
theorem added_rebuild (front back : List Bytes) (node : Bytes) :
    Added node (rebuild virtualNodes (front ++ node :: back)).points
      (rebuild virtualNodes (front ++ back)).points := by
  have along : ∀ wide ring : Ring, Ascending wide → Ascending ring →
      Added node wide.points ring.points →
      Added node (back.foldl (placeNode virtualNodes) wide).points
        (back.foldl (placeNode virtualNodes) ring).points := by
    induction back with
    | nil => exact fun wide ring _ _ added => added
    | cons other back ih =>
      intro wide ring ascendingWide ascending added
      exact ih _ _ (placeNode_ascending _ ascendingWide other)
        (placeNode_ascending _ ascending other)
        (added_placeNode_both _ ascendingWide ascending added other)
  have before := rebuild_ascending virtualNodes front
  rw [rebuild, rebuild, foldl_append, foldl_append]
  exact along _ _ (placeNode_ascending _ before node) before
    (added_placeNode virtualNodes before ⟨fun q old => .inr old, fun q old => ⟨q.2, old⟩⟩)

end Placing

/-! ## Owners -/

/-- The owner of a hash stands at the first point met from it. -/
theorem ownerOfHash_serves (ascending : Ascending map.ring) {keyHash : UInt64}
    (owner : map.ownerOfHash keyHash = .ok node) : Serves map.ring.points keyHash node := by
  unfold ShardMap.ownerOfHash at owner
  split at owner
  · cases owner
  · rename_i first rest ring
    rw [ring] at ascending ⊢
    split at owner
    · rename_i entry found
      cases owner
      exact serves_of_find ascending found
    · rename_i past
      cases owner
      exact serves_of_wrap ascending past

/-- The ids are determined by their set. -/
theorem eq_uniqueIds (sorted : nodes.Pairwise (· ≤ ·)) (nodup : nodes.Nodup)
    (same : ∀ node, node ∈ nodes ↔ node ∈ nodeIds) : nodes = uniqueIds nodeIds := by
  have alike : nodes.Perm (uniqueIds nodeIds) :=
    (perm_ext_iff_of_nodup nodup (uniqueIds_nodup nodeIds)).2 fun node =>
      (same node).trans mem_uniqueIds.symm
  exact alike.eq_of_pairwise (fun a b _ _ => List.le_antisymm) sorted
    (List.pairwise_insertionSort (· ≤ ·) _)

theorem uniqueIds_sorted (nodeIds : List Bytes) : (uniqueIds nodeIds).Pairwise (· ≤ ·) :=
  List.pairwise_insertionSort (· ≤ ·) _

theorem setNodes_congr (map : ShardMap) {nodeIds others : List Bytes}
    (same : ∀ node, node ∈ others ↔ node ∈ nodeIds) : map.setNodes others = map.setNodes nodeIds := by
  have ids : uniqueIds others = uniqueIds nodeIds :=
    eq_uniqueIds (uniqueIds_sorted others) (uniqueIds_nodup others) fun node =>
      mem_uniqueIds.trans (same node)
  simp only [ShardMap.setNodes, ids]

/-- A new id is put in among the others. -/
theorem uniqueIds_cons (fresh : node ∉ nodeIds) :
    ∃ front back, uniqueIds (node :: nodeIds) = front ++ node :: back ∧
      uniqueIds nodeIds = front ++ back := by
  obtain ⟨front, back, split⟩ :=
    append_of_mem (mem_uniqueIds.2 (mem_cons_self (a := node) (l := nodeIds)))
  have nodup : (front ++ node :: back).Nodup := split ▸ uniqueIds_nodup _
  have fewer := (sublist_cons_self node back).append_left front
  have absent : node ∉ front ++ back := (nodup_middle.1 nodup).notMem
  refine ⟨front, back, split, (eq_uniqueIds ?_ (nodup.sublist fewer) fun other => ?_).symm⟩
  · exact (split ▸ uniqueIds_sorted (node :: nodeIds)).sublist fewer
  · have all : other ∈ front ++ node :: back ↔ other ∈ node :: nodeIds := by
      rw [← split, mem_uniqueIds]
    constructor
    · intro member
      rcases mem_cons.1 (all.1 (fewer.mem member)) with rfl | old
      · exact absurd member absent
      · exact old
    · intro old
      have wide := all.2 (mem_cons_of_mem _ old)
      rw [mem_append, mem_cons] at wide
      rcases wide with early | rfl | late
      · exact mem_append_left _ early
      · exact absurd old fresh
      · exact mem_append_right _ late

/-- A joining node takes a key or leaves its owner. -/
theorem ownerOfHash_cons (several : 1 ≤ map.virtualNodes) (fresh : node ∉ nodeIds)
    (keyHash : UInt64) : (map.setNodes (node :: nodeIds)).ownerOfHash keyHash = .ok node ∨
      (map.setNodes (node :: nodeIds)).ownerOfHash keyHash =
        (map.setNodes nodeIds).ownerOfHash keyHash := by
  obtain ⟨front, back, wide, narrow⟩ := uniqueIds_cons fresh
  obtain ⟨owner, known, owns⟩ := ownerOfHash_mem several (cons_ne_nil node nodeIds) keyHash
  have serves := ownerOfHash_serves (rebuild_ascending _ _) owns
  have added : Added node (map.setNodes (node :: nodeIds)).ring.points
      (map.setNodes nodeIds).ring.points := by
    have := added_rebuild map.virtualNodes front back node
    rwa [← wide, ← narrow] at this
  rcases serves.of_added added with rfl | before
  · exact .inl owns
  · have some_ : nodeIds ≠ [] := by
      rintro rfl
      obtain ⟨p, member, _⟩ := before
      cases member
    obtain ⟨owner', _, owns'⟩ := ownerOfHash_mem several some_ keyHash
    have serves' := ownerOfHash_serves (rebuild_ascending _ _) owns'
    refine .inr (owns.trans (Eq.trans ?_ owns'.symm))
    rw [before.unique (rebuild_ascending _ _).apart serves']

theorem parse_serialize (map : ShardMap) {nodeIds : List Bytes}
    (plain : ∀ node ∈ nodeIds, node ≠ [] ∧ 10 ∉ node) :
    ShardMap.parse (map.setNodes nodeIds).serialize map.virtualNodes =
      ({ virtualNodes := map.virtualNodes : ShardMap }.setNodes nodeIds) := by
  refine setNodes_congr _ fun node => ?_
  have listed : ∀ id ∈ uniqueIds nodeIds, id ≠ [] ∧ 10 ∉ id := fun id member =>
    plain id (mem_uniqueIds.1 member)
  show node ∈ strSplitSkipEmpty 10 (intercalate [10] (uniqueIds nodeIds)) ↔ node ∈ nodeIds
  rw [← @mem_uniqueIds nodeIds, strSplitSkipEmpty]
  generalize uniqueIds nodeIds = ids at listed ⊢
  cases ids with
  | nil => simp [strSplit]
  | cons first rest =>
    rw [strSplit_intercalate (cons_ne_nil _ _) fun id member => (listed id member).2, mem_filter]
    exact and_iff_left_of_imp fun member => by simpa using (listed node member).1

/-- **Consistent hashing.**  The owner of a hash is one of the nodes and depends on their
set alone; a node that joins takes a hash or leaves its owner; the printed map has the same
owners. -/
theorem consistent_hashing (map : ShardMap) (several : 1 ≤ map.virtualNodes) (nodeIds : List Bytes)
    (keyHash : UInt64) :
    (nodeIds ≠ [] → ∃ owner ∈ nodeIds, (map.setNodes nodeIds).ownerOfHash keyHash = .ok owner) ∧
    (∀ others : List Bytes, (∀ node, node ∈ others ↔ node ∈ nodeIds) →
      (map.setNodes others).ownerOfHash keyHash = (map.setNodes nodeIds).ownerOfHash keyHash) ∧
    (∀ node ∉ nodeIds,
      (map.setNodes (node :: nodeIds)).ownerOfHash keyHash = .ok node ∨
        (map.setNodes (node :: nodeIds)).ownerOfHash keyHash =
          (map.setNodes nodeIds).ownerOfHash keyHash) ∧
    ((∀ node ∈ nodeIds, node ≠ [] ∧ 10 ∉ node) →
      (ShardMap.parse (map.setNodes nodeIds).serialize map.virtualNodes).ownerOfHash keyHash =
        (map.setNodes nodeIds).ownerOfHash keyHash) := by
  refine ⟨fun some_ => ?_, fun others same => ?_, fun node fresh => ?_, fun plain => ?_⟩
  · obtain ⟨owner, member, owns⟩ := ownerOfHash_mem several some_ keyHash
    exact ⟨owner, mem_uniqueIds.1 member, owns⟩
  · rw [setNodes_congr map same]
  · exact ownerOfHash_cons several fresh keyHash
  · rw [parse_serialize map plain]
    rfl

/-- Three nodes, the last one joining, at hash 0. -/
theorem consistent_hashing_three :
    let map : ShardMap := { virtualNodes := 2 }
    let joined := map.setNodes [bytes "c", bytes "a", bytes "b"]
    1 ≤ map.virtualNodes ∧
      (joined.ownerOfHash 0 = .ok (bytes "c") ∨
        joined.ownerOfHash 0 = (map.setNodes [bytes "a", bytes "b"]).ownerOfHash 0) :=
  ⟨by decide, (consistent_hashing { virtualNodes := 2 } (by decide) [bytes "a", bytes "b"] 0).2.2.1
    (bytes "c") (by decide)⟩

end OpaqueDb.Cluster
