/-
# Storage.Retention -- pruning, and what it keeps

`Prune` looks at the names of the epochs only.  It removes all but the `keep` highest
versions (`runCall_prune`), so the epoch `CURRENT` names survives exactly if fewer than
`keep` versions are above it.  After a `Publish` of the next version none is; after a
`Rollback` there may be any number, and then `Prune` removes the epoch in use.
-/
import OpaqueDb.Storage.RoundTrip
import OpaqueDb.Theory.Rank

namespace OpaqueDb.Storage

open OpaqueDb.Core Theory List

set_option autoImplicit false

/-! ## The listing -/

theorem parseVersionName_dec (version : Nat) :
    parseVersionName (dec version) = if 2 ^ 64 ≤ version then none else some version := by
  have digits : (dec version).all isDigit = true := all_eq_true.2 fun c member => dec_digits member
  have full : (dec version).isEmpty = false := isEmpty_eq_false_iff.2 (dec_ne_nil version)
  rw [parseVersionName, digits, full]
  exact simpleAtou64_printed version

/-- The published versions, ascending. -/
def epochVersions (disk : RepoDisk) : List Nat :=
  versionsOf disk.dirs.keys

variable {version : Nat}

theorem mem_epochVersions {disk : RepoDisk} : version ∈ epochVersions disk ↔
      version < 2 ^ 64 ∧ (disk.dirs.lookup (.epoch version)).isSome := by
  rw [epochVersions, versionsOf, Finset.mem_sort, Finset.mem_eraseNone, Finset.mem_image]
  have stored : ∀ d, d ∈ disk.dirs.keys ↔ (disk.dirs.lookup d).isSome := fun d => by
    rw [Finmap.mem_keys, Finmap.lookup_isSome]
  constructor
  · rintro ⟨d, listed, parsed⟩
    cases d with
    | temp other =>
      cases parsed
    | epoch other =>
      rw [RepoDir.text, parseVersionName_dec] at parsed
      split at parsed
      · cases parsed
      · rename_i small
        cases parsed
        exact ⟨Nat.not_le.1 small, (stored _).1 listed⟩
  · rintro ⟨small, there⟩
    refine ⟨.epoch version, (stored _).2 there, ?_⟩
    rw [RepoDir.text, parseVersionName_dec, if_neg (Nat.not_le.2 small)]

variable (disk : RepoDisk)

theorem epochVersions_sorted : (epochVersions disk).SortedLT :=
  Finset.sortedLT_sort _

/-! ## What is removed -/

theorem runCall_listEpochs : runCall listEpochs disk = (.ok (epochVersions disk), disk) :=
  rfl

/-- The disk without these epochs. -/
def dropEpochs (disk : RepoDisk) (versions : List Nat) : RepoDisk :=
  versions.foldl (fun disk version => disk.dropDir (.epoch version)) disk

variable (versions : List Nat)

theorem dropEpochs_files : (dropEpochs disk versions).files = disk.files := by
  induction versions generalizing disk with
  | nil => rfl
  | cons version rest ih => exact ih _

theorem dropEpochs_lookup (d : RepoDir) : (dropEpochs disk versions).dirs.lookup d =
      if d ∈ versions.map RepoDir.epoch then none else disk.dirs.lookup d := by
  induction versions generalizing disk with
  | nil => rfl
  | cons version rest ih =>
    show (dropEpochs (disk.dropDir (.epoch version)) rest).dirs.lookup d = _
    rw [ih, map_cons]
    by_cases first : d = .epoch version
    · subst first
      rw [Disk.lookup_dropDir_self, if_pos mem_cons_self, ite_self]
    · rw [Disk.lookup_dropDir_ne _ _ first]
      simp [first]

theorem runCall_removeEpochs :
    runCall (removeEpochs versions) disk = (.ok (), dropEpochs disk versions) := by
  induction versions generalizing disk with
  | nil => rfl
  | cons version rest ih =>
    exact ih _

/-- The versions `Prune` removes. -/
def superseded (disk : RepoDisk) (keep : Nat) : List Nat :=
  if keep = 0 then [] else (epochVersions disk).take ((epochVersions disk).length - keep)

/-- **`Prune` removes exactly the superseded versions.** -/
theorem runCall_prune (keep : Nat) :
    runCall (prune keep) disk = (.ok (), dropEpochs disk (superseded disk keep)) := by
  unfold prune superseded
  split
  · rfl
  rw [runCall_bind_ok _ (runCall_listEpochs disk)]
  split
  · rename_i few
    rw [Nat.sub_eq_zero_of_le few]
    rfl
  · exact runCall_removeEpochs _ _

/-- How many versions are above the given one. -/
def newer (disk : RepoDisk) (version : Nat) : Nat :=
  (epochVersions disk).countP (version < ·)

theorem mem_superseded {disk : RepoDisk} (listed : version ∈ epochVersions disk) (keep : Nat) :
    version ∈ superseded disk keep ↔ keep ≠ 0 ∧ keep ≤ newer disk version := by
  unfold superseded
  split
  · rename_i none_
    simp [none_]
  · rename_i some_
    rw [mem_take_sub_iff (epochVersions_sorted disk) listed]
    exact ⟨fun enough => ⟨some_, enough⟩, And.right⟩

/-- An epoch that is not superseded is left as it is. -/
theorem prune_lookup (keep version : Nat) :
    (runCall (prune keep) disk).2.dirs.lookup (.epoch version) =
      if version ∈ superseded disk keep then none else disk.dirs.lookup (.epoch version) := by
  rw [runCall_prune, dropEpochs_lookup]
  simp

theorem prune_files (keep : Nat) : (runCall (prune keep) disk).2.files = disk.files := by
  rw [runCall_prune]
  exact dropEpochs_files _ _

/-- The remaining versions are the highest ones. -/
theorem prune_versions {disk : RepoDisk} {keep : Nat} (some_ : 1 ≤ keep) (version : Nat) :
    version ∈ epochVersions (runCall (prune keep) disk).2 ↔
      version ∈ (epochVersions disk).drop ((epochVersions disk).length - keep) := by
  have parted : (epochVersions disk).take ((epochVersions disk).length - keep) ++
      (epochVersions disk).drop ((epochVersions disk).length - keep) = epochVersions disk :=
    take_append_drop _ _
  have removed : superseded disk keep =
      (epochVersions disk).take ((epochVersions disk).length - keep) := if_neg (by omega)
  have known : version ∈ epochVersions disk ↔ version ∈ superseded disk keep ∨
      version ∈ (epochVersions disk).drop ((epochVersions disk).length - keep) := by
    rw [removed, ← mem_append, parted]
  have disjoint : version ∈ superseded disk keep →
      version ∉ (epochVersions disk).drop ((epochVersions disk).length - keep) := by
    intro first second
    have sorted := (epochVersions_sorted disk).pairwise
    rw [← parted] at sorted
    rw [removed] at first
    exact lt_irrefl version ((pairwise_append.1 sorted).2.2 version first version second)
  rw [mem_epochVersions, prune_lookup]
  split
  · rename_i gone
    simp only [Option.isSome_none, Bool.false_eq_true, and_false, false_iff]
    exact disjoint gone
  · rename_i stays
    rw [← mem_epochVersions, known]
    exact ⟨fun found => found.resolve_left stays, Or.inr⟩

/-! ## The epoch in use -/

section Current

variable (root : Bytes) (lib : JsonLibrary)

theorem currentOf_lt {answer : Except FileError Content}
    (read : currentOf root answer = .ok version) : version < 2 ^ 64 := by
  obtain ⟨text, _, parsed⟩ := bind_eq_ok.1 read
  unfold parseCurrent at parsed
  split at parsed
  · rename_i number
    cases parsed
    exact simpleAtou64_lt number
  · cases parsed

/-- Opening the current epoch reads the pointer and one directory. -/
theorem runCall_openCurrent : runCall (openCurrent root lib) disk =
    (currentOf root (disk.files.read .current) >>= fun version =>
      (runCall (openVersion root lib version) disk).1, disk) := by
  refine runCall_bind_read disk (runCall_currentVersion root disk) fun version => ?_
  rw [runCall_openVersion]

/-- **`Prune` and the epoch in use.**  With `CURRENT` at `version`, its epoch is there after
`Prune(keep)` and opens as before exactly if it was there and fewer than `keep` versions are
above it, or nothing is pruned at all.  What remains are in any case the `keep` highest. -/
theorem prune_keeps_current_iff {disk : RepoDisk} {version : Nat} (keep : Nat)
    (pointer : (runCall (currentVersion root) disk).1 = .ok version) :
    (((runCall (prune keep) disk).2.dirs.lookup (.epoch version)).isSome ∧
        (runCall (openCurrent root lib) (runCall (prune keep) disk).2).1 =
          (runCall (openCurrent root lib) disk).1 ↔
      (disk.dirs.lookup (.epoch version)).isSome ∧ (keep = 0 ∨ newer disk version < keep)) ∧
    (1 ≤ keep → keep < (epochVersions disk).length → ∀ other,
      other ∈ epochVersions (runCall (prune keep) disk).2 ↔
        other ∈ (epochVersions disk).drop ((epochVersions disk).length - keep)) := by
  rw [runCall_currentVersion] at pointer
  have current : currentOf root (disk.files.read .current) = .ok version := pointer
  have small := currentOf_lt root current
  refine ⟨?_, fun some_ _ other => prune_versions some_ other⟩
  have read : ∀ disk' : RepoDisk, disk'.files = disk.files →
      (runCall (openCurrent root lib) disk').1 =
        (runCall (openVersion root lib version) disk').1 := by
    intro disk' same
    rw [runCall_openCurrent, same, current]
    rfl
  rw [read _ (prune_files disk keep), read disk rfl, runCall_openVersion, runCall_openVersion,
    prune_lookup]
  by_cases there : (disk.dirs.lookup (.epoch version)).isSome = true
  · have removed := mem_superseded (mem_epochVersions.2 ⟨small, there⟩) keep
    split
    · rename_i gone
      have lost := removed.1 gone
      simp only [Option.isSome_none, Bool.false_eq_true, false_and, false_iff, not_and]
      intro _
      omega
    · rename_i stays
      have kept : keep = 0 ∨ newer disk version < keep := by
        by_contra wrong
        exact stays (removed.2 (by omega))
      exact ⟨fun _ => ⟨there, kept⟩, fun _ => ⟨there, rfl⟩⟩
  · have absent := Option.not_isSome_iff_eq_none.1 there
    rw [absent, ite_self]
    simp

end Current

/-- The only epoch survives any retention. -/
theorem prune_keeps_oneRow : ∃ disk,
    runCall (publish (bytes "/t") JsonLibrary.exact oneRow 1) Disk.empty = (.ok (), disk) ∧
    ((runCall (prune 1) disk).2.dirs.lookup (.epoch 1)).isSome := by
  obtain ⟨l, disk, _, run, published⟩ := publish_oneRow (bytes "/t") JsonLibrary.exact Disk.empty 1 rfl
  have pointer : (runCall (currentVersion (bytes "/t")) disk).1 = .ok 1 := by
    rw [published.pointer.currentVersion _ (by decide)]
  obtain ⟨dir, there, _⟩ := published.epoch
  have only : newer disk 1 = 0 := by
    refine countP_eq_zero.2 fun version listed => ?_
    obtain ⟨_, known⟩ := mem_epochVersions.1 listed
    by_cases same : version = 1
    · subst same
      decide
    · rw [published.others version same] at known
      cases known
  refine ⟨disk, run, ?_⟩
  exact ((prune_keeps_current_iff (bytes "/t") JsonLibrary.exact 1 pointer).1.2
    ⟨by rw [there]; rfl, Or.inr (by omega)⟩).1

/-! ## A rollback before a prune -/

theorem runCall_rollback {root : Bytes} {lib : JsonLibrary} {disk : RepoDisk} {reader : EpochReader}
    (opened : runCall (openVersion root lib version) disk = (.ok reader, disk)) :
    ∃ disk', runCall (rollback root lib version) disk = (.ok (), disk') ∧ disk'.dirs = disk.dirs ∧
      PointsTo disk' version := by
  obtain ⟨disk', done, dirs, pointer⟩ := runCall_setCurrent root disk version
  refine ⟨disk', ?_, dirs, pointer⟩
  rw [rollback, runCall_bind_ok _ opened, done]

/-- A table of two epochs. -/
theorem two_epochs (root : Bytes) (lib : JsonLibrary) : ∃ disk₁ disk₂ l,
    runCall (publish root lib oneRow 1) Disk.empty = (.ok (), disk₁) ∧ PointsTo disk₁ 1 ∧
    runCall (publish root lib oneRow 2) disk₁ = (.ok (), disk₂) ∧ PointsTo disk₂ 2 ∧
    layout lib oneRow 1 = .ok l ∧ Stands disk₂ 1 l ∧
    ∀ version, (disk₂.dirs.lookup (.epoch version)).isSome ↔ version = 1 ∨ version = 2 := by
  obtain ⟨l₁, disk₁, laid, first, one⟩ := publish_oneRow root lib Disk.empty 1 rfl
  have free : disk₁.dirs.lookup (.epoch 2) = none := one.others 2 (by decide)
  obtain ⟨l₂, disk₂, _, second, two⟩ := publish_oneRow root lib disk₁ 2 free
  obtain ⟨dir, known, holds⟩ := one.epoch
  obtain ⟨dir', known', _⟩ := two.epoch
  have old : disk₂.dirs.lookup (.epoch 1) = some dir := (two.others 1 (by decide)).trans known
  refine ⟨disk₁, disk₂, l₁, first, one.pointer, second, two.pointer, laid, ⟨dir, old, holds⟩,
    fun version => ?_⟩
  by_cases isOne : version = 1
  · rw [isOne, old]
    simp
  by_cases isTwo : version = 2
  · rw [isTwo, known']
    simp
  have absent : (Disk.empty : RepoDisk).dirs.lookup (.epoch version) = none := rfl
  rw [two.others version isTwo, one.others version isOne, absent]
  simp [isOne, isTwo]

/-- Publish, publish, roll back, prune to one epoch: the epoch in use is gone. -/
theorem prune_removes_current : ∃ disk₁ disk₂ disk₃ disk₄,
    runCall (publish (bytes "/t") JsonLibrary.exact oneRow 1) Disk.empty = (.ok (), disk₁) ∧
    runCall (publish (bytes "/t") JsonLibrary.exact oneRow 2) disk₁ = (.ok (), disk₂) ∧
    runCall (rollback (bytes "/t") JsonLibrary.exact 1) disk₂ = (.ok (), disk₃) ∧
    runCall (prune 1) disk₃ = (.ok (), disk₄) ∧
    runCall (currentVersion (bytes "/t")) disk₄ = (.ok 1, disk₄) ∧
    runCall (openCurrent (bytes "/t") JsonLibrary.exact) disk₄ = (.error (epochNotFound 1), disk₄) := by
  obtain ⟨disk₁, disk₂, l, first, _, second, _, laid, stands, exactly⟩ :=
    two_epochs (bytes "/t") JsonLibrary.exact
  obtain ⟨disk₃, third, dirs, pointer⟩ :=
    runCall_rollback (stands.opens _ laid (oneRow_legible JsonLibrary.exact (by decide) laid))
  have listed : ∀ version, version = 1 ∨ version = 2 → version ∈ epochVersions disk₃ := by
    intro version which
    refine mem_epochVersions.2 ⟨by omega, ?_⟩
    rw [dirs]
    exact (exactly version).2 which
  have above : 0 < newer disk₃ 1 :=
    countP_pos_iff.2 ⟨2, listed 2 (Or.inr rfl), by decide⟩
  have gone : 1 ∈ superseded disk₃ 1 := (mem_superseded (listed 1 (Or.inl rfl)) 1).2 ⟨by decide, above⟩
  let disk₄ := (runCall (prune 1) disk₃).2
  have absent : disk₄.dirs.lookup (.epoch 1) = none := by rw [prune_lookup, if_pos gone]
  have current : currentOf (bytes "/t") (disk₄.files.read .current) = .ok 1 := by
    have before := pointer.currentVersion (bytes "/t") (by decide)
    rw [runCall_currentVersion] at before
    rw [prune_files]
    exact congrArg Prod.fst before
  refine ⟨disk₁, disk₂, disk₃, disk₄, first, second, third, ?_, ?_, ?_⟩
  · exact Prod.ext (by rw [runCall_prune]) rfl
  · rw [runCall_currentVersion, current]
  · rw [runCall_openCurrent, current]
    show ((runCall (openVersion _ _ 1) disk₄).1, disk₄) = _
    rw [runCall_openVersion, absent]

end OpaqueDb.Storage
