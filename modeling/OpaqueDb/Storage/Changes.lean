/-
# Storage.Changes -- what each command of a call may change

A call is looked at while it is under way.  Whatever its commands are answered, each of them
leaves the epochs and `CURRENT` as they are, or adds one epoch with all its files, or makes an
epoch current, or removes a part of one that is superseded (`Change`).
-/
import OpaqueDb.Storage.Retention

namespace OpaqueDb.Storage

open OpaqueDb.Core Theory Theory.Disk

set_option autoImplicit false

/-- Every command of the call relates the disk before it to the disk after it. -/
def Each {α : Type} (relates : RepoDisk → RepoDisk → Prop) (call : FileCall α) (disk : RepoDisk) :
    Prop :=
  Prog.Along Disk.May relates call.run disk

variable {op : FileOp RepoFile RepoDir}

section Rules

variable {α β : Type} {relates : RepoDisk → RepoDisk → Prop} {disk : RepoDisk}

theorem Each.bind {call : FileCall α} {next : α → FileCall β} (first : Each relates call disk)
    (rest : ∀ a t, Returns call disk (.ok a) t → Each relates (next a) t) :
    Each relates (call >>= next) disk := by
  refine Prog.Along.bind (p := call.run) first fun result t steps => ?_
  rcases result with status | a
  · trivial
  · exact rest a t steps

theorem each_liftStatus (result : StatusOr α) : Each relates (liftStatus result) disk :=
  trivial

theorem each_checked (words : FileError → List Bytes)
    (step : ∀ answer t, Disk.May disk op answer t → relates disk t) :
    Each relates (checked words op) disk :=
  fun answer t may => ⟨step answer t may, trivial⟩

theorem each_asked (step : ∀ answer t, Disk.May disk op answer t → relates disk t) :
    Each relates (asked op) disk :=
  fun answer t may => ⟨step answer t may, trivial⟩

theorem Returns.checked {words : FileError → List Bytes} {value : op.Value} {disk' : RepoDisk}
    (returns : Returns (checked words op) disk (.ok value) disk') :
    exec op disk = (.ok value, disk') := by
  have run := strict_checked words op returns
  rcases answered : exec op disk with ⟨error | value', disk₁⟩
  · have failed : runCall (Storage.checked words op) disk =
        (.error (internalError (words error ++ [error.text])), disk₁) := by
      show Prog.run exec (Prog.call op _) disk = _
      rw [Prog.run_call, answered]
      rfl
    cases run.symm.trans failed
  · cases run.symm.trans (runCall_checked _ answered)
    rfl

end Rules

/-! ## Calls that read -/

def Reading : FileOp RepoFile RepoDir → Prop
  | .existsDir _ | .readTop _ | .readFile _ _ | .listDirs => True
  | _ => False

theorem may_reading (reading : Reading op) {disk disk' : RepoDisk} {answer : op.Answer}
    (may : Disk.May disk op answer disk') : exec op disk = (answer, disk') ∧ disk' = disk := by
  rcases may with done | ⟨fault, _⟩
  · refine ⟨done, ?_⟩
    have same : (exec op disk).2 = disk := by
      cases op with
      | readFile d name =>
        simp only [exec]
        split <;> rfl
      | existsDir _ => rfl
      | readTop _ => rfl
      | listDirs => rfl
      | _ => exact absurd reading id
    rw [done] at same
    exact same
  · cases fault <;> exact absurd reading id

section Reading

variable {α : Type} {call : FileCall α} {disk disk' : RepoDisk}

theorem each_reading (reading : Issues Reading call) (disk : RepoDisk) :
    Each (fun s t => t = s) call disk := by
  refine Prog.Only.along reading ?_ disk
  intro op reads s answer t may
  exact (may_reading reads may).2

/-- Reads do not fail, so a call that only reads runs undisturbed. -/
theorem runCall_of_reading {result : StatusOr α} (reading : Issues Reading call)
    (returns : Returns call disk result disk') :
    runCall call disk = (result, disk') ∧ disk' = disk := by
  revert reading returns
  unfold Issues Returns runCall
  generalize call.run = p
  intro reading returns
  induction p generalizing disk with
  | done a =>
    cases returns
    exact ⟨rfl, rfl⟩
  | call op next ih =>
    obtain ⟨answer, disk₁, first, rest⟩ := returns.call_done
    obtain ⟨done, rfl⟩ := may_reading reading.1 first
    rw [Prog.run_call, done]
    exact ih answer (reading.2 answer) rest

variable (root : Bytes)

theorem reading_openVersion (lib : JsonLibrary) (version : Nat) :
    Issues Reading (openVersion root lib version) := by
  refine (looks_openVersion lib version).mono fun op looks => ?_
  cases op with
  | readTop f => exact absurd looks id
  | _ => exact looks

theorem reading_currentVersion : Issues Reading (currentVersion root) := by
  rw [Issues, currentVersion_run]
  exact ⟨trivial, fun _ => trivial⟩

theorem reading_openCurrent (lib : JsonLibrary) : Issues Reading (openCurrent root lib) :=
  (reading_currentVersion root).bind fun version => reading_openVersion root lib version

end Reading

/-! ## Commands of one directory -/

/-- Only this subdirectory may have changed. -/
structure OnlyDir (d : RepoDir) (disk disk' : RepoDisk) : Prop where
  files : disk'.files = disk.files
  dirs : ∀ e, e ≠ d → disk'.dirs.lookup e = disk.dirs.lookup e

namespace OnlyDir

variable {d : RepoDir} {disk : RepoDisk}

theorem refl (d : RepoDir) (disk : RepoDisk) : OnlyDir d disk disk :=
  ⟨rfl, fun _ _ => rfl⟩

theorem setDir (disk : RepoDisk) (dir : Subdir) : OnlyDir d disk (disk.setDir d dir) :=
  ⟨rfl, fun _ other => lookup_setDir_ne _ _ _ other⟩

theorem dropDir (d : RepoDir) (disk : RepoDisk) : OnlyDir d disk (disk.dropDir d) :=
  ⟨rfl, fun _ other => lookup_dropDir_ne _ _ other⟩

theorem onStored (disk : RepoDisk) (name : Bytes) (change : Stored → Stored) :
    OnlyDir d disk (disk.onStored d name change) := by
  unfold Disk.onStored
  split
  · exact refl d disk
  · split
    · exact refl d disk
    · exact setDir disk _

end OnlyDir

/-- The command changes nothing but this subdirectory. -/
def Confined (d : RepoDir) : FileOp RepoFile RepoDir → Prop
  | .removeAll e | .createDir e | .fsyncDir e => e = d
  | .create (.inside e _) | .write (.inside e _) _ | .fsync (.inside e _) => e = d
  | _ => False

theorem may_confined {d : RepoDir} {op : FileOp RepoFile RepoDir} {disk disk' : RepoDisk}
    {answer : op.Answer} (may : Disk.May disk op answer disk') (confined : Confined d op) :
    OnlyDir d disk disk' := by
  rcases may with done | ⟨fault, _⟩
  · have after : disk' = (exec op disk).2 := by rw [done]
    rw [after]
    cases op with
    | removeAll e => cases confined; exact .dropDir d disk
    | createDir e =>
      cases confined
      simp only [exec]
      split
      · exact .refl d disk
      · exact .setDir disk _
    | fsyncDir e =>
      cases confined
      simp only [exec]
      split
      · exact .refl d disk
      · exact .setDir disk _
    | create place =>
      cases place with
      | top f => cases confined
      | inside e name =>
        cases confined
        simp only [exec]
        split
        · exact .refl d disk
        · exact .setDir disk _
    | write handle data =>
      cases handle with
      | top inode => cases confined
      | inside e name => cases confined; exact .onStored disk _ _
    | fsync handle =>
      cases handle with
      | top inode => cases confined
      | inside e name => cases confined; exact .onStored disk _ _
    | _ => cases confined
  · cases fault with
    | removePart known part => cases confined; exact .setDir disk _
    | write handle data n =>
      cases handle with
      | top inode => cases confined
      | inside e name => cases confined; exact .onStored disk _ _
    | _ => exact .refl d disk

theorem may_fsyncTop {disk disk' : RepoDisk} {answer : Except FileError Unit}
    (may : Disk.May disk .fsyncTop answer disk') : disk' = disk := by
  rcases may with done | ⟨fault, _⟩
  · cases done
    rfl
  · cases fault
    rfl

section Filling

variable {root : Bytes} {disk : RepoDisk}

theorem each_writeInside (d : RepoDir) (name data : Bytes) (disk : RepoDisk) :
    Each (OnlyDir d) (writeFileDurably root (.inside d name) data) disk := by
  refine Each.bind (each_checked _ fun _ _ may => may_confined may rfl) fun handle t created => ?_
  have handed : handle = .inside d name := by
    have done := created.checked
    simp only [exec] at done
    split at done
    · cases done
    · cases done
      rfl
  subst handed
  exact Each.bind (each_checked _ fun _ _ may => may_confined may rfl) fun _ _ _ =>
    each_checked _ fun _ _ may => may_confined may rfl

theorem each_fill (lib : JsonLibrary) (staging : StagingEpoch) (version : Nat) (disk : RepoDisk) :
    Each (OnlyDir (.temp version)) (fillEpoch root lib staging version) disk := by
  have segment : ∀ name stride records disk,
      Each (OnlyDir (.temp version)) (writeSegment root (.inside (.temp version) name) stride records)
        disk := by
    intro name stride records disk
    refine (each_liftStatus _).bind fun written t _ => ?_
    exact (each_writeInside _ _ _ _).bind fun _ _ _ => each_liftStatus _
  refine (segment _ _ _ _).bind fun _ _ _ => (segment _ _ _ _).bind fun _ _ _ => ?_
  refine (each_liftStatus _).bind fun _ _ _ => (each_writeInside _ _ _ _).bind fun _ _ _ => ?_
  exact each_checked _ fun _ _ may => may_confined may rfl

end Filling

/-! ## The pointer -/

/-- The epochs stay; `CURRENT` stays too, or is set to this version. -/
structure Repoints (version : Nat) (disk disk' : RepoDisk) : Prop where
  dirs : disk'.dirs = disk.dirs
  pointer : disk'.files.entry .current = disk.files.entry .current ∨ PointsTo disk' version

section Pointer

variable {root : Bytes} {disk disk' : RepoDisk} {version : Nat}

theorem Repoints.refl (version : Nat) (disk : RepoDisk) : Repoints version disk disk :=
  ⟨rfl, Or.inl rfl⟩

/-- A change of the temporary file's content. -/
theorem repoints_change {file : File} (known : disk.files.entry .currentTmp = some file)
    (content : Content → Content) (synced : Bool) :
    Repoints version disk { disk with files := disk.files.change file.inode content synced } := by
  refine ⟨rfl, Or.inl ?_⟩
  rw [Files.change_entry known, Function.update_of_ne (by decide)]

theorem may_writeTmp {file : File} (known : disk.files.entry .currentTmp = some file) {data : Bytes}
    {answer : Except FileError Unit}
    (may : Disk.May disk (.write (.top file.inode) data) answer disk') :
    Repoints version disk disk' := by
  rcases may with done | ⟨fault, _⟩
  · cases done
    exact repoints_change known _ _
  · cases fault
    exact repoints_change known _ _

theorem may_fsyncTmp {file : File} (known : disk.files.entry .currentTmp = some file)
    {answer : Except FileError Unit} (may : Disk.May disk (.fsync (.top file.inode)) answer disk') :
    Repoints version disk disk' := by
  rcases may with done | ⟨fault, _⟩
  · cases done
    exact repoints_change known _ _
  · cases fault
    exact .refl _ _

/-- The temporary file is written under an identity of its own. -/
theorem each_writeTmp (data : Bytes) (disk : RepoDisk) :
    Each (Repoints version) (writeFileDurably root (.top .currentTmp) data) disk := by
  have created : ∀ answer t, Disk.May disk (.create (.top .currentTmp)) answer t →
      Repoints version disk t := by
    intro answer t may
    rcases may with done | ⟨fault, _⟩
    · cases done
      exact ⟨rfl, Or.inl (disk.files.create_entry_ne (by decide))⟩
    · cases fault
      exact .refl _ _
  refine (each_checked _ created).bind fun handle t returned => ?_
  have done := returned.checked
  cases done
  have known := disk.files.create_entry_self .currentTmp
  have wrote : ∀ answer t, Disk.May { disk with files := disk.files.create .currentTmp }
      (.write (.top (disk.files.inodeFor .currentTmp)) data) answer t →
      Repoints version { disk with files := disk.files.create .currentTmp } t :=
    fun answer t may => @may_writeTmp _ _ _ ⟨_, [], false⟩ known _ _ may
  refine (each_checked _ wrote).bind fun _ t returned => ?_
  have done := returned.checked
  cases done
  have known' : ((disk.files.create .currentTmp).change (disk.files.inodeFor .currentTmp)
      (overwrite data) false).entry .currentTmp =
      some ⟨disk.files.inodeFor .currentTmp, overwrite data [], false⟩ := by
    rw [@Files.change_entry _ _ _ _ ⟨_, [], false⟩ known, Function.update_self]
  exact each_checked _ fun answer t may => @may_fsyncTmp _ _ _ ⟨_, _, false⟩ known' _ may

/-- **`setCurrent` moves the pointer in one step.** -/
theorem each_setCurrent (version : Nat) (disk : RepoDisk) :
    Each (Repoints version) (setCurrent root version) disk := by
  refine (each_writeTmp _ _).bind fun _ t returned => ?_
  obtain ⟨_, inode, written, _, entry⟩ := runCall_writeTop root disk .currentTmp (dec version)
  cases (strict_writeFileDurably _ _ returned).symm.trans written
  have there : t.files.entry .currentTmp = some ⟨inode, dec version, true⟩ := by
    rw [entry, Function.update_self]
  have renamed : ∀ answer t', Disk.May t (.renameFile .currentTmp .current) answer t' →
      Repoints version t t' := by
    intro answer t' may
    rcases may with done | ⟨fault, _⟩
    · simp only [exec, there] at done
      cases done
      refine ⟨rfl, Or.inr ⟨⟨inode, ?_⟩, Files.move_entry_source _ (by decide)⟩⟩
      rw [← there]
      exact Files.move_entry_target ..
    · cases fault
      exact .refl _ _
  refine (each_checked _ renamed).bind fun _ _ _ => each_checked _ fun _ _ may => ?_
  rw [may_fsyncTop may]
  exact .refl _ _

end Pointer

/-! ## Changes of a table -/

/-- There is no epoch of this version, or an empty directory in its place. -/
def Vacant (disk : RepoDisk) (version : Nat) : Prop :=
  ∀ dir, disk.dirs.lookup (.epoch version) = some dir → dir.files = ∅

/-- What one command may do to a table. -/
structure Change (adds : Nat → Layout → Prop) (removes : Nat → Prop)
    (points : Nat → RepoDisk → Prop) (disk disk' : RepoDisk) : Prop where
  epochs : ∀ v, disk'.dirs.lookup (.epoch v) = disk.dirs.lookup (.epoch v) ∨ removes v ∨
    Vacant disk v ∧ ∃ l, adds v l ∧ Stands disk' v l
  pointer : disk'.files.entry .current = disk.files.entry .current ∨
    ∃ v, PointsTo disk' v ∧ points v disk'

section Changes

variable {adds adds' : Nat → Layout → Prop} {removes removes' : Nat → Prop}
  {points points' : Nat → RepoDisk → Prop} {disk disk' : RepoDisk}

theorem Change.same (same : SameEpochs disk disk') : Change adds removes points disk disk' :=
  ⟨fun v => Or.inl (same.epochs v), Or.inl (by rw [same.files])⟩

theorem Change.temp {version : Nat} (only : OnlyDir (.temp version) disk disk') :
    Change adds removes points disk disk' :=
  .same ⟨only.files, fun _ => only.dirs _ (by simp)⟩

theorem Change.mono (change : Change adds removes points disk disk')
    (more : ∀ v l, adds v l → adds' v l) (fewer : ∀ v, removes v → removes' v)
    (pointing : ∀ v t, points v t → points' v t) : Change adds' removes' points' disk disk' := by
  refine ⟨fun v => ?_, change.pointer.imp id fun ⟨v, pointer, allowed⟩ =>
    ⟨v, pointer, pointing v _ allowed⟩⟩
  rcases change.epochs v with same | removed | ⟨vacant, l, added, stands⟩
  · exact Or.inl same
  · exact Or.inr (Or.inl (fewer v removed))
  · exact Or.inr (Or.inr ⟨vacant, l, more v l added, stands⟩)

theorem each_mono {α : Type} {relates relates' : RepoDisk → RepoDisk → Prop} {call : FileCall α}
    (each : Each relates call disk) (more : ∀ s t, relates s t → relates' s t) :
    Each relates' call disk :=
  Prog.Along.mono (fun _ => True) each trivial fun s t _ related => ⟨more s t related, trivial⟩

/-- Calls that only read change nothing. -/
theorem each_change_reading {α : Type} {call : FileCall α} (reading : Issues Reading call)
    (disk : RepoDisk) : Each (Change adds removes points) call disk :=
  each_mono (each_reading reading disk) fun s t same => by rw [same]; exact .same (.refl _)

end Changes

/-! ## Publishing -/

section Publish

variable {root : Bytes} {lib : JsonLibrary} {staging : StagingEpoch} {version : Nat} {disk : RepoDisk}

/-- The epoch that is published. -/
def Lays (lib : JsonLibrary) (staging : StagingEpoch) (version v : Nat) (l : Layout) : Prop :=
  v = version ∧ layout lib staging v = .ok l

/-- One of the laid epochs is in place. -/
def Placed (adds : Nat → Layout → Prop) (v : Nat) (disk : RepoDisk) : Prop :=
  ∃ l, adds v l ∧ Stands disk v l

/-- The changes a publishing makes. -/
abbrev Publishing (lib : JsonLibrary) (staging : StagingEpoch) (version : Nat) :
    RepoDisk → RepoDisk → Prop :=
  Change (Lays lib staging version) (fun _ => False) (Placed (Lays lib staging version))

theorem each_build {dir : Subdir} (known : disk.dirs.lookup (.temp version) = some dir)
    (free : disk.dirs.lookup (.epoch version) = none) :
    Each (Publishing lib staging version) (buildEpoch root lib staging version) disk := by
  rw [buildEpoch]
  refine (each_mono (each_fill _ _ _ _) fun _ _ => .temp).bind fun _ t returned => ?_
  obtain ⟨l, laid, dir', holds, known', same⟩ :=
    (runCall_fill root lib staging known).returned (strict_fillEpoch _ _ _ returned)
  have free' : t.dirs.lookup (.epoch version) = none := (same.epochs version).trans free
  have renamed : ∀ answer t', Disk.May t (.renameDir (.temp version) (.epoch version)) answer t' →
      Publishing lib staging version t t' := by
    intro answer t' may
    rcases may with moved | ⟨fault, _⟩
    · simp only [exec, known', free'] at moved
      cases moved
      refine ⟨fun v => ?_, Or.inl rfl⟩
      by_cases same : v = version
      · subst same
        refine Or.inr (Or.inr ⟨fun dir there => ?_, l, ⟨rfl, laid⟩, dir', ?_, holds⟩)
        · cases free'.symm.trans there
        · exact lookup_setDir_self ..
      · refine Or.inl ?_
        rw [lookup_setDir_ne _ _ _ (by simpa using same), lookup_dropDir_ne _ _ (by simp)]
    · cases fault
      exact .same (.refl _)
  refine (each_checked _ renamed).bind fun _ _ _ => each_checked _ fun _ _ may => ?_
  rw [may_fsyncTop may]
  exact .same (.refl _)

theorem each_orRemove {d : RepoDir} {body : FileCall Unit} {relates : RepoDisk → RepoDisk → Prop}
    (each : Each relates body disk) (removing : ∀ s t, OnlyDir d s t → relates s t) :
    Each relates (orRemove d body) disk := by
  refine Prog.Along.bind (p := body.run) each fun result t _ => ?_
  rcases result with status | _
  · exact fun answer t' may => ⟨removing t t' (may_confined may rfl), trivial⟩
  · trivial

/-- **Every command of a publishing** changes the temporary names only, or puts the whole epoch in
place, or makes it current when it is. -/
theorem each_publish (root : Bytes) (lib : JsonLibrary) (staging : StagingEpoch) (version : Nat)
    (disk : RepoDisk) :
    Each (Publishing lib staging version) (publish root lib staging version) disk := by
  refine (each_liftStatus _).bind fun _ t valid => ?_
  have reading : Issues Reading (existsDir (.epoch version)) :=
    (issues_asked trivial).bind fun _ => issues_liftStatus _
  refine (each_change_reading reading _).bind fun there t found => ?_
  obtain ⟨known, rfl⟩ := found.existsDir
  cases there with
  | true => exact each_liftStatus _
  | false =>
    have free : t.dirs.lookup (.epoch version) = none :=
      Option.not_isSome_iff_eq_none.1 (by simp [← known])
    refine Each.bind (each_asked fun _ _ may => .temp (may_confined may rfl)) fun _ t₁ removed => ?_
    refine (each_checked _ fun _ _ may => .temp (may_confined may rfl)).bind fun _ t₂ made => ?_
    have same₁ : OnlyDir (.temp version) t t₁ := may_confined removed.asked rfl
    have same₂ : OnlyDir (.temp version) t₁ t₂ := may_confined (Or.inl made.checked) rfl
    have free₂ : t₂.dirs.lookup (.epoch version) = none := by
      rw [same₂.dirs _ (by simp), same₁.dirs _ (by simp), free]
    obtain ⟨dir, known₂⟩ : ∃ dir, t₂.dirs.lookup (.temp version) = some dir := by
      have done := made.checked
      simp only [exec] at done
      split at done
      · rename_i old
        cases done
        exact Option.isSome_iff_exists.1 old
      · cases done
        exact ⟨_, lookup_setDir_self ..⟩
    refine Each.bind (each_orRemove (each_build known₂ free₂) fun _ _ => .temp) fun _ t₃ built => ?_
    obtain ⟨l, laid, dir', _, holds, _, rfl⟩ := (runCall_build root lib staging known₂ free₂).orRemove.returned
      ((strict_buildEpoch lib staging version).orRemove (.temp version) built)
    refine Prog.Along.mono (fun s => Stands s version l) (each_setCurrent version _)
      ⟨dir', lookup_setDir_self .., holds⟩ fun s t stands repoints => ?_
    have stands' : Stands t version l := by
      rw [Stands, repoints.dirs]
      exact stands
    refine ⟨⟨fun v => Or.inl (by rw [repoints.dirs]), repoints.pointer.imp id fun pointer => ?_⟩,
      stands'⟩
    exact ⟨version, pointer, l, ⟨rfl, laid⟩, stands'⟩

end Publish

/-! ## Pruning -/

section Prune

variable {disk : RepoDisk}

theorem each_removeEpochs (versions : List Nat) (disk : RepoDisk) :
    Each (Change (fun _ _ => False) (· ∈ versions) fun _ _ => False) (removeEpochs versions) disk := by
  induction versions generalizing disk with
  | nil => exact each_liftStatus _
  | cons version rest ih =>
    refine (each_checked _ fun _ t may => ?_).bind fun _ t _ =>
      each_mono (ih t) fun _ _ change =>
        change.mono (fun _ _ => id) (fun _ => List.mem_cons_of_mem _) fun _ _ => id
    have only : OnlyDir (.epoch version) disk t := may_confined may rfl
    refine ⟨fun v => ?_, Or.inl (by rw [only.files])⟩
    by_cases same : v = version
    · exact Or.inr (Or.inl (same ▸ List.mem_cons_self))
    · exact Or.inl (only.dirs _ (by simpa using same))

/-- **Every command of a prune** touches a superseded epoch only. -/
theorem each_prune (keep : Nat) (disk : RepoDisk) :
    Each (Change (fun _ _ => False) (· ∈ superseded disk keep) fun _ _ => False) (prune keep) disk := by
  unfold prune superseded
  split
  · exact each_liftStatus _
  have reading : Issues Reading listEpochs :=
    (issues_checked _ trivial).bind fun _ => issues_liftStatus _
  refine (each_change_reading reading _).bind fun versions t listed => ?_
  obtain ⟨run, rfl⟩ := runCall_of_reading reading listed
  cases run
  split
  · exact each_liftStatus _
  · exact each_removeEpochs _ _

end Prune

end OpaqueDb.Storage
