/-
# Storage.Faults -- calls whose commands may fail

A call that checks every answer returns OK only if no command failed: its run is then the
undisturbed one (`Strict`).  `Publish` ignores one answer, that of the removal of an old
temporary directory, and `publish_ok` says that it does not matter.
-/
import OpaqueDb.Storage.Runs

namespace OpaqueDb.Storage

open OpaqueDb.Core Theory

set_option autoImplicit false

/-- The call has come from one disk to the other and returned the result. -/
def Returns {α : Type} (call : FileCall α) (disk : RepoDisk) (result : StatusOr α)
    (disk' : RepoDisk) : Prop :=
  Prog.Steps Disk.May disk call.run disk' (.done result)

theorem returns_of_run {α : Type} {call : FileCall α} {disk disk' : RepoDisk}
    {result : StatusOr α} (run : runCall call disk = (result, disk')) :
    Returns call disk result disk' := by
  have usual : ∀ (s : RepoDisk) (op : FileOp RepoFile RepoDir),
      Disk.May s op (Disk.exec op s).1 (Disk.exec op s).2 := fun _ _ => Or.inl rfl
  have steps := Prog.steps_run Disk.exec usual call.run disk
  rw [show Prog.run Disk.exec call.run disk = (result, disk') from run] at steps
  exact steps

/-- A call that returns OK ran undisturbed. -/
def Strict {α : Type} (call : FileCall α) : Prop :=
  ∀ ⦃disk disk' : RepoDisk⦄ ⦃a : α⦄, Returns call disk (.ok a) disk' →
    runCall call disk = (.ok a, disk')

variable {disk' : RepoDisk} {op : FileOp RepoFile RepoDir} {disk : RepoDisk}

section Rules

variable {α β : Type}

/-- A call of two parts ends in the first or goes on with its value. -/
theorem steps_bind {S : Type} {may : S → (op : FileOp RepoFile RepoDir) → op.Answer → S → Prop}
    {call : FileCall α} {next : α → FileCall β} {s t : S} {result : StatusOr β}
    (steps : Prog.Steps may s (call >>= next).run t (.done result)) :
    (∃ status, Prog.Steps may s call.run t (.done (.error status)) ∧ result = .error status) ∨
      ∃ a u, Prog.Steps may s call.run u (.done (.ok a)) ∧
        Prog.Steps may u (next a).run t (.done result) := by
  have whole := steps
  obtain ⟨first, u, before, rest⟩ := whole.bind_done
  rcases first with status | a
  · cases rest
    exact Or.inl ⟨status, before, rfl⟩
  · exact Or.inr ⟨a, u, before, rest⟩

theorem Returns.bind {call : FileCall α} {next : α → FileCall β} {disk disk' : RepoDisk} {b : β}
    (returns : Returns (call >>= next) disk (.ok b) disk') :
    ∃ a disk₁, Returns call disk (.ok a) disk₁ ∧ Returns (next a) disk₁ (.ok b) disk' := by
  rcases steps_bind returns with ⟨_, _, impossible⟩ | found
  · cases impossible
  · exact found

theorem Strict.bind {call : FileCall α} {next : α → FileCall β} (first : Strict call)
    (rest : ∀ a, Strict (next a)) : Strict (call >>= next) := by
  intro disk disk' b returns
  obtain ⟨a, disk₁, before, after⟩ := returns.bind
  rw [runCall_bind_ok _ (first before), rest a after]

theorem strict_liftStatus (result : StatusOr α) : Strict (liftStatus result) := by
  intro disk disk' a returns
  cases returns
  rfl

theorem strict_checked (words : FileError → List Bytes) (op : FileOp RepoFile RepoDir) :
    Strict (checked words op) := by
  intro disk disk' value returns
  obtain ⟨answer, disk₁, first, rest⟩ := Prog.Steps.call_done returns
  rcases answer with error | value
  · cases rest
  · cases rest
    rcases first with done | ⟨_, error, impossible⟩
    · exact runCall_checked _ done
    · cases impossible

theorem Returns.asked {answer : op.Answer} (returns : Returns (asked op) disk (.ok answer) disk') :
    Disk.May disk op answer disk' := by
  obtain ⟨_, _, first, rest⟩ := Prog.Steps.call_done returns
  cases rest
  exact first

/-- No read fails. -/
theorem Returns.existsDir {d : RepoDir} {there : Bool}
    (returns : Returns (existsDir d) disk (.ok there) disk') :
    there = (disk.dirs.lookup d).isSome ∧ disk' = disk := by
  obtain ⟨answer, disk₁, first, rest⟩ := returns.bind
  rcases first.asked with done | ⟨fault, _⟩
  · cases done
    cases rest
    exact ⟨rfl, rfl⟩
  · cases fault

end Rules

/-! ## The commands of a call -/

variable (place : FilePlace RepoFile RepoDir) (lib : JsonLibrary) (staging : StagingEpoch) (version : Nat)

variable {body : FileCall Unit} (recordBytes : Nat) (records : List Bytes)

section Commands

variable {α β : Type} (allowed : FileOp RepoFile RepoDir → Prop)

/-- The call issues allowed commands only. -/
def Issues (call : FileCall α) : Prop :=
  Prog.Only allowed call.run

variable {allowed}

theorem Issues.bind {call : FileCall α} {next : α → FileCall β} (first : Issues allowed call)
    (rest : ∀ a, Issues allowed (next a)) : Issues allowed (call >>= next) := by
  refine Prog.Only.bind (p := call.run) first fun result => ?_
  rcases result with status | a
  · trivial
  · exact rest a

theorem issues_liftStatus (result : StatusOr α) : Issues allowed (liftStatus result) :=
  trivial

theorem issues_checked (words : FileError → List Bytes) (may : allowed op) :
    Issues allowed (checked words op) :=
  ⟨may, fun _ => trivial⟩

theorem issues_asked (may : allowed op) : Issues allowed (asked op) :=
  ⟨may, fun _ => trivial⟩

/-! Only the pointer is read from a file of the directory itself. -/

section Pointer

variable {root : Bytes}

/-- Anything but a read of `CURRENT`. -/
def NotPointer (op : FileOp RepoFile RepoDir) : Prop :=
  op ≠ .readTop .current

theorem issues_writeFileDurably (place : FilePlace RepoFile RepoDir) (data : Bytes) :
    Issues NotPointer (writeFileDurably root place data) :=
  (issues_checked _ nofun).bind fun _ => (issues_checked _ nofun).bind fun _ =>
    issues_checked _ nofun

theorem issues_setCurrent (version : Nat) : Issues NotPointer (setCurrent root version) :=
  (issues_writeFileDurably _ _).bind fun _ => (issues_checked _ nofun).bind fun _ =>
    issues_checked _ nofun

theorem issues_existsDir (d : RepoDir) : Issues NotPointer (existsDir d) :=
  (issues_asked nofun).bind fun _ => issues_liftStatus _

theorem issues_writeSegment : Issues NotPointer (writeSegment root place recordBytes records) :=
  (issues_liftStatus _).bind fun _ => (issues_writeFileDurably _ _).bind fun _ =>
    issues_liftStatus _

theorem issues_fillEpoch : Issues NotPointer (fillEpoch root lib staging version) :=
  (issues_writeSegment _ _ _).bind fun _ => (issues_writeSegment _ _ _).bind fun _ =>
    (issues_liftStatus _).bind fun _ => (issues_writeFileDurably _ _).bind fun _ =>
      issues_checked _ nofun

theorem issues_buildEpoch : Issues NotPointer (buildEpoch root lib staging version) :=
  (issues_fillEpoch _ _ _).bind fun _ => (issues_checked _ nofun).bind fun _ =>
    issues_checked _ nofun

theorem issues_orRemove (d : RepoDir) (issues : Issues NotPointer body) :
    Issues NotPointer (orRemove d body) := by
  refine Prog.Only.bind (p := body.run) issues fun result => ?_
  rcases result with status | _
  · exact ⟨nofun, fun _ => trivial⟩
  · trivial

theorem issues_publish : Issues NotPointer (publish root lib staging version) := by
  refine (issues_liftStatus _).bind fun _ => (issues_existsDir _).bind fun there => ?_
  cases there with
  | true => exact issues_liftStatus _
  | false =>
    exact (issues_asked nofun).bind fun _ => (issues_checked _ nofun).bind fun _ =>
      (issues_orRemove _ (issues_buildEpoch _ _ _)).bind fun _ => issues_setCurrent _

/-- A command that looks into the subdirectories. -/
def Looks : FileOp RepoFile RepoDir → Prop
  | .existsDir _ | .readFile _ _ | .listDirs => True
  | _ => False

theorem looks_openVersion (lib : JsonLibrary) (version : Nat) :
    Issues Looks (openVersion root lib version) := by
  have segment : ∀ descriptor, Issues Looks (openSegmentOf root (.epoch version) descriptor) :=
    fun _ => (issues_asked trivial).bind fun _ => issues_liftStatus _
  have there : Issues Looks (existsDir (.epoch version)) :=
    (issues_asked trivial).bind fun _ => issues_liftStatus _
  refine there.bind fun there => ?_
  cases there with
  | true =>
    exact (issues_asked trivial).bind fun _ => (issues_liftStatus _).bind fun _ =>
      (issues_liftStatus _).bind fun _ => (segment _).bind fun _ => (segment _).bind fun _ =>
        issues_liftStatus _
  | false => exact issues_liftStatus _

theorem issues_openVersion (lib : JsonLibrary) (version : Nat) :
    Issues NotPointer (openVersion root lib version) := by
  refine (looks_openVersion lib version).mono fun op looks current => ?_
  subst current
  exact looks

end Pointer

end Commands

/-! ## Publishing -/

section Publish

variable {root : Bytes}

theorem strict_writeFileDurably (data : Bytes) : Strict (writeFileDurably root place data) :=
  (strict_checked _ _).bind fun _ => (strict_checked _ _).bind fun _ => strict_checked _ _

theorem strict_setCurrent : Strict (setCurrent root version) :=
  (strict_writeFileDurably _ _).bind fun _ => (strict_checked _ _).bind fun _ => strict_checked _ _

theorem strict_writeSegment : Strict (writeSegment root place recordBytes records) :=
  (strict_liftStatus _).bind fun _ => (strict_writeFileDurably _ _).bind fun _ => strict_liftStatus _

theorem strict_fillEpoch : Strict (fillEpoch root lib staging version) :=
  (strict_writeSegment _ _ _).bind fun _ => (strict_writeSegment _ _ _).bind fun _ =>
    (strict_liftStatus _).bind fun _ => (strict_writeFileDurably _ _).bind fun _ => strict_checked _ _

theorem strict_buildEpoch : Strict (buildEpoch root lib staging version) :=
  (strict_fillEpoch _ _ _).bind fun _ => (strict_checked _ _).bind fun _ => strict_checked _ _

theorem Strict.orRemove (strict : Strict body) (d : RepoDir) : Strict (orRemove d body) := by
  intro disk disk' value returns
  obtain ⟨result, disk₁, first, rest⟩ := Prog.Steps.bind_done (p := body.run) returns
  rcases result with status | value
  · obtain ⟨_, _, _, after⟩ := Prog.Steps.call_done rest
    cases after
  · cases rest
    rw [runCall_orRemove, strict first]

theorem strict_finishPublish : Strict (finishPublish root lib staging version) :=
  ((strict_buildEpoch _ _ _).orRemove _).bind fun _ => strict_setCurrent _

/-- A removal that fails half way touches only its directory. -/
theorem may_removeTemp {version : Nat} {answer : Except FileError Unit}
    (may : Disk.May disk (.removeAll (.temp version)) answer disk') : SameEpochs disk disk' := by
  rcases may with done | ⟨fault, _⟩
  · cases done
    exact sameEpochs_dropTemp ..
  · cases fault with
    | removeAll => exact .refl _
    | removePart => exact sameEpochs_setTemp ..

/-- **A `Publish` that returns OK** has added the epoch and made it current, also when
commands may fail. -/
theorem publish_ok {lib : JsonLibrary} {staging : StagingEpoch} {version : Nat}
    (returns : Returns (publish root lib staging version) disk (.ok ()) disk') :
    ∃ l, Publishable lib disk staging version l ∧ Published disk version l disk' := by
  obtain ⟨_, disk₁, first, rest⟩ := returns.bind
  have valid := strict_liftStatus _ first
  rw [runCall_liftStatus, Prod.mk.injEq] at valid
  obtain ⟨valid, rfl⟩ := valid
  obtain ⟨there, disk₂, second, rest⟩ := rest.bind
  obtain ⟨known, rfl⟩ := second.existsDir
  cases there with
  | true => cases rest
  | false =>
    have free : disk₂.dirs.lookup (.epoch version) = none :=
      Option.not_isSome_iff_eq_none.1 (by simp [← known])
    obtain ⟨_, disk₃, third, rest⟩ := Returns.bind rest
    have same := may_removeTemp third.asked
    obtain ⟨_, disk₄, fourth, rest⟩ := rest.bind
    have created := strict_checked _ _ fourth
    rw [runCall_createDir, Prod.mk.injEq] at created
    obtain ⟨dir, there, same'⟩ : ∃ dir, disk₄.dirs.lookup (.temp version) = some dir ∧
        SameEpochs disk₃ disk₄ := by
      rcases old : disk₃.dirs.lookup (.temp version) with _ | dir
      · rw [old] at created
        rw [← created.2]
        exact ⟨_, Disk.lookup_setDir_self .., sameEpochs_setTemp ..⟩
      · rw [old] at created
        rw [← created.2]
        exact ⟨dir, old, .refl _⟩
    obtain ⟨l, laid, whole⟩ := (runCall_finishPublish root lib staging there
      (((same.trans same').epochs version).trans free)).returned
      (strict_finishPublish lib staging version rest)
    exact ⟨l, ⟨valid, free, laid⟩, whole.after (same.trans same')⟩

end Publish

end OpaqueDb.Storage
