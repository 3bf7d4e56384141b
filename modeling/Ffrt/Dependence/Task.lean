import Mathlib

/-!
# Dependence — Task

The task side of the data-dependency manager: the fields of an `SCPUEUTask` that the manager
reads and writes (`src/tm/scpu_task.h`, `include/tm/cpu_task.h`, `include/tm/task_base.h`),
the `VersionCtx` of `src/core/version_ctx.h`, the global `Entity` of `src/core/entity.h`, and
the task operations of `src/tm/scpu_task.cpp`.

* `Task`: `ins`/`outs` (the versions it consumes and produces), `dataRefCnt` (the union of
  `submitDep` and `waitDep`: one counter under two names), `childRefCnt`, `dependenceStatus`,
  `blockType`, `legacyCountNum`, `curStatus` and the delete count `rc`.  The counters keep the
  source's widths (`UInt64`, `UInt32`), so a decrement of zero wraps as the code's does.
  Two fields are not the code's.  `control` says where the task's own code is (not started,
  running, blocked on its thread, suspended as a coroutine, returned): the code keeps that on
  a worker's stack.  `declIns`/`declOuts` record the signatures it was submitted with.
* `State`: the tasks, the versions, `vaMap`, `versionTrashcan`, the ready queue and the build
  flag `USE_COROUTINE`; `freedTasks`, `trashed` and `freedVersions` log every `FreeMem` of a
  task, every push onto the trashcan and every `FreeMem` of a version, and `handles` holds the
  task handles the user has not released.
* `ready`, `decDepRef`, `decDeleteRef`, `decChildRef`, `decWaitDataRef`, `finish`, `block`,
  `wake`: the code's operations, one definition each.

Ids are `Nat`.  A pointer that may be null is an `Option`; in a dependence item `0` is
`nullptr`.  `rootId` is the root task of the submitting thread; it has no parent.
-/

namespace Ffrt

/-- A task, by address. -/
abbrev TaskId := Nat

/-- A `VersionCtx`, by address. -/
abbrev VersionId := Nat

/-- A data signature: the address of the data, or of a task handle. -/
abbrev Signature := Nat

/-- The root task of the submitting thread (`RootTaskCtxWrapper`). -/
def rootId : TaskId := 1

inductive DataStatus
  | idle
  | ready
  | consumed
  deriving DecidableEq, Repr

inductive NestType
  | default
  | parentOut
  | parentIn
  deriving DecidableEq, Repr

inductive TaskStatus
  | pending
  | submitted
  | ready
  | executing
  | threadBlock
  | coroutineBlock
  | finish
  | waitReleasing
  deriving DecidableEq, Repr

inductive BlockType
  | blockCoroutine
  | blockThread
  deriving DecidableEq, Repr

inductive Dependence
  | dependenceInit
  | dataDependence
  | callDependence
  deriving DecidableEq, Repr

/-- Where a task's own code is. -/
inductive Control
  /-- Submitted, not started. -/
  | pending
  | running
  /-- Blocked in `waitCond_.wait` of `onWait` (`callDependence`) or `onWait(deps)`
  (`dataDependence`). -/
  | threadWait (dep : Dependence)
  /-- Suspended by `CoWait`; a worker resumes it from the ready queue. -/
  | coWait
  | returned
  deriving DecidableEq, Repr

/-- `ffrt_dependence_type_t`. -/
inductive DependenceType
  | data
  | task
  deriving DecidableEq, Repr

/-- `ffrt_dependence_t`. -/
structure Dep where
  type : DependenceType
  ptr : Nat
  deriving DecidableEq, Repr

structure Task where
  parent : Option TaskId := none
  /-- `label`, `t1.2.3`, as the list of child numbers. -/
  label : List Nat := []
  childNum : Nat := 0
  ins : List VersionId := []
  outs : List VersionId := []
  inHandles : List TaskId := []
  dependenceStatus : Dependence := .dependenceInit
  dataRefCnt : UInt64 := 0
  childRefCnt : UInt64 := 0
  curStatus : TaskStatus := .pending
  blockType : BlockType := .blockCoroutine
  legacyCountNum : Int := 0
  rc : UInt32 := 1
  control : Control := .pending
  declIns : List Signature := []
  declOuts : List Signature := []

structure VersionCtx where
  signature : Signature := 0
  next : Option VersionId := none
  last : Option VersionId := none
  consumers : List TaskId := []
  myProducer : Option TaskId := none
  nextProducer : Option TaskId := none
  status : DataStatus := .idle
  dataWaitTaskByThis : List TaskId := []
  /-- The consumers added while the version was `idle`: those whose `submitDep` it counts. -/
  counted : List TaskId := []

structure State where
  tasks : TaskId → Task
  nextTask : TaskId
  versions : VersionId → VersionCtx
  nextVersion : VersionId
  vaMap : List (Signature × VersionId)
  versionTrashcan : List VersionId
  readyQueue : List TaskId
  useCoroutine : Bool
  freedTasks : List TaskId
  trashed : List VersionId
  freedVersions : List VersionId
  /-- The handle references the user holds (`ffrt_submit_h` gives one). -/
  handles : List TaskId

/-- `unordered_set::insert`, on a list. -/
def setInsert {β : Type} [DecidableEq β] (l : List β) (a : β) : List β :=
  if a ∈ l then l else l ++ [a]

namespace State

def modifyTask (s : State) (t : TaskId) (f : Task → Task) : State :=
  { s with tasks := fun u => if u = t then f (s.tasks t) else s.tasks u }

def modifyVersion (s : State) (v : VersionId) (f : VersionCtx → VersionCtx) : State :=
  { s with versions := fun u => if u = v then f (s.versions v) else s.versions u }

end State

/-! ### The task operations -/

/-- `CPUEUTask::Ready`: the status is `READY` and the task is pushed onto the ready queue. -/
def ready (s : State) (t : TaskId) : State :=
  { s.modifyTask t (fun x => { x with curStatus := .ready }) with
    readyQueue := s.readyQueue ++ [t] }

/-- `SCPUEUTask::DecDepRef`: `--submitDep == 0` makes the task Ready. -/
def decDepRef (s : State) (t : TaskId) : State :=
  let n := (s.tasks t).dataRefCnt - 1
  let s' := s.modifyTask t (fun x => { x with dataRefCnt := n })
  if n = 0 then ready s' t else s'

/-- `TaskBase::DecDeleteRef`: the reference that takes `rc` from one to zero frees the task. -/
def decDeleteRef (s : State) (t : TaskId) : State :=
  let v := (s.tasks t).rc
  let s' := s.modifyTask t (fun x => { x with rc := v - 1 })
  if v = 1 then { s' with freedTasks := s'.freedTasks ++ [t] } else s'

/-- `CPUEUTask::GetBlockType`: the root always blocks its thread. -/
def getBlockType (x : Task) : BlockType :=
  if x.parent = none then .blockThread else x.blockType

/-- `SCPUEUTask::DecChildRef`, run for the task `c` when it is done.  Its parent's count of
unfinished children drops; at zero the parent is released (it finished first and waits in
`WAIT_RELEASING`), or woken from `onWait` (it registered `CALL_DEPENDENCE`: a thread waiter is
notified, a coroutine made Ready), or left alone.  The root's `thread_exit` branch is not
modelled: the root's thread does not exit. -/
def decChildRef (s : State) (c : TaskId) : State :=
  match (s.tasks c).parent with
  | none => s
  | some p =>
      let n := (s.tasks p).childRefCnt - 1
      let s := s.modifyTask p (fun x => { x with childRefCnt := n })
      let x := s.tasks p
      if n ≠ 0 then s
      else if x.parent ≠ none ∧ x.curStatus = .waitReleasing then decDeleteRef s p
      else if x.dependenceStatus ≠ .callDependence then s
      else
        let s := s.modifyTask p (fun x => { x with dependenceStatus := .dependenceInit })
        -- `notify_all` changes no state: the waiter re-checks its predicate (`wakeThread`)
        if getBlockType x = .blockThread then s else ready s p

/-- `SCPUEUTask::DecWaitDataRef`: the last awaited version wakes a task waiting in
`onWait(deps)`. -/
def decWaitDataRef (s : State) (t : TaskId) : State :=
  let n := (s.tasks t).dataRefCnt - 1
  let s := s.modifyTask t (fun x => { x with dataRefCnt := n })
  let x := s.tasks t
  if n ≠ 0 then s
  else if x.dependenceStatus ≠ .dataDependence then s
  else
    let s := s.modifyTask t (fun x => { x with dependenceStatus := .dependenceInit })
    if getBlockType x = .blockThread then s else ready s t

/-- `SCPUEUTask::Finish`: the task's own reference is dropped now if no child is unfinished,
else by the last child's `decChildRef`. -/
def finish (s : State) (t : TaskId) : State :=
  if (s.tasks t).childRefCnt = 0 then decDeleteRef s t
  else s.modifyTask t (fun x => { x with curStatus := .waitReleasing })

/-- `CPUEUTask::Block`: a coroutine task suspends its coroutine; the root, a task in legacy
mode, and every task of a build without coroutines block their thread. -/
def block (s : State) (t : TaskId) : State × BlockType :=
  let x := s.tasks t
  if s.useCoroutine ∧ x.parent ≠ none ∧ x.legacyCountNum ≤ 0 then
    (s.modifyTask t (fun x => { x with blockType := .blockCoroutine, curStatus := .coroutineBlock }),
      .blockCoroutine)
  else
    (s.modifyTask t (fun x => { x with blockType := .blockThread, curStatus := .threadBlock }),
      .blockThread)

/-- `CPUEUTask::Wake`: back to `EXECUTING`, and the block type back to the coroutine's. -/
def wake (s : State) (t : TaskId) : State :=
  s.modifyTask t (fun x => { x with curStatus := .executing, blockType := .blockCoroutine })

end Ffrt
