import Ffrt.Dependence.Version
import Ffrt.Support.Machine

/-!
# Dependence — Manager

`SDependenceManager` of `src/dm/sdependence_manager.cpp` with the signature helpers of
`include/dm/dependence_manager.h`, and the machine that runs it.

* `onSubmit`: a running task (or the root) submits a child with input and output signatures;
  the child waits on the versions `mapSignature2Deps` finds for them, or is Ready at once.
* `onWait` and `onWaitDeps`: a running task waits for its children, or for the newest versions
  of some signatures, on its thread (`block` answered `blockThread`) or as a suspended
  coroutine, whose pending callback runs on the worker.
* `onTaskDone`: a task whose function returned produces and consumes its versions, drops its
  input handles, recycles versions, tells its parent and finishes.
* `step`: the actions of the threads, each one critical section; `init`: the root alone.

Signature helpers are folds over the dependence arrays in order.  Every action takes the
locks the code takes (`criticalMutex_` for the version graph, the task's `mutex_` for its
counters) for its whole length, so a run is an order of critical sections.  Where the code
runs two sections in a row on one thread with no lock held between them, the model runs them
in one action: no other section reads what lies between them.
-/

namespace Ffrt

/-! ### Signatures -/

/-- `CheckOutsHandle`: a task handle is no output. -/
def checkOutsHandle (outs : List Dep) : Bool :=
  outs.all (fun d => d.type ≠ .task)

/-- `OutsDedup`: the output signatures, each once, in order. -/
def outsDedup (outs : List Dep) : List Signature :=
  outs.foldl (fun acc d => if d.ptr ∈ acc then acc else acc ++ [d.ptr]) []

/-- One turn of `InsDedup`'s loop. -/
def insDedupStep (outsNoDup : List Signature) (acc : List TaskId × List Signature) (d : Dep) :
    List TaskId × List Signature :=
  if d.ptr ∈ outsNoDup then acc
  else ((if d.type = .task ∧ d.ptr ≠ 0 then acc.1 ++ [d.ptr] else acc.1), acc.2 ++ [d.ptr])

/-- `InsDedup`: the inputs that are no output, in order and with their repeats (the code does
not remove them); a non-null task handle among them is also an input handle. -/
def insDedup (outsNoDup : List Signature) (ins : List Dep) : List TaskId × List Signature :=
  ins.foldl (insDedupStep outsNoDup) ([], [])

/-- The first version of `vs` with the signature `sig` (the loops over `parent->outs` and
`parent->ins`). -/
def findSignature (s : State) (vs : List VersionId) (sig : Signature) : Option VersionId :=
  vs.find? (fun v => (s.versions v).signature = sig)

/-- `MapSignature2Deps` for one input: the parent's output version (scene 1|2), else the
parent's input version (scene 3), else the signature's root (scene 4). -/
def mapIn (s : State) (p : TaskId) (sig : Signature) : State × (VersionId × NestType) :=
  match findSignature s (s.tasks p).outs sig with
  | some v => (s, (v, .parentOut))
  | none =>
      match findSignature s (s.tasks p).ins sig with
      | some v => (s, (v, .parentIn))
      | none =>
          let (s, v) := va2Ctx s sig
          (s, (v, .default))

/-- `MapSignature2Deps` for one output: the parent's output version (scene 5|6), else the
signature's root (scene 8). -/
def mapOut (s : State) (p : TaskId) (sig : Signature) : State × VersionId :=
  match findSignature s (s.tasks p).outs sig with
  | some v => (s, v)
  | none => va2Ctx s sig

/-- `SDependenceManager::MapSignature2Deps`: the inputs, then the outputs, of a child of `p`. -/
def mapSignature2Deps (s : State) (p : TaskId) (insNoDup outsNoDup : List Signature) :
    State × List (VersionId × NestType) × List VersionId :=
  let (s, inDatas) := insNoDup.foldl
    (fun (acc : State × List (VersionId × NestType)) sig =>
      let (s, d) := mapIn acc.1 p sig
      (s, acc.2 ++ [d])) (s, [])
  let (s, outDatas) := outsNoDup.foldl
    (fun (acc : State × List VersionId) sig =>
      let (s, v) := mapOut acc.1 p sig
      (s, acc.2 ++ [v])) (s, [])
  (s, inDatas, outDatas)

/-! ### The manager -/

/-- `SDependenceManager::onSubmit` by the task `p`.  The new task takes the next address; with a
handle it holds a second reference and is an output of itself. -/
def onSubmit (s : State) (p : TaskId) (ins outs : List Dep) (hasHandle : Bool) : State :=
  if !checkOutsHandle outs then s
  else
    let t := s.nextTask
    let id := (s.tasks p).childNum + 1
    let s := s.modifyTask p (fun x => { x with childNum := id })
    let outsNoDup := outsDedup outs
    let (inHandles, insNoDup) := insDedup outsNoDup ins
    -- `ffrt_task_handle_inc_ref` on every input handle, in `InsDedup`
    let s := inHandles.foldl (fun s h => s.modifyTask h (fun x => { x with rc := x.rc + 1 })) s
    let outsNoDup := if hasHandle then outsNoDup ++ [t] else outsNoDup
    let task : Task :=
      { parent := some p, label := (s.tasks p).label ++ [id], curStatus := .submitted,
        inHandles, rc := if hasHandle then 2 else 1, declIns := insNoDup, declOuts := outsNoDup }
    let s := { s with
      tasks := fun u => if u = t then task else s.tasks u
      nextTask := t + 1
      handles := if hasHandle then s.handles ++ [t] else s.handles }
    let s := s.modifyTask p (fun x => { x with childRefCnt := x.childRefCnt + 1 })
    if insNoDup = [] ∧ outsNoDup = [] then ready s t
    else
      let (s, inDatas, outDatas) := mapSignature2Deps s p insNoDup outsNoDup
      let s := inDatas.foldl (fun s d => addConsumer s d.1 t d.2) s
      let s := outDatas.foldl (fun s v => addProducer s v t) s
      if (s.tasks t).dataRefCnt ≠ 0 then s else ready s t

/-- `SDependenceManager::onWait()` by the running task `t`.  On its thread it registers
`CALL_DEPENDENCE` and blocks unless no child is unfinished; as a coroutine its pending
callback does the same, and a callback answering `false` resumes it (`EXECUTING`). -/
def onWait (s : State) (t : TaskId) : State :=
  let (s, bt) := block s t
  if bt = .blockThread then
    let s := s.modifyTask t (fun x => { x with dependenceStatus := .callDependence })
    if (s.tasks t).childRefCnt = 0 then wake s t
    else s.modifyTask t (fun x => { x with control := .threadWait .callDependence })
  else if (s.tasks t).childRefCnt = 0 then
    s.modifyTask t (fun x => { x with curStatus := .executing })
  else
    s.modifyTask t (fun x => { x with dependenceStatus := .callDependence, control := .coWait })

/-- `dataDepFun` of `onWait(deps)`: the task waits for the newest version of every awaited
signature that has a root, at the level of its own output when it produces the signature. -/
def dataDepFun (s : State) (t : TaskId) (deps : List Dep) : State :=
  let waitDatas := deps.filterMap (fun d =>
    (s.vaMap.lookup d.ptr).map (fun v =>
      (findSignature s (s.tasks t).outs (s.versions v).signature).getD v))
  waitDatas.foldl (fun s v => addDataWaitTaskByThis s v t) s

/-- `SDependenceManager::onWait(deps)` by the running task `t`. -/
def onWaitDeps (s : State) (t : TaskId) (deps : List Dep) : State :=
  let s := s.modifyTask t (fun x => { x with dataRefCnt := 0 })
  let (s, bt) := block s t
  let s := dataDepFun s t deps
  if bt = .blockThread then
    let s := s.modifyTask t (fun x => { x with dependenceStatus := .dataDependence })
    if (s.tasks t).dataRefCnt = 0 then wake s t
    else s.modifyTask t (fun x => { x with control := .threadWait .dataDependence })
  else if (s.tasks t).dataRefCnt = 0 then
    s.modifyTask t (fun x => { x with curStatus := .executing })
  else
    s.modifyTask t (fun x => { x with dependenceStatus := .dataDependence, control := .coWait })

/-- The version work of `onTaskDone`, under `criticalMutex_`: produce every output, consume
every input, drop the input handles, recycle. -/
def releaseVersions (s : State) (t : TaskId) : State :=
  let s := (s.tasks t).outs.foldl onProduced s
  let s := (s.tasks t).ins.foldl (fun s v => onConsumed s v t) s
  let s := (s.tasks t).inHandles.foldl decDeleteRef s
  recycleVersion s

/-- `SDependenceManager::onTaskDone`. -/
def onTaskDone (s : State) (t : TaskId) : State :=
  let s := if (s.tasks t).ins = [] ∧ (s.tasks t).outs = [] then s else releaseVersions s t
  finish (decChildRef s t) t

/-! ### The machine -/

/-- What a thread does next. -/
inductive Action
  /-- The running task (or the root) calls `ffrt_submit_base`, or `ffrt_submit_h_base`. -/
  | submit (p : TaskId) (ins outs : List Dep) (hasHandle : Bool)
  /-- A worker takes the task from the ready queue and runs it, or resumes its coroutine. -/
  | start (t : TaskId)
  /-- The task's function returns: `Execute`'s tail and `onTaskDone`. -/
  | done (t : TaskId)
  | wait (t : TaskId)
  | waitDeps (t : TaskId) (deps : List Dep)
  /-- A thread waiter sees its predicate true in `waitCond_.wait` and calls `Wake`. -/
  | wakeThread (t : TaskId)
  /-- `ffrt_this_task_set_legacy_mode` by a running task. -/
  | setLegacyMode (t : TaskId) (mode : Bool)
  /-- `ffrt_task_handle_dec_ref` on a handle the user holds. -/
  | handleDecRef (t : TaskId)

/-- The task's own code is running. -/
def Running (s : State) (t : TaskId) : Prop := (s.tasks t).control = .running

instance (s : State) (t : TaskId) : Decidable (Running s t) :=
  inferInstanceAs (Decidable ((s.tasks t).control = .running))

/-- A thread waiter's predicate. -/
def waitDone (x : Task) : Dependence → Bool
  | .callDependence => x.childRefCnt = 0
  | .dataDependence => x.dataRefCnt = 0
  | .dependenceInit => false

/-- One critical section; `none` when the action is not enabled. -/
def step (s : State) : Action → Option State
  | .submit p ins outs hasHandle =>
      if Running s p then some (onSubmit s p ins outs hasHandle) else none
  | .start t =>
      if t ∈ s.readyQueue ∧ ((s.tasks t).control = .pending ∨ (s.tasks t).control = .coWait) then
        some ({ s with readyQueue := s.readyQueue.erase t }.modifyTask t
          (fun x => { x with curStatus := .executing, control := .running }))
      else none
  | .done t =>
      if Running s t ∧ t ≠ rootId then
        let s := s.modifyTask t (fun x => { x with
          curStatus := if x.curStatus = .executing then .finish else x.curStatus
          control := .returned })
        some (onTaskDone s t)
      else none
  | .wait t => if Running s t then some (onWait s t) else none
  | .waitDeps t deps => if Running s t then some (onWaitDeps s t deps) else none
  | .wakeThread t =>
      match (s.tasks t).control with
      | .threadWait d =>
          if waitDone (s.tasks t) d then
            some ((wake s t).modifyTask t (fun x => { x with control := .running }))
          else none
      | _ => none
  | .setLegacyMode t mode =>
      if Running s t ∧ t ≠ rootId then
        some (s.modifyTask t (fun x => { x with
          legacyCountNum := if mode then x.legacyCountNum + 1 else x.legacyCountNum - 1 }))
      else none
  | .handleDecRef t =>
      if t ∈ s.handles then some (decDeleteRef { s with handles := s.handles.erase t } t)
      else none

/-- The root task: it runs from the start and never returns. -/
def rootTask : Task := { curStatus := .executing, control := .running }

/-- The root alone, in a build with or without coroutines. -/
def init (useCoroutine : Bool) : State where
  tasks t := if t = rootId then rootTask else {}
  nextTask := rootId + 1
  versions _ := {}
  nextVersion := 1
  vaMap := []
  versionTrashcan := []
  readyQueue := []
  useCoroutine := useCoroutine
  freedTasks := []
  trashed := []
  freedVersions := []
  handles := []

/-- The states the program reaches. -/
def Reachable (useCoroutine : Bool) (s : State) : Prop := Machine.Reach step (init useCoroutine) s

end Ffrt
