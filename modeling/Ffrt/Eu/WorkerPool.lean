import Ffrt.Support.Machine

/-!
# Eu — the worker pool of one QoS

`SExecuteUnit` (`src/eu/sexecute_unit.cpp`, `sexecute_unit.h`) and its `CPUWorkerGroup`
(`include/eu/execute_unit.h`), with the workers' loop `CPUWorker::WorkerLooper`
(`src/eu/cpu_worker.cpp`) and the size of the ready queue that `STaskScheduler` keeps under
the QoS's `mtx` (`src/sched/stask_scheduler.h`).

* The counters, under the group's `lock`.  `WorkerCreate` counts a worker in `executingNum`
  before `IncWorker` starts its thread, and `RollBackCreate` undoes it when `IncWorker` fails;
  `IntoSleep` moves one from `executingNum` to `sleepingNum`, `OutOfSleep` and `OutOfDeepSleep`
  back, and `WorkerDestroy` drops one; `deepSleepingWorkerNum` counts the deep sleepers.
* A worker.  `WorkerLooper` pops a task under `mtx`, notifies `TASK_PICKED` and runs the task,
  which may submit tasks of its own.  On an empty queue `WorkerIdleAction` takes `mtx`, calls
  `IntoSleep` and waits on the group's `cv` (`wait_for`) until the queue holds a task.  After a
  timeout with the queue empty it sleeps deep (`IntoDeepSleep`, `cv.wait`), or, built with
  `SUPPORT_WORKER_DESTRUCT`, leaves (`WorkerDestroy`).
* A poke.  After `PushTask`, `NotifyTask<TASK_ADDED_RTQ>` runs the process's strategy with
  `TASK_ADDED` (`HandleTaskNotifyDefault`, `…Conservative` or `…UltraConservative`).  It reads
  the queue's size, returns when it is `0`, and else reads the counters under `lock` and
  decides: wake a sleeper (`WakeupWorkers`, `cv.notify_one`), create a worker (`WorkerCreate`,
  then `IncWorker` with `lock` released), or nothing.

Each `lock` section, each `mtx` section of `PushTask` and `PopTask`, and each return of a wait,
with its predicate check and counter update under `mtx`, is one step.  A worker holds `mtx`
from `IntoSleep` to its first predicate check, so nobody pushes or pops in between.  A wait may
return at any time: notified, spuriously, or by its timeout.  `WakeupWorkers` notifies one
waiter that no `notify_one` chose yet, or nobody when there is none.
-/

namespace Ffrt.Eu

open Function

/-- `TaskNotifyType`, as the strategies receive it: `NotifyTask<TASK_ADDED_RTQ>` reaches them
as `TASK_ADDED`. -/
inductive TaskNotifyType
  | taskPicked
  | taskAdded
  | taskEscaped
  deriving DecidableEq, Repr

/-- The strategy `handleTaskNotify` that `SExecuteUnit`'s constructor picks by the process's
name. -/
inductive NotifyStrategy
  /-- `HandleTaskNotifyDefault`. -/
  | default
  /-- `HandleTaskNotifyConservative`, for `CameraDaemon`. -/
  | conservative
  /-- `HandleTaskNotifyUltraConservative`, for `bluetooth_service`. -/
  | ultraConservative
  deriving DecidableEq, Repr

/-- One QoS's group: `maxConcurrency`, `hardLimit`, the strategy, whether the build defines
`SUPPORT_WORKER_DESTRUCT`, and the number of threads outside the pool that submit tasks. -/
structure PoolConfig where
  maxConcurrency : Nat
  hardLimit : Nat
  strategy : NotifyStrategy
  destruct : Bool
  callers : Nat

/-- What a strategy decides under `lock`. -/
inductive PokeOutcome
  | skip
  /-- `WakeupWorkers`. -/
  | wake
  /-- `WorkerCreate`, then `IncWorker`. -/
  | create
  /-- `SubmitEscape`. -/
  | escape
  deriving DecidableEq, Repr

/-- Where a poke is. -/
inductive PokePc
  /-- `GetGlobalTaskCnt` next. -/
  | read (notifyType : TaskNotifyType)
  /-- It read `taskCount`: the `lock` section next. -/
  | decide (notifyType : TaskNotifyType) (taskCount : Nat)
  /-- `WakeupWorkers` next. -/
  | wake
  /-- `IncWorker` next, with its worker counted already. -/
  | create
  deriving DecidableEq, Repr

/-- Where a worker is. -/
inductive WorkerPc
  /-- Not created yet. -/
  | unborn
  /-- At the top of `WorkerLooper`: `PopTask` next. -/
  | loop
  /-- In a poke: `TASK_PICKED` after a pop, or `TASK_ADDED` for a task that the task it runs
  submitted; it goes on with the task after. -/
  | poke (p : PokePc)
  /-- In `RunTask`. -/
  | run
  /-- `WorkerIdleAction` next. -/
  | idle
  /-- Holds `mtx` after `IntoSleep`: `wait_for`'s first predicate check next. -/
  | check
  /-- In `cv.wait_for`; `notified` once a `notify_one` chose it. -/
  | waiting (notified : Bool)
  /-- In the deep sleep's `cv.wait`. -/
  | deepWaiting (notified : Bool)
  /-- Out of `WorkerLooper` after `WorkerDestroy`. -/
  | retired
  deriving DecidableEq, Repr

/-- A waiter that no `notify_one` has chosen. -/
def WorkerPc.unnotified : WorkerPc → Bool
  | .waiting false | .deepWaiting false => true
  | _ => false

/-- `notify_one` chose this waiter. -/
def WorkerPc.notify : WorkerPc → WorkerPc
  | .waiting _ => .waiting true
  | .deepWaiting _ => .deepWaiting true
  | p => p

/-- A thread that pokes: a caller outside the pool, or a worker. -/
inductive Ctx
  | caller (c : Nat)
  | worker (w : Nat)
  deriving DecidableEq, Repr

/-- A step of one thread. -/
inductive PoolAction
  /-- Caller `c`: `PushTask`, then its poke for `TASK_ADDED`. -/
  | submit (c : Nat)
  /-- The task worker `w` runs submits a task. -/
  | submitInTask (w : Nat)
  | popTask (w : Nat)
  /-- `RunTask` returns. -/
  | runTask (w : Nat)
  /-- `WorkerIdleAction` takes `mtx` and calls `IntoSleep`. -/
  | intoSleep (w : Nat)
  /-- `wait_for`'s first predicate check. -/
  | waitFor (w : Nat)
  /-- `wait_for`'s wait returns, by its timeout when `timeout`. -/
  | wakeUp (w : Nat) (timeout : Bool)
  /-- The deep sleep's wait returns. -/
  | deepWakeUp (w : Nat)
  | getGlobalTaskCnt (x : Ctx)
  /-- The strategy's `lock` section. -/
  | lock (x : Ctx)
  /-- `WakeupWorkers`: `notify_one` chooses `target`, or nobody. -/
  | wakeupWorkers (x : Ctx) (target : Option Nat)
  /-- `IncWorker`, which succeeds when `ok`. -/
  | incWorker (x : Ctx) (ok : Bool)
  deriving DecidableEq, Repr

/-- The runs on which every `IncWorker` succeeds. -/
def PoolAction.incWorkerOk : PoolAction → Prop
  | .incWorker _ ok => ok = true
  | _ => True

/-- The group's counters, the size of the QoS's ready queue, the workers `IncWorker` created
(`0, …, spawned - 1`), and each caller's poke (`none` outside `NotifyTask`). -/
structure WorkerPool where
  size : Nat
  executingNum : Nat
  sleepingNum : Nat
  deepSleepingWorkerNum : Nat
  spawned : Nat
  worker : Nat → WorkerPc
  caller : Nat → Option PokePc

/-- `TIGGER_SUPPRESS_WORKER_COUNT`. -/
def tiggerSuppressWorkerCount : Nat := 4

/-- `TIGGER_SUPPRESS_EXECUTION_NUM`. -/
def tiggerSuppressExecutionNum : Nat := 2

/-- `MAX_ESCAPE_WORKER_NUM`. -/
def maxEscapeWorkerNum : Nat := 1024

namespace WorkerPool

/-- No worker, no task, no poke. -/
def init : WorkerPool := ⟨0, 0, 0, 0, 0, fun _ => .unborn, fun _ => none⟩

/-! ### The group's counters -/

/-- `CPUWorkerGroup::WorkerCreate`. -/
@[simps]
def workerCreate (s : WorkerPool) : WorkerPool := { s with executingNum := s.executingNum + 1 }

/-- `RollBackCreate`. -/
@[simps]
def rollBackCreate (s : WorkerPool) : WorkerPool := { s with executingNum := s.executingNum - 1 }

/-- `SExecuteUnit::IntoSleep`. -/
@[simps]
def intoSleep (s : WorkerPool) : WorkerPool :=
  { s with sleepingNum := s.sleepingNum + 1, executingNum := s.executingNum - 1 }

/-- `OutOfSleep`, with no `irqWake`; `pendingWakeCnt`, which nothing raises, is left out. -/
@[simps]
def outOfSleep (s : WorkerPool) : WorkerPool :=
  { s with sleepingNum := s.sleepingNum - 1, executingNum := s.executingNum + 1 }

/-- `IntoDeepSleep`. -/
@[simps]
def intoDeepSleep (s : WorkerPool) : WorkerPool :=
  { s with deepSleepingWorkerNum := s.deepSleepingWorkerNum + 1 }

/-- `OutOfDeepSleep`. -/
@[simps]
def outOfDeepSleep (s : WorkerPool) : WorkerPool :=
  { s with sleepingNum := s.sleepingNum - 1,
           deepSleepingWorkerNum := s.deepSleepingWorkerNum - 1,
           executingNum := s.executingNum + 1 }

/-- `WorkerDestroy`. -/
@[simps]
def workerDestroy (s : WorkerPool) : WorkerPool := { s with sleepingNum := s.sleepingNum - 1 }

/-- `GetRunningNum`: `executingNum`, with no block-aware correction. -/
def getRunningNum (s : WorkerPool) : Nat := s.executingNum

/-! ### The strategies -/

/-- `PokeImpl`'s choice under `lock`: suppressed for a pick while many workers run for few
tasks; else wake a sleeper while fewer than `maxConcurrency` run, else create one below
`hardLimit`, else submit an escape when none runs. -/
def pokeImpl (cfg : PoolConfig) (s : WorkerPool) (taskCount : Nat)
    (notifyType : TaskNotifyType) : PokeOutcome :=
  let runningNum := s.getRunningNum
  let totalNum := s.sleepingNum + s.executingNum
  let tiggerSuppression := decide (tiggerSuppressWorkerCount < totalNum) &&
    decide (tiggerSuppressExecutionNum < runningNum) && decide (taskCount < runningNum)
  if notifyType ≠ .taskAdded ∧ notifyType ≠ .taskEscaped ∧ tiggerSuppression = true then
    .skip
  else if 0 < s.sleepingNum ∧ runningNum < cfg.maxConcurrency then .wake
  else if runningNum < cfg.maxConcurrency ∧ totalNum < cfg.hardLimit then .create
  else if runningNum = 0 ∧ totalNum < maxEscapeWorkerNum then .escape
  else .skip

/-- `HandleTaskNotifyConservative`'s choice under `lock`.  For `TASK_PICKED` it goes on only
when the tasks per executing worker, or `maxConcurrency` when none executes, exceed `1.0`: the
quotient of `double`s, exact for counts of `int` range. -/
def handleTaskNotifyConservative (cfg : PoolConfig) (s : WorkerPool) (taskCount : Nat)
    (notifyType : TaskNotifyType) : PokeOutcome :=
  if notifyType = .taskPicked ∧
      (if s.executingNum = 0 then cfg.maxConcurrency ≤ 1 else taskCount ≤ s.executingNum) then
    .skip
  else if s.executingNum < cfg.maxConcurrency then
    if s.sleepingNum = 0 then .create else .wake
  else .skip

/-- `HandleTaskNotifyUltraConservative`'s choice under `lock`. -/
def handleTaskNotifyUltraConservative (cfg : PoolConfig) (s : WorkerPool) (taskCount : Nat) :
    PokeOutcome :=
  let runningNum := s.getRunningNum
  if taskCount < runningNum then .skip
  else if runningNum < cfg.maxConcurrency then
    if s.sleepingNum = 0 then .create else .wake
  else .skip

/-- `handleTaskNotify`'s choice under `lock`, for a positive `taskCount`: each strategy returns
before the lock when `GetGlobalTaskCnt` reads `0`. -/
def handleTaskNotify (cfg : PoolConfig) (s : WorkerPool) (taskCount : Nat)
    (notifyType : TaskNotifyType) : PokeOutcome :=
  match cfg.strategy with
  | .default => pokeImpl cfg s taskCount notifyType
  | .conservative => handleTaskNotifyConservative cfg s taskCount notifyType
  | .ultraConservative => handleTaskNotifyUltraConservative cfg s taskCount

/-! ### Threads -/

@[simps -fullyApplied]
def setWorker (s : WorkerPool) (w : Nat) (p : WorkerPc) : WorkerPool :=
  { s with worker := update s.worker w p }

@[simps -fullyApplied]
def setCaller (s : WorkerPool) (c : Nat) (p : Option PokePc) : WorkerPool :=
  { s with caller := update s.caller c p }

/-- The poke `x` is in, if any. -/
def pokeOf (s : WorkerPool) : Ctx → Option PokePc
  | .caller c => s.caller c
  | .worker w =>
      match s.worker w with
      | .poke p => some p
      | _ => none

/-- Move `x`'s poke on to `p`; with `none` the poke returns, a caller to its code and a worker
to the task it runs. -/
def setPoke (s : WorkerPool) : Ctx → Option PokePc → WorkerPool
  | .caller c, p => s.setCaller c p
  | .worker w, some p => s.setWorker w (.poke p)
  | .worker w, none => s.setWorker w .run

/-- `mtx` is free: no worker holds it between `IntoSleep` and its first predicate check. -/
def mtxFree (s : WorkerPool) : Prop := ∀ w < s.spawned, s.worker w ≠ .check

instance (s : WorkerPool) : Decidable s.mtxFree :=
  inferInstanceAs (Decidable (∀ w < s.spawned, s.worker w ≠ .check))

/-! ### Steps -/

/-- The poke's `lock` section: the strategy's choice, with `WorkerCreate` for a worker to
create.  `SubmitEscape` registers a `DelayedWorker` callback that the model leaves out:
`handleTaskNotify_ne_escape` shows the branch is never taken. -/
def lockSection (cfg : PoolConfig) (s : WorkerPool) (x : Ctx) (taskCount : Nat)
    (notifyType : TaskNotifyType) : WorkerPool :=
  match handleTaskNotify cfg s taskCount notifyType with
  | .skip => s.setPoke x none
  | .wake => s.setPoke x (some .wake)
  | .create => s.workerCreate.setPoke x (some .create)
  | .escape => s.setPoke x none

/-- `IncWorker`: a new worker at the top of `WorkerLooper`; `RollBackCreate` when it fails. -/
def incWorker (s : WorkerPool) (x : Ctx) (ok : Bool) : WorkerPool :=
  if ok then ({ s with spawned := s.spawned + 1 }.setWorker s.spawned .loop).setPoke x none
  else s.rollBackCreate.setPoke x none

/-- `wait_for` returns and checks its predicate under `mtx`: with a task queued the worker is
out of its sleep; else it waits again, or after its timeout sleeps deep or, with
`SUPPORT_WORKER_DESTRUCT`, leaves. -/
def wakeUp (cfg : PoolConfig) (s : WorkerPool) (w : Nat) (timeout : Bool) : WorkerPool :=
  if 0 < s.size then s.outOfSleep.setWorker w .loop
  else if !timeout then s.setWorker w (.waiting false)
  else if cfg.destruct then s.workerDestroy.setWorker w .retired
  else s.intoDeepSleep.setWorker w (.deepWaiting false)

/-- One step of the pool. -/
def step (cfg : PoolConfig) (s : WorkerPool) : PoolAction → Option WorkerPool
  | .submit c =>
      if c < cfg.callers ∧ s.caller c = none ∧ s.mtxFree then
        some ({ s with size := s.size + 1 }.setCaller c (some (.read .taskAdded)))
      else none
  | .submitInTask w =>
      if s.worker w = .run ∧ s.mtxFree then
        some ({ s with size := s.size + 1 }.setWorker w (.poke (.read .taskAdded)))
      else none
  | .popTask w =>
      if s.worker w = .loop ∧ s.mtxFree then
        some (if 0 < s.size then
            { s with size := s.size - 1 }.setWorker w (.poke (.read .taskPicked))
          else s.setWorker w .idle)
      else none
  | .runTask w => if s.worker w = .run then some (s.setWorker w .loop) else none
  | .intoSleep w =>
      if s.worker w = .idle ∧ s.mtxFree then some (s.intoSleep.setWorker w .check) else none
  | .waitFor w =>
      if s.worker w = .check then
        some (if 0 < s.size then s.outOfSleep.setWorker w .loop
          else s.setWorker w (.waiting false))
      else none
  | .wakeUp w timeout =>
      match s.worker w with
      | .waiting _ => if s.mtxFree then some (s.wakeUp cfg w timeout) else none
      | _ => none
  | .deepWakeUp w =>
      match s.worker w with
      | .deepWaiting _ =>
          if s.mtxFree then
            some (if 0 < s.size then s.outOfDeepSleep.setWorker w .loop
              else s.setWorker w (.deepWaiting false))
          else none
      | _ => none
  | .getGlobalTaskCnt x =>
      match s.pokeOf x with
      | some (.read notifyType) =>
          some (if 0 < s.size then s.setPoke x (some (.decide notifyType s.size))
            else s.setPoke x none)
      | _ => none
  | .lock x =>
      match s.pokeOf x with
      | some (.decide notifyType taskCount) => some (s.lockSection cfg x taskCount notifyType)
      | _ => none
  | .wakeupWorkers x target =>
      if s.pokeOf x = some .wake then
        match target with
        | some w =>
            if w < s.spawned ∧ (s.worker w).unnotified = true then
              some ((s.setWorker w (s.worker w).notify).setPoke x none)
            else none
        | none =>
            if ∀ w < s.spawned, (s.worker w).unnotified = false then some (s.setPoke x none)
            else none
      else none
  | .incWorker x ok => if s.pokeOf x = some .create then some (s.incWorker x ok) else none

section Pokes

variable {s : WorkerPool}

@[simp] theorem pokeOf_caller {c : Nat} : s.pokeOf (.caller c) = s.caller c := rfl

theorem pokeOf_worker {w : Nat} {p : PokePc} :
    s.pokeOf (.worker w) = some p ↔ s.worker w = .poke p := by
  simp only [pokeOf]
  split <;> simp_all

@[simp] theorem setPoke_caller {c : Nat} {p : Option PokePc} :
    s.setPoke (.caller c) p = s.setCaller c p := rfl

@[simp] theorem setPoke_worker_some {w : Nat} {p : PokePc} :
    s.setPoke (.worker w) (some p) = s.setWorker w (.poke p) := rfl

@[simp] theorem setPoke_worker_none {w : Nat} : s.setPoke (.worker w) none = s.setWorker w .run :=
  rfl

/-- A worker's move leaves the pokes of the others. -/
theorem pokeOf_setWorker {x : Ctx} {w : Nat} {p : PokePc} {q : WorkerPc}
    (hx : s.pokeOf x = some p) (hw : ∀ r, s.worker w ≠ .poke r) :
    (s.setWorker w q).pokeOf x = some p := by
  cases x with
  | caller c => exact hx
  | worker v =>
      have hv : s.worker v = .poke p := pokeOf_worker.mp hx
      have hne : v ≠ w := fun he => hw p (he ▸ hv)
      exact pokeOf_worker.mpr (by simp [update_of_ne hne, hv])

end Pokes

/-! ### What each step does -/

section Steps

variable {cfg : PoolConfig} {s t : WorkerPool}

theorem step_submit {c : Nat} (h : s.step cfg (.submit c) = some t) :
    c < cfg.callers ∧ s.caller c = none ∧ s.mtxFree ∧
      t = { s with size := s.size + 1 }.setCaller c (some (.read .taskAdded)) := by
  simp only [step] at h
  split_ifs at h with hg
  exact ⟨hg.1, hg.2.1, hg.2.2, (Option.some.inj h).symm⟩

theorem step_submitInTask {w : Nat} (h : s.step cfg (.submitInTask w) = some t) :
    s.worker w = .run ∧ s.mtxFree ∧
      t = { s with size := s.size + 1 }.setWorker w (.poke (.read .taskAdded)) := by
  simp only [step] at h
  split_ifs at h with hg
  exact ⟨hg.1, hg.2, (Option.some.inj h).symm⟩

theorem step_popTask {w : Nat} (h : s.step cfg (.popTask w) = some t) :
    s.worker w = .loop ∧ s.mtxFree ∧
      t = if 0 < s.size then
          { s with size := s.size - 1 }.setWorker w (.poke (.read .taskPicked))
        else s.setWorker w .idle := by
  simp only [step] at h
  by_cases hg : s.worker w = .loop ∧ s.mtxFree
  · rw [if_pos hg] at h
    exact ⟨hg.1, hg.2, (Option.some.inj h).symm⟩
  · rw [if_neg hg] at h
    cases h

theorem step_runTask {w : Nat} (h : s.step cfg (.runTask w) = some t) :
    s.worker w = .run ∧ t = s.setWorker w .loop := by
  simp only [step] at h
  split_ifs at h with hg
  exact ⟨hg, (Option.some.inj h).symm⟩

theorem step_intoSleep {w : Nat} (h : s.step cfg (.intoSleep w) = some t) :
    s.worker w = .idle ∧ s.mtxFree ∧ t = s.intoSleep.setWorker w .check := by
  simp only [step] at h
  split_ifs at h with hg
  exact ⟨hg.1, hg.2, (Option.some.inj h).symm⟩

theorem step_waitFor {w : Nat} (h : s.step cfg (.waitFor w) = some t) :
    s.worker w = .check ∧
      t = if 0 < s.size then s.outOfSleep.setWorker w .loop
        else s.setWorker w (.waiting false) := by
  simp only [step] at h
  by_cases hg : s.worker w = .check
  · rw [if_pos hg] at h
    exact ⟨hg, (Option.some.inj h).symm⟩
  · rw [if_neg hg] at h
    cases h

theorem step_wakeUp {w : Nat} {timeout : Bool} (h : s.step cfg (.wakeUp w timeout) = some t) :
    (∃ n, s.worker w = .waiting n) ∧ s.mtxFree ∧ t = s.wakeUp cfg w timeout := by
  simp only [step] at h
  split at h
  · rename_i n hw
    split_ifs at h with hg
    exact ⟨⟨n, hw⟩, hg, (Option.some.inj h).symm⟩
  · cases h

theorem step_deepWakeUp {w : Nat} (h : s.step cfg (.deepWakeUp w) = some t) :
    (∃ n, s.worker w = .deepWaiting n) ∧ s.mtxFree ∧
      t = if 0 < s.size then s.outOfDeepSleep.setWorker w .loop
        else s.setWorker w (.deepWaiting false) := by
  simp only [step] at h
  split at h
  · rename_i n hw
    by_cases hg : s.mtxFree
    · rw [if_pos hg] at h
      exact ⟨⟨n, hw⟩, hg, (Option.some.inj h).symm⟩
    · rw [if_neg hg] at h
      cases h
  · cases h

theorem step_getGlobalTaskCnt {x : Ctx} (h : s.step cfg (.getGlobalTaskCnt x) = some t) :
    ∃ notifyType, s.pokeOf x = some (.read notifyType) ∧
      t = if 0 < s.size then s.setPoke x (some (.decide notifyType s.size))
        else s.setPoke x none := by
  simp only [step] at h
  split at h
  · rename_i notifyType hx
    exact ⟨notifyType, hx, (Option.some.inj h).symm⟩
  · cases h

theorem step_lock {x : Ctx} (h : s.step cfg (.lock x) = some t) :
    ∃ notifyType taskCount, s.pokeOf x = some (.decide notifyType taskCount) ∧
      t = s.lockSection cfg x taskCount notifyType := by
  simp only [step] at h
  split at h
  · rename_i notifyType taskCount hx
    exact ⟨notifyType, taskCount, hx, (Option.some.inj h).symm⟩
  · cases h

theorem step_wakeupWorkers_some {x : Ctx} {w : Nat}
    (h : s.step cfg (.wakeupWorkers x (some w)) = some t) :
    s.pokeOf x = some .wake ∧ w < s.spawned ∧ (s.worker w).unnotified = true ∧
      t = (s.setWorker w (s.worker w).notify).setPoke x none := by
  simp only [step] at h
  split_ifs at h with hx hg
  exact ⟨hx, hg.1, hg.2, (Option.some.inj h).symm⟩

theorem step_wakeupWorkers_none {x : Ctx} (h : s.step cfg (.wakeupWorkers x none) = some t) :
    s.pokeOf x = some .wake ∧ (∀ w < s.spawned, (s.worker w).unnotified = false) ∧
      t = s.setPoke x none := by
  simp only [step] at h
  split_ifs at h with hx hg
  exact ⟨hx, hg, (Option.some.inj h).symm⟩

theorem step_incWorker {x : Ctx} {ok : Bool} (h : s.step cfg (.incWorker x ok) = some t) :
    s.pokeOf x = some .create ∧ t = s.incWorker x ok := by
  simp only [step] at h
  split_ifs at h with hx
  exact ⟨hx, (Option.some.inj h).symm⟩

end Steps

end WorkerPool

end Ffrt.Eu
