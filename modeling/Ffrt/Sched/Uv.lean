import Ffrt.Support.Machine

/-!
# Sched — UV tasks

The admission of libuv's work items (`src/sched/task_scheduler.cpp`,
`include/sched/task_scheduler.h`, `src/tm/uv_task.cpp`, `include/tm/uv_task.h`).  A `UVTask`
is built around the user's `uvWork`, whose `wq` it links into a list of its own: `InList()` on
`wq` is how `CancelUVWork` and libuv tell that the work was not yet taken.  `Ready` puts the
task in `uvTaskWaitingQueue_` when `uvTaskConcurrency_` is at its limit, else in the ready
queue; a worker pops it (`PopTask`, then `GetUVTask`, which frees it instead when its `uvWork`
is in `cancelSet_`), and `Execute` admits it (`CheckUVTaskConcurrency`) into an `ExecuteImpl`
chain, which runs it, frees it (`DecDeleteRef`) and picks the next waiting task
(`PickWaitingUVTask`) until there is none.

* `UvScheduler`, `step n`: the counter, the two queues, `cancelSet_`, the `InList()` flag of each
  `uvWork`, where each of `n` workers is, and ghost records of the chains, the tasks submitted,
  run and freed, and the answers of `CancelUVWork`.
* `UvInv`: the counter is the number of workers in a chain, at most `8`, and at least one when
  a task waits.
* `Orphan`, `orphan_reach`: a task that no queue and no worker holds and that was not freed is
  never freed.
* `cancelled_never_freed`: `CancelUVWork` of a task in the waiting queue answers `true` and drops
  the task; `cancelled_runs`: a `uvWork` submitted again after a cancel in the ready queue has
  the new task freed and the cancelled one run.
-/

namespace Ffrt.Sched

/-- `UV_TASK_MAX_CONCURRENCY`. -/
def uvTaskMaxConcurrency : Nat := 8

/-- A `UVTask`: a ghost name, and its `uvWork`. -/
structure UvTask where
  id : Nat
  uvWork : Nat
  deriving DecidableEq, Repr

/-- Where a worker is. -/
inductive UvWorker
  | idle
  /-- `PopTask` dequeued the task; `GetUVTask` is next. -/
  | popped (t : UvTask)
  /-- `GetUVTask` returned the task; `Execute`'s `CheckUVTaskConcurrency` is next. -/
  | got (t : UvTask)
  /-- In an `ExecuteImpl` chain, about to run the task. -/
  | running (t : UvTask)
  /-- In an `ExecuteImpl` chain, `PickWaitingUVTask` next. -/
  | picking
  deriving DecidableEq, Repr

namespace UvWorker

/-- Inside an `ExecuteImpl` chain. -/
def inChain : UvWorker → Bool
  | .running _ | .picking => true
  | _ => false

/-- The task the worker holds. -/
def task? : UvWorker → Option UvTask
  | .popped t | .got t | .running t => some t
  | _ => none

end UvWorker

/-- A `TaskScheduler`'s UV fields, its workers, and the ghost records. -/
structure UvScheduler where
  concurrency : Nat
  waiting : List UvTask
  cancelSet : List Nat
  ready : List UvTask
  inList : Nat → Bool
  worker : Nat → UvWorker
  nextId : Nat
  /-- The workers inside an `ExecuteImpl` chain. -/
  chains : List Nat
  submitted : List UvTask
  executed : List Nat
  freed : List Nat
  /-- Each `CancelUVWork`: its `uvWork` and its answer. -/
  cancels : List (Nat × Bool)

inductive UvAction
  /-- `ffrt_executor_task_submit`: construction and `Ready`. -/
  | submit (uvWork : Nat)
  /-- The worker's `PopTask` dequeues. -/
  | pop (w : Nat)
  /-- `GetUVTask`. -/
  | get (w : Nat)
  /-- `Execute`'s `CheckUVTaskConcurrency`. -/
  | check (w : Nat)
  /-- `ExecuteImpl` runs the task and `DecDeleteRef` frees it. -/
  | exec (w : Nat)
  /-- `PickWaitingUVTask`. -/
  | pick (w : Nat)
  /-- `ffrt_executor_task_cancel`. -/
  | cancel (uvWork : Nat)

namespace UvScheduler

open Function

def init : UvScheduler :=
  ⟨0, [], [], [], fun _ => false, fun _ => .idle, 0, [], [], [], [], []⟩

/-- `OnSubmitUV`: the constructor links `uvWork->wq` into the task's list; `Ready` puts the task
in the waiting queue when `PushUVTaskToWaitingQueue` finds the counter at its limit, else in
the ready queue. -/
def submit (s : UvScheduler) (work : Nat) : UvScheduler :=
  let t : UvTask := ⟨s.nextId, work⟩
  let s := { s with inList := update s.inList work true, nextId := s.nextId + 1,
                    submitted := s.submitted ++ [t] }
  if uvTaskMaxConcurrency ≤ s.concurrency then { s with waiting := s.waiting ++ [t] }
  else { s with ready := s.ready ++ [t] }

/-- `GetUVTask`: a task whose `uvWork` is in `cancelSet_` is freed and its `uvWork` leaves the
set (`RemoveUVTaskSlowPath`); any other is marked dequeued and handed to the worker. -/
def getUVTask (s : UvScheduler) (w : Nat) (t : UvTask) : UvScheduler :=
  if t.uvWork ∈ s.cancelSet then
    { s with freed := s.freed ++ [t.id], cancelSet := s.cancelSet.erase t.uvWork,
             worker := update s.worker w .idle }
  else { s with inList := update s.inList t.uvWork false, worker := update s.worker w (.got t) }

/-- `CheckUVTaskConcurrency`: at the limit the task goes back to the front of the waiting queue
and the worker leaves it; else the counter grows and the chain starts. -/
def checkUVTaskConcurrency (s : UvScheduler) (w : Nat) (t : UvTask) : UvScheduler :=
  if uvTaskMaxConcurrency ≤ s.concurrency then
    { s with waiting := t :: s.waiting, worker := update s.worker w .idle }
  else
    { s with concurrency := s.concurrency + 1, chains := s.chains ++ [w],
             worker := update s.worker w (.running t) }

/-- One turn of `ExecuteImpl`: `func(task->uvWork, qos)`, then `DecDeleteRef` frees the task. -/
def execute (s : UvScheduler) (w : Nat) (t : UvTask) : UvScheduler :=
  { s with executed := s.executed ++ [t.id], freed := s.freed ++ [t.id],
           worker := update s.worker w .picking }

/-- `PickWaitingUVTask`: on an empty waiting queue the counter drops (when positive) and the
chain ends; else the first waiting task is marked dequeued and run next. -/
def pickWaitingUVTask (s : UvScheduler) (w : Nat) : UvScheduler :=
  match s.waiting with
  | [] =>
      { s with concurrency := if s.concurrency > 0 then s.concurrency - 1 else s.concurrency,
               chains := s.chains.erase w, worker := update s.worker w .idle }
  | t :: rest =>
      { s with waiting := rest, inList := update s.inList t.uvWork false,
               worker := update s.worker w (.running t) }

/-- `CancelUVWork`: `false` when `wq` is not in a list.  Else the tasks of `uvWork` leave the
waiting queue (marked dequeued unless `uvWork` is in `cancelSet_`), and the answer is `true`
unless `uvWork` was in `cancelSet_`, which it then leaves; when no task of `uvWork` waits,
`wq` is unlinked and `uvWork` goes into `cancelSet_`, the answer being whether it was new. -/
def cancelUVWork (s : UvScheduler) (work : Nat) : UvScheduler × Bool :=
  if !s.inList work then (s, false)
  else if s.waiting.any (fun t => t.uvWork == work) then
    let s₁ := { s with
      waiting := s.waiting.filter (fun t => t.uvWork != work),
      inList := if work ∈ s.cancelSet then s.inList else update s.inList work false }
    if work ∈ s.cancelSet then ({ s₁ with cancelSet := s.cancelSet.erase work }, false)
    else (s₁, true)
  else
    ({ s with inList := update s.inList work false,
              cancelSet := if work ∈ s.cancelSet then s.cancelSet else s.cancelSet ++ [work] },
      !decide (work ∈ s.cancelSet))

/-- One step of the workers `0`, ..., `n - 1`, of a submitting thread or of a cancelling one.
libuv submits a `uvWork` again only once its `wq` is out of every list. -/
def step (n : Nat) (s : UvScheduler) : UvAction → Option UvScheduler
  | .submit work => if s.inList work then none else some (s.submit work)
  | .pop w =>
      match s.worker w, s.ready with
      | .idle, t :: rest =>
          if w < n then some { s with ready := rest, worker := update s.worker w (.popped t) }
          else none
      | _, _ => none
  | .get w =>
      match s.worker w with
      | .popped t => if w < n then some (s.getUVTask w t) else none
      | _ => none
  | .check w =>
      match s.worker w with
      | .got t => if w < n then some (s.checkUVTaskConcurrency w t) else none
      | _ => none
  | .exec w =>
      match s.worker w with
      | .running t => if w < n then some (s.execute w t) else none
      | _ => none
  | .pick w =>
      match s.worker w with
      | .picking => if w < n then some (s.pickWaitingUVTask w) else none
      | _ => none
  | .cancel work =>
      let r := s.cancelUVWork work
      some { r.1 with cancels := r.1.cancels ++ [(work, r.2)] }

/-! ### What a step can do -/

theorem task?_update (f : Nat → UvWorker) (w w' : Nat) (x : UvWorker) :
    (update f w x w').task? = if w' = w then x.task? else (f w').task? := by
  by_cases hw : w' = w
  · subst hw
    simp
  · simp [hw]

/-- **Everything one step can do.** -/
theorem step_cases {n : Nat} {s s' : UvScheduler} {a : UvAction} (h : step n s a = some s') :
    (∃ work, s.inList work = false ∧ s' = s.submit work) ∨
    (∃ w t rest, w < n ∧ s.worker w = .idle ∧ s.ready = t :: rest ∧
      s' = { s with ready := rest, worker := update s.worker w (.popped t) }) ∨
    (∃ w t, w < n ∧ s.worker w = .popped t ∧ s' = s.getUVTask w t) ∨
    (∃ w t, w < n ∧ s.worker w = .got t ∧ s' = s.checkUVTaskConcurrency w t) ∨
    (∃ w t, w < n ∧ s.worker w = .running t ∧ s' = s.execute w t) ∨
    (∃ w, w < n ∧ s.worker w = .picking ∧ s' = s.pickWaitingUVTask w) ∨
    (∃ work, s' = { (s.cancelUVWork work).1 with
      cancels := (s.cancelUVWork work).1.cancels ++ [(work, (s.cancelUVWork work).2)] }) := by
  cases a with
  | submit work =>
      simp only [step] at h
      split at h
      · cases h
      · rename_i hn
        cases h
        exact .inl ⟨work, Bool.eq_false_iff.mpr hn, rfl⟩
  | pop w =>
      simp only [step] at h
      split at h
      · rename_i t rest hw hr
        split at h
        · cases h
          exact .inr (.inl ⟨w, t, rest, by assumption, hw, hr, rfl⟩)
        · cases h
      · cases h
  | get w =>
      simp only [step] at h
      split at h
      · rename_i t hw
        split at h
        · cases h
          exact .inr (.inr (.inl ⟨w, t, by assumption, hw, rfl⟩))
        · cases h
      · cases h
  | check w =>
      simp only [step] at h
      split at h
      · rename_i t hw
        split at h
        · cases h
          exact .inr (.inr (.inr (.inl ⟨w, t, by assumption, hw, rfl⟩)))
        · cases h
      · cases h
  | exec w =>
      simp only [step] at h
      split at h
      · rename_i t hw
        split at h
        · cases h
          exact .inr (.inr (.inr (.inr (.inl ⟨w, t, by assumption, hw, rfl⟩))))
        · cases h
      · cases h
  | pick w =>
      simp only [step] at h
      split at h
      · rename_i hw
        split at h
        · cases h
          exact .inr (.inr (.inr (.inr (.inr (.inl ⟨w, by assumption, hw, rfl⟩)))))
        · cases h
      · cases h
  | cancel work =>
      cases h
      exact .inr (.inr (.inr (.inr (.inr (.inr ⟨work, rfl⟩)))))

/-- `CancelUVWork` leaves the counter, the chains, the workers, the ready queue and the freed
tasks alone, and only takes tasks out of the waiting queue. -/
theorem cancelUVWork_frame (s : UvScheduler) (work : Nat) :
    let s' := (s.cancelUVWork work).1
    s'.concurrency = s.concurrency ∧ s'.chains = s.chains ∧ s'.worker = s.worker ∧
      s'.ready = s.ready ∧ s'.freed = s.freed ∧ s'.nextId = s.nextId ∧
      List.Sublist s'.waiting s.waiting := by
  unfold cancelUVWork
  split_ifs <;> simp [List.filter_sublist]

/-! ### The counter counts the chains -/

/-- `uvTaskConcurrency_` is the number of workers inside an `ExecuteImpl` chain, at most the
limit, and a task waits only while some chain runs. -/
structure UvInv (s : UvScheduler) : Prop where
  count : s.concurrency = s.chains.length
  le_max : s.concurrency ≤ uvTaskMaxConcurrency
  nodup : s.chains.Nodup
  chains : ∀ w, w ∈ s.chains ↔ (s.worker w).inChain = true
  waiting : s.waiting ≠ [] → 0 < s.concurrency

/-- A chain holds a worker, so the counter is positive. -/
theorem UvInv.pos_of_chain {s : UvScheduler} (hI : UvInv s) {w : Nat}
    (hw : (s.worker w).inChain = true) : 0 < s.concurrency := by
  rw [hI.count]
  exact List.length_pos_of_mem ((hI.chains w).mpr hw)

/-- **A chain starts**: a worker in none enters one below the limit, and the counter grows. -/
theorem UvInv.start {s : UvScheduler} (hI : UvInv s) {w : Nat} {x : UvWorker}
    (hw : (s.worker w).inChain = false) (hx : x.inChain = true)
    (hlt : s.concurrency < uvTaskMaxConcurrency) :
    UvInv { s with concurrency := s.concurrency + 1, chains := s.chains ++ [w],
                   worker := update s.worker w x } := by
  have hnot : w ∉ s.chains := fun hm => by
    rw [(hI.chains w).mp hm] at hw
    cases hw
  refine ⟨by simp [hI.count], hlt, hI.nodup.append (List.nodup_singleton w) (by simpa using hnot),
    fun w' => ?_, fun _ => Nat.succ_pos _⟩
  by_cases hw' : w' = w
  · subst hw'
    simp [hx]
  · simp only [List.mem_append, List.mem_singleton, hw', or_false, update_of_ne hw']
    exact hI.chains w'

/-- **A chain ends**: its worker leaves it with no task waiting, and the counter drops. -/
theorem UvInv.finish {s : UvScheduler} (hI : UvInv s) {w : Nat}
    (hw : (s.worker w).inChain = true) (hwt : s.waiting = []) :
    UvInv { s with concurrency := if s.concurrency > 0 then s.concurrency - 1 else s.concurrency,
                   chains := s.chains.erase w, worker := update s.worker w .idle } := by
  have hmem : w ∈ s.chains := (hI.chains w).mpr hw
  have hpos := hI.pos_of_chain hw
  refine ⟨?_, ?_, hI.nodup.erase w, fun w' => ?_, fun hne => absurd hwt hne⟩
  · show (if s.concurrency > 0 then s.concurrency - 1 else s.concurrency) = (s.chains.erase w).length
    rw [if_pos hpos, List.length_erase_of_mem hmem, hI.count]
  · simp only [hpos, if_true]
    have := hI.le_max
    omega
  · by_cases hw' : w' = w
    · subst hw'
      simp [hI.nodup.not_mem_erase, UvWorker.inChain]
    · simp only [List.mem_erase_of_ne hw', update_of_ne hw']
      exact hI.chains w'

/-- Task `t` is in the ready queue or in the waiting queue, or one of the workers holds it. -/
def Held (n : Nat) (s : UvScheduler) (t : Nat) : Prop :=
  (∃ x ∈ s.ready, x.id = t) ∨ (∃ x ∈ s.waiting, x.id = t) ∨
    ∃ w < n, (s.worker w).task?.map UvTask.id = some t

instance (n : Nat) (s : UvScheduler) (t : Nat) : Decidable (Held n s t) :=
  inferInstanceAs (Decidable (_ ∨ _ ∨ _))

/-- Task `t` was submitted and not freed, and no one holds it. -/
def Orphan (n : Nat) (s : UvScheduler) (t : Nat) : Prop :=
  t < s.nextId ∧ t ∉ s.freed ∧ ¬ Held n s t

instance (n : Nat) (s : UvScheduler) (t : Nat) : Decidable (Orphan n s t) :=
  inferInstanceAs (Decidable (_ ∧ _ ∧ _))

theorem held_of_worker {n : Nat} {s : UvScheduler} {w : Nat} {x : UvTask} (hn : w < n)
    (h : (s.worker w).task? = some x) : Held n s x.id :=
  .inr (.inr ⟨w, hn, by rw [h]; rfl⟩)

/-- After worker `w` moves to `y`, what the workers hold was held by one of them, or is what
`y` holds. -/
theorem worker_held_update {n : Nat} {s : UvScheduler} {w : Nat} {y : UvWorker} {t : Nat}
    (h : ∃ w' < n, (update s.worker w y w').task?.map UvTask.id = some t) :
    (∃ w' < n, (s.worker w').task?.map UvTask.id = some t) ∨ y.task?.map UvTask.id = some t := by
  obtain ⟨w', hn, hw'⟩ := h
  rw [task?_update] at hw'
  split at hw'
  · exact .inr hw'
  · exact .inl ⟨w', hn, hw'⟩

/-- **What a step holds, it took from what was held**, or it is the task the step submits. -/
theorem held_step {n : Nat} {s s' : UvScheduler} {a : UvAction} (h : step n s a = some s')
    {t : Nat} (ht : Held n s' t) : Held n s t ∨ t = s.nextId := by
  rcases step_cases h with ⟨work, -, rfl⟩ | ⟨w, x, rest, hn, hw, hr, rfl⟩ | ⟨w, x, hn, hw, rfl⟩ |
      ⟨w, x, hn, hw, rfl⟩ | ⟨w, x, hn, hw, rfl⟩ | ⟨w, hn, hw, rfl⟩ | ⟨work, rfl⟩
  · -- submit: the new task goes into one queue
    dsimp only [submit] at ht
    split at ht
    · rcases ht with hrd | ⟨z, hz, rfl⟩ | hwk
      · exact .inl (.inl hrd)
      · rcases List.mem_append.mp hz with hz | hz
        · exact .inl (.inr (.inl ⟨z, hz, rfl⟩))
        · rw [List.mem_singleton.mp hz]
          exact .inr rfl
      · exact .inl (.inr (.inr hwk))
    · rcases ht with ⟨z, hz, rfl⟩ | hwt | hwk
      · rcases List.mem_append.mp hz with hz | hz
        · exact .inl (.inl ⟨z, hz, rfl⟩)
        · rw [List.mem_singleton.mp hz]
          exact .inr rfl
      · exact .inl (.inr (.inl hwt))
      · exact .inl (.inr (.inr hwk))
  · -- pop: the head of the ready queue goes to the worker
    refine .inl ?_
    rcases ht with ⟨z, hz, rfl⟩ | hwt | hwk
    · exact .inl ⟨z, by rw [hr]; exact List.mem_cons_of_mem x hz, rfl⟩
    · exact .inr (.inl hwt)
    · rcases worker_held_update hwk with hwk | hy
      · exact .inr (.inr hwk)
      · cases hy
        exact .inl ⟨x, by rw [hr]; exact List.mem_cons_self, rfl⟩
  · -- get: the worker keeps the task, or frees it
    refine .inl ?_
    unfold getUVTask at ht
    split at ht
    · rcases ht with hrd | hwt | hwk
      · exact .inl hrd
      · exact .inr (.inl hwt)
      · rcases worker_held_update hwk with hwk | hy
        · exact .inr (.inr hwk)
        · cases hy
    · rcases ht with hrd | hwt | hwk
      · exact .inl hrd
      · exact .inr (.inl hwt)
      · rcases worker_held_update hwk with hwk | hy
        · exact .inr (.inr hwk)
        · cases hy
          exact held_of_worker hn (by rw [hw]; rfl)
  · -- check: the task goes back to the waiting queue, or the chain runs it
    refine .inl ?_
    unfold checkUVTaskConcurrency at ht
    split at ht
    · rcases ht with hrd | ⟨z, hz, rfl⟩ | hwk
      · exact .inl hrd
      · rcases List.mem_cons.mp hz with rfl | hz
        · exact held_of_worker hn (by rw [hw]; rfl)
        · exact .inr (.inl ⟨z, hz, rfl⟩)
      · rcases worker_held_update hwk with hwk | hy
        · exact .inr (.inr hwk)
        · cases hy
    · rcases ht with hrd | hwt | hwk
      · exact .inl hrd
      · exact .inr (.inl hwt)
      · rcases worker_held_update hwk with hwk | hy
        · exact .inr (.inr hwk)
        · cases hy
          exact held_of_worker hn (by rw [hw]; rfl)
  · -- exec: the worker lets go of the task it ran
    refine .inl ?_
    rcases ht with hrd | hwt | hwk
    · exact .inl hrd
    · exact .inr (.inl hwt)
    · rcases worker_held_update hwk with hwk | hy
      · exact .inr (.inr hwk)
      · cases hy
  · -- pick: the head of the waiting queue goes to the worker
    refine .inl ?_
    unfold pickWaitingUVTask at ht
    split at ht
    · rcases ht with hrd | hwt | hwk
      · exact .inl hrd
      · exact .inr (.inl hwt)
      · rcases worker_held_update hwk with hwk | hy
        · exact .inr (.inr hwk)
        · cases hy
    · rename_i y rest hwt
      rcases ht with hrd | ⟨z, hz, rfl⟩ | hwk
      · exact .inl hrd
      · exact .inr (.inl ⟨z, by rw [hwt]; exact List.mem_cons_of_mem y hz, rfl⟩)
      · rcases worker_held_update hwk with hwk | hy
        · exact .inr (.inr hwk)
        · cases hy
          exact .inr (.inl ⟨y, by rw [hwt]; exact List.mem_cons_self, rfl⟩)
  · -- cancel: tasks only leave the waiting queue
    obtain ⟨-, -, hwk, hrd, -, -, hsub⟩ := cancelUVWork_frame s work
    refine .inl ?_
    rcases ht with ⟨z, hz, rfl⟩ | ⟨z, hz, rfl⟩ | ⟨w', hn', hw'⟩
    · exact .inl ⟨z, by rw [← hrd]; exact hz, rfl⟩
    · exact .inr (.inl ⟨z, hsub.subset hz, rfl⟩)
    · exact .inr (.inr ⟨w', hn', by rw [← hwk]; exact hw'⟩)

/-- **What a step frees, it held**: `GetUVTask` frees the cancelled task its worker popped,
`ExecuteImpl` the task its worker ran. -/
theorem freed_step {n : Nat} {s s' : UvScheduler} {a : UvAction} (h : step n s a = some s')
    {t : Nat} (ht : t ∈ s'.freed) : t ∈ s.freed ∨ Held n s t := by
  rcases step_cases h with ⟨work, -, rfl⟩ | ⟨w, x, rest, hn, hw, hr, rfl⟩ | ⟨w, x, hn, hw, rfl⟩ |
      ⟨w, x, hn, hw, rfl⟩ | ⟨w, x, hn, hw, rfl⟩ | ⟨w, hn, hw, rfl⟩ | ⟨work, rfl⟩
  · dsimp only [submit] at ht
    split at ht <;> exact .inl ht
  · exact .inl ht
  · unfold getUVTask at ht
    split at ht
    · rcases List.mem_append.mp ht with ht | ht
      · exact .inl ht
      · rw [List.mem_singleton.mp ht]
        exact .inr (held_of_worker hn (by rw [hw]; rfl))
    · exact .inl ht
  · unfold checkUVTaskConcurrency at ht
    split at ht <;> exact .inl ht
  · rcases List.mem_append.mp ht with ht | ht
    · exact .inl ht
    · rw [List.mem_singleton.mp ht]
      exact .inr (held_of_worker hn (by rw [hw]; rfl))
  · unfold pickWaitingUVTask at ht
    split at ht <;> exact .inl ht
  · obtain ⟨-, -, -, -, hfr, -, -⟩ := cancelUVWork_frame s work
    exact .inl (hfr ▸ ht)

theorem nextId_step {n : Nat} {s s' : UvScheduler} {a : UvAction} (h : step n s a = some s') :
    s.nextId ≤ s'.nextId := by
  rcases step_cases h with ⟨work, -, rfl⟩ | ⟨w, x, rest, -, -, -, rfl⟩ | ⟨w, x, -, -, rfl⟩ |
      ⟨w, x, -, -, rfl⟩ | ⟨w, x, -, -, rfl⟩ | ⟨w, -, -, rfl⟩ | ⟨work, rfl⟩
  · dsimp only [submit]
    split <;> exact Nat.le_succ _
  · exact le_refl _
  · unfold getUVTask
    split <;> exact le_refl _
  · unfold checkUVTaskConcurrency
    split <;> exact le_refl _
  · exact le_refl _
  · unfold pickWaitingUVTask
    split <;> exact le_refl _
  · obtain ⟨-, -, -, -, -, hid, -⟩ := cancelUVWork_frame s work
    exact hid.ge

/-- **No one frees an orphan.**  A task that no queue and no worker holds, once submitted and
not freed, stays so on every run. -/
theorem orphan_step {n : Nat} {s s' : UvScheduler} {a : UvAction} (h : step n s a = some s')
    {t : Nat} (ho : Orphan n s t) : Orphan n s' t := by
  obtain ⟨hlt, hfr, hheld⟩ := ho
  refine ⟨lt_of_lt_of_le hlt (nextId_step h), fun hf => ?_, fun hh => ?_⟩
  · rcases freed_step h hf with hf | hh
    · exact hfr hf
    · exact hheld hh
  · rcases held_step h hh with hh | rfl
    · exact hheld hh
    · exact lt_irrefl _ hlt

theorem orphan_reach {n : Nat} {s u : UvScheduler} {t : Nat} (ho : Orphan n s t)
    (h : Machine.Reach (step n) s u) : Orphan n u t :=
  Machine.Invariant.reach (P := fun s => Orphan n s t) (fun _ _ _ ho hs => orphan_step hs ho) ho h

/-- Eight workers each run a task, so the counter is at its limit and the ninth task, of
`uvWork` `8`, waits.  `CancelUVWork(8)` takes it out of the waiting queue and answers `true`;
the task is then in no queue and with no worker, and no run frees it. -/
theorem cancelled_never_freed :
    ∃ s, Machine.Reach (step 8) init s ∧ (⟨8, 8⟩ : UvTask) ∈ s.submitted ∧ (8, true) ∈ s.cancels ∧
      ∀ u, Machine.Reach (step 8) s u → 8 ∉ u.freed := by
  have hrun : Machine.holdsAfter (step 8) init
      ((List.range 8).flatMap (fun w => ([.submit w, .pop w, .get w, .check w] : List UvAction)) ++
        [.submit 8, .cancel 8])
      (fun s => (⟨8, 8⟩ : UvTask) ∈ s.submitted ∧ (8, true) ∈ s.cancels ∧ Orphan 8 s 8) = true := by
    decide +kernel
  obtain ⟨s, hs, hsub, hc, ho⟩ := Machine.exists_of_holdsAfter _ hrun
  exact ⟨s, hs, hsub, hc, fun u hu => (orphan_reach ho hu).2.1⟩

/-- Task `0` of `uvWork` `0` waits in the ready queue and `CancelUVWork(0)` answers `true`,
putting `0` in `cancelSet_`; libuv then submits `uvWork` `0` again, as task `1`.  Worker `0` pops
task `0` and worker `1` pops task `1`, and worker `1`'s `GetUVTask` runs first: it finds `0` in
`cancelSet_`, frees task `1` and takes `0` out of the set, so worker `0`'s `GetUVTask` hands over
task `0`, which runs. -/
theorem cancelled_runs :
    ∃ s, Machine.Reach (step 2) init s ∧ s.submitted = [⟨0, 0⟩, ⟨1, 0⟩] ∧
      s.cancels = [(0, true)] ∧ 0 ∈ s.executed ∧ 1 ∈ s.freed ∧ 1 ∉ s.executed :=
  Machine.exists_of_holdsAfter
    [.submit 0, .cancel 0, .submit 0, .pop 0, .pop 1, .get 1, .get 0, .check 0, .exec 0]
    (by decide +kernel)

end UvScheduler

end Ffrt.Sched
