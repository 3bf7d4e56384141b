import Ffrt.Dependence.Ordering

/-!
# Dependence — Lifecycle

When a task is made Ready and when it is freed.  A task enters the ready queue from
`onSubmit`, from `decDepRef`, and, to end a wait, from `decChildRef` and `decWaitDataRef`; it
is freed when `decDeleteRef` takes `rc` from one to zero.

* `ReadyQueueSound`: every queued task is queued once and is not running.  `FreedSafely`:
  every task is freed once, after it returned, with no unfinished child, no unreleased handle
  and no unfinished holder of it as an input handle, and nothing refers to it afterwards.
* On the thread path `onWait` registers `CALL_DEPENDENCE` before it reads the counter, and
  when the counter is already zero it returns with the registration in place and the block
  type reset to the coroutine's; the next child to finish then makes the still running task
  Ready in `decChildRef`.
* `readyOnlySuspended_fails` and `freedOnce_fails`: on a build without coroutines (or a
  coroutine build in legacy mode) a task that waits with no child, then submits one, is made
  Ready while it runs; once it returns it is freed while it is still in the ready queue.
-/

namespace Ffrt

/-! ### Ready only when suspended -/

/-- The ready queue holds each task once, and none that is running or blocked on its thread. -/
def ReadyQueueSound (s : State) : Prop :=
  s.readyQueue.Nodup ∧
    ∀ t ∈ s.readyQueue, (s.tasks t).control = .pending ∨ (s.tasks t).control = .coWait

instance : DecidablePred ReadyQueueSound := fun s => by unfold ReadyQueueSound; infer_instance

/-- No task is made Ready while it runs or is already queued. -/
def ReadyOnlySuspended : Prop := ∀ b s, Reachable b s → ReadyQueueSound s

/-- `2` waits with no child (its thread path registers `CALL_DEPENDENCE`), then submits `3`;
`3` finishes while `2` runs. -/
def waitThenSubmit : List Action :=
  [.submit rootId [] [] false, .start 2, .wait 2, .submit 2 [] [] false, .start 3, .done 3]

theorem readyOnlySuspended_fails : ¬ ReadyOnlySuspended := fun h =>
  Machine.not_always_of_failsAfter waitThenSubmit (by decide +kernel) (h false)

/-! ### Freed once, and never used after -/

/-- No live version refers to the task `t`: as a consumer, as the next producer, as a waiter,
or as the producer of a version still `idle`. -/
def VersionsForget (s : State) (t : TaskId) : Prop :=
  ∀ v < s.nextVersion, v ∉ s.freedVersions →
    t ∉ (s.versions v).consumers ∧ (s.versions v).nextProducer ≠ some t ∧
    t ∉ (s.versions v).dataWaitTaskByThis ∧
    ((s.versions v).status = .idle → (s.versions v).myProducer ≠ some t)

instance (s : State) (t : TaskId) : Decidable (VersionsForget s t) := by
  unfold VersionsForget; infer_instance

/-- The task `t` may be freed: it has returned, has no unfinished child, no unreleased handle
and no unfinished holder of it as an input handle, and no ready queue or live version refers
to it. -/
def Releasable (s : State) (t : TaskId) : Prop :=
  Finished (s.tasks t) ∧ (s.tasks t).childRefCnt = 0 ∧ t ∉ s.handles ∧ t ∉ s.readyQueue ∧
    (∀ d < s.nextTask, t ∈ (s.tasks d).inHandles → Finished (s.tasks d)) ∧
    (∀ c < s.nextTask, (s.tasks c).parent = some t → Finished (s.tasks c)) ∧
    VersionsForget s t

instance (s : State) (t : TaskId) : Decidable (Releasable s t) := by
  unfold Releasable; infer_instance

/-- Each task is freed once, and stays releasable after. -/
def FreedSafely (s : State) : Prop := s.freedTasks.Nodup ∧ ∀ t ∈ s.freedTasks, Releasable s t

instance : DecidablePred FreedSafely := fun s => by unfold FreedSafely; infer_instance

def FreedOnce : Prop := ∀ b s, Reachable b s → FreedSafely s

/-- The run of `readyOnlySuspended_fails`, and `2` returns: it is freed while queued. -/
def freedWhileQueued : List Action := waitThenSubmit ++ [.done 2]

theorem freedOnce_fails : ¬ FreedOnce := fun h =>
  Machine.not_always_of_failsAfter freedWhileQueued (by decide +kernel) (h false)

end Ffrt
