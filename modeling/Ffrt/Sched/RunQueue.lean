import Ffrt.Support.Intrusive
import Ffrt.Support.Machine

/-!
# Sched — the ready queue

`FIFOQueue` (`include/sched/task_runqueue.h`), the ready queue of `STaskScheduler`
(`src/sched/stask_scheduler.h`): the `node` links of the tasks, threaded through `list`, the
queue's own head, and the counter `size`.  `PushTask` enqueues under the queue's mutex and
reports a rising edge when the size it reads back is `1`; `PopTask` dequeues under it.  Each
call is one step, as the mutex makes it.  A task is pushed while its `node` is linked to itself,
as the node's constructor and `Delete` leave it.

* `FIFOQueue.Holds Q l`: the queue holds the tasks `l`, in order, each once, and `size` counts
  them.
* `Holds.enQueue`, `Holds.deQueue_cons`, `Holds.deQueue_nil`: `EnQueue` appends and `DeQueue`
  takes the front; the branch of `DeQueue` that repairs a `size` not matching the list never
  runs.
* `readyQueue_of_reach`: on every run of `PushTask` and `PopTask` the queue is the FIFO queue
  of the tasks pushed and not popped (`fifo`); `PushTask` reports a rising edge exactly when
  that queue was empty, and `PopTask` returns the task pushed first.
-/

namespace Ffrt.Sched

open Intrusive Machine

/-- A `FIFOQueue`: the link fields of the tasks' nodes and of the head `list`, and `size`. -/
structure FIFOQueue (ν : Type) where
  links : Links ν
  list : ν
  size : Int

namespace FIFOQueue

variable {ν : Type} [DecidableEq ν]

/-- An empty queue with head `list`: every node linked to itself. -/
def init (list : ν) : FIFOQueue ν := ⟨Links.single, list, 0⟩

/-- `EnQueue(task)`: `list.PushBack(task->node)`, then `size` one up. -/
def enQueue (Q : FIFOQueue ν) (task : ν) : FIFOQueue ν :=
  { Q with links := Q.links.insertBefore Q.list task, size := Q.size + 1 }

/-- `DeQueue()`: on an empty list, `size` reset to `0` when it is not, and `nullptr`; else
`PopFront`, `nullptr` when it fails, and `size` one down. -/
def deQueue (Q : FIFOQueue ν) : Option ν × FIFOQueue ν :=
  if Q.links.next Q.list = Q.list then
    (none, if Q.size ≠ 0 then { Q with size := 0 } else Q)
  else
    match Q.links.removeNext Q.list with
    | none => (none, Q)
    | some (node, links) => (some node, { Q with links := links, size := Q.size - 1 })

/-- `STaskScheduler::PushTask(task)`: `EnQueue` and `Size()` under the lock; `true` when the
size read is `1`, the queue's rising edge. -/
def pushTask (Q : FIFOQueue ν) (task : ν) : Bool × FIFOQueue ν :=
  let Q' := Q.enQueue task
  (Q'.size == 1, Q')

/-- `STaskScheduler::PopTask()`: `DeQueue` under the lock. -/
def popTask (Q : FIFOQueue ν) : Option ν × FIFOQueue ν := Q.deQueue

/-- The queue holds the tasks `l`, in order, each once, and `size` counts them. -/
structure Holds (Q : FIFOQueue ν) (l : List ν) : Prop where
  rep : Links.Rep Q.links Q.list l
  size : Q.size = l.length

namespace Holds

variable {Q : FIFOQueue ν} {l : List ν}

omit [DecidableEq ν] in
theorem init (list : ν) : Holds (FIFOQueue.init list) [] :=
  ⟨⟨⟨rfl, rfl⟩, List.nodup_singleton _⟩, rfl⟩

/-- **`EnQueue` appends** a task whose node is linked to itself. -/
theorem enQueue (h : Holds Q l) {task : ν} (hne : task ≠ Q.list)
    (hself : Q.links.next task = task) : Holds (Q.enQueue task) (l ++ [task]) where
  rep := by
    refine h.rep.pushBack fun hm => ?_
    rcases List.mem_cons.mp hm with he | hm
    · exact hne he
    · exact h.rep.not_mem_of_next_self hne hself hm
  size := by simp [FIFOQueue.enQueue, h.size]

/-- **On an empty queue `DeQueue` returns `nullptr` and changes nothing**: `size` is `0`
already, so its repair never runs. -/
theorem deQueue_nil (h : Holds Q []) : Q.deQueue = (none, Q) := by
  have he : Q.links.next Q.list = Q.list := h.rep.empty_iff.mpr rfl
  simp [deQueue, he, h.size]

/-- **`DeQueue` takes the front task** and leaves its node linked to itself. -/
theorem deQueue_cons {x : ν} (h : Holds Q (x :: l)) :
    Q.deQueue.1 = some x ∧ Holds Q.deQueue.2 l ∧ Q.deQueue.2.links.next x = x := by
  obtain ⟨L', hrm, hrep, hnx, -⟩ := h.rep.popFront
  have hne : Q.links.next Q.list ≠ Q.list := fun he => List.cons_ne_nil x l (h.rep.empty_iff.mp he)
  have hsize : Q.size = l.length + 1 := by simp [h.size]
  simp only [deQueue, if_neg hne, hrm]
  exact ⟨by trivial, ⟨hrep, by simp only; omega⟩, hnx⟩

/-- `PushTask` reports a rising edge exactly when the queue was empty. -/
theorem pushTask_fst (h : Holds Q l) (task : ν) : (Q.pushTask task).1 = true ↔ l = [] := by
  simp [pushTask, FIFOQueue.enQueue, h.size]

/-- `PopTask` returns the task pushed first, `nullptr` on an empty queue. -/
theorem popTask_fst (h : Holds Q l) : Q.popTask.1 = l.head? := by
  cases l with
  | nil => rw [popTask, h.deQueue_nil]; rfl
  | cons x l => exact (h.deQueue_cons).1

end Holds

/-- A call under the queue's mutex. -/
inductive ReadyAction (ν : Type)
  | push (task : ν)
  | pop

/-- One call.  A task is pushed only while its node is linked to itself and is not the queue's
head, as a task is ready in one queue at a time. -/
def step (Q : FIFOQueue ν) : ReadyAction ν → Option (FIFOQueue ν)
  | .push task =>
      if task ≠ Q.list ∧ Q.links.next task = task then some (Q.pushTask task).2 else none
  | .pop => some Q.popTask.2

/-- The queue the ready queue stands for: tasks pushed at the back and popped at the front. -/
def fifo (l : List ν) : ReadyAction ν → List ν
  | .push task => l ++ [task]
  | .pop => l.tail

/-- **Every call keeps the queue at the FIFO queue it stands for.** -/
theorem holds_step {Q Q' : FIFOQueue ν} {l : List ν} {a : ReadyAction ν} (h : Holds Q l)
    (hs : Q.step a = some Q') : Holds Q' (fifo l a) := by
  cases a with
  | push task =>
      simp only [step] at hs
      split_ifs at hs with hg
      cases hs
      exact h.enQueue hg.1 hg.2
  | pop =>
      cases hs
      cases l with
      | nil =>
          rw [popTask, h.deQueue_nil]
          exact h
      | cons x l => exact (h.deQueue_cons).2.1

/-- **The ready queue is a FIFO queue.**  On every run of `PushTask` and `PopTask` from an
empty queue, the links and `size` hold the tasks pushed and not popped, in the order they were
pushed (`fifo`), so `DeQueue` never finds `size` out of step with the list; `PushTask` reports
a rising edge exactly when that queue was empty, and `PopTask` returns its first task. -/
theorem readyQueue_of_reach {list : ν} {Q : FIFOQueue ν} {l : List ν}
    (h : Reach (ghost step fun _ a l => fifo l a) (init list, []) (Q, l)) :
    Holds Q l ∧ (∀ task, (Q.pushTask task).1 = true ↔ l = []) ∧ Q.popTask.1 = l.head? := by
  have hinv : Invariant (ghost step fun _ a l => fifo l a)
      fun p : FIFOQueue ν × List ν => Holds p.1 p.2 := by
    intro p a q hp hq
    obtain ⟨hs, hg⟩ := ghost_eq_some.mp hq
    rw [hg]
    exact holds_step hp hs
  have hQ : Holds Q l := hinv.reach (Holds.init list) h
  exact ⟨hQ, hQ.pushTask_fst, hQ.popTask_fst⟩

/-- Two pushes and a pop: the queue holds the second task, and its size is `1`. -/
theorem readyQueue_of_reach_pushPop :
    ∃ Q l, Reach (ghost step fun _ a l => fifo l a) ((init 0 : FIFOQueue Nat), []) (Q, l) ∧
      l = [2] ∧ Q.size = 1 ∧
      (Holds Q l ∧ (∀ task, (Q.pushTask task).1 = true ↔ l = []) ∧ Q.popTask.1 = l.head?) := by
  have hrun : holdsAfter (ghost step fun _ a l => fifo l a) ((init 0 : FIFOQueue Nat), [])
      [.push 1, .push 2, .pop] (fun p => p.2 = [2] ∧ p.1.size = 1) = true := by
    decide +kernel
  obtain ⟨⟨Q, l⟩, hreach, hl, hsize⟩ := exists_of_holdsAfter _ hrun
  exact ⟨Q, l, hreach, hl, hsize, readyQueue_of_reach hreach⟩

end FIFOQueue

end Ffrt.Sched
