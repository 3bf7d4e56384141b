import Ffrt.Support.Multimap

/-!
# Queue — Base

What the queues of `src/queue/` share: the `QueueTask` fields they read
(`src/tm/queue_task.{h,cpp}`), the task map `whenMap_` as a `Multimap` from uptime to task, and
the map-level helpers of `src/queue/base_queue.cpp` and `src/queue/queue_strategy.h`.

* `QueueTask`: a task's `gid`, `uptime_` (creation time plus `delay_`), `insertHead_`, QoS,
  priority and label.  `newTask` builds one as the constructor and `QueueHandler::Submit` do.
* `removeName`, `removeTask`: `BaseQueue::Remove(name, whenMap)` and
  `BaseQueue::Remove(task, whenMap)`, without their `isExit_` guard, which the queue adds.
* `dequeBatch`: `QueueStrategy::DequeBatch`; `dequeBatch_prefix` says it takes a prefix of
  the map and returns its tasks.
* `getWhenMapVecStats`: `BaseQueue::GetWhenMapVecStats`, the earliest head over the maps
  `0` to `ffrt_queue_priority_idle` of a vector of maps, whatever the vector's length.
-/

namespace Ffrt.Queue

/-- The fields of a `QueueTask` the queues read. -/
structure QueueTask where
  gid : Nat
  uptime : Nat
  delay : Nat
  insertHead : Bool
  qos : Int
  prio : Nat
  label : String
  deriving DecidableEq, Repr

/-- `ffrt_queue_attr`-like task attributes: what `ffrt_task_attr_t` gives a queue task. -/
structure TaskAttr where
  name : String
  delay : Nat
  insertHead : Bool
  qos : Int
  prio : Nat
  deriving DecidableEq, Repr

/-- What `Push` answers: `SUCC`, `FAILED`, `INACTIVE` (a serial queue to activate) or
`CONCURRENT` (a concurrent queue with room for one more chain). -/
inductive PushResult
  | succ
  | failed
  | inactive
  | concurrent
  deriving DecidableEq, Repr

/-- `ffrt_queue_priority_low`. -/
def queuePriorityLow : Nat := 2

/-- `ffrt_queue_priority_idle`, the last priority of `ffrt_queue_priority_t`. -/
def queuePriorityIdle : Nat := 3

/-- `ffrt_qos_inherit`. -/
def qosInherit : Int := -1

/-- `ffrt_qos_default`. -/
def qosDefault : Int := 2

/-- The attributes `ffrt_task_attr_init` leaves (`task_attr_private`'s defaults). -/
def plainAttr : TaskAttr where
  name := ""
  delay := 0
  insertHead := false
  qos := qosDefault
  prio := queuePriorityLow

/-- The `QueueTask` constructor at time `now`, with `QueueHandler::Submit`'s QoS rule: a task
whose QoS is inherited or default takes the queue's. -/
def newTask (handlerName : String) (queueQos : Int) (gid now : Nat) (attr : TaskAttr) :
    QueueTask where
  gid := gid
  uptime := now + attr.delay
  delay := attr.delay
  insertHead := attr.insertHead
  qos := if attr.qos = qosInherit ∨ attr.qos = qosDefault then queueQos else attr.qos
  prio := attr.prio
  label := handlerName ++ "_" ++ attr.name ++ "_" ++ toString gid

/-- A task map: uptime to task, in `(key, insertion)` order. -/
abbrev WhenMap := List (Nat × QueueTask)

/-- `QueueTask::IsMatch`: the label matches `.*_name_.*`. -/
def isMatch (t : QueueTask) (name : String) : Bool :=
  decide (List.IsInfix ("_" ++ name ++ "_").toList t.label.toList)

/-- `BaseQueue::Remove(name, whenMap)`: every matching task goes; the count is returned. -/
def removeName (m : WhenMap) (name : String) : WhenMap × Nat :=
  (m.filter (fun e => !isMatch e.2 name), (m.filter (fun e => isMatch e.2 name)).length)

/-- `BaseQueue::Remove(task, whenMap)`: the task is looked for among the entries of its
uptime, so a task inserted at the head under a smaller key is not found. -/
def removeTask (m : WhenMap) (t : QueueTask) : Option WhenMap :=
  if (t.uptime, t) ∈ m then some (m.erase (t.uptime, t)) else none

/-- The loop condition of `DequeBatch`: due before `now`, with the head's QoS. -/
def batchable (now : Nat) (qos : Int) (e : Nat × QueueTask) : Bool :=
  decide (e.1 < now) && decide (e.2.qos = qos)

/-- `QueueStrategy::DequeBatch`: the head, then the following tasks while they are due and
have the head's QoS, linked through `nextTask_` (here, the list). -/
def dequeBatch (now : Nat) : WhenMap → List QueueTask × WhenMap
  | [] => ([], [])
  | (_, head) :: rest =>
      (head :: (rest.takeWhile (batchable now head.qos)).map Prod.snd,
        rest.dropWhile (batchable now head.qos))

/-- **`DequeBatch` takes a prefix.**  The map is the taken entries followed by what is left,
and the batch is their tasks in order. -/
theorem dequeBatch_prefix (now : Nat) (m : WhenMap) :
    ∃ pre, m = pre ++ (dequeBatch now m).2 ∧ (dequeBatch now m).1 = pre.map Prod.snd := by
  cases m with
  | nil => exact ⟨[], rfl, rfl⟩
  | cons e rest =>
      obtain ⟨k, head⟩ := e
      refine ⟨(k, head) :: rest.takeWhile (batchable now head.qos), ?_, by simp [dequeBatch]⟩
      simp [dequeBatch, List.takeWhile_append_dropWhile]

/-- `BaseQueue::GetWhenMapVecStats`: the least head key over the maps `0` to
`ffrt_queue_priority_idle`, which is `minTime_`; `none` is `isEmpty_`. -/
def getWhenMapVecStats {n : Nat} (v : Fin n → WhenMap) : Option Nat :=
  ((List.finRange n).filterMap fun p =>
    if p.val ≤ queuePriorityIdle then (v p).head?.map Prod.fst else none).min?

/-- `isEmpty_` holds when the maps the loop visits are empty. -/
theorem getWhenMapVecStats_eq_none_iff {n : Nat} {v : Fin n → WhenMap} :
    getWhenMapVecStats v = none ↔ ∀ p : Fin n, p.val ≤ queuePriorityIdle → v p = [] := by
  simp only [getWhenMapVecStats, List.min?_eq_none_iff, List.filterMap_eq_nil_iff,
    List.mem_finRange, true_implies]
  refine forall_congr' fun p => ?_
  by_cases hp : p.val ≤ queuePriorityIdle
  · cases v p <;> simp [hp]
  · simp [hp]

theorem removeName_sublist (m : WhenMap) (name : String) : List.Sublist (removeName m name).1 m :=
  List.filter_sublist

theorem removeTask_sublist {m m' : WhenMap} {t : QueueTask} (h : removeTask m t = some m') :
    List.Sublist m' m := by
  unfold removeTask at h
  split at h
  · cases h
    exact List.erase_sublist
  · cases h

end Ffrt.Queue
