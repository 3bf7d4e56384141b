import Ffrt.Queue.SerialProtocol
import Ffrt.Queue.Adapter
import Ffrt.Queue.Concurrent

/-!
# Queue — Cancel

`QueueHandler::Cancel(task)` (`src/queue/queue_handler.cpp`) returns what the queue's
`Remove(task)` returns, and cancels the task and counts it done only when that is `SUCC`.
`BaseQueue::Remove(task, whenMap)` looks for the task among the entries of its uptime
(`equal_range(task->GetUptime())`), while `Push` files a task inserted at the head under another
key: `SerialQueue::Push` under `min(headKey - 1, uptime)`, `EventHandlerAdapterQueue::Push`
under `0`.  `EventHandlerAdapterQueue::Remove(task)` adds up the answers of its five maps, where
`SUCC` is `0` and `FAILED` is `1`.

* `PushResult.code`: the values of `QueueAction`.
* `removeTaskResult`: what `BaseQueue::Remove(task, whenMap)` answers; `SerialQueue.removeResult`,
  `ConcurrentQueue.removeResult` and `AdapterQueue.removeCount`: what each queue's
  `Remove(task)` answers.
* `cancelExact_fails`: on a serial queue, a task inserted at the head while a task is queued
  stays queued, and `Cancel` answers `FAILED`.
* `serial_cancel_exact`: on a serial queue, for a task not inserted at the head, `Cancel`
  answers `SUCC` exactly when the queue is not exiting and the task is queued.
* `removeCount_ge_four_of_reach`: on an adapter queue, `Cancel(task)` answers at least `4` in
  every reachable state, whatever the task.
-/

namespace Ffrt.Queue

/-- The values of `QueueAction`: `INACTIVE = -1`, `SUCC`, `FAILED`, `CONCURRENT`. -/
def PushResult.code : PushResult → Int
  | .inactive => -1
  | .succ => 0
  | .failed => 1
  | .concurrent => 2

/-- What `BaseQueue::Remove(task, whenMap)` answers: `FAILED` on an exiting queue; `SUCC` when
an entry of the task's uptime holds the task, which `removeTask` erases; else `FAILED`. -/
def removeTaskResult (isExit : Bool) (m : WhenMap) (t : QueueTask) : PushResult :=
  if isExit then .failed else if (removeTask m t).isSome then .succ else .failed

theorem removeTaskResult_eq_succ_iff {x : Bool} {m : WhenMap} {t : QueueTask} :
    removeTaskResult x m t = .succ ↔ x = false ∧ (t.uptime, t) ∈ m := by
  unfold removeTaskResult removeTask
  cases x <;> by_cases h : (t.uptime, t) ∈ m <;> simp [h]

/-- `Remove(task, whenMap)` answers `SUCC` or `FAILED`: `0`, or `1`. -/
theorem removeTaskResult_code (x : Bool) (m : WhenMap) (t : QueueTask) :
    (removeTaskResult x m t).code = if removeTaskResult x m t = .succ then 0 else 1 := by
  unfold removeTaskResult
  split_ifs <;> simp_all [PushResult.code]

theorem removeTaskResult_code_nonneg (x : Bool) (m : WhenMap) (t : QueueTask) :
    0 ≤ (removeTaskResult x m t).code := by
  rw [removeTaskResult_code]
  split <;> decide

/-- `SerialQueue::Remove(task)`, which is `BaseQueue::Remove(task)`: its answer. -/
def SerialQueue.removeResult (q : SerialQueue) (t : QueueTask) : PushResult :=
  removeTaskResult q.isExit q.whenMap t

/-- `ConcurrentQueue::Remove(task)`: `SUCC` from the first map that holds the task, else what
`waitingMap_` answers. -/
def ConcurrentQueue.removeResult (q : ConcurrentQueue) (t : QueueTask) : PushResult :=
  if (List.finRange 4).any (fun p => removeTaskResult q.isExit (q.whenMapVec p) t = .succ) then
    .succ
  else removeTaskResult q.isExit q.waitingMap t

/-- `EventHandlerAdapterQueue::Remove(task)`: the answers of `BaseQueue::Remove(task, map)` over
the five maps, added up. -/
def AdapterQueue.removeCount (q : AdapterQueue) (t : QueueTask) : Int :=
  ∑ p : Fin 5, (removeTaskResult q.isExit (q.whenMapVec p) t).code

/-! ### Serial queues -/

namespace Serial

/-- `Cancel(task)` answers `SUCC` for exactly the submitted tasks that are in the map. -/
def CancelExact (s : Serial) : Prop :=
  ∀ p ∈ s.submitted, (s.queue.removeResult p.2 = .succ ↔ p.2 ∈ s.queue.whenMap.map Prod.snd)

instance : DecidablePred CancelExact := fun s =>
  inferInstanceAs (Decidable (∀ p ∈ s.submitted, _ ↔ _))

/-- Two tasks, the first handed to the chain and the second filed under key `0`; one tick later
a third is inserted at the head.  `Push` files it under `min (0 - 1) 1 = 0`, and `Remove` looks
among the entries of its uptime, `1`. -/
theorem cancelExact_fails : ¬ ∀ s, Machine.Reach step (init "s" 2) s → CancelExact s :=
  Machine.not_always_of_failsAfter
    [.submit 0 plainAttr, .submit 1 plainAttr, .tick, .submit 2 { plainAttr with insertHead := true }]
    (by decide +kernel)

/-- **`Cancel` finds a task not inserted at the head.**  It answers `SUCC` exactly when the
queue is not exiting and the task is in the map. -/
theorem serial_cancel_exact {name : String} {qos : Int} {s : Serial}
    (h : Machine.Reach step (init name qos) s) {t : QueueTask} (ht : t.insertHead = false) :
    s.queue.removeResult t = .succ ↔ s.queue.isExit = false ∧ t ∈ s.queue.whenMap.map Prod.snd := by
  obtain ⟨-, hM, -⟩ := serialInv_of_reach h
  rw [SerialQueue.removeResult, removeTaskResult_eq_succ_iff]
  refine and_congr_right fun _ => ⟨fun hm => List.mem_map.mpr ⟨_, hm, rfl⟩, fun hm => ?_⟩
  -- the entry holding the task is under its uptime, by `MapInv.key`
  obtain ⟨e, he, rfl⟩ := List.mem_map.mp hm
  have hk : e.1 = e.2.uptime := hM.key e he ht
  rw [← hk]
  exact he

/-- The first of two tasks goes to the chain and the second is filed in the map: `Cancel`
finds the second and answers `SUCC`. -/
theorem serial_cancel_exact_queued :
    ∃ s t, Machine.Reach step (init "s" 2) s ∧ t.insertHead = false ∧
      t ∈ s.queue.whenMap.map Prod.snd ∧ s.queue.removeResult t = .succ ∧
      (s.queue.removeResult t = .succ ↔
        s.queue.isExit = false ∧ t ∈ s.queue.whenMap.map Prod.snd) := by
  have hrun : Machine.holdsAfter step (init "s" 2)
      [.submit 0 plainAttr, .submit 1 plainAttr, .tick]
      (fun s => ∃ p ∈ s.submitted, p.2.insertHead = false ∧
        p.2 ∈ s.queue.whenMap.map Prod.snd ∧ s.queue.removeResult p.2 = .succ) = true := by
    decide +kernel
  obtain ⟨s, hreach, p, -, hhead, hmem, hsucc⟩ := Machine.exists_of_holdsAfter _ hrun
  exact ⟨s, p.2, hreach, hhead, hmem, hsucc, serial_cancel_exact hreach hhead⟩

end Serial

/-! ### Adapter queues -/

namespace AdapterQueue

/-- Every entry is in the map of its task's priority, where `Push` filed it. -/
def Filed (v : Fin 5 → WhenMap) : Prop := ∀ p, ∀ e ∈ v p, slot e.2 = p

theorem filed_empty : Filed fun _ => [] := fun _ _ he => absurd he List.not_mem_nil

theorem Filed.sublist {v v' : Fin 5 → WhenMap} (h : Filed v)
    (hs : ∀ p, List.Sublist (v' p) (v p)) : Filed v' :=
  fun p e he => h p e ((hs p).subset he)

theorem Filed.fileTask {v : Fin 5 → WhenMap} (h : Filed v) (t : QueueTask) :
    Filed (fileTask v t) := by
  intro p e he
  unfold AdapterQueue.fileTask at he
  by_cases hp : p = slot t
  · subst hp
    rw [Function.update_self] at he
    -- the new entry holds `t`, under key `0` or under its uptime
    have hnew : e = (0, t) ∨ e = (t.uptime, t) ∨ e ∈ v (slot t) := by
      split at he
      · exact (List.mem_cons.mp he).imp_right .inr
      · exact .inr (Multimap.mem_insert.mp he)
    rcases hnew with rfl | rfl | he
    · rfl
    · rfl
    · exact h _ e he
  · rw [Function.update_of_ne hp] at he
    exact h p e he

/-- Taking the head of a map. -/
theorem Filed.update_tail {v : Fin 5 → WhenMap} (h : Filed v) {p : Fin 5}
    {e : Nat × QueueTask} {rest : WhenMap} (hp : v p = e :: rest) :
    Filed (Function.update v p rest) := by
  refine h.sublist fun j => ?_
  by_cases hj : j = p
  · subst hj
    rw [Function.update_self, hp]
    exact List.sublist_cons_self e rest
  · rw [Function.update_of_ne hj]

theorem Filed.push {q : AdapterQueue} (h : Filed q.whenMapVec) (t : QueueTask) :
    Filed (q.push t).1.whenMapVec := by
  rcases push_cases q t with ⟨-, hp⟩ | ⟨-, -, hp⟩ | ⟨-, -, hp⟩ <;> rw [hp]
  · exact h
  · exact h
  · exact h.fileTask t

theorem Filed.pull {q q' : AdapterQueue} {now : Nat} {r : Option QueueTask}
    (h : Filed q.whenMapVec) (hp : q.pull now = some (q', r)) : Filed q'.whenMapVec := by
  rcases pull_cases q hp with ⟨-, rfl, -⟩ | ⟨-, rfl, -⟩ | ⟨-, p, e, rest, cnt, hm, -, rfl⟩
  · exact h
  · exact h
  · exact h.update_tail hm

/-- **The adapter's `Remove(task)` never answers `SUCC`.**  A task is in one map at most, the
map of its priority; the four others answer `FAILED` each. -/
theorem removeCount_ge_four {q : AdapterQueue} (hF : Filed q.whenMapVec) (t : QueueTask) :
    4 ≤ q.removeCount t := by
  let f := fun p : Fin 5 => (removeTaskResult q.isExit (q.whenMapVec p) t).code
  have hfail : ∀ p ∈ Finset.univ.erase (slot t), f p = 1 := by
    intro p hp
    have hne : p ≠ slot t := Finset.ne_of_mem_erase hp
    have hres : removeTaskResult q.isExit (q.whenMapVec p) t ≠ .succ := by
      rw [Ne, removeTaskResult_eq_succ_iff]
      rintro ⟨-, hm⟩
      exact hne (hF p _ hm).symm
    simp only [f, removeTaskResult_code, hres, if_false]
  calc (4 : Int) = ∑ p ∈ Finset.univ.erase (slot t), (1 : Int) := by
        rw [Finset.sum_const, Finset.card_erase_of_mem (Finset.mem_univ _)]
        rfl
    _ = ∑ p ∈ Finset.univ.erase (slot t), f p := Finset.sum_congr rfl fun p hp => (hfail p hp).symm
    _ ≤ f (slot t) + ∑ p ∈ Finset.univ.erase (slot t), f p :=
        le_add_of_nonneg_left (removeTaskResult_code_nonneg _ _ _)
    _ = q.removeCount t := Finset.add_sum_erase _ f (Finset.mem_univ _)

end AdapterQueue

namespace Adapter

theorem filed_step {s s' : Adapter} {a : AdapterAction} (hF : AdapterQueue.Filed s.queue.whenMapVec)
    (h : s.step a = some s') : AdapterQueue.Filed s'.queue.whenMapVec := by
  rcases step_cases h with ⟨th, attr, -, -, rfl⟩ | ⟨i, c, c', -, -, -, rfl⟩ |
      ⟨i, th, t, -, rfl⟩ | ⟨i, t, -, rfl⟩ | ⟨i, q, -, hp, rfl⟩ | ⟨i, q, t, -, hp, rfl⟩ |
      ⟨q, hq, rfl⟩ | rfl
  · -- a submit files its task as `Push` does
    rcases submit_cases s th attr with ⟨-, he⟩ | ⟨-, -, he⟩ | ⟨-, -, he⟩ <;> rw [he]
    · exact hF
    · exact hF
    · exact hF.fileTask _
  · exact hF
  · exact hF.push t
  · exact hF
  · exact hF.pull hp
  · exact hF.pull hp
  · exact hF.sublist hq.maps
  · exact hF

theorem filed_of_reach {name : String} {qos : Int} {s : Adapter}
    (h : Machine.Reach step (init name qos) s) : AdapterQueue.Filed s.queue.whenMapVec :=
  Machine.Invariant.reach (P := fun s => AdapterQueue.Filed s.queue.whenMapVec)
    (fun _ _ _ hF hs => filed_step hF hs) AdapterQueue.filed_empty h

/-- **`Cancel(task)` on an adapter queue never answers `SUCC`**, in any reachable state and for
any task, queued or not: the caller is told the task may have run, the task is not cancelled
and its traffic is not counted done. -/
theorem removeCount_ge_four_of_reach {name : String} {qos : Int} {s : Adapter}
    (h : Machine.Reach step (init name qos) s) (t : QueueTask) : 4 ≤ s.queue.removeCount t :=
  AdapterQueue.removeCount_ge_four (filed_of_reach h) t

/-- The second of two submits is queued in the map of its priority, and `Cancel` of it still
answers at least `4`. -/
theorem removeCount_ge_four_of_reach_queued :
    ∃ s, Machine.Reach step (init "h" 2) s ∧ ∃ p ∈ s.submitted,
      (p.2.uptime, p.2) ∈ s.queue.whenMapVec (slot p.2) ∧ 4 ≤ s.queue.removeCount p.2 := by
  have hrun : Machine.holdsAfter step (init "h" 2) [.submit 0 plainAttr, .submit 1 plainAttr]
      (fun s => ∃ p ∈ s.submitted, (p.2.uptime, p.2) ∈ s.queue.whenMapVec (slot p.2)) =
        true := by
    decide +kernel
  obtain ⟨s, hs, p, hp, hq⟩ := Machine.exists_of_holdsAfter _ hrun
  exact ⟨s, hs, p, hp, hq, removeCount_ge_four_of_reach hs p.2⟩

end Adapter

end Ffrt.Queue
