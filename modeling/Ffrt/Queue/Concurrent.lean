import Ffrt.Queue.Base
import Ffrt.Support.Machine

/-!
# Queue — Concurrent

A `ConcurrentQueue` (`src/queue/concurrent_queue.cpp`) that is not bound to a loop, with the
`QueueHandler` that dispatches it, as a machine whose actions are the critical sections of the
submitting threads, of the dispatch chains, of the threads in `WaitAll` and of the cancelling
calls.

Up to `maxConcurrency_` chains run at once.  While `concurrency_` is below the limit, `Push`
answers `CONCURRENT` and a new chain starts: a task with no delay goes straight to it, a delayed
one is filed and the chain starts with the init task.  At the limit the task is filed.  A chain
runs one task at a time (`DequeSingleByPriority`) and ends when `Pull` finds every map empty,
taking one from `concurrency_`.  `WaitAll` diverts new tasks into `waitingMap_` until the count
is zero, then pushes them again.

* `ConcurrentQueue`: the four priority maps `whenMapVec_`, `waitingMap_`, `waitingAll_`,
  `isExit_`, `concurrency_` and `maxConcurrency_`, with `Push`, `Pull`, the `Remove` family and
  `Stop`.
* `Concurrent`: the queue, its chains, the threads in `WaitAll` and the clock, with ghost
  records of every task `Push` took, every task run, every task cancelled, and each answer of
  `WaitAll` with the count it saw.
* `step_cases`: everything one step can do; `pull_cases`, `pushAndCalConcurrency_cases` and the
  `Shrinks` lemmas for the queue's calls.
-/

namespace Ffrt.Queue

/-- `Push`'s clamp: a priority above `ffrt_queue_priority_idle` becomes
`ffrt_queue_priority_low`. -/
def clampPrio (t : QueueTask) : QueueTask :=
  if t.prio > queuePriorityIdle then { t with prio := queuePriorityLow } else t

@[simp] theorem clampPrio_delay (t : QueueTask) : (clampPrio t).delay = t.delay := by
  unfold clampPrio
  split <;> rfl

/-- The map of a task's priority; a clamped priority is at most idle. -/
def prioIndex (t : QueueTask) : Fin 4 :=
  if h : t.prio ≤ queuePriorityIdle then ⟨t.prio, by unfold queuePriorityIdle at h; omega⟩
  else ⟨queuePriorityLow, by decide⟩

/-- The fields of a `ConcurrentQueue` that its calls read and write. -/
structure ConcurrentQueue where
  whenMapVec : Fin 4 → WhenMap
  waitingMap : WhenMap
  waitingAll : Bool
  isExit : Bool
  concurrency : Int
  maxConcurrency : Int

namespace ConcurrentQueue

/-- `CreateConcurrentQueue`: a limit that is not positive allows one chain. -/
def create (maxConcurrency : Int) : ConcurrentQueue where
  whenMapVec := fun _ => []
  waitingMap := []
  waitingAll := false
  isExit := false
  concurrency := 0
  maxConcurrency := if maxConcurrency ≤ 0 then 1 else maxConcurrency

/-- The tasks the queue holds: in its maps and in `waitingMap_`. -/
def tasks (q : ConcurrentQueue) : Multiset QueueTask :=
  Multimap.values q.whenMapVec + ↑(q.waitingMap.map Prod.snd)

/-- The maps with `t` filed in the map of its priority under its uptime. -/
def fileTask (q : ConcurrentQueue) (t : QueueTask) : Fin 4 → WhenMap :=
  Function.update q.whenMapVec (prioIndex t)
    (Multimap.insert t.uptime t (q.whenMapVec (prioIndex t)))

/-- `ConcurrentQueue::PushAndCalConcurrency`: below the limit, one more chain, for which a
delayed task is filed; at the limit, the task is filed. -/
def pushAndCalConcurrency (q : ConcurrentQueue) (t : QueueTask) : ConcurrentQueue × PushResult :=
  if q.concurrency < q.maxConcurrency then
    ({ q with
        concurrency := q.concurrency + 1
        whenMapVec := if t.delay > 0 then q.fileTask t else q.whenMapVec }, .concurrent)
  else ({ q with whenMapVec := q.fileTask t }, .succ)

/-- `ConcurrentQueue::Push`: refused on exit; diverted into `waitingMap_` while `WaitAll`
waits. -/
def push (q : ConcurrentQueue) (t : QueueTask) : ConcurrentQueue × PushResult :=
  if q.isExit then (q, .failed)
  else if q.waitingAll then
    ({ q with waitingMap := Multimap.insert (clampPrio t).uptime (clampPrio t) q.waitingMap }, .succ)
  else q.pushAndCalConcurrency (clampPrio t)

/-- `QueueStrategy::DequeSingleByPriority`: the head of the first map, by priority, that is
due, or, when none is, the head of the idle map. -/
def dequeSingleByPriority (now : Nat) (v : Fin 4 → WhenMap) :
    Option (QueueTask × (Fin 4 → WhenMap)) :=
  let due : Fin 4 → Bool := fun p =>
    match (v p).head? with
    | some e => decide (e.1 ≤ now)
    | none => false
  let p := ((List.finRange 4).find? due).getD ⟨queuePriorityIdle, by decide⟩
  match v p with
  | e :: rest => some (e.2, Function.update v p rest)
  | [] => none

/-- `ConcurrentQueue::Pull` at time `now`: `none` while it waits for the earliest head; with
every map empty the chain ends and the count goes down; on exit it ends as it is. -/
def pull (q : ConcurrentQueue) (now : Nat) : Option (ConcurrentQueue × Option QueueTask) :=
  match getWhenMapVecStats q.whenMapVec with
  | none => some ({ q with concurrency := q.concurrency - 1 }, none)
  | some minTime =>
      if now < minTime ∧ q.isExit = false then none
      else if q.isExit then some (q, none)
      else (dequeSingleByPriority now q.whenMapVec).map fun (t, v) =>
        ({ q with whenMapVec := v }, some t)

/-- `ConcurrentQueue::Remove()`: every map and `waitingMap_`, behind the `isExit_` guard. -/
def remove (q : ConcurrentQueue) : ConcurrentQueue :=
  if q.isExit then q else { q with whenMapVec := fun _ => [], waitingMap := [] }

/-- `ConcurrentQueue::Remove(name)`. -/
def removeName (q : ConcurrentQueue) (name : String) : ConcurrentQueue :=
  if q.isExit then q
  else { q with
    whenMapVec := fun p => (Queue.removeName (q.whenMapVec p) name).1
    waitingMap := (Queue.removeName q.waitingMap name).1 }

/-- `ConcurrentQueue::Remove(task)`: the first map that holds it, else `waitingMap_`. -/
def removeTask (q : ConcurrentQueue) (t : QueueTask) : ConcurrentQueue :=
  if q.isExit then q
  else
    match (List.finRange 4).findSome? (fun p => (Queue.removeTask (q.whenMapVec p) t).map (p, ·)) with
    | some (p, m) => { q with whenMapVec := Function.update q.whenMapVec p m }
    | none =>
        match Queue.removeTask q.waitingMap t with
        | some m => { q with waitingMap := m }
        | none => q

/-- `ConcurrentQueue::Stop`. -/
def stop (q : ConcurrentQueue) : ConcurrentQueue :=
  { q with isExit := true, whenMapVec := fun _ => [], waitingMap := [] }

end ConcurrentQueue

/-- Where a dispatch chain of the handler is. -/
inductive CChain
  /-- `Submit` of a task with no delay got `CONCURRENT`; its thread calls `TransferTask`. -/
  | transfer (th : Nat) (t : QueueTask)
  /-- `Submit` of a delayed task got `CONCURRENT`; its thread calls `TransferInitTask`. -/
  | transferInit (th : Nat)
  /-- The init task is Ready; its `Dispatch` runs nothing and calls `Deliver`. -/
  | initTask
  /-- The task is Ready; `Dispatch` runs it. -/
  | ready (t : QueueTask)
  /-- `Dispatch` ran its task; `Deliver` calls `Pull`. -/
  | deliver
  deriving DecidableEq, Repr

/-- The submitting thread a chain is still in, if any. -/
def CChain.thread : CChain → Option Nat
  | .transfer th _ => some th
  | .transferInit th => some th
  | _ => none

/-- The task a chain holds. -/
def CChain.tasks : CChain → List QueueTask
  | .transfer _ t => [t]
  | .ready t => [t]
  | _ => []

/-- A concurrent queue and its handler. -/
structure Concurrent where
  queue : ConcurrentQueue
  chains : List CChain
  /-- The threads blocked in `WaitAll`. -/
  waiters : List Nat
  now : Nat
  /-- The handler's name and QoS, which `Submit` gives its tasks. -/
  name : String
  qos : Int
  nextGid : Nat
  accepted : List QueueTask
  executed : List QueueTask
  cancelled : Multiset QueueTask
  /-- What each `WaitAll` returned, with the count it saw when it stopped waiting. -/
  waitResults : List (Int × Int)

/-- The start: an empty queue of the given limit, no chain. -/
def Concurrent.init (name : String) (qos : Int) (maxConcurrency : Int) : Concurrent where
  queue := ConcurrentQueue.create maxConcurrency
  chains := []
  waiters := []
  now := 0
  name := name
  qos := qos
  nextGid := 1
  accepted := []
  executed := []
  cancelled := 0
  waitResults := []

inductive ConcurrentAction
  /-- `QueueHandler::Submit` by the thread `th`. -/
  | submit (th : Nat) (attr : TaskAttr)
  /-- The chain steps, on the chain at an index. -/
  | transfer (i : Nat)
  | transferInit (i : Nat)
  | dispatchInit (i : Nat)
  | exec (i : Nat)
  | pull (i : Nat)
  /-- `WaitAll` called by the thread `th`, and its wake-up once the count is zero. -/
  | waitAll (th : Nat)
  | waitAllWake (th : Nat)
  /-- `QueueHandler::Cancel(task)`, `Cancel(name)`, `Cancel()`. -/
  | cancelTask (gid : Nat)
  | cancelName (name : String)
  | cancelAll
  | tick
  /-- `Stop`, as `CancelAndWait` calls it. -/
  | stop

namespace Concurrent

/-- A thread is busy while it hands a chain its task or waits in `WaitAll`. -/
def busy (s : Concurrent) (th : Nat) : Bool :=
  s.waiters.contains th || s.chains.any (fun c => c.thread = some th)

/-- `QueueHandler::Submit` of a new task by the thread `th`. -/
def submit (s : Concurrent) (th : Nat) (attr : TaskAttr) : Concurrent :=
  let t := newTask s.name s.qos s.nextGid s.now attr
  let (q, r) := s.queue.push t
  let s := { s with queue := q, nextGid := s.nextGid + 1 }
  match r with
  | .failed => s
  | .concurrent =>
      { s with
        accepted := s.accepted ++ [clampPrio t]
        chains := s.chains ++ [if t.delay = 0 then .transfer th (clampPrio t) else .transferInit th] }
  | _ => { s with accepted := s.accepted ++ [clampPrio t] }

/-- `WaitAll` called by `th`: `-1` on an exiting queue, `1` while another call waits; else it
sets `waitingAll_` and waits. -/
def waitAll (s : Concurrent) (th : Nat) : Concurrent :=
  if s.queue.isExit then { s with waitResults := s.waitResults ++ [(-1, s.queue.concurrency)] }
  else if s.queue.waitingAll then
    { s with waitResults := s.waitResults ++ [(1, s.queue.concurrency)] }
  else { s with queue := { s.queue with waitingAll := true }, waiters := s.waiters ++ [th] }

/-- One task of `waitingMap_` pushed again by `WaitAll`; on `CONCURRENT` it is handed to a new
chain (`TransferTask`, or `TransferInitTask` for a delayed one). -/
def repushOne (qc : ConcurrentQueue × List CChain) (t : QueueTask) :
    ConcurrentQueue × List CChain :=
  match qc.1.pushAndCalConcurrency t with
  | (q, .concurrent) => (q, qc.2 ++ [if t.delay = 0 then .ready t else .initTask])
  | (q, _) => (q, qc.2)

/-- `WaitAll` wakes with the count at zero: it pushes the waiting tasks again, in the order of
`waitingMap_`, clears it and returns `0`. -/
def wake (s : Concurrent) (th : Nat) : Concurrent :=
  let qc := (s.queue.waitingMap.map Prod.snd).foldl repushOne (s.queue, s.chains)
  { s with
    queue := { qc.1 with waitingAll := false, waitingMap := [] }
    chains := qc.2
    waiters := s.waiters.erase th
    waitResults := s.waitResults ++ [(0, s.queue.concurrency)] }

/-- A call that takes tasks out of the queue; what it took is recorded as cancelled. -/
def cancelWith (s : Concurrent) (q : ConcurrentQueue) : Concurrent :=
  { s with queue := q, cancelled := s.cancelled + (s.queue.tasks - q.tasks) }

/-- A chain step that needs only the chain. -/
def advance (s : Concurrent) (i : Nat) (f : CChain → Option CChain) : Option Concurrent :=
  match s.chains[i]? with
  | some c => (f c).map (fun c' => { s with chains := s.chains.set i c' })
  | none => none

def step (s : Concurrent) : ConcurrentAction → Option Concurrent
  | .submit th attr => if s.busy th then none else some (s.submit th attr)
  | .transfer i => s.advance i fun
      | .transfer _ t => some (.ready t)
      | _ => none
  | .transferInit i => s.advance i fun
      | .transferInit _ => some .initTask
      | _ => none
  | .dispatchInit i => s.advance i fun
      | .initTask => some .deliver
      | _ => none
  | .exec i =>
      match s.chains[i]? with
      | some (.ready t) =>
          some { s with executed := s.executed ++ [t], chains := s.chains.set i .deliver }
      | _ => none
  | .pull i =>
      match s.chains[i]? with
      | some .deliver =>
          (s.queue.pull s.now).map fun (q, r) =>
            match r with
            | some t => { s with queue := q, chains := s.chains.set i (.ready t) }
            | none => { s with queue := q, chains := s.chains.eraseIdx i }
      | _ => none
  | .waitAll th => if s.busy th then none else some (s.waitAll th)
  | .waitAllWake th =>
      if th ∈ s.waiters ∧ s.queue.concurrency = 0 then some (s.wake th) else none
  | .cancelTask gid =>
      match s.accepted.find? (fun t => t.gid = gid) with
      | some t => some (s.cancelWith (s.queue.removeTask t))
      | none => none
  | .cancelName name => some (s.cancelWith (s.queue.removeName name))
  | .cancelAll => some (s.cancelWith s.queue.remove)
  | .tick => some { s with now := s.now + 1 }
  | .stop => some (s.cancelWith s.queue.stop)

end Concurrent

/-! ### What the queue's calls do -/

namespace ConcurrentQueue

/-- A call that only takes tasks out: the `Remove` family and `Stop`.  It may set `isExit_`
only with everything cleared. -/
structure Shrinks (q q' : ConcurrentQueue) : Prop where
  maps : ∀ p, List.Sublist (q'.whenMapVec p) (q.whenMapVec p)
  waiting : List.Sublist q'.waitingMap q.waitingMap
  concurrency : q'.concurrency = q.concurrency
  maxConcurrency : q'.maxConcurrency = q.maxConcurrency
  waitingAll : q'.waitingAll = q.waitingAll
  exit : q'.isExit = true → q.isExit = true ∨ ((∀ p, q'.whenMapVec p = []) ∧ q'.waitingMap = [])

theorem Shrinks.refl (q : ConcurrentQueue) : Shrinks q q :=
  ⟨fun _ => List.Sublist.refl _, List.Sublist.refl _, rfl, rfl, rfl, .inl⟩

/-- What is left is part of what was there. -/
theorem Shrinks.tasks_le {q q' : ConcurrentQueue} (h : Shrinks q q') : q'.tasks ≤ q.tasks :=
  add_le_add (Multimap.values_le h.maps) (Multiset.coe_le.mpr (h.waiting.map _).subperm)

variable (q : ConcurrentQueue)

theorem remove_shrinks : Shrinks q q.remove := by
  unfold remove
  split
  · exact Shrinks.refl q
  · exact ⟨fun _ => List.nil_sublist _, List.nil_sublist _, rfl, rfl, rfl, .inl⟩

theorem removeName_shrinks (name : String) : Shrinks q (q.removeName name) := by
  unfold removeName
  split
  · exact Shrinks.refl q
  · exact ⟨fun p => Queue.removeName_sublist _ _, Queue.removeName_sublist _ _, rfl, rfl, rfl, .inl⟩

theorem removeTask_shrinks (t : QueueTask) : Shrinks q (q.removeTask t) := by
  unfold removeTask
  split
  · exact Shrinks.refl q
  · split
    · -- the first map that held it loses it
      rename_i p m hf
      obtain ⟨p', -, hp'⟩ := List.exists_of_findSome?_eq_some hf
      obtain ⟨m', hm', he⟩ := Option.map_eq_some_iff.mp hp'
      obtain ⟨rfl, rfl⟩ := Prod.mk.inj he
      refine ⟨fun r => ?_, List.Sublist.refl _, rfl, rfl, rfl, .inl⟩
      dsimp only
      by_cases hr : r = p'
      · subst hr
        rw [Function.update_self]
        exact Queue.removeTask_sublist hm'
      · rw [Function.update_of_ne hr]
    · split
      · rename_i m hm
        exact ⟨fun _ => List.Sublist.refl _, Queue.removeTask_sublist hm, rfl, rfl, rfl, .inl⟩
      · exact Shrinks.refl q

theorem stop_shrinks : Shrinks q q.stop :=
  ⟨fun _ => List.nil_sublist _, List.nil_sublist _, rfl, rfl, rfl, fun _ => .inr ⟨fun _ => rfl, rfl⟩⟩

/-- `PushAndCalConcurrency` answers by the count. -/
theorem pushAndCalConcurrency_cases (t : QueueTask) :
    (q.concurrency < q.maxConcurrency ∧
      q.pushAndCalConcurrency t = ({ q with
        concurrency := q.concurrency + 1
        whenMapVec := if t.delay > 0 then q.fileTask t else q.whenMapVec }, .concurrent)) ∨
    (q.maxConcurrency ≤ q.concurrency ∧
      q.pushAndCalConcurrency t = ({ q with whenMapVec := q.fileTask t }, .succ)) := by
  unfold pushAndCalConcurrency
  by_cases h : q.concurrency < q.maxConcurrency
  · exact .inl ⟨h, by rw [if_pos h]⟩
  · exact .inr ⟨Int.not_lt.mp h, by rw [if_neg h]⟩

theorem push_cases (t : QueueTask) :
    (q.isExit = true ∧ q.push t = (q, .failed)) ∨
    (q.isExit = false ∧ q.waitingAll = true ∧ q.push t = ({ q with
      waitingMap := Multimap.insert (clampPrio t).uptime (clampPrio t) q.waitingMap }, .succ)) ∨
    (q.isExit = false ∧ q.waitingAll = false ∧ q.push t = q.pushAndCalConcurrency (clampPrio t)) := by
  unfold push
  cases hx : q.isExit <;> cases hw : q.waitingAll <;> simp

/-- Filing a task adds it to the values of the maps, and keeps every other map. -/
theorem values_fileTask (t : QueueTask) :
    Multimap.values (q.fileTask t) = Multimap.values q.whenMapVec + {t} := by
  have h := Multimap.values_update q.whenMapVec (prioIndex t)
    (Multimap.insert t.uptime t (q.whenMapVec (prioIndex t)))
  rw [Multimap.map_snd_insert, ← add_assoc] at h
  exact add_right_cancel (h.trans (add_right_comm _ _ _))

/-- `DequeSingleByPriority` takes the head of one map. -/
theorem dequeSingleByPriority_eq {now : Nat} {v v' : Fin 4 → WhenMap} {t : QueueTask}
    (h : dequeSingleByPriority now v = some (t, v')) :
    ∃ p e rest, v p = e :: rest ∧ t = e.2 ∧ v' = Function.update v p rest := by
  unfold dequeSingleByPriority at h
  dsimp only at h
  split at h
  · rename_i e rest hv
    cases h
    exact ⟨_, e, rest, hv, rfl, rfl⟩
  · cases h

/-- What `Pull` can answer: the end of the chain with every map empty (the count goes down),
the end of the chain on exit with a task left, or the head of one map. -/
theorem pull_cases {now : Nat} {q' : ConcurrentQueue} {r : Option QueueTask}
    (h : q.pull now = some (q', r)) :
    ((∀ p, q.whenMapVec p = []) ∧ q' = { q with concurrency := q.concurrency - 1 } ∧ r = none) ∨
    (q.isExit = true ∧ (∃ p, q.whenMapVec p ≠ []) ∧ q' = q ∧ r = none) ∨
    (∃ p e rest, q.isExit = false ∧ q.whenMapVec p = e :: rest ∧ r = some e.2 ∧
      q' = { q with whenMapVec := Function.update q.whenMapVec p rest }) := by
  unfold pull at h
  split at h
  · rename_i hs
    cases h
    refine .inl ⟨fun p => getWhenMapVecStats_eq_none_iff.mp hs p ?_, rfl, rfl⟩
    have := p.isLt
    unfold queuePriorityIdle
    omega
  · rename_i minTime hs
    -- some map is not empty, or the stats would be `none`
    have hne : ∃ p, q.whenMapVec p ≠ [] := by
      by_contra hall
      simp only [ne_eq, not_exists, not_not] at hall
      rw [getWhenMapVecStats_eq_none_iff.mpr fun p _ => hall p] at hs
      cases hs
    split_ifs at h with hw hx
    · cases h
      exact .inr (.inl ⟨hx, hne, rfl, rfl⟩)
    · obtain ⟨⟨t, v⟩, hd, he⟩ := Option.map_eq_some_iff.mp h
      cases he
      obtain ⟨p, e, rest, hv, rfl, rfl⟩ := dequeSingleByPriority_eq hd
      exact .inr (.inr ⟨p, e, rest, by simpa using hx, hv, rfl, rfl⟩)

end ConcurrentQueue

namespace Concurrent

theorem advance_eq {s s' : Concurrent} {i : Nat} {f : CChain → Option CChain}
    (h : s.advance i f = some s') :
    ∃ c c', s.chains[i]? = some c ∧ f c = some c' ∧ s' = { s with chains := s.chains.set i c' } := by
  unfold advance at h
  split at h
  · rename_i c hc
    obtain ⟨c', hf, rfl⟩ := Option.map_eq_some_iff.mp h
    exact ⟨c, c', hc, hf, rfl⟩
  · cases h

/-- **Everything one step can do.**  Submit; move a chain to a phase holding the same task;
run a task; end a chain or hand it the next task by `Pull`; call `WaitAll` or wake from it;
take tasks out; let time pass. -/
theorem step_cases {s s' : Concurrent} {a : ConcurrentAction} (h : s.step a = some s') :
    (∃ th attr, s' = s.submit th attr) ∨
    (∃ i c c', s.chains[i]? = some c ∧ c'.tasks = c.tasks ∧ c'.thread = none ∧
      s' = { s with chains := s.chains.set i c' }) ∨
    (∃ i t, s.chains[i]? = some (.ready t) ∧
      s' = { s with executed := s.executed ++ [t], chains := s.chains.set i .deliver }) ∨
    (∃ i q, s.chains[i]? = some .deliver ∧ s.queue.pull s.now = some (q, none) ∧
      s' = { s with queue := q, chains := s.chains.eraseIdx i }) ∨
    (∃ i q t, s.chains[i]? = some .deliver ∧ s.queue.pull s.now = some (q, some t) ∧
      s' = { s with queue := q, chains := s.chains.set i (.ready t) }) ∨
    (∃ th, s' = s.waitAll th) ∨
    (∃ th, th ∈ s.waiters ∧ s.queue.concurrency = 0 ∧ s' = s.wake th) ∨
    (∃ q, ConcurrentQueue.Shrinks s.queue q ∧ s' = s.cancelWith q) ∨
    s' = { s with now := s.now + 1 } := by
  cases a with
  | submit th attr =>
      simp only [step] at h
      split at h
      · cases h
      · cases h
        exact .inl ⟨th, attr, rfl⟩
  | transfer i =>
      obtain ⟨c, c', hc, hf, rfl⟩ := advance_eq h
      cases c with
      | transfer th t =>
          simp at hf
          subst hf
          exact .inr (.inl ⟨i, .transfer th t, .ready t, hc, rfl, rfl, rfl⟩)
      | _ => simp at hf
  | transferInit i =>
      obtain ⟨c, c', hc, hf, rfl⟩ := advance_eq h
      cases c with
      | transferInit th =>
          simp at hf
          subst hf
          exact .inr (.inl ⟨i, .transferInit th, .initTask, hc, rfl, rfl, rfl⟩)
      | _ => simp at hf
  | dispatchInit i =>
      obtain ⟨c, c', hc, hf, rfl⟩ := advance_eq h
      cases c with
      | initTask =>
          simp at hf
          subst hf
          exact .inr (.inl ⟨i, .initTask, .deliver, hc, rfl, rfl, rfl⟩)
      | _ => simp at hf
  | exec i =>
      simp only [step] at h
      split at h
      · rename_i t hc
        cases h
        exact .inr (.inr (.inl ⟨i, t, hc, rfl⟩))
      · cases h
  | pull i =>
      simp only [step] at h
      split at h
      · rename_i hc
        obtain ⟨⟨q, r⟩, hp, rfl⟩ := Option.map_eq_some_iff.mp h
        cases r with
        | none => exact .inr (.inr (.inr (.inl ⟨i, q, hc, hp, rfl⟩)))
        | some t => exact .inr (.inr (.inr (.inr (.inl ⟨i, q, t, hc, hp, rfl⟩))))
      · cases h
  | waitAll th =>
      simp only [step] at h
      split at h
      · cases h
      · cases h
        exact .inr (.inr (.inr (.inr (.inr (.inl ⟨th, rfl⟩)))))
  | waitAllWake th =>
      simp only [step] at h
      split at h
      · rename_i hw
        cases h
        exact .inr (.inr (.inr (.inr (.inr (.inr (.inl ⟨th, hw.1, hw.2, rfl⟩))))))
      · cases h
  | cancelTask gid =>
      simp only [step] at h
      split at h
      · rename_i t _
        cases h
        exact .inr (.inr (.inr (.inr (.inr (.inr (.inr (.inl
          ⟨_, ConcurrentQueue.removeTask_shrinks _ t, rfl⟩)))))))
      · cases h
  | cancelName name =>
      cases h
      exact .inr (.inr (.inr (.inr (.inr (.inr (.inr (.inl
        ⟨_, ConcurrentQueue.removeName_shrinks _ name, rfl⟩)))))))
  | cancelAll =>
      cases h
      exact .inr (.inr (.inr (.inr (.inr (.inr (.inr (.inl
        ⟨_, ConcurrentQueue.remove_shrinks _, rfl⟩)))))))
  | tick =>
      cases h
      exact .inr (.inr (.inr (.inr (.inr (.inr (.inr (.inr rfl)))))))
  | stop =>
      cases h
      exact .inr (.inr (.inr (.inr (.inr (.inr (.inr (.inl
        ⟨_, ConcurrentQueue.stop_shrinks _, rfl⟩)))))))

/-- `Submit`, by what `Push` answered: nothing on exit; the task diverted into `waitingMap_`
while `WaitAll` waits; a new chain below the limit; the task filed at the limit. -/
theorem submit_cases (s : Concurrent) (th : Nat) (attr : TaskAttr) :
    let t := clampPrio (newTask s.name s.qos s.nextGid s.now attr)
    let s₁ := { s with nextGid := s.nextGid + 1, accepted := s.accepted ++ [t] }
    (s.queue.isExit = true ∧ s.submit th attr = { s with nextGid := s.nextGid + 1 }) ∨
    (s.queue.isExit = false ∧ s.queue.waitingAll = true ∧ s.submit th attr =
      { s₁ with queue := { s.queue with waitingMap := Multimap.insert t.uptime t s.queue.waitingMap } }) ∨
    (s.queue.isExit = false ∧ s.queue.waitingAll = false ∧
      s.queue.concurrency < s.queue.maxConcurrency ∧ s.submit th attr = { s₁ with
        queue := { s.queue with
          concurrency := s.queue.concurrency + 1
          whenMapVec := if t.delay > 0 then s.queue.fileTask t else s.queue.whenMapVec }
        chains := s.chains ++ [if t.delay = 0 then .transfer th t else .transferInit th] }) ∨
    (s.queue.isExit = false ∧ s.queue.waitingAll = false ∧
      s.queue.maxConcurrency ≤ s.queue.concurrency ∧ s.submit th attr =
        { s₁ with queue := { s.queue with whenMapVec := s.queue.fileTask t } }) := by
  dsimp only
  rcases ConcurrentQueue.push_cases s.queue (newTask s.name s.qos s.nextGid s.now attr) with
    ⟨hx, hp⟩ | ⟨hx, hw, hp⟩ | ⟨hx, hw, hp⟩
  · exact .inl ⟨hx, by simp only [submit, hp]⟩
  · exact .inr (.inl ⟨hx, hw, by simp only [submit, hp]⟩)
  · rcases ConcurrentQueue.pushAndCalConcurrency_cases s.queue
      (clampPrio (newTask s.name s.qos s.nextGid s.now attr)) with ⟨hlt, hc⟩ | ⟨hle, hc⟩
    · exact .inr (.inr (.inl ⟨hx, hw, hlt, by simp only [submit, hp, hc, clampPrio_delay]⟩))
    · exact .inr (.inr (.inr ⟨hx, hw, hle, by simp only [submit, hp, hc]⟩))

end Concurrent

end Ffrt.Queue
