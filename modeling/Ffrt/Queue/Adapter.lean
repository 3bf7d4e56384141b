import Ffrt.Queue.Base
import Ffrt.Support.Machine

/-!
# Queue — Event handler adapter

An `EventHandlerAdapterQueue` (`src/queue/eventhandler_adapter_queue.cpp`) with the
`QueueHandler` that dispatches it, as a machine like `Serial`: one dispatch chain, started by a
`Push` that answers `INACTIVE`, running one task at a time, and ended by a `Pull` that finds
nothing.

The queue has five maps, one per inner priority (`ffrt_inner_queue_priority_t`, `vip` to
`idle`), and `ffrt_task_attr_set_queue_priority` admits those five: it refuses a priority above
`ffrt_queue_priority_idle + 1`.  `Push` files a task in the map of its priority.  `Pull` decides
that the queue is empty, and how long to wait, by `BaseQueue::GetWhenMapVecStats`, whose loop
stops at `ffrt_queue_priority_idle`, the fourth map; `DequeSingleAgainstStarvation` looks at
all five.

* `setQueuePriority`, `Admitted`: the attribute setter and the priorities it lets through.
* `AdapterQueue`: `whenMapVec_`, `pulledTaskCount_`, `isActiveState_` and `isExit_`, with
  `push`, `pull`, the `Remove` family and `stop`.
* `dequeSingleAgainstStarvation`: the earliest head over the five maps, unless a map below idle
  that has not had five pulls in a row has a due head.
* `Adapter`, `step`: the queue, the chains, the clock and ghost records of what was submitted
  and run; `step_cases` lists what one step can do.
-/

namespace Ffrt.Queue

/-- `ffrt_inner_queue_priority_idle`, the last of the adapter's five priorities. -/
def innerQueuePriorityIdle : Nat := 4

/-- `maxPullTaskCount` of `DequeSingleAgainstStarvation`: after five pulls from one map in a
row, a lower map gets its turn. -/
def maxPullTaskCount : Nat := 5

/-- `ffrt_task_attr_set_queue_priority`: the event handler's priorities go one above the kits'
idle (the setter's comment); a larger one is refused and the attribute is kept. -/
def setQueuePriority (attr : TaskAttr) (prio : Nat) : TaskAttr :=
  if prio > queuePriorityIdle + 1 then attr else { attr with prio := prio }

/-- A priority that `ffrt_task_attr_set_queue_priority` lets through. -/
def Admitted (attr : TaskAttr) : Prop := attr.prio ≤ queuePriorityIdle + 1

instance (attr : TaskAttr) : Decidable (Admitted attr) :=
  inferInstanceAs (Decidable (attr.prio ≤ queuePriorityIdle + 1))

/-- The map `Push` files a task in, `whenMapVec_[taskPriority]`; for an admitted priority the
index is the priority itself. -/
def slot (t : QueueTask) : Fin 5 :=
  ⟨min t.prio innerQueuePriorityIdle, by unfold innerQueuePriorityIdle; omega⟩

/-- The fields of an `EventHandlerAdapterQueue` that its calls read and write. -/
structure AdapterQueue where
  whenMapVec : Fin 5 → WhenMap
  pulledTaskCount : Fin 5 → Nat
  isActiveState : Bool
  isExit : Bool

namespace AdapterQueue

/-- A new queue: empty, inactive. -/
def create : AdapterQueue where
  whenMapVec := fun _ => []
  pulledTaskCount := fun _ => 0
  isActiveState := false
  isExit := false

/-- The maps with `t` filed in the map of its priority: a head insert goes first, under key
`0` (`tmpWhenMap`), any other task under its uptime. -/
def fileTask (v : Fin 5 → WhenMap) (t : QueueTask) : Fin 5 → WhenMap :=
  Function.update v (slot t)
    (if t.insertHead then (0, t) :: v (slot t) else Multimap.insert t.uptime t (v (slot t)))

/-- `EventHandlerAdapterQueue::Push`.  The first push of an inactive queue counts the task as
pulled, activates the queue and files nothing: the caller starts a chain with it. -/
def push (q : AdapterQueue) (t : QueueTask) : AdapterQueue × PushResult :=
  if q.isExit then (q, .failed)
  else if !q.isActiveState then
    ({ q with
        pulledTaskCount := Function.update q.pulledTaskCount (slot t)
          (q.pulledTaskCount (slot t) + 1)
        isActiveState := true }, .inactive)
  else ({ q with whenMapVec := fileTask q.whenMapVec t }, .succ)

/-- The first loop of `DequeSingleAgainstStarvation`: from the idle map on, the map whose head
has the least key; a map below takes over only with a strictly smaller key, or when the map
held so far is empty. -/
def earliestMap (v : Fin 5 → WhenMap) : Fin 5 :=
  (List.finRange 4).foldl
    (fun i idx =>
      match (v idx.castSucc).head?, (v i).head? with
      | some e, some f => if f.1 > e.1 then idx.castSucc else i
      | some _, none => idx.castSucc
      | none, _ => i)
    (Fin.last 4)

/-- The second loop: the first map below idle whose run of pulls is under `maxPullTaskCount`
and whose head is due. -/
def dueMap? (now : Nat) (v : Fin 5 → WhenMap) (cnt : Fin 5 → Nat) : Option (Fin 5) :=
  ((List.finRange 4).find? fun idx =>
    decide (cnt idx.castSucc < maxPullTaskCount) &&
      match (v idx.castSucc).head? with
      | some e => decide (e.1 < now)
      | none => false).map Fin.castSucc

/-- `QueueStrategy::DequeSingleAgainstStarvation`: the head of the chosen map goes; its run of
pulls grows and the runs of the maps above it restart. -/
def dequeSingleAgainstStarvation (now : Nat) (v : Fin 5 → WhenMap) (cnt : Fin 5 → Nat) :
    Option (QueueTask × (Fin 5 → WhenMap) × (Fin 5 → Nat)) :=
  let p := (dueMap? now v cnt).getD (earliestMap v)
  match v p with
  | e :: rest =>
      some (e.2, Function.update v p rest, fun j => if j = p then cnt j + 1 else if j < p then 0 else cnt j)
  | [] => none

/-- `EventHandlerAdapterQueue::Pull` at time `now`: `none` while it waits for `minTime_`; when
`GetWhenMapVecStats` finds nothing the queue goes inactive and the chain ends; on exit the
chain ends as it is. -/
def pull (q : AdapterQueue) (now : Nat) : Option (AdapterQueue × Option QueueTask) :=
  match getWhenMapVecStats q.whenMapVec with
  | none => some ({ q with isActiveState := false }, none)
  | some minTime =>
      if now < minTime ∧ q.isExit = false then none
      else if q.isExit then some (q, none)
      else (dequeSingleAgainstStarvation now q.whenMapVec q.pulledTaskCount).map fun (t, v, c) =>
        ({ q with whenMapVec := v, pulledTaskCount := c }, some t)

/-- `EventHandlerAdapterQueue::Remove()`: `BaseQueue::Remove` on every map, behind its
`isExit_` guard. -/
def remove (q : AdapterQueue) : AdapterQueue :=
  if q.isExit then q else { q with whenMapVec := fun _ => [] }

/-- `EventHandlerAdapterQueue::Remove(name)`. -/
def removeName (q : AdapterQueue) (name : String) : AdapterQueue :=
  if q.isExit then q else { q with whenMapVec := fun p => (Queue.removeName (q.whenMapVec p) name).1 }

/-- `EventHandlerAdapterQueue::Remove(task)`: tried in every map. -/
def removeTask (q : AdapterQueue) (t : QueueTask) : AdapterQueue :=
  if q.isExit then q
  else { q with whenMapVec := fun p => (Queue.removeTask (q.whenMapVec p) t).getD (q.whenMapVec p) }

/-- `EventHandlerAdapterQueue::Stop`: `BaseQueue::Stop` on each map sets `isExit_` and clears
the map. -/
def stop (q : AdapterQueue) : AdapterQueue := { q with isExit := true, whenMapVec := fun _ => [] }

end AdapterQueue

/-- Where the adapter's dispatch chain is. -/
inductive AChain
  /-- `Submit` of a task with no delay got `INACTIVE`; it calls `TransferTask` on it. -/
  | transfer (th : Nat) (t : QueueTask)
  /-- `Submit` of a delayed task got `INACTIVE`; it pushes the task again. -/
  | rePush (th : Nat) (t : QueueTask)
  /-- and then calls `TransferInitTask`. -/
  | transferInit (th : Nat)
  /-- The init task is Ready; its `Dispatch` runs nothing and calls `Deliver`. -/
  | initTask
  /-- The task is Ready; `Dispatch` runs it. -/
  | ready (t : QueueTask)
  /-- `Dispatch` ran its task; `Deliver` calls `Pull`. -/
  | deliver
  deriving DecidableEq, Repr

/-- The submitting thread a chain is still in, if any. -/
def AChain.thread : AChain → Option Nat
  | .transfer th _ => some th
  | .rePush th _ => some th
  | .transferInit th => some th
  | _ => none

/-- An adapter queue and its handler. -/
structure Adapter where
  queue : AdapterQueue
  chains : List AChain
  now : Nat
  /-- The handler's name and QoS, which `Submit` gives its tasks. -/
  name : String
  qos : Int
  nextGid : Nat
  submitted : List (Nat × QueueTask)
  executed : List QueueTask

/-- The start: an idle queue, no chain. -/
def Adapter.init (name : String) (qos : Int) : Adapter where
  queue := AdapterQueue.create
  chains := []
  now := 0
  name := name
  qos := qos
  nextGid := 1
  submitted := []
  executed := []

inductive AdapterAction
  /-- `QueueHandler::Submit` by the thread `th`: construction and `Push`. -/
  | submit (th : Nat) (attr : TaskAttr)
  /-- The chain steps, on the chain at an index. -/
  | transfer (i : Nat)
  | rePush (i : Nat)
  | transferInit (i : Nat)
  | dispatchInit (i : Nat)
  /-- `Dispatch` runs the chain's task. -/
  | exec (i : Nat)
  /-- `Deliver`'s `Pull`. -/
  | pull (i : Nat)
  /-- `QueueHandler::Cancel(task)`, `Cancel(name)`, `Cancel()`. -/
  | cancelTask (gid : Nat)
  | cancelName (name : String)
  | cancelAll
  | tick
  /-- `Stop`, as `CancelAndWait` calls it. -/
  | stop

namespace Adapter

/-- A thread in `Submit` submits nothing else until it returns. -/
def busy (s : Adapter) (th : Nat) : Bool :=
  s.chains.any (fun c => c.thread = some th)

/-- `QueueHandler::Submit` of a new task by the thread `th`. -/
def submit (s : Adapter) (th : Nat) (attr : TaskAttr) : Adapter :=
  let t := newTask s.name s.qos s.nextGid s.now attr
  let (q, r) := s.queue.push t
  let s := { s with queue := q, nextGid := s.nextGid + 1, submitted := s.submitted ++ [(th, t)] }
  match r with
  | .inactive =>
      { s with chains := s.chains ++ [if t.delay = 0 then .transfer th t else .rePush th t] }
  | _ => s

/-- A chain step that needs only the chain. -/
def advance (s : Adapter) (i : Nat) (f : AChain → Option AChain) : Option Adapter :=
  match s.chains[i]? with
  | some c => (f c).map (fun c' => { s with chains := s.chains.set i c' })
  | none => none

/-- One step.  `Submit` takes only a priority the attribute API admits. -/
def step (s : Adapter) : AdapterAction → Option Adapter
  | .submit th attr => if s.busy th ∨ ¬ Admitted attr then none else some (s.submit th attr)
  | .transfer i => s.advance i fun
      | .transfer _ t => some (.ready t)
      | _ => none
  | .rePush i =>
      match s.chains[i]? with
      | some (.rePush th t) =>
          some { s with queue := (s.queue.push t).1, chains := s.chains.set i (.transferInit th) }
      | _ => none
  | .transferInit i => s.advance i fun
      | .transferInit _ => some .initTask
      | _ => none
  | .dispatchInit i => s.advance i fun
      | .initTask => some .deliver
      | _ => none
  | .exec i =>
      match s.chains[i]? with
      | some (.ready t) =>
          some { s with executed := s.executed ++ [t], chains := s.chains.set i .deliver }
      | _ => none
  | .pull i =>
      match s.chains[i]? with
      | some .deliver =>
          (s.queue.pull s.now).map fun (q, r) =>
            match r with
            | some t => { s with queue := q, chains := s.chains.set i (.ready t) }
            | none => { s with queue := q, chains := s.chains.eraseIdx i }
      | _ => none
  | .cancelTask gid =>
      match s.submitted.find? (fun p => p.2.gid = gid) with
      | some (_, t) => some { s with queue := s.queue.removeTask t }
      | none => none
  | .cancelName name => some { s with queue := s.queue.removeName name }
  | .cancelAll => some { s with queue := s.queue.remove }
  | .tick => some { s with now := s.now + 1 }
  | .stop => some { s with queue := s.queue.stop }

end Adapter

/-! ### What a step can do -/

/-- The task a chain holds: the one its submitter hands over, or the one `Dispatch` runs. -/
def AChain.tasks : AChain → List QueueTask
  | .transfer _ t => [t]
  | .rePush _ t => [t]
  | .ready t => [t]
  | _ => []

namespace AdapterQueue

/-- A call that only takes tasks out: the `Remove` family and `Stop`.  It may set `isExit_`
only with every map cleared. -/
structure Shrinks (q q' : AdapterQueue) : Prop where
  maps : ∀ p, List.Sublist (q'.whenMapVec p) (q.whenMapVec p)
  active : q'.isActiveState = q.isActiveState
  exit_of : q.isExit = true → q'.isExit = true
  exit : q'.isExit = true → q.isExit = true ∨ ∀ p, q'.whenMapVec p = []

theorem Shrinks.refl (q : AdapterQueue) : Shrinks q q :=
  ⟨fun _ => List.Sublist.refl _, rfl, id, .inl⟩

variable (q : AdapterQueue)

theorem remove_shrinks : Shrinks q q.remove := by
  unfold remove
  split
  · exact Shrinks.refl q
  · exact ⟨fun _ => List.nil_sublist _, rfl, id, .inl⟩

theorem removeName_shrinks (name : String) : Shrinks q (q.removeName name) := by
  unfold removeName
  split
  · exact Shrinks.refl q
  · exact ⟨fun p => Queue.removeName_sublist _ name, rfl, id, .inl⟩

theorem removeTask_shrinks (t : QueueTask) : Shrinks q (q.removeTask t) := by
  unfold removeTask
  split
  · exact Shrinks.refl q
  · refine ⟨fun p => ?_, rfl, id, .inl⟩
    show List.Sublist ((Queue.removeTask (q.whenMapVec p) t).getD (q.whenMapVec p)) (q.whenMapVec p)
    cases hr : Queue.removeTask (q.whenMapVec p) t with
    | none => exact List.Sublist.refl _
    | some m => exact Queue.removeTask_sublist hr

theorem stop_shrinks : Shrinks q q.stop :=
  ⟨fun _ => List.nil_sublist _, rfl, fun _ => rfl, fun _ => .inr fun _ => rfl⟩

theorem push_cases (t : QueueTask) :
    (q.isExit = true ∧ q.push t = (q, .failed)) ∨
      (q.isExit = false ∧ q.isActiveState = false ∧
        q.push t = ({ q with
          pulledTaskCount := Function.update q.pulledTaskCount (slot t)
            (q.pulledTaskCount (slot t) + 1)
          isActiveState := true }, .inactive)) ∨
      (q.isExit = false ∧ q.isActiveState = true ∧
        q.push t = ({ q with whenMapVec := fileTask q.whenMapVec t }, .succ)) := by
  unfold push
  cases hx : q.isExit <;> cases ha : q.isActiveState <;> simp

theorem dequeSingleAgainstStarvation_eq {now : Nat} {v v' : Fin 5 → WhenMap}
    {cnt cnt' : Fin 5 → Nat} {t : QueueTask}
    (h : dequeSingleAgainstStarvation now v cnt = some (t, v', cnt')) :
    ∃ p e rest, v p = e :: rest ∧ t = e.2 ∧ v' = Function.update v p rest := by
  unfold dequeSingleAgainstStarvation at h
  generalize (dueMap? now v cnt).getD (earliestMap v) = p at h
  dsimp only at h
  split at h
  · rename_i e rest hp
    cases h
    exact ⟨_, e, rest, hp, rfl, rfl⟩
  · cases h

/-- What `Pull` can answer: the end of the chain when the maps it looks at are empty (the
queue goes inactive), the end of the chain on exit, or the head of one map. -/
theorem pull_cases {now : Nat} {q' : AdapterQueue} {r : Option QueueTask}
    (h : q.pull now = some (q', r)) :
    (getWhenMapVecStats q.whenMapVec = none ∧ q' = { q with isActiveState := false } ∧ r = none) ∨
    (q.isExit = true ∧ q' = q ∧ r = none) ∨
    (q.isExit = false ∧ ∃ p e rest cnt, q.whenMapVec p = e :: rest ∧ r = some e.2 ∧
      q' = { q with whenMapVec := Function.update q.whenMapVec p rest, pulledTaskCount := cnt }) := by
  unfold pull at h
  split at h
  · rename_i hs
    cases h
    exact .inl ⟨hs, rfl, rfl⟩
  · split_ifs at h with hn hx
    · cases h
      exact .inr (.inl ⟨hx, rfl, rfl⟩)
    · obtain ⟨⟨t, v, c⟩, hd, he⟩ := Option.map_eq_some_iff.mp h
      cases he
      obtain ⟨p, e, rest, hp, rfl, rfl⟩ := dequeSingleAgainstStarvation_eq hd
      exact .inr (.inr ⟨by simpa using hx, p, e, rest, c, hp, rfl, rfl⟩)

end AdapterQueue

namespace Adapter

theorem advance_eq {s s' : Adapter} {i : Nat} {f : AChain → Option AChain}
    (h : s.advance i f = some s') :
    ∃ c c', s.chains[i]? = some c ∧ f c = some c' ∧ s' = { s with chains := s.chains.set i c' } := by
  unfold advance at h
  split at h
  · rename_i c hc
    obtain ⟨c', hf, rfl⟩ := Option.map_eq_some_iff.mp h
    exact ⟨c, c', hc, hf, rfl⟩
  · cases h

/-- **Everything one step can do.**  Submit with an admitted priority; move a chain to a phase
holding the same task; push a delayed task again; run a task; end a chain or hand it the next
task by `Pull`; remove tasks; let time pass. -/
theorem step_cases {s s' : Adapter} {a : AdapterAction} (h : s.step a = some s') :
    (∃ th attr, s.busy th = false ∧ Admitted attr ∧ s' = s.submit th attr) ∨
    (∃ i c c', s.chains[i]? = some c ∧ c'.tasks = c.tasks ∧ c'.thread = none ∧
      s' = { s with chains := s.chains.set i c' }) ∨
    (∃ i th t, s.chains[i]? = some (.rePush th t) ∧
      s' = { s with queue := (s.queue.push t).1, chains := s.chains.set i (.transferInit th) }) ∨
    (∃ i t, s.chains[i]? = some (.ready t) ∧
      s' = { s with executed := s.executed ++ [t], chains := s.chains.set i .deliver }) ∨
    (∃ i q, s.chains[i]? = some .deliver ∧ s.queue.pull s.now = some (q, none) ∧
      s' = { s with queue := q, chains := s.chains.eraseIdx i }) ∨
    (∃ i q t, s.chains[i]? = some .deliver ∧ s.queue.pull s.now = some (q, some t) ∧
      s' = { s with queue := q, chains := s.chains.set i (.ready t) }) ∨
    (∃ q, AdapterQueue.Shrinks s.queue q ∧ s' = { s with queue := q }) ∨
    s' = { s with now := s.now + 1 } := by
  cases a with
  | submit th attr =>
      simp only [step] at h
      split at h
      · cases h
      · rename_i hb
        cases h
        simp only [not_or, Bool.not_eq_true, not_not] at hb
        exact .inl ⟨th, attr, hb.1, hb.2, rfl⟩
  | transfer i =>
      obtain ⟨c, c', hc, hf, rfl⟩ := advance_eq h
      cases c with
      | transfer th t =>
          simp at hf
          subst hf
          exact .inr (.inl ⟨i, .transfer th t, .ready t, hc, rfl, rfl, rfl⟩)
      | _ => simp at hf
  | transferInit i =>
      obtain ⟨c, c', hc, hf, rfl⟩ := advance_eq h
      cases c with
      | transferInit th =>
          simp at hf
          subst hf
          exact .inr (.inl ⟨i, .transferInit th, .initTask, hc, rfl, rfl, rfl⟩)
      | _ => simp at hf
  | dispatchInit i =>
      obtain ⟨c, c', hc, hf, rfl⟩ := advance_eq h
      cases c with
      | initTask =>
          simp at hf
          subst hf
          exact .inr (.inl ⟨i, .initTask, .deliver, hc, rfl, rfl, rfl⟩)
      | _ => simp at hf
  | rePush i =>
      simp only [step] at h
      split at h
      · rename_i th t hc
        cases h
        exact .inr (.inr (.inl ⟨i, th, t, hc, rfl⟩))
      · cases h
  | exec i =>
      simp only [step] at h
      split at h
      · rename_i t hc
        cases h
        exact .inr (.inr (.inr (.inl ⟨i, t, hc, rfl⟩)))
      · cases h
  | pull i =>
      simp only [step] at h
      split at h
      · rename_i hc
        obtain ⟨⟨q, r⟩, hp, he⟩ := Option.map_eq_some_iff.mp h
        cases r with
        | none =>
            cases he
            exact .inr (.inr (.inr (.inr (.inl ⟨i, q, hc, hp, rfl⟩))))
        | some t =>
            cases he
            exact .inr (.inr (.inr (.inr (.inr (.inl ⟨i, q, t, hc, hp, rfl⟩)))))
      · cases h
  | cancelTask gid =>
      simp only [step] at h
      split at h
      · rename_i th t _
        cases h
        exact .inr (.inr (.inr (.inr (.inr (.inr (.inl ⟨_, AdapterQueue.removeTask_shrinks _ t, rfl⟩))))))
      · cases h
  | cancelName name =>
      cases h
      exact .inr (.inr (.inr (.inr (.inr (.inr (.inl ⟨_, AdapterQueue.removeName_shrinks _ name, rfl⟩))))))
  | cancelAll =>
      cases h
      exact .inr (.inr (.inr (.inr (.inr (.inr (.inl ⟨_, AdapterQueue.remove_shrinks _, rfl⟩))))))
  | tick =>
      cases h
      exact .inr (.inr (.inr (.inr (.inr (.inr (.inr rfl))))))
  | stop =>
      cases h
      exact .inr (.inr (.inr (.inr (.inr (.inr (.inl ⟨_, AdapterQueue.stop_shrinks _, rfl⟩))))))

/-- `Submit`, by what `Push` answered: nothing filed on exit; a new chain holding the task on
an inactive queue; else the task filed in the map of its priority. -/
theorem submit_cases (s : Adapter) (th : Nat) (attr : TaskAttr) :
    let t := newTask s.name s.qos s.nextGid s.now attr
    let s₁ := { s with nextGid := s.nextGid + 1, submitted := s.submitted ++ [(th, t)] }
    (s.queue.isExit = true ∧ s.submit th attr = s₁) ∨
      (s.queue.isExit = false ∧ s.queue.isActiveState = false ∧
        s.submit th attr = { s₁ with
          queue := { s.queue with
            pulledTaskCount := Function.update s.queue.pulledTaskCount (slot t)
              (s.queue.pulledTaskCount (slot t) + 1)
            isActiveState := true }
          chains := s.chains ++ [if t.delay = 0 then .transfer th t else .rePush th t] }) ∨
      (s.queue.isExit = false ∧ s.queue.isActiveState = true ∧
        s.submit th attr = { s₁ with
          queue := { s.queue with whenMapVec := AdapterQueue.fileTask s.queue.whenMapVec t } }) := by
  dsimp only
  rcases AdapterQueue.push_cases s.queue (newTask s.name s.qos s.nextGid s.now attr) with
    ⟨hx, hp⟩ | ⟨hx, ha, hp⟩ | ⟨hx, ha, hp⟩
  · exact .inl ⟨hx, by simp only [submit, hp]⟩
  · exact .inr (.inl ⟨hx, ha, by simp only [submit, hp]⟩)
  · exact .inr (.inr ⟨hx, ha, by simp only [submit, hp]⟩)

end Adapter

end Ffrt.Queue
