import Ffrt.Support.Multimap
import Ffrt.Support.Machine

/-!
# Queue — Task timeout monitors

The watchdog entries that a `QueueHandler` with a timeout puts on the `DelayedWorker` for each
task it runs (`SetTimeoutMonitor`, the callback it installs, `RemoveTimeoutMonitor`, in
`src/queue/queue_handler.cpp`), over the slots of `SimpleAllocator<WaitUntilEntry>`
(`include/util/slab.h`), which every user of the delayed worker shares, and the worker's map
(`DelayedWorker::dispatch`, `remove`, `HandleWork` in `src/sync/delayed_worker.cpp`).

A task's chain calls `SetTimeoutMonitor` before the task runs and `RemoveTimeoutMonitor` after
it finished; the tasks of a concurrent queue run on chains of their own, so their steps
interleave.  `RemoveTimeoutMonitor` reads `IsMonitorTaskStart()`, and only then reads the
entry's `tp` and calls `DelayedRemove`: two steps, between which the worker may run the
callback, which frees the entry, and another waiter may be given the same slot.

* `Slab`: the allocator's cache of free slots, the last freed on top.
* `Monitor`: the slots' `tp` and callbacks, the worker's map, `delayedCbCnt_`, the tasks'
  monitor fields and phases, the clock, and ghost records of each release of a task's monitor
  and of what each `RemoveTimeoutMonitor` took off the map.
* `step`: `setMonitor`, `finish`, `removeCheck`, `removeCall`, `otherWait` (another user of the
  worker, such as the watchdog or the scheduling-deadline checker `we_`), `fire` and `tick`.
-/

namespace Ffrt.Queue

/-- `SimpleAllocator<WaitUntilEntry>`: `primaryCache`, with the slot freed last on top; the
batch's `size` slots, and the next slot `Alloc` takes with `calloc` once the batch is used up. -/
structure Slab where
  cache : List Nat
  size : Nat
  fresh : Nat
  deriving DecidableEq, Repr

namespace Slab

/-- A batch of `size` free slots. -/
def create (size : Nat) : Slab where
  cache := (List.range size).reverse
  size := size
  fresh := size

/-- `SimpleAllocator::Alloc`: the top of the cache, or a new slot past the batch. -/
def alloc (a : Slab) : Nat × Slab :=
  match a.cache with
  | w :: rest => (w, { a with cache := rest })
  | [] => (a.fresh, { a with fresh := a.fresh + 1 })

/-- `SimpleAllocator::free`: a slot of the batch goes back on top of the cache; one past it is
returned to `std::free`. -/
def free (a : Slab) (w : Nat) : Slab :=
  if w < a.size then { a with cache := w :: a.cache } else a

end Slab

/-- Whose callback a `WaitUntilEntry` slot holds. -/
inductive Owner
  /-- The timeout monitor of the handler's task `i`. -/
  | task (i : Nat)
  /-- Another user of the delayed worker, whose callback frees its entry. -/
  | other
  deriving DecidableEq, Repr

/-- Where a task's chain is, as far as its monitor goes. -/
inductive MonPhase
  /-- `Dispatch` is about to call `SetTimeoutMonitor`. -/
  | start
  /-- The task runs. -/
  | running
  /-- `task->Finish()` ran; `RemoveTimeoutMonitor` is next. -/
  | finished
  /-- `RemoveTimeoutMonitor` read `IsMonitorTaskStart()` as `false`. -/
  | removing
  | done
  deriving DecidableEq, Repr

/-- The monitor fields of a `QueueTask`. -/
structure MonTask where
  phase : MonPhase
  monitorWe : Option Nat
  isWeStart : Bool
  isFinished : Bool
  deriving DecidableEq, Repr

/-- A task that has not started. -/
def MonTask.new : MonTask := ⟨.start, none, false, false⟩

/-- A handler's monitors, the delayed worker and the allocator. -/
structure Monitor where
  slab : Slab
  /-- `WaitUntilEntry::tp` of each slot. -/
  tp : Nat → Nat
  /-- The callback in each slot's `cb`; `none` once `FreeMem` destroyed it. -/
  cb : Nat → Option Owner
  /-- `DelayedWorker::map`: (time, slot), in time order. -/
  map : List (Nat × Nat)
  delayedCbCnt : Int
  tasks : List MonTask
  now : Nat
  timeout : Nat
  /-- Each release of a task's monitor: `delayedCbCnt_` down, `DecDeleteRef`, `FreeMem`. -/
  released : List Nat
  /-- What each `RemoveTimeoutMonitor` took off the map: the caller, and the slot's owner. -/
  removed : List (Nat × Option Owner)

/-- `n` tasks of a handler with timeout `timeout`, over a batch of `size` slots. -/
def Monitor.init (n size timeout : Nat) : Monitor where
  slab := Slab.create size
  tp := fun _ => 0
  cb := fun _ => none
  map := []
  delayedCbCnt := 0
  tasks := List.replicate n MonTask.new
  now := 0
  timeout := timeout
  released := []
  removed := []

inductive MonitorAction
  /-- `SetTimeoutMonitor(task i)`. -/
  | setMonitor (i : Nat)
  /-- Task `i` runs to its end: `task->Finish()`. -/
  | finish (i : Nat)
  /-- `RemoveTimeoutMonitor(task i)`: the check of `timeout_` and `IsMonitorTaskStart()`. -/
  | removeCheck (i : Nat)
  /-- Its `DelayedRemove(GetMonitorTask()->tp, GetMonitorTask())` and, on success, the release. -/
  | removeCall (i : Nat)
  /-- Another user allocates an entry and dispatches it `d` from now. -/
  | otherWait (d : Nat)
  /-- `DelayedWorker::HandleWork` on the first entry of the map, when it is due. -/
  | fire
  | tick

namespace Monitor

/-- Task `i`'s fields changed by `f`. -/
def modifyTask (s : Monitor) (i : Nat) (f : MonTask → MonTask) : Monitor :=
  { s with tasks := s.tasks.modify i f }

/-- A new entry: a slot from the allocator, its `tp` and callback set, and dispatched. -/
def dispatchEntry (s : Monitor) (o : Owner) (t : Nat) : Nat × Monitor :=
  let w := s.slab.alloc.1
  (w, { s with
    slab := s.slab.alloc.2
    tp := Function.update s.tp w t
    cb := Function.update s.cb w (some o)
    map := Multimap.insert t w s.map })

/-- `FreeMem`: the slot's callback is destroyed and the slot goes back to the allocator. -/
def freeMem (s : Monitor) (w : Nat) : Monitor :=
  { s with slab := s.slab.free w, cb := Function.update s.cb w none }

/-- The release of task `i`'s monitor in the slot `w`: `delayedCbCnt_.fetch_sub(1)`,
`task->DecDeleteRef()`, `FreeMem`. -/
def release (s : Monitor) (i w : Nat) : Monitor :=
  { s.freeMem w with delayedCbCnt := s.delayedCbCnt - 1, released := s.released ++ [i] }

/-- `SetTimeoutMonitor`: nothing without a timeout; else an entry due `timeout_` from now, with
the task's callback, counted in `delayedCbCnt_`. -/
def setMonitor (s : Monitor) (i : Nat) : Monitor :=
  if s.timeout = 0 then s.modifyTask i fun t => { t with phase := .running }
  else
    let r := s.dispatchEntry (.task i) (s.now + s.timeout)
    { r.2.modifyTask i (fun t => { t with phase := .running, monitorWe := some r.1 }) with
      delayedCbCnt := s.delayedCbCnt + 1 }

/-- The monitor callback of task `j` in the slot `w`: `MonitorTaskStart`, then the release. -/
def runCallback (s : Monitor) (j w : Nat) : Monitor :=
  (s.modifyTask j fun t => { t with isWeStart := true }).release j w

def step (s : Monitor) : MonitorAction → Option Monitor
  | .setMonitor i =>
      match s.tasks[i]? with
      | some t => if t.phase = .start then some (s.setMonitor i) else none
      | none => none
  | .finish i =>
      match s.tasks[i]? with
      | some t =>
          if t.phase = .running then
            some (s.modifyTask i fun t => { t with phase := .finished, isFinished := true })
          else none
      | none => none
  | .removeCheck i =>
      match s.tasks[i]? with
      | some t =>
          if t.phase = .finished then
            some (s.modifyTask i fun t =>
              { t with phase := if s.timeout = 0 ∨ t.isWeStart then .done else .removing })
          else none
      | none => none
  | .removeCall i =>
      match s.tasks[i]? with
      | some ⟨.removing, some w, _, _⟩ =>
          let s' := s.modifyTask i fun t => { t with phase := .done }
          -- the worker's map is searched under the slot's `tp` as it is now
          if (s.tp w, w) ∈ s.map then
            some { s'.release i w with
              map := s.map.erase (s.tp w, w)
              removed := s.removed ++ [(i, s.cb w)] }
          else some s'
      | _ => none
  | .otherWait d => some (s.dispatchEntry .other (s.now + d)).2
  | .fire =>
      match s.map with
      | (k, w) :: rest =>
          if k ≤ s.now then
            let s' := { s with map := rest }
            match s.cb w with
            | some (.task j) => some (s'.runCallback j w)
            | some .other => some (s'.freeMem w)
            | none => some s'
          else none
      | [] => none
  | .tick => some { s with now := s.now + 1 }

/-- **Everything one step can do.**  Set a monitor; change only a task's fields; take an entry
off the map by `RemoveTimeoutMonitor`; dispatch another waiter's entry; run the first due entry's
callback; let time pass. -/
theorem step_cases {s s' : Monitor} {a : MonitorAction} (h : s.step a = some s') :
    (∃ i t, s.tasks[i]? = some t ∧ t.phase = .start ∧ s' = s.setMonitor i) ∨
    (∃ i f, s' = s.modifyTask i f) ∨
    (∃ i w x y, s.tasks[i]? = some ⟨.removing, some w, x, y⟩ ∧ (s.tp w, w) ∈ s.map ∧
      s' = { (s.modifyTask i fun t => { t with phase := .done }).release i w with
        map := s.map.erase (s.tp w, w), removed := s.removed ++ [(i, s.cb w)] }) ∨
    (∃ d, s' = (s.dispatchEntry .other (s.now + d)).2) ∨
    (∃ k w rest, s.map = (k, w) :: rest ∧ k ≤ s.now ∧
      ((∃ j, s.cb w = some (.task j) ∧ s' = { s with map := rest }.runCallback j w) ∨
        (s.cb w = some .other ∧ s' = { s with map := rest }.freeMem w) ∨
        (s.cb w = none ∧ s' = { s with map := rest }))) ∨
    s' = { s with now := s.now + 1 } := by
  cases a with
  | setMonitor i =>
      simp only [step] at h
      split at h
      · rename_i t ht
        split at h
        · rename_i hp
          cases h
          exact .inl ⟨i, t, ht, hp, rfl⟩
        · cases h
      · cases h
  | finish i =>
      simp only [step] at h
      split at h
      · split at h
        · cases h
          exact .inr (.inl ⟨i, _, rfl⟩)
        · cases h
      · cases h
  | removeCheck i =>
      simp only [step] at h
      split at h
      · split at h
        · cases h
          exact .inr (.inl ⟨i, _, rfl⟩)
        · cases h
      · cases h
  | removeCall i =>
      simp only [step] at h
      split at h
      · rename_i w x y hi
        split at h
        · rename_i hm
          cases h
          exact .inr (.inr (.inl ⟨i, w, x, y, hi, hm, rfl⟩))
        · cases h
          exact .inr (.inl ⟨i, _, rfl⟩)
      · cases h
  | otherWait d =>
      cases h
      exact .inr (.inr (.inr (.inl ⟨d, rfl⟩)))
  | fire =>
      simp only [step] at h
      split at h
      · rename_i k w rest hm
        split at h
        · rename_i hk
          refine .inr (.inr (.inr (.inr (.inl ⟨k, w, rest, hm, hk, ?_⟩))))
          split at h
          · rename_i j hj
            cases h
            exact .inl ⟨j, hj, rfl⟩
          · rename_i hj
            cases h
            exact .inr (.inl ⟨hj, rfl⟩)
          · rename_i hj
            cases h
            exact .inr (.inr ⟨hj, rfl⟩)
        · cases h
      · cases h
  | tick =>
      cases h
      exact .inr (.inr (.inr (.inr (.inr rfl))))

end Monitor

end Ffrt.Queue
