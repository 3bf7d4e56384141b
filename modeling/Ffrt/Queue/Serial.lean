import Ffrt.Queue.Base
import Ffrt.Support.Machine

/-!
# Queue — Serial

A `SerialQueue` (`src/queue/serial_queue.cpp`) with the `QueueHandler` that dispatches it
(`src/queue/queue_handler.cpp`), as a machine whose actions are the critical sections of any
number of submitting threads, of the handler's dispatch chains, and of the cancelling calls.

A dispatch chain starts when `Push` answers `INACTIVE`: the submitter hands its task to the
scheduler (`TransferTask`), or, for a delayed task, pushes it again and starts the init task
(`TransferInitTask`).  A worker then runs the chain's tasks (`Dispatch`); after the last it
calls `Deliver`, whose `Pull` either hands over the next batch or, on an empty map, clears
`isActiveState_` and ends the chain.

* `Serial`: the queue's `whenMap_`, `isActiveState_` and `isExit_`, the chains, the clock,
  and three ghost records: the next `gid`, every submission with its thread, and every task
  run, in order.
* `step`: `submit`, the chain steps (`transfer`, `rePush`, `transferInit`, `dispatchInit`,
  `exec`, `pull`), `cancelTask`, `cancelName`, `cancelAll`, `tick` and `stop`.
-/

namespace Ffrt.Queue

/-- The fields of a `SerialQueue` that `Push`, `Pull` and `Remove` read and write. -/
structure SerialQueue where
  whenMap : WhenMap
  isActiveState : Bool
  isExit : Bool
  deriving DecidableEq, Repr

namespace SerialQueue

/-- The key `Push` files a task under: a head insert goes just before the current head. -/
def pushKey (m : WhenMap) (t : QueueTask) : Nat :=
  match m with
  | e :: _ => if t.insertHead then min (e.1 - 1) t.uptime else t.uptime
  | [] => t.uptime

/-- `SerialQueue::Push`.  The first push of an inactive queue activates it and files nothing:
the caller starts a chain with the task. -/
def push (q : SerialQueue) (t : QueueTask) : SerialQueue × PushResult :=
  if q.isExit then (q, .failed)
  else if !q.isActiveState then ({ q with isActiveState := true }, .inactive)
  else ({ q with whenMap := Multimap.insert (pushKey q.whenMap t) t q.whenMap }, .succ)

/-- `SerialQueue::Pull` at time `now`: `none` while it waits for the head's time; the empty
batch is `nullptr`. -/
def pull (q : SerialQueue) (now : Nat) : Option (SerialQueue × List QueueTask) :=
  match q.whenMap with
  | [] => some ({ q with isActiveState := false }, [])
  | e :: _ =>
      if q.isExit then some (q, [])
      else if now < e.1 then none
      else some ({ q with whenMap := (dequeBatch now q.whenMap).2 }, (dequeBatch now q.whenMap).1)

/-- `BaseQueue::Remove(task)`, behind its `isExit_` guard. -/
def removeTask (q : SerialQueue) (t : QueueTask) : SerialQueue :=
  if q.isExit then q
  else match Queue.removeTask q.whenMap t with
    | some m => { q with whenMap := m }
    | none => q

/-- `BaseQueue::Remove(name)`. -/
def removeName (q : SerialQueue) (name : String) : SerialQueue :=
  if q.isExit then q else { q with whenMap := (Queue.removeName q.whenMap name).1 }

/-- `BaseQueue::Remove()`: `ClearWhenMap`. -/
def remove (q : SerialQueue) : SerialQueue :=
  if q.isExit then q else { q with whenMap := [] }

/-- `BaseQueue::Stop`. -/
def stop (q : SerialQueue) : SerialQueue := { q with isExit := true, whenMap := [] }

end SerialQueue

/-- Where a dispatch chain of the handler is. -/
inductive Chain
  /-- `Submit` of a task with no delay got `INACTIVE`; it calls `TransferTask` on it. -/
  | transfer (th : Nat) (t : QueueTask)
  /-- `Submit` of a delayed task got `INACTIVE`; it pushes the task again. -/
  | rePush (th : Nat) (t : QueueTask)
  /-- and then calls `TransferInitTask`. -/
  | transferInit (th : Nat)
  /-- The init task is Ready; its `Dispatch` runs nothing and calls `Deliver`. -/
  | initTask
  /-- These tasks are Ready, linked through `nextTask_`; `Dispatch` runs them in order. -/
  | batch (ts : List QueueTask)
  /-- `Dispatch` ran its last task; `Deliver` calls `Pull`. -/
  | deliver
  deriving DecidableEq, Repr

/-- The submitting thread a chain is still in, if any. -/
def Chain.thread : Chain → Option Nat
  | .transfer th _ => some th
  | .rePush th _ => some th
  | .transferInit th => some th
  | _ => none

/-- A serial queue and its handler. -/
structure Serial where
  queue : SerialQueue
  chains : List Chain
  now : Nat
  /-- The handler's name and QoS, which `Submit` gives its tasks. -/
  name : String
  qos : Int
  nextGid : Nat
  submitted : List (Nat × QueueTask)
  executed : List QueueTask

/-- The start: an idle queue, no chain. -/
def Serial.init (name : String) (qos : Int) : Serial where
  queue := { whenMap := [], isActiveState := false, isExit := false }
  chains := []
  now := 0
  name := name
  qos := qos
  nextGid := 1
  submitted := []
  executed := []

inductive SerialAction
  /-- `QueueHandler::Submit` by the thread `th`: construction and `Push`. -/
  | submit (th : Nat) (attr : TaskAttr)
  /-- The chain steps, on the chain at an index. -/
  | transfer (i : Nat)
  | rePush (i : Nat)
  | transferInit (i : Nat)
  | dispatchInit (i : Nat)
  /-- `Dispatch` runs the next task of the chain's batch. -/
  | exec (i : Nat)
  /-- `Deliver`'s `Pull`. -/
  | pull (i : Nat)
  /-- `QueueHandler::Cancel(task)`, `Cancel(name)`, `Cancel()`. -/
  | cancelTask (gid : Nat)
  | cancelName (name : String)
  | cancelAll
  | tick
  /-- `Stop`, as `CancelAndWait` calls it. -/
  | stop

/-- The actions that take tasks out of the map without running them. -/
def SerialAction.cancels : SerialAction → Bool
  | .cancelTask _ | .cancelName _ | .cancelAll | .stop => true
  | _ => false

namespace Serial

/-- `QueueHandler::Submit` of a new task by the thread `th`, whose earlier `Submit` returned. -/
def submit (s : Serial) (th : Nat) (attr : TaskAttr) : Serial :=
  let t := newTask s.name s.qos s.nextGid s.now attr
  let (q, r) := s.queue.push t
  let s := { s with queue := q, nextGid := s.nextGid + 1, submitted := s.submitted ++ [(th, t)] }
  match r with
  | .inactive =>
      { s with chains := s.chains ++ [if t.delay = 0 then .transfer th t else .rePush th t] }
  | _ => s

/-- A chain step that needs only the chain. -/
def advance (s : Serial) (i : Nat) (f : Chain → Option Chain) : Option Serial :=
  match s.chains[i]? with
  | some c => (f c).map (fun c' => { s with chains := s.chains.set i c' })
  | none => none

def step (s : Serial) : SerialAction → Option Serial
  | .submit th attr =>
      if s.chains.any (fun c => c.thread = some th) then none else some (s.submit th attr)
  | .transfer i => s.advance i fun
      | .transfer _ t => some (.batch [t])
      | _ => none
  | .rePush i =>
      match s.chains[i]? with
      | some (.rePush th t) =>
          some { s with queue := (s.queue.push t).1, chains := s.chains.set i (.transferInit th) }
      | _ => none
  | .transferInit i => s.advance i fun
      | .transferInit _ => some .initTask
      | _ => none
  | .dispatchInit i => s.advance i fun
      | .initTask => some .deliver
      | _ => none
  | .exec i =>
      match s.chains[i]? with
      | some (.batch (t :: rest)) =>
          some { s with
            executed := s.executed ++ [t]
            chains := s.chains.set i (if rest = [] then .deliver else .batch rest) }
      | _ => none
  | .pull i =>
      match s.chains[i]? with
      | some .deliver =>
          (s.queue.pull s.now).map fun (q, b) =>
            if b = [] then { s with queue := q, chains := s.chains.eraseIdx i }
            else { s with queue := q, chains := s.chains.set i (.batch b) }
      | _ => none
  | .cancelTask gid =>
      match s.submitted.find? (fun p => p.2.gid = gid) with
      | some (_, t) => some { s with queue := s.queue.removeTask t }
      | none => none
  | .cancelName name => some { s with queue := s.queue.removeName name }
  | .cancelAll => some { s with queue := s.queue.remove }
  | .tick => some { s with now := s.now + 1 }
  | .stop => some { s with queue := s.queue.stop }

end Serial

/-! ### What a step can do -/

/-- The tasks a chain holds: the one its submitter is handing over, or its batch. -/
def Chain.tasks : Chain → List QueueTask
  | .transfer _ t => [t]
  | .rePush _ t => [t]
  | .batch ts => ts
  | _ => []

/-- The task a chain's `Dispatch` is running or about to run. -/
def Chain.current : Chain → Option QueueTask
  | .batch (t :: _) => some t
  | _ => none

/-- A queue operation that only removes tasks: the `Remove` family and `Stop`. -/
def Shrinks (q q' : SerialQueue) : Prop :=
  List.Sublist q'.whenMap q.whenMap ∧ q'.isActiveState = q.isActiveState ∧
    (q.isExit = true → q'.isExit = true)

namespace SerialQueue

variable (q : SerialQueue)

theorem push_cases (t : QueueTask) :
    (q.isExit = true ∧ q.push t = (q, .failed)) ∨
      (q.isExit = false ∧ q.isActiveState = false ∧
        q.push t = ({ q with isActiveState := true }, .inactive)) ∨
      (q.isExit = false ∧ q.isActiveState = true ∧
        q.push t = ({ q with whenMap := Multimap.insert (pushKey q.whenMap t) t q.whenMap }, .succ)) := by
  unfold push
  cases hx : q.isExit <;> cases ha : q.isActiveState <;> simp

/-- What `Pull` can answer: the end of the chain on an empty map (the queue goes inactive), the
end of the chain on exit, or a batch taken from the front of the map. -/
theorem pull_cases {now : Nat} {q' : SerialQueue} {b : List QueueTask}
    (h : q.pull now = some (q', b)) :
    (q.whenMap = [] ∧ q' = { q with isActiveState := false } ∧ b = []) ∨
      (q.isExit = true ∧ q' = q ∧ b = []) ∨
      (q.isExit = false ∧ b ≠ [] ∧ q'.isActiveState = q.isActiveState ∧ q'.isExit = q.isExit ∧
        ∃ pre, q.whenMap = pre ++ q'.whenMap ∧ b = pre.map Prod.snd) := by
  unfold pull at h
  split at h
  · rename_i hm
    cases h
    exact .inl ⟨hm, rfl, rfl⟩
  · rename_i e m hm
    split_ifs at h with hx hn
    · cases h
      exact .inr (.inl ⟨hx, rfl, rfl⟩)
    · cases h
      obtain ⟨pre, hpre, hb⟩ := dequeBatch_prefix now q.whenMap
      refine .inr (.inr ⟨by simpa using hx, ?_, rfl, rfl, pre, hpre, hb⟩)
      rw [hm]
      simp [dequeBatch]

theorem removeTask_shrinks (t : QueueTask) : Shrinks q (q.removeTask t) := by
  unfold removeTask
  split
  · exact ⟨List.Sublist.refl _, rfl, id⟩
  · split
    · rename_i m hm
      exact ⟨Queue.removeTask_sublist hm, rfl, id⟩
    · exact ⟨List.Sublist.refl _, rfl, id⟩

theorem removeName_shrinks (name : String) : Shrinks q (q.removeName name) := by
  unfold removeName
  split
  · exact ⟨List.Sublist.refl _, rfl, id⟩
  · exact ⟨Queue.removeName_sublist _ _, rfl, id⟩

theorem remove_shrinks : Shrinks q q.remove := by
  unfold remove
  split
  · exact ⟨List.Sublist.refl _, rfl, id⟩
  · exact ⟨List.nil_sublist _, rfl, id⟩

theorem stop_shrinks : Shrinks q q.stop := ⟨List.nil_sublist _, rfl, fun _ => rfl⟩

end SerialQueue

namespace Serial

theorem advance_eq {s s' : Serial} {i : Nat} {f : Chain → Option Chain}
    (h : s.advance i f = some s') :
    ∃ c c', s.chains[i]? = some c ∧ f c = some c' ∧ s' = { s with chains := s.chains.set i c' } := by
  unfold advance at h
  split at h
  · rename_i c hc
    obtain ⟨c', hf, rfl⟩ := Option.map_eq_some_iff.mp h
    exact ⟨c, c', hc, hf, rfl⟩
  · cases h

/-- **Everything one step can do.**  Submit; move a chain to a phase holding the same tasks;
push a delayed task again; run a task; pull; remove tasks, by a cancel; let time pass. -/
theorem step_cases {s s' : Serial} {a : SerialAction} (h : s.step a = some s') :
    (∃ th attr, s' = s.submit th attr) ∨
    (∃ i c c', s.chains[i]? = some c ∧ c'.tasks = c.tasks ∧ c'.thread = none ∧
      c' ≠ .batch [] ∧ s' = { s with chains := s.chains.set i c' }) ∨
    (∃ i th t, s.chains[i]? = some (.rePush th t) ∧
      s' = { s with queue := (s.queue.push t).1, chains := s.chains.set i (.transferInit th) }) ∨
    (∃ i t rest, s.chains[i]? = some (.batch (t :: rest)) ∧
      s' = { s with executed := s.executed ++ [t],
                    chains := s.chains.set i (if rest = [] then .deliver else .batch rest) }) ∨
    (∃ i q b, s.chains[i]? = some .deliver ∧ s.queue.pull s.now = some (q, b) ∧
      s' = if b = [] then { s with queue := q, chains := s.chains.eraseIdx i }
        else { s with queue := q, chains := s.chains.set i (.batch b) }) ∨
    (a.cancels = true ∧ ∃ q, Shrinks s.queue q ∧ s' = { s with queue := q }) ∨
    s' = { s with now := s.now + 1 } := by
  cases a with
  | submit th attr =>
      simp only [step] at h
      split at h
      · cases h
      · cases h; exact .inl ⟨th, attr, rfl⟩
  | transfer i =>
      obtain ⟨c, c', hc, hf, rfl⟩ := advance_eq h
      cases c with
      | transfer th t =>
          simp at hf
          subst hf
          exact .inr (.inl ⟨i, .transfer th t, .batch [t], hc, rfl, rfl, by simp, rfl⟩)
      | _ => simp at hf
  | transferInit i =>
      obtain ⟨c, c', hc, hf, rfl⟩ := advance_eq h
      cases c with
      | transferInit th =>
          simp at hf
          subst hf
          exact .inr (.inl ⟨i, .transferInit th, .initTask, hc, rfl, rfl, by simp, rfl⟩)
      | _ => simp at hf
  | dispatchInit i =>
      obtain ⟨c, c', hc, hf, rfl⟩ := advance_eq h
      cases c with
      | initTask =>
          simp at hf
          subst hf
          exact .inr (.inl ⟨i, .initTask, .deliver, hc, rfl, rfl, by simp, rfl⟩)
      | _ => simp at hf
  | rePush i =>
      simp only [step] at h
      split at h
      · rename_i th t hc
        cases h
        exact .inr (.inr (.inl ⟨i, th, t, hc, rfl⟩))
      · cases h
  | exec i =>
      simp only [step] at h
      split at h
      · rename_i t rest hc
        cases h
        exact .inr (.inr (.inr (.inl ⟨i, t, rest, hc, rfl⟩)))
      · cases h
  | pull i =>
      simp only [step] at h
      split at h
      · rename_i hc
        obtain ⟨⟨q, b⟩, hp, rfl⟩ := Option.map_eq_some_iff.mp h
        exact .inr (.inr (.inr (.inr (.inl ⟨i, q, b, hc, hp, rfl⟩))))
      · cases h
  | cancelTask gid =>
      simp only [step] at h
      split at h
      · rename_i th t _
        cases h
        exact .inr (.inr (.inr (.inr (.inr (.inl ⟨rfl, _, SerialQueue.removeTask_shrinks _ t, rfl⟩)))))
      · cases h
  | cancelName name =>
      cases h
      exact .inr (.inr (.inr (.inr (.inr (.inl ⟨rfl, _, SerialQueue.removeName_shrinks _ name, rfl⟩)))))
  | cancelAll =>
      cases h
      exact .inr (.inr (.inr (.inr (.inr (.inl ⟨rfl, _, SerialQueue.remove_shrinks _, rfl⟩)))))
  | tick =>
      cases h
      exact .inr (.inr (.inr (.inr (.inr (.inr rfl)))))
  | stop =>
      cases h
      exact .inr (.inr (.inr (.inr (.inr (.inl ⟨rfl, _, SerialQueue.stop_shrinks _, rfl⟩)))))

/-- `Submit`, by what `Push` answered: nothing filed on exit; a new chain holding the task on
an inactive queue; else the task filed under its key. -/
theorem submit_cases (s : Serial) (th : Nat) (attr : TaskAttr) :
    let t := newTask s.name s.qos s.nextGid s.now attr
    let s₁ := { s with nextGid := s.nextGid + 1, submitted := s.submitted ++ [(th, t)] }
    (s.queue.isExit = true ∧ s.submit th attr = s₁) ∨
      (s.queue.isExit = false ∧ s.queue.isActiveState = false ∧
        s.submit th attr = { s₁ with
          queue := { s.queue with isActiveState := true }
          chains := s.chains ++ [if t.delay = 0 then .transfer th t else .rePush th t] }) ∨
      (s.queue.isExit = false ∧ s.queue.isActiveState = true ∧
        s.submit th attr = { s₁ with queue := { s.queue with
          whenMap := Multimap.insert (SerialQueue.pushKey s.queue.whenMap t) t s.queue.whenMap } }) := by
  dsimp only
  rcases SerialQueue.push_cases s.queue (newTask s.name s.qos s.nextGid s.now attr) with
    ⟨hx, hp⟩ | ⟨hx, ha, hp⟩ | ⟨hx, ha, hp⟩
  · exact .inl ⟨hx, by simp only [submit, hp]⟩
  · exact .inr (.inl ⟨hx, ha, by simp only [submit, hp]⟩)
  · exact .inr (.inr ⟨hx, ha, by simp only [submit, hp]⟩)

/-! ### One chain at most -/

/-- The chains and the active flag agree: an inactive queue has no chain and no task, an
active one that is not exiting has exactly one chain; no chain holds an empty batch. -/
structure ChainsInv (s : Serial) : Prop where
  le_one : s.chains.length ≤ 1
  inactive : s.queue.isActiveState = false → s.chains = [] ∧ s.queue.whenMap = []
  active : s.queue.isExit = false → s.queue.isActiveState = true → s.chains.length = 1
  batch : Chain.batch [] ∉ s.chains

theorem chainsInv_init (name : String) (qos : Int) : ChainsInv (init name qos) :=
  ⟨by simp [init], fun _ => ⟨rfl, rfl⟩, by simp [init], by simp [init]⟩

namespace ChainsInv

variable {s : Serial} (hI : ChainsInv s)
include hI

/-- A queue with a chain is active. -/
theorem active_of_get {i : Nat} {c : Chain} (hc : s.chains[i]? = some c) :
    s.queue.isActiveState = true := by
  cases ha : s.queue.isActiveState
  · have h₀ := (hI.inactive ha).1
    simp [h₀] at hc
  · rfl

/-- A chain is the only one. -/
theorem eq_singleton {i : Nat} {c : Chain} (hc : s.chains[i]? = some c) :
    i = 0 ∧ s.chains = [c] := by
  have hle := hI.le_one
  match hs : s.chains, hc with
  | [c'], hc' =>
      cases i with
      | zero => simp at hc'; exact ⟨rfl, by rw [hc']⟩
      | succ i => simp at hc'
  | [], hc' => simp at hc'
  | _ :: _ :: _, _ => simp [hs] at hle

end ChainsInv

/-- **The chain invariant is kept by every step.** -/
theorem chainsInv_step {s s' : Serial} {a : SerialAction} (hI : ChainsInv s)
    (h : s.step a = some s') : ChainsInv s' := by
  rcases step_cases h with ⟨th, attr, rfl⟩ | ⟨i, c, c', hc, -, -, hb, rfl⟩ |
    ⟨i, th, t, hc, rfl⟩ | ⟨i, t, rest, hc, rfl⟩ | ⟨i, q, b, hc, hp, rfl⟩ | ⟨-, q, hq, rfl⟩ | rfl
  · -- submit: a chain starts exactly when the queue was inactive, and then it had none
    rcases submit_cases s th attr with ⟨-, he⟩ | ⟨hx, ha, he⟩ | ⟨hx, ha, he⟩ <;> rw [he]
    · exact ⟨hI.le_one, hI.inactive, hI.active, hI.batch⟩
    · have h₀ := (hI.inactive ha).1
      refine ⟨by simp [h₀], fun h => by simp at h, fun _ _ => by simp [h₀], ?_⟩
      simp only [h₀, List.nil_append, List.mem_singleton]
      split <;> simp
    · exact ⟨hI.le_one, fun h => by simp [ha] at h, hI.active, hI.batch⟩
  · obtain ⟨rfl, hs⟩ := hI.eq_singleton hc
    have ha := hI.active_of_get hc
    exact ⟨by simp [hs], fun h => by simp [ha] at h, fun _ _ => by simp [hs], by simp [hs, hb.symm]⟩
  · -- the second push of a delayed task files it: the queue is active
    obtain ⟨rfl, hs⟩ := hI.eq_singleton hc
    have ha := hI.active_of_get hc
    rcases SerialQueue.push_cases s.queue t with ⟨-, hp⟩ | ⟨-, ha', -⟩ | ⟨-, -, hp⟩
    · rw [hp]; exact ⟨by simp [hs], fun h => by simp [ha] at h, fun _ _ => by simp [hs], by simp [hs]⟩
    · simp [ha] at ha'
    · rw [hp]; exact ⟨by simp [hs], fun h => by simp [ha] at h, fun _ _ => by simp [hs], by simp [hs]⟩
  · -- `Dispatch` leaves the batch's rest, or `Deliver` after the last task
    obtain ⟨rfl, hs⟩ := hI.eq_singleton hc
    have ha := hI.active_of_get hc
    refine ⟨by simp [hs], fun h => by simp [ha] at h, fun _ _ => by simp [hs], ?_⟩
    by_cases hr : rest = [] <;> simp [hs, hr]
  · -- `Pull` ends the chain on an empty map (and clears the flag) or on exit
    obtain ⟨rfl, hs⟩ := hI.eq_singleton hc
    have ha := hI.active_of_get hc
    rcases SerialQueue.pull_cases s.queue hp with ⟨hm, rfl, rfl⟩ | ⟨hx, rfl, rfl⟩ |
      ⟨-, hb, ha', hx', -⟩
    · exact ⟨by simp [hs], fun _ => ⟨by simp [hs], hm⟩, fun _ h => by simp at h, by simp [hs]⟩
    · exact ⟨by simp [hs], fun h => by simp [ha] at h, fun h => by simp [hx] at h, by simp [hs]⟩
    · simp only [hb, if_false]
      exact ⟨by simp [hs], fun h => by simp [ha', ha] at h, fun _ _ => by simp [hs],
        by simp [hs, Ne.symm hb]⟩
  · -- a removal keeps the flags and only empties the map further
    obtain ⟨hsub, ha, hx⟩ := hq
    refine ⟨hI.le_one, fun h => ?_, fun h h' => ?_, hI.batch⟩
    · obtain ⟨h₀, hm⟩ := hI.inactive (by simpa [ha] using h)
      exact ⟨h₀, List.eq_nil_of_sublist_nil (hm ▸ hsub)⟩
    · exact hI.active (by cases hx' : s.queue.isExit <;> simp_all) (by simpa [ha] using h')
  · exact ⟨hI.le_one, hI.inactive, hI.active, hI.batch⟩

/-! ### The tasks in the order they run -/

/-- The queue's tasks in the order they run: those that ran, those the chains hold, those in
the map. -/
def pipeline (s : Serial) : List QueueTask :=
  s.executed ++ s.chains.flatMap Chain.tasks ++ s.queue.whenMap.map Prod.snd

/-- `a` and `b` were submitted in this order by one thread, both with no delay and not at the
head. -/
def SubmittedBefore (l : List (Nat × QueueTask)) (a b : QueueTask) : Prop :=
  ∃ th, List.Sublist [(th, a), (th, b)] l ∧ a.delay = 0 ∧ a.insertHead = false ∧
    b.delay = 0 ∧ b.insertHead = false

theorem submittedBefore_append {l : List (Nat × QueueTask)} {th : Nat} {t a b : QueueTask}
    (h : SubmittedBefore (l ++ [(th, t)]) a b) : SubmittedBefore l a b ∨ b = t := by
  obtain ⟨th', hs, ha, ha', hb, hb'⟩ := h
  rcases Multimap.pair_sublist_append hs with hs | ⟨-, he⟩
  · exact .inl ⟨th', hs, ha, ha', hb, hb'⟩
  · exact .inr (Prod.ext_iff.mp he).2

/-- A task submitted last is submitted before nothing. -/
theorem not_submittedBefore_last {l : List (Nat × QueueTask)} {th : Nat} {t x : QueueTask}
    (hf : ∀ p ∈ l, p.2 ≠ t) : ¬ SubmittedBefore (l ++ [(th, t)]) t x := by
  rintro ⟨th', hs, -⟩
  rcases Multimap.pair_sublist_append hs with hs | ⟨hm, -⟩
  · exact hf _ (hs.subset (List.mem_cons_self ..)) rfl
  · exact hf _ hm rfl

/-- The chain and the map hold tasks with known `gid`s, each no later than its uptime allows;
the map is sorted, and a task not inserted at the head is filed under its uptime; a chain
that pushes again holds a delayed task. -/
structure MapInv (s : Serial) : Prop where
  sorted : Multimap.Sorted s.queue.whenMap
  key : ∀ e ∈ s.queue.whenMap, e.2.insertHead = false → e.1 = e.2.uptime
  bound : ∀ t ∈ s.pipeline, t.gid < s.nextGid ∧ t.uptime ≤ s.now + t.delay
  fresh : ∀ p ∈ s.submitted, p.2.gid < s.nextGid
  delayed : ∀ th t, Chain.rePush th t ∈ s.chains → t.delay ≠ 0

/-- No task runs, or is queued to run, before a task its thread submitted earlier with no
delay and not at the head. -/
def OrderInv (s : Serial) : Prop :=
  s.pipeline.Pairwise (fun x y => ¬ SubmittedBefore s.submitted y x)

namespace ChainsInv

variable {s : Serial} (hI : ChainsInv s)
include hI

theorem pipeline_relabel {i : Nat} {c c' : Chain} (hc : s.chains[i]? = some c)
    (ht : c'.tasks = c.tasks) : pipeline { s with chains := s.chains.set i c' } = s.pipeline := by
  obtain ⟨rfl, hs⟩ := hI.eq_singleton hc
  simp [pipeline, hs, ht]

theorem pipeline_exec {i : Nat} {t : QueueTask} {rest : List QueueTask}
    (hc : s.chains[i]? = some (.batch (t :: rest))) :
    pipeline { s with
      executed := s.executed ++ [t]
      chains := s.chains.set i (if rest = [] then .deliver else .batch rest) } = s.pipeline := by
  obtain ⟨rfl, hs⟩ := hI.eq_singleton hc
  by_cases hr : rest = []
  · simp [pipeline, hs, hr, Chain.tasks]
  · simp [pipeline, hs, hr, Chain.tasks]

theorem pipeline_pull {i : Nat} {q : SerialQueue} {b : List QueueTask}
    (hc : s.chains[i]? = some .deliver) (hp : s.queue.pull s.now = some (q, b)) :
    pipeline (if b = [] then { s with queue := q, chains := s.chains.eraseIdx i }
      else { s with queue := q, chains := s.chains.set i (.batch b) }) = s.pipeline := by
  obtain ⟨rfl, hs⟩ := hI.eq_singleton hc
  rcases SerialQueue.pull_cases s.queue hp with ⟨hm, rfl, rfl⟩ | ⟨-, rfl, rfl⟩ |
    ⟨-, hb, -, -, pre, hpre, rfl⟩
  · simp [pipeline, hs, hm, Chain.tasks]
  · simp [pipeline, hs, Chain.tasks]
  · simp only [hb, if_false]
    simp [pipeline, hs, hpre, Chain.tasks]

theorem pipeline_rePush {i th : Nat} {t : QueueTask} (hc : s.chains[i]? = some (.rePush th t)) :
    s.pipeline = s.executed ++ t :: s.queue.whenMap.map Prod.snd ∧
      pipeline { s with queue := (s.queue.push t).1, chains := s.chains.set i (.transferInit th) } =
        s.executed ++ (s.queue.push t).1.whenMap.map Prod.snd := by
  obtain ⟨rfl, hs⟩ := hI.eq_singleton hc
  simp [pipeline, hs, Chain.tasks]

end ChainsInv

theorem pushKey_of_insertHead_false {m : WhenMap} {t : QueueTask} (h : t.insertHead = false) :
    SerialQueue.pushKey m t = t.uptime := by
  unfold SerialQueue.pushKey
  split <;> simp [h]

/-- Filing a task keeps the map sorted, and a task not inserted at the head under its
uptime. -/
theorem sorted_key_insert {m : WhenMap} {t : QueueTask} (hs : Multimap.Sorted m)
    (hk : ∀ e ∈ m, e.2.insertHead = false → e.1 = e.2.uptime) :
    Multimap.Sorted (Multimap.insert (SerialQueue.pushKey m t) t m) ∧
      ∀ e ∈ Multimap.insert (SerialQueue.pushKey m t) t m,
        e.2.insertHead = false → e.1 = e.2.uptime := by
  refine ⟨Multimap.sorted_insert _ _ hs, fun e he hh => ?_⟩
  rcases Multimap.mem_insert.mp he with rfl | he
  · exact pushKey_of_insertHead_false hh
  · exact hk e he hh

/-- `Push` keeps the map sorted and every key the uptime of a tail insert, and adds to the map
at most the task it pushes. -/
theorem push_whenMap {q : SerialQueue} {t : QueueTask} (hs : Multimap.Sorted q.whenMap)
    (hk : ∀ e ∈ q.whenMap, e.2.insertHead = false → e.1 = e.2.uptime) :
    Multimap.Sorted (q.push t).1.whenMap ∧
      (∀ e ∈ (q.push t).1.whenMap, e.2.insertHead = false → e.1 = e.2.uptime) ∧
      ∀ x ∈ (q.push t).1.whenMap, x ∈ q.whenMap ∨ x.2 = t := by
  -- on exit and on an inactive queue the map stays; else the task goes in
  rcases SerialQueue.push_cases q t with ⟨-, hp⟩ | ⟨-, -, hp⟩ | ⟨-, -, hp⟩ <;> rw [hp]
  · exact ⟨hs, hk, fun x hx => .inl hx⟩
  · exact ⟨hs, hk, fun x hx => .inl hx⟩
  · obtain ⟨hs', hk'⟩ := sorted_key_insert (t := t) hs hk
    refine ⟨hs', hk', fun x hx => ?_⟩
    rcases Multimap.mem_insert.mp hx with rfl | hx
    · exact .inr rfl
    · exact .inl hx

theorem mapInv_init (name : String) (qos : Int) : MapInv (init name qos) :=
  ⟨List.Pairwise.nil, by simp [init], by simp [init, pipeline], by simp [init], by simp [init]⟩

/-- **The map invariant is kept by every step.** -/
theorem mapInv_step {s s' : Serial} {a : SerialAction} (hI : ChainsInv s) (hM : MapInv s)
    (h : s.step a = some s') : MapInv s' := by
  rcases step_cases h with ⟨th, attr, rfl⟩ | ⟨i, c, c', hc, ht, hth, -, rfl⟩ |
    ⟨i, th, t, hc, rfl⟩ | ⟨i, t, rest, hc, rfl⟩ | ⟨i, q, b, hc, hp, rfl⟩ | ⟨-, q, hq, rfl⟩ | rfl
  · -- submit: the new task has the next `gid` and its uptime is now plus its delay
    have htg : (newTask s.name s.qos s.nextGid s.now attr).gid = s.nextGid := rfl
    have htu : (newTask s.name s.qos s.nextGid s.now attr).uptime =
        s.now + (newTask s.name s.qos s.nextGid s.now attr).delay := rfl
    have hold : ∀ x ∈ s.pipeline, x.gid < s.nextGid + 1 ∧ x.uptime ≤ s.now + x.delay :=
      fun x hx => ⟨Nat.lt_succ_of_lt (hM.bound x hx).1, (hM.bound x hx).2⟩
    rcases submit_cases s th attr with ⟨-, he⟩ | ⟨-, ha, he⟩ | ⟨-, -, he⟩ <;> rw [he] <;>
      set t := newTask s.name s.qos s.nextGid s.now attr
    all_goals
      have hfresh : ∀ p ∈ s.submitted ++ [(th, t)], p.2.gid < s.nextGid + 1 := by
        intro p hp
        rcases List.mem_append.mp hp with hp | hp
        · exact Nat.lt_succ_of_lt (hM.fresh p hp)
        · simp at hp; subst hp; simp [htg]
    · exact ⟨hM.sorted, hM.key, hold, hfresh, hM.delayed⟩
    · obtain ⟨h₀, hm⟩ := hI.inactive ha
      refine ⟨by simp [hm, Multimap.Sorted], by simp [hm], ?_, hfresh, ?_⟩
      · intro x hx
        simp only [pipeline, h₀, hm, List.nil_append, List.flatMap_cons, List.flatMap_nil,
          List.append_nil, List.map_nil, List.mem_append] at hx
        rcases hx with hx | hx
        · exact hold x (by simp [pipeline, h₀, hm, hx])
        · split at hx <;> simp [Chain.tasks] at hx <;> subst hx <;> simp [htg, htu]
      · intro th' t' hm'
        simp only [h₀, List.nil_append, List.mem_singleton] at hm'
        split at hm' <;> simp_all
    · obtain ⟨hs', hk'⟩ := sorted_key_insert (t := t) hM.sorted hM.key
      refine ⟨hs', hk', ?_, hfresh, hM.delayed⟩
      intro x hx
      simp only [pipeline, List.mem_append, List.mem_map] at hx
      rcases hx with (hx | hx) | ⟨e, he, rfl⟩
      · exact hold x (by simp [pipeline, hx])
      · exact hold x (by simp [pipeline, hx])
      · rcases Multimap.mem_insert.mp he with rfl | he
        · simp [htg, htu]
        · exact hold e.2 (List.mem_append_right _ (List.mem_map.mpr ⟨e, he, rfl⟩))
  · -- a chain moves to a phase with the same tasks, out of its submitter
    refine ⟨hM.sorted, hM.key, ?_, hM.fresh, fun th t hm => ?_⟩
    · rw [hI.pipeline_relabel hc ht]
      exact hM.bound
    · rcases List.mem_or_eq_of_mem_set hm with hm | rfl
      · exact hM.delayed th t hm
      · simp [Chain.thread] at hth
  · -- the second push files the task the chain held
    obtain ⟨hpl, hpl'⟩ := hI.pipeline_rePush hc
    obtain ⟨hs', hk', hmem⟩ := push_whenMap (t := t) hM.sorted hM.key
    refine ⟨hs', hk', ?_, hM.fresh, fun th' t' hm => ?_⟩
    · intro x hx
      rw [hpl'] at hx
      apply hM.bound x
      rw [hpl]
      rcases List.mem_append.mp hx with hx | hx
      · exact List.mem_append_left _ hx
      · obtain ⟨e, he, rfl⟩ := List.mem_map.mp hx
        rcases hmem e he with he | he
        · exact List.mem_append_right _ (List.mem_cons_of_mem _ (List.mem_map.mpr ⟨e, he, rfl⟩))
        · exact List.mem_append_right _ (he ▸ List.mem_cons_self ..)
    · rcases List.mem_or_eq_of_mem_set hm with hm | hm
      · exact hM.delayed th' t' hm
      · cases hm
  · -- `Dispatch` runs a task: it moves from the chain to the record of runs
    refine ⟨hM.sorted, hM.key, ?_, hM.fresh, fun th' t' hm => ?_⟩
    · rw [hI.pipeline_exec hc]
      exact hM.bound
    · rcases List.mem_or_eq_of_mem_set hm with hm | hm
      · exact hM.delayed th' t' hm
      · split at hm <;> cases hm
  · -- `Pull` moves a prefix of the map into the chain
    have hpl := hI.pipeline_pull hc hp
    rcases SerialQueue.pull_cases s.queue hp with ⟨hm, rfl, rfl⟩ | ⟨-, rfl, rfl⟩ |
      ⟨-, hb, -, -, pre, hpre, rfl⟩
    · simp only [if_true] at hpl ⊢
      refine ⟨hM.sorted, hM.key, hpl ▸ hM.bound, hM.fresh, fun th' t' hm' => ?_⟩
      exact hM.delayed th' t' (List.mem_of_mem_eraseIdx hm')
    · simp only [if_true] at hpl ⊢
      refine ⟨hM.sorted, hM.key, hpl ▸ hM.bound, hM.fresh, fun th' t' hm' => ?_⟩
      exact hM.delayed th' t' (List.mem_of_mem_eraseIdx hm')
    · simp only [hb, if_false] at hpl ⊢
      have hsub : List.Sublist q.whenMap s.queue.whenMap := hpre ▸ List.sublist_append_right _ _
      refine ⟨Multimap.Sorted.sublist hsub hM.sorted, fun e he => hM.key e (hsub.subset he),
        hpl ▸ hM.bound, hM.fresh, fun th' t' hm' => ?_⟩
      rcases List.mem_or_eq_of_mem_set hm' with hm' | hm'
      · exact hM.delayed th' t' hm'
      · cases hm'
  · -- a removal takes tasks out of the map
    obtain ⟨hsub, -, -⟩ := hq
    refine ⟨Multimap.Sorted.sublist hsub hM.sorted, fun e he => hM.key e (hsub.subset he),
      fun x hx => hM.bound x ?_, hM.fresh, hM.delayed⟩
    simp only [pipeline, List.mem_append, List.mem_map] at hx ⊢
    rcases hx with hx | ⟨e, he, rfl⟩
    · exact .inl hx
    · exact .inr ⟨e, hsub.subset he, rfl⟩
  · -- time passes: every uptime bound still holds
    refine ⟨hM.sorted, hM.key, fun x hx => ?_, hM.fresh, hM.delayed⟩
    have := hM.bound x hx
    exact ⟨this.1, by simp only at this ⊢; omega⟩

theorem orderInv_init (name : String) (qos : Int) : OrderInv (init name qos) := by
  simp [OrderInv, pipeline, init]

/-- A task that is no zero-delay tail insert stands in no submission-order pair. -/
theorem not_submittedBefore_of_delay {l : List (Nat × QueueTask)} {t : QueueTask}
    (hd : t.delay ≠ 0) (x : QueueTask) : ¬ SubmittedBefore l t x ∧ ¬ SubmittedBefore l x t :=
  ⟨fun ⟨_, _, h, _⟩ => hd h, fun ⟨_, _, _, _, h, _⟩ => hd h⟩

/-- **The order invariant is kept by every step.**  `Submit` files a zero-delay task after
every task filed under a key not greater than now, which includes every earlier zero-delay
task of its thread still in the map; the chain steps and `Pull` move tasks along the pipeline
without reordering it; the second push of a delayed task moves a task no pair involves. -/
theorem orderInv_step {s s' : Serial} {a : SerialAction} (hI : ChainsInv s) (hM : MapInv s)
    (hO : OrderInv s) (h : s.step a = some s') : OrderInv s' := by
  unfold OrderInv at hO ⊢
  rcases step_cases h with ⟨th, attr, rfl⟩ | ⟨i, c, c', hc, ht, -, -, rfl⟩ |
    ⟨i, th, t, hc, rfl⟩ | ⟨i, t, rest, hc, rfl⟩ | ⟨i, q, b, hc, hp, rfl⟩ | ⟨-, q, hq, rfl⟩ | rfl
  · -- submit: the new task is no earlier task, so the old pairs are the pairs of old tasks
    rcases submit_cases s th attr with ⟨-, he⟩ | ⟨-, ha, he⟩ | ⟨-, -, he⟩ <;> rw [he] <;>
      set t := newTask s.name s.qos s.nextGid s.now attr with htdef
    all_goals
      have hnew : ∀ p ∈ s.submitted, p.2 ≠ t := fun p hp he =>
        absurd (hM.fresh p hp) (by rw [he]; exact Nat.lt_irrefl _)
      have hold : ∀ x ∈ s.pipeline, x ≠ t := fun x hx he =>
        absurd (hM.bound x hx).1 (by rw [he]; exact Nat.lt_irrefl _)
      have himp : ∀ {x y}, x ∈ s.pipeline → y ∈ s.pipeline →
          ¬ SubmittedBefore s.submitted y x → ¬ SubmittedBefore (s.submitted ++ [(th, t)]) y x :=
        fun hx _ hxy h' => (submittedBefore_append h').elim hxy (hold _ hx)
    · exact hO.imp_of_mem himp
    · -- an inactive queue had no chain and no task: the new chain holds the new task last
      obtain ⟨h₀, hm⟩ := hI.inactive ha
      have hpl : s.pipeline = s.executed := by simp [pipeline, h₀, hm]
      have htasks : (if t.delay = 0 then Chain.transfer th t else .rePush th t).tasks = [t] := by
        split <;> rfl
      simp only [pipeline, h₀, hm, List.nil_append, List.flatMap_cons, List.flatMap_nil,
        List.append_nil, List.map_nil, htasks]
      rw [hpl] at hO himp
      refine List.pairwise_append.mpr ⟨hO.imp_of_mem himp, List.pairwise_singleton _ _, ?_⟩
      intro x _ y hy
      rw [List.mem_singleton.mp hy]
      exact not_submittedBefore_last hnew
    · -- the task goes after every key up to now: no earlier zero-delay task follows it
      obtain ⟨l₁, l₂, hm, hi, -, h₂⟩ :=
        Multimap.insert_split (SerialQueue.pushKey s.queue.whenMap t) t hM.sorted
      have hpl : s.pipeline = (s.executed ++ s.chains.flatMap Chain.tasks ++ l₁.map Prod.snd) ++
          l₂.map Prod.snd := by simp [pipeline, hm]
      have hpl' : pipeline { s with
          queue := { s.queue with
            whenMap := Multimap.insert (SerialQueue.pushKey s.queue.whenMap t) t s.queue.whenMap }
          nextGid := s.nextGid + 1
          submitted := s.submitted ++ [(th, t)] } =
          (s.executed ++ s.chains.flatMap Chain.tasks ++ l₁.map Prod.snd) ++ t :: l₂.map Prod.snd := by
        simp [pipeline, hi]
      rw [hpl']
      rw [hpl] at hO himp
      refine Multimap.pairwise_insert (hO.imp_of_mem himp) (fun x _ => not_submittedBefore_last hnew)
        ?_
      intro y hy hyt
      obtain ⟨e, he, rfl⟩ := List.mem_map.mp hy
      obtain ⟨-, -, hyd, hyh, htd, hth⟩ := hyt
      -- the new task is filed under now, the old one under its uptime, which is at most now
      have hk : SerialQueue.pushKey s.queue.whenMap t = s.now := by
        have htu : t.uptime = s.now + t.delay := rfl
        rw [pushKey_of_insertHead_false hth, htu, htd, Nat.add_zero]
      have hem : e ∈ s.queue.whenMap := hm ▸ List.mem_append_right _ he
      have hlt := h₂ e he
      have hkey := hM.key e hem hyh
      have hb := (hM.bound e.2 (List.mem_append_right _ (List.mem_map.mpr ⟨e, hem, rfl⟩))).2
      omega
  · rw [hI.pipeline_relabel hc ht]
    exact hO
  · -- the second push moves the delayed task into the map
    obtain ⟨hpl, hpl'⟩ := hI.pipeline_rePush hc
    have hd : t.delay ≠ 0 := by
      obtain ⟨rfl, hs⟩ := hI.eq_singleton hc
      exact hM.delayed th t (by simp [hs])
    rw [hpl']
    rw [hpl] at hO
    rcases SerialQueue.push_cases s.queue t with ⟨-, hp⟩ | ⟨-, ha, -⟩ | ⟨-, -, hp⟩
    · rw [hp]
      exact hO.sublist (List.Sublist.append_left (List.sublist_cons_self _ _) _)
    · simp [hI.active_of_get hc] at ha
    · rw [hp]
      obtain ⟨l₁, l₂, hm, hi, -, -⟩ :=
        Multimap.insert_split (SerialQueue.pushKey s.queue.whenMap t) t hM.sorted
      rw [hi, List.map_append, List.map_cons, ← List.append_assoc]
      rw [hm, List.map_append] at hO
      exact Multimap.pairwise_move (fun x => not_submittedBefore_of_delay hd x) hO
  · rw [hI.pipeline_exec hc]
    exact hO
  · have hsub : (if b = [] then { s with queue := q, chains := s.chains.eraseIdx i }
        else { s with queue := q, chains := s.chains.set i (.batch b) }).submitted =
        s.submitted := by split <;> rfl
    rw [hI.pipeline_pull hc hp, hsub]
    exact hO
  · obtain ⟨hsub, -, -⟩ := hq
    exact hO.sublist (List.Sublist.append_left (hsub.map _) _)
  · exact hO

end Serial

end Ffrt.Queue
