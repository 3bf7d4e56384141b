import Ffrt.Support.Intrusive
import Ffrt.Support.Machine

/-!
# Sync — Wait queue

`WaitQueue` (`src/sync/wait_queue.cpp`, `wait_queue.h`), the wait list of ffrt's condition
variable.  The list is threaded through `WaitUntilEntry` nodes from the head `whead`, under
`wqlock`: `push_back` is `InsertBefore` at the head, while `pop_front` and `remove` unlink a node
and set its links to `nullptr`.

* The thread path.  `ThreadWait` (from `SuspendAndWait`) pushes the thread's `ctx->wn` and blocks
  in `cv.wait` with no predicate; when the wait returns it leaves the node on the list.
  `ThreadWaitUntil` stores `INIT`, pushes, blocks in `cv.wait_until`, and afterwards removes the
  node unless a notifier has set `NOTIFYING`.
* The coroutine path.  `SuspendAndWait` and `SuspendAndWaitUntil` allocate a `WaitUntilEntry`,
  push it in the callback `CoWait` runs, and suspend.  `SuspendAndWaitUntil` also arms a
  `DelayedWorker` timer, whose callback runs `WeTimeoutProc` under `wqlock`.
* `Notify`.  It pops entries under `wqlock`.  A thread entry is set `NOTIFYING` and its
  condition variable notified.  A coroutine entry goes through `WeNotifyProc`, which removes the
  entry's timer, or, when the timer has already been claimed, waits with `wqlock` released until
  the callback publishes `TIMEOUT_DONE`; the coroutine is then `CoWake`d.

Each `wqlock` section is one step.  A waiter on the thread path takes `ctx->wn.wl` before it
releases the user's mutex and keeps it until `cv.wait` releases it, and a notifier takes `wl`
before it notifies, so its push and its wait are one step; and a notifier's `notify_one`, made
with `wl` held right after its `wqlock` section, is part of that section's step.  A thread
waiter's condition variable may return with no notify (`spurious`), and a timed one by its
timeout.  The log records what the callers see: pops, `CoWake`s, deletes and returns.
-/

namespace Ffrt.Sync

open Function Intrusive

/-- The nodes the list is threaded through: `nullptr`, `whead`, the `ctx->wn` of thread `t`, and
the `k`-th `WaitUntilEntry` a coroutine allocated. -/
inductive WNode
  | null
  | head
  | thread (t : Nat)
  | co (k : Nat)
  deriving DecidableEq, Repr

/-- `WaitEntryStatus`. -/
inductive EntryStatus
  | init
  | notifying
  | timeoutDone
  deriving DecidableEq, Repr

/-- Where a waiter on the thread path is. -/
inductive ThreadPc
  | idle
  /-- In `cv.wait` (`ThreadWait`), or in `cv.wait_until` (`ThreadWaitUntil`, `timed`). -/
  | blocked (timed : Bool)
  /-- The wait returned, by its timeout when `timedOut`. -/
  | woken (timed timedOut : Bool)
  deriving DecidableEq, Repr

/-- Where a coroutine waiter is. -/
inductive CoPc
  | idle
  /-- Suspended by `CoWait` with its entry `co k` pushed, and a timer when `timed`. -/
  | suspended (k : Nat) (timed : Bool)
  /-- Resumed; `timeout`: its `coWakeType` is `TIMEOUT_WAKE`. -/
  | woken (k : Nat) (timed timeout : Bool)
  deriving DecidableEq, Repr

/-- Where a caller of `Notify` is. -/
inductive NotifierPc
  | idle
  /-- At the head of `Notify`'s loop, `wqlock` held (`one`: `NotifyOne`). -/
  | loop (one : Bool)
  /-- In `WeNotifyProc`, spinning with `wqlock` released until entry `co k` is `TIMEOUT_DONE`;
  `isEmpty` is what `empty()` said after the pop. -/
  | spinning (one : Bool) (k : Nat) (isEmpty : Bool)
  deriving DecidableEq, Repr

/-- What the callers of the wait queue see. -/
inductive WqEvent
  /-- `Notify` popped entry `e`; `woke`: its `notify_one` or `CoWake` reached a waiter. -/
  | popped (e : WNode) (woke : Bool)
  /-- `CoWake` of coroutine `c` for its suspension on `co k`, with `TIMEOUT_WAKE` or not. -/
  | coWake (c k : Nat) (timeout : Bool)
  /-- `delete` of entry `co k`. -/
  | delete (k : Nat)
  /-- The wait on node `w` returned, with `ffrt_error_timedout` when `timedOut`. -/
  | returned (w : WNode) (timedOut : Bool)
  deriving DecidableEq, Repr

/-- A pop whose `notify_one` or `CoWake` reached no waiter. -/
def WqEvent.wokeNone : WqEvent → Bool
  | .popped _ false => true
  | _ => false

structure WaitQueue where
  links : Links WNode
  status : WNode → EntryStatus
  /-- `hasWaitTime` of entry `co k`. -/
  hasWaitTime : Nat → Bool
  /-- The coroutine that allocated entry `co k`, its `task`. -/
  owner : Nat → Nat
  /-- The entries allocated so far are `co 0`, …, `co (nextEntry - 1)`. -/
  nextEntry : Nat
  thread : Nat → ThreadPc
  coroutine : Nat → CoPc
  notifier : Nat → NotifierPc
  /-- The entries whose `DelayedWorker` timer is armed. -/
  armed : List Nat
  /-- The entries whose timer the `DelayedWorker` has taken out, its callback not yet run. -/
  claimed : List Nat
  log : List WqEvent

/-- The thread waiters are threads `0`, …, `threads - 1`. -/
structure Waiters where
  threads : Nat

inductive WqAction
  /-- Thread `t` calls `ThreadWait`, or `ThreadWaitUntil` when `timed`. -/
  | threadWait (t : Nat) (timed : Bool)
  /-- Thread `t`'s condition variable returns with no notify. -/
  | spurious (t : Nat)
  /-- Thread `t`'s `wait_until` returns by its timeout. -/
  | timeout (t : Nat)
  /-- Thread `t` returns from its wait. -/
  | threadReturn (t : Nat)
  /-- Coroutine `c` calls `SuspendAndWait`. -/
  | coWait (c : Nat)
  /-- Coroutine `c` calls `SuspendAndWaitUntil`; `armed`: `DelayedWakeup` took the timer, which
  it does not when the time point has passed. -/
  | coWaitUntil (c : Nat) (armed : Bool)
  /-- Coroutine `c` returns from its wait. -/
  | coReturn (c : Nat)
  /-- The `DelayedWorker` takes the timer of entry `co k` out of its map. -/
  | timerFire (k : Nat)
  /-- The callback of that timer runs. -/
  | timerCb (k : Nat)
  /-- Notifier `n` calls `NotifyOne` (`one`) or `NotifyAll`. -/
  | notify (n : Nat) (one : Bool)
  /-- Notifier `n`'s next section. -/
  | notifyStep (n : Nat)

/-- `push_back`: `InsertBefore` at the head. -/
def pushBack (L : Links WNode) (we : WNode) : Links WNode := L.insertBefore .head we

/-- `pop_front`: `nullptr` when `whead->next` or the node after it is null; otherwise
`whead->next = we->next; we->next->prev = whead; we->next = nullptr; we->prev = nullptr`. -/
def popFront (L : Links WNode) : Option (WNode × Links WNode) :=
  if L.next .head = .null ∨ L.next (L.next .head) = .null then none
  else
    let we := L.next .head
    let L₁ : Links WNode := { L with next := update L.next .head (L.next we) }
    let L₂ : Links WNode := { L₁ with prev := update L₁.prev (L₁.next we) .head }
    let L₃ : Links WNode := { L₂ with next := update L₂.next we .null }
    some (we, { L₃ with prev := update L₃.prev we .null })

/-- `remove`: nothing for a node with a null link; otherwise
`we->prev->next = we->next; we->next->prev = we->prev`, and its links set to null. -/
def remove (L : Links WNode) (we : WNode) : Links WNode :=
  if L.next we = .null ∨ L.prev we = .null then L
  else
    let L₁ : Links WNode := { L with next := update L.next (L.prev we) (L.next we) }
    let L₂ : Links WNode := { L₁ with prev := update L₁.prev (L₁.next we) (L₁.prev we) }
    let L₃ : Links WNode := { L₂ with next := update L₂.next we .null }
    { L₃ with prev := update L₃.prev we .null }

/-- `empty()`. -/
def isEmpty (L : Links WNode) : Bool := L.next .head = .head

namespace WaitQueue

/-- A node's links as its constructor leaves them: `whead` and every `ctx->wn` linked to
themselves (`WaitUntilEntry()`), an entry a coroutine allocates null (`WaitUntilEntry(task)`). -/
def initLink : WNode → WNode
  | .co _ => .null
  | n => n

def init : WaitQueue :=
  ⟨⟨initLink, initLink⟩, fun _ => .init, fun _ => false, fun _ => 0, 0, fun _ => .idle,
    fun _ => .idle, fun _ => .idle, [], [], []⟩

def setThread (s : WaitQueue) (t : Nat) (p : ThreadPc) : WaitQueue :=
  { s with thread := update s.thread t p }

def setCoroutine (s : WaitQueue) (c : Nat) (p : CoPc) : WaitQueue :=
  { s with coroutine := update s.coroutine c p }

def setNotifier (s : WaitQueue) (n : Nat) (p : NotifierPc) : WaitQueue :=
  { s with notifier := update s.notifier n p }

def setStatus (s : WaitQueue) (w : WNode) (x : EntryStatus) : WaitQueue :=
  { s with status := update s.status w x }

def record (s : WaitQueue) (e : WqEvent) : WaitQueue := { s with log := s.log ++ [e] }

/-- `notify_one` on thread `t`'s condition variable: it wakes the thread if it waits there. -/
def notifyThread (s : WaitQueue) (t : Nat) : WaitQueue :=
  match s.thread t with
  | .blocked timed => s.setThread t (.woken timed false)
  | _ => s

/-- The owner of entry `co k` is suspended on it. -/
def Suspended (s : WaitQueue) (k : Nat) : Prop :=
  ∃ timed, s.coroutine (s.owner k) = .suspended k timed

instance (s : WaitQueue) (k : Nat) : Decidable (s.Suspended k) :=
  inferInstanceAs (Decidable (∃ b : Bool, s.coroutine (s.owner k) = .suspended k b))

/-- `CoWake` of the owner of entry `co k`, for its suspension on that entry. -/
def coWake (s : WaitQueue) (k : Nat) (timeout : Bool) : WaitQueue :=
  let c := s.owner k
  let s := s.record (.coWake c k timeout)
  match s.coroutine c with
  | .suspended k' timed => if k' = k then s.setCoroutine c (.woken k timed timeout) else s
  | _ => s

/-- A thread starts to wait: `ThreadWaitUntil` stores `INIT` first; both push `ctx->wn` and
block. -/
def threadWait (s : WaitQueue) (t : Nat) (timed : Bool) : WaitQueue :=
  let s := if timed then s.setStatus (.thread t) .init else s
  { s with links := pushBack s.links (.thread t) }.setThread t (.blocked timed)

/-- A thread's wait returned: `ThreadWaitUntil` removes its node when it timed out or no
notifier set `NOTIFYING`; `ThreadWait` removes nothing. -/
def threadReturn (s : WaitQueue) (t : Nat) (timed timedOut : Bool) : WaitQueue :=
  let s :=
    if timed && (timedOut || s.status (.thread t) != .notifying) then
      { s with links := remove s.links (.thread t) }
    else s
  (s.record (.returned (.thread t) (timed && timedOut))).setThread t .idle

/-- A coroutine allocates the next entry, `new WaitUntilEntry(task)`, with `hasWaitTime` when
it waits with a time point. -/
def allocate (s : WaitQueue) (c : Nat) (timed : Bool) : WaitQueue :=
  { s with nextEntry := s.nextEntry + 1, owner := update s.owner s.nextEntry c,
           hasWaitTime := update s.hasWaitTime s.nextEntry timed }

/-- `SuspendAndWait`: the entry is pushed in `CoWait`'s callback and the coroutine suspends. -/
def coWait (s : WaitQueue) (c : Nat) : WaitQueue :=
  let k := s.nextEntry
  let s := s.allocate c false
  { s with links := pushBack s.links (.co k) }.setCoroutine c (.suspended k false)

/-- `WeTimeoutProc` under `wqlock`: an `INIT` entry is removed and deleted, and the caller is to
wake the coroutine; otherwise a notifier has it, and `TIMEOUT_DONE` is published. -/
def weTimeoutProc (s : WaitQueue) (k : Nat) : WaitQueue × Bool :=
  if s.status (.co k) = .init then
    ({ s with links := remove s.links (.co k) }.record (.delete k), true)
  else (s.setStatus (.co k) .timeoutDone, false)

/-- `SuspendAndWaitUntil`: the entry is pushed and its timer armed in `CoWait`'s callback; when
`DelayedWakeup` refuses the timer, `WeTimeoutProc` runs at once and the coroutine does not
suspend. -/
def coWaitUntil (s : WaitQueue) (c : Nat) (armed : Bool) : WaitQueue :=
  let k := s.nextEntry
  let s := s.allocate c true
  let s := { s with links := pushBack s.links (.co k) }
  if armed then { s with armed := s.armed ++ [k] }.setCoroutine c (.suspended k true)
  else
    let (s, toWake) := s.weTimeoutProc k
    if toWake then s.setCoroutine c (.woken k true true) else s.setCoroutine c (.suspended k true)

/-- A coroutine returns from its wait: `SuspendAndWait` deletes its entry, `SuspendAndWaitUntil`
leaves that to whoever took it. -/
def coReturn (s : WaitQueue) (c k : Nat) (timed timeout : Bool) : WaitQueue :=
  let s := if timed then s else s.record (.delete k)
  (s.record (.returned (.co k) (timed && timeout))).setCoroutine c .idle

/-- The timer's callback: `WeTimeoutProc` under `wqlock`, then `CoWake` with `TIMEOUT_WAKE`
when it is to wake. -/
def timerCb (s : WaitQueue) (k : Nat) : WaitQueue :=
  let s := { s with claimed := s.claimed.erase k }
  let (s, toWake) := s.weTimeoutProc k
  if toWake then s.coWake k true else s

/-- Where a notifier goes after one entry: out of `Notify` when the list was empty after the pop
or it notifies one, else back to the loop. -/
def afterEntry (one isEmpty : Bool) : NotifierPc := if isEmpty || one then .idle else .loop one

/-- One turn of `Notify`'s loop, `wqlock` held: `empty()` or a null `pop_front` ends the call;
otherwise the entry popped is handled by its kind. -/
def notifyLoop (s : WaitQueue) (n : Nat) (one : Bool) : WaitQueue :=
  if isEmpty s.links then s.setNotifier n .idle
  else
    match popFront s.links with
    | none => s.setNotifier n .idle
    | some (we, L) =>
        let empty := isEmpty L
        let s := { s with links := L }
        match we with
        | .co k =>
            let woke := decide (s.Suspended k)
            if !s.hasWaitTime k then
              -- `WeNotifyProc` leaves the entry to its coroutine, which deletes it
              ((s.coWake k false).record (.popped (.co k) woke)).setNotifier n
                (afterEntry one empty)
            else if k ∈ s.armed then
              -- `DelayedRemove` took the timer out
              let s := { s with armed := s.armed.erase k }.record (.delete k)
              ((s.coWake k false).record (.popped (.co k) woke)).setNotifier n
                (afterEntry one empty)
            else
              -- the timer was claimed: `NOTIFYING`, and spin until `TIMEOUT_DONE`
              (s.setStatus (.co k) .notifying).setNotifier n (.spinning one k empty)
        | we =>
            -- a thread entry (`task` null or `BLOCK_THREAD`): `NOTIFYING` under `wl`, and
            -- `notify_one`
            let woke := match we with
              | .thread t => decide (∃ timed, s.thread t = .blocked timed)
              | _ => false
            let s := s.setStatus we .notifying
            let s := match we with
              | .thread t => s.notifyThread t
              | _ => s
            (s.record (.popped we woke)).setNotifier n (afterEntry one empty)

/-- The spin of `WeNotifyProc` ends at `TIMEOUT_DONE`: `wqlock` again, `delete`, and `CoWake`. -/
def notifySpin (s : WaitQueue) (n : Nat) (one : Bool) (k : Nat) (empty : Bool) :
    Option WaitQueue :=
  if s.status (.co k) = .timeoutDone then
    let woke := decide (s.Suspended k)
    let s := s.record (.delete k)
    some (((s.coWake k false).record (.popped (.co k) woke)).setNotifier n (afterEntry one empty))
  else none

def step (W : Waiters) (s : WaitQueue) : WqAction → Option WaitQueue
  | .threadWait t timed =>
      if t < W.threads ∧ s.thread t = .idle then some (s.threadWait t timed) else none
  | .spurious t =>
      match s.thread t with
      | .blocked timed => some (s.setThread t (.woken timed false))
      | _ => none
  | .timeout t =>
      if s.thread t = .blocked true then some (s.setThread t (.woken true true)) else none
  | .threadReturn t =>
      match s.thread t with
      | .woken timed timedOut => some (s.threadReturn t timed timedOut)
      | _ => none
  | .coWait c => if s.coroutine c = .idle then some (s.coWait c) else none
  | .coWaitUntil c armed =>
      if s.coroutine c = .idle then some (s.coWaitUntil c armed) else none
  | .coReturn c =>
      match s.coroutine c with
      | .woken k timed timeout => some (s.coReturn c k timed timeout)
      | _ => none
  | .timerFire k =>
      if k ∈ s.armed then
        some { s with armed := s.armed.erase k, claimed := s.claimed ++ [k] }
      else none
  | .timerCb k => if k ∈ s.claimed then some (s.timerCb k) else none
  | .notify n one => if s.notifier n = .idle then some (s.setNotifier n (.loop one)) else none
  | .notifyStep n =>
      match s.notifier n with
      | .idle => none
      | .loop one => some (s.notifyLoop n one)
      | .spinning one k empty => s.notifySpin n one k empty

/-- The nodes `next` visits from `whead`, at most one more than there are nodes to visit. -/
def entries (W : Waiters) (s : WaitQueue) : List WNode :=
  s.links.walk .head (W.threads + s.nextEntry + 1) .head

/-- The waiter whose node `w` is has not returned from its wait. -/
def Waiting (s : WaitQueue) : WNode → Prop
  | .thread t => s.thread t ≠ .idle
  | .co k => s.Suspended k
  | _ => False

instance (s : WaitQueue) : DecidablePred s.Waiting := fun w =>
  match w with
  | .thread t => inferInstanceAs (Decidable (s.thread t ≠ .idle))
  | .co k => inferInstanceAs (Decidable (s.Suspended k))
  | .null => isFalse id
  | .head => isFalse id

/-- **(i)** The list holds each of its nodes once, and only nodes of waiters that have not
returned. -/
def ListSound (W : Waiters) (s : WaitQueue) : Prop :=
  (entries W s).Nodup ∧ ∀ w ∈ entries W s, s.Waiting w

instance (W : Waiters) (s : WaitQueue) : Decidable (ListSound W s) :=
  inferInstanceAs (Decidable (_ ∧ _))

/-- **(iv)** Every entry a `Notify` popped woke a waiter. -/
def PopsWake (s : WaitQueue) : Prop := ∀ e ∈ s.log, e.wokeNone = false

instance (s : WaitQueue) : Decidable (PopsWake s) :=
  inferInstanceAs (Decidable (∀ e ∈ s.log, _))

/-! ### A spurious wake-up on the thread path -/

/-- **A thread that waits again while its stale node is the last one links it to itself.**
`ThreadWait` returns without taking `ctx->wn` off the list; its next wait pushes the same node,
and `next` from it comes back to it. -/
theorem threadWait_relinks_self (s : WaitQueue) {t : Nat} (timed : Bool)
    (hlast : s.links.prev .head = .thread t) :
    (s.threadWait t timed).links.next (.thread t) = .thread t := by
  have hl : (if timed then s.setStatus (.thread t) .init else s).links = s.links := by
    split <;> rfl
  simp only [threadWait, setThread, pushBack, hl]
  exact Links.insertBefore_last_self _ hlast

/-- **A spurious wake-up leaves a stale entry, and a `NotifyOne` then wakes nobody.**  Thread `0`
waits in `ThreadWait`, and its condition variable returns with no notify: it returns from the
wait with `ctx->wn` still on the list.  Thread `1` then waits, and a `NotifyOne` pops the stale
entry first: its `notify_one` reaches no waiter, and it returns with thread `1` still blocked,
alone on the list. -/
theorem staleEntry_fails :
    (¬ ∀ s, Machine.Reach (step ⟨2⟩) init s → ListSound ⟨2⟩ s) ∧
    ∃ s, Machine.Reach (step ⟨2⟩) init s ∧ ¬ PopsWake s ∧ s.thread 1 = .blocked false ∧
      entries ⟨2⟩ s = [.thread 1] ∧ s.notifier 0 = .idle := by
  refine ⟨Machine.not_always_of_failsAfter [.threadWait 0 false, .spurious 0, .threadReturn 0]
    (by decide +kernel), ?_⟩
  have hrun : Machine.holdsAfter (step ⟨2⟩) init
      [.threadWait 0 false, .spurious 0, .threadReturn 0, .threadWait 1 false, .notify 0 true,
        .notifyStep 0]
      (fun s => ¬ PopsWake s ∧ s.thread 1 = .blocked false ∧ entries ⟨2⟩ s = [.thread 1] ∧
        s.notifier 0 = .idle) = true := by
    decide +kernel
  exact Machine.exists_of_holdsAfter _ hrun

end WaitQueue

end Ffrt.Sync
