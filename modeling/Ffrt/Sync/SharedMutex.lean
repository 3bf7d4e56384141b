import Ffrt.Sync.Mutex

/-!
# Sync — Shared mutex

`SharedMutexPrivate` (`src/sync/shared_mutex.cpp`, `src/sync/shared_mutex_private.h`), the
reader-writer lock behind `ffrt_rwlock_*`: the word `state`, whose top bit `writeEntered` says
that a writer has passed `Lock`'s first loop and whose other bits count the readers; the wait
lists `wList1` and `wList2`; and the callers of `Lock`, `TryLock`, `LockShared`,
`TryLockShared` and `Unlock`, threads and coroutine tasks alike.

A writer waits on `wList1` while another writer has entered, then sets `writeEntered` and waits
on `wList2` while readers remain; a reader waits on `wList1` while `state >= readersMax`.
`Unlock` by the writer clears the word and calls `NotifyAll(wList1)`; by a reader it counts the
reader out and wakes the writer on `wList2` when it was the last, or one waiter of `wList1`
when the readers were at their bound, or all of `wList1` otherwise.  `NotifyAll` pops and wakes
until it has woken a writer, or a reader with a writer first on the list.

Every section under `mut` is one step, except `NotifyAll`, each turn of whose loop is a step of
the caller that runs it, `mut` held in between.  `Wait` pushes the caller's node and blocks in
the step that found the lock taken: on the thread path `ctx->wn.wl` is taken before `mut` is
released and held until `cv.wait` releases it, so no `notify_one` falls in between.  That
`cv.wait(lk)` has no predicate, and `Wait` does not take the node off its list when it returns:
a spurious wake-up sends the caller back to its loop with its node still linked.

* `SharedMutexPrivate`, `RwPc`, `Gate`: the state, where each caller is, and the three loops
  that call `Wait`.
* `step`: the actions of the callers; `Callers` (from `Sync.Mutex`) says how many there are and
  which of them wait on a condition variable.
* `readers`, `entered`: how many callers hold the lock shared, and how many writers have passed
  `Lock`'s first loop; `NoStrand`: nobody waits on `wList1` while nothing will wake it.
-/

namespace Ffrt.Sync

open Intrusive Function

/-- `SharedMutexWaitType`. -/
inductive SharedMutexWaitType
  | normal
  | read
  | write
  deriving DecidableEq, Repr

/-- `wList1` and `wList2`. -/
inductive WList
  | wList1
  | wList2
  deriving DecidableEq, Repr

/-- The nodes of the two lists: their heads, and the node of each caller (`ctx->wn.node` on the
thread path, `task->we.node` on the coroutine path). -/
inductive RwNode
  | head (l : WList)
  | waiter (c : Nat)
  deriving DecidableEq, Repr

/-- The caller whose node it is. -/
def RwNode.caller? : RwNode → Option Nat
  | head _ => none
  | waiter c => some c

/-- The three loops that call `Wait`. -/
inductive Gate
  /-- `Lock`'s first loop, `while (state & writeEntered) Wait(wList1, WRITE)`. -/
  | write
  /-- `Lock`'s second loop, `while (state & readersMax) Wait(wList2, NORMAL)`. -/
  | drain
  /-- `LockShared`'s loop, `while (state >= readersMax) Wait(wList1, READ)`. -/
  | read
  deriving DecidableEq, Repr

namespace Gate

/-- The list the loop waits on. -/
def list : Gate → WList
  | write => .wList1
  | drain => .wList2
  | read => .wList1

/-- The `wtType` the loop waits with. -/
def waitType : Gate → SharedMutexWaitType
  | write => .write
  | drain => .normal
  | read => .read

end Gate

/-- Where a caller is. -/
inductive RwPc
  | idle
  /-- In `Wait` from loop `g`: blocked in `cv.wait`, or a task that `CoWait` suspended. -/
  | blocked (g : Gate)
  /-- Woken, or back from `cv.wait` spuriously: `mut.lock()` and loop `g` are next. -/
  | woken (g : Gate)
  /-- `Lock` or `TryLock` returned. -/
  | writing
  /-- `LockShared` or `TryLockShared` returned. -/
  | reading
  /-- In `Unlock`'s `NotifyAll(wList1)`, `mut` held: the next `PopFront` is due. -/
  | notifying
  deriving DecidableEq, Repr

namespace RwPc

def isBlocked : RwPc → Bool
  | blocked _ => true
  | _ => false

def isWoken : RwPc → Bool
  | woken _ => true
  | _ => false

def isReading : RwPc → Bool
  | reading => true
  | _ => false

/-- Holds the lock, as `Unlock` requires. -/
def holds : RwPc → Bool
  | writing | reading => true
  | _ => false

/-- A writer past `Lock`'s first loop, the one `writeEntered` stands for. -/
def entered : RwPc → Bool
  | writing | blocked .drain | woken .drain => true
  | _ => false

/-- Waits on the list `l`. -/
def waitsOn (l : WList) : RwPc → Bool
  | blocked g => g.list == l
  | _ => false

/-- A caller that will call `Unlock` or take `mut` again: it holds the lock shared, it is a
writer that has entered, or it is a woken waiter. -/
def covers (p : RwPc) : Bool := p.isReading || p.entered || p.isWoken

end RwPc

/-- `writeEntered = 1U << (sizeof(unsigned) * __CHAR_BIT__ - 1)`. -/
def writeEntered : Nat := 1 <<< 31

/-- `readersMax = ~writeEntered`, in the 32 bits of `unsigned`. -/
def readersMax : Nat := 2 ^ 32 - 1 - writeEntered

theorem writeEntered_eq : writeEntered = 2 ^ 31 := by decide

theorem readersMax_eq : readersMax = 2 ^ 31 - 1 := by decide

/-! What the operations of the code on `state` read from a word that holds `e ≤ 1` entered
writers and `r ≤ readersMax` readers. -/

section Word

variable {e r : Nat}

theorem word_and_readersMax (hr : r ≤ readersMax) : (writeEntered * e + r) &&& readersMax = r := by
  rw [readersMax_eq, Nat.and_two_pow_sub_one_eq_mod, writeEntered_eq]
  rw [readersMax_eq] at hr
  omega

theorem word_and_writeEntered (he : e ≤ 1) (hr : r ≤ readersMax) :
    (writeEntered * e + r) &&& writeEntered ≠ 0 ↔ e = 1 := by
  rw [readersMax_eq] at hr
  rw [writeEntered_eq, Nat.and_two_pow, Nat.testBit_two_pow_mul_add _ (by omega)]
  obtain rfl | rfl : e = 0 ∨ e = 1 := by omega
  · simp
  · simp

theorem word_or_writeEntered (hr : r ≤ readersMax) :
    (writeEntered * 0 + r) ||| writeEntered = writeEntered * 1 + r := by
  rw [readersMax_eq] at hr
  rw [writeEntered_eq, Nat.or_two_pow_eq_add_of_lt (by omega)]
  omega

theorem readersMax_le_word (he : e ≤ 1) (hr : r ≤ readersMax) :
    readersMax ≤ writeEntered * e + r ↔ e = 1 ∨ r = readersMax := by
  rw [writeEntered_eq]
  rw [readersMax_eq] at hr ⊢
  omega

theorem word_eq_writeEntered (hr : r ≤ readersMax) :
    writeEntered * e + r = writeEntered ↔ e = 1 ∧ r = 0 := by
  rw [writeEntered_eq]
  rw [readersMax_eq] at hr
  omega

end Word

/-- A `SharedMutexPrivate`, with the `wtType` of every caller's node and where each caller
is. -/
structure SharedMutexPrivate where
  state : Nat
  links : Links RwNode
  wtType : Nat → SharedMutexWaitType
  pc : Nat → RwPc

/-- The actions, each named by its caller. -/
inductive SharedMutexAction
  | lock (c : Nat)
  | tryLock (c : Nat)
  | lockShared (c : Nat)
  | tryLockShared (c : Nat)
  | unlock (c : Nat)
  /-- The next turn of the `NotifyAll` loop that caller `c` runs. -/
  | notifyAll (c : Nat)
  /-- `ctx->wn.cv.wait(lk)` returns with no notify. -/
  | spurious (c : Nat)
  /-- A woken waiter's `mut.lock()`, and its loop again. -/
  | resume (c : Nat)
  deriving DecidableEq, Repr

namespace SharedMutexAction

def caller : SharedMutexAction → Nat
  | lock c | tryLock c | lockShared c | tryLockShared c | unlock c | notifyAll c | spurious c
  | resume c => c

/-- Whether a caller at `p` can run the action. -/
def site (p : RwPc) : SharedMutexAction → Bool
  | lock _ | tryLock _ | lockShared _ | tryLockShared _ => p == .idle
  | unlock _ => p.holds
  | notifyAll _ => p == .notifying
  | spurious _ => p.isBlocked
  | resume _ => p.isWoken

def isSpurious : SharedMutexAction → Bool
  | spurious _ => true
  | _ => false

/-- The action takes `mut`: all but a spurious wake-up, and a turn of `NotifyAll`, whose caller
already holds it. -/
def needsMut : SharedMutexAction → Bool
  | notifyAll _ | spurious _ => false
  | _ => true

end SharedMutexAction

namespace SharedMutexPrivate

/-- `state = 0`, both lists empty, every node linked to itself with `wtType` `NORMAL`. -/
def init : SharedMutexPrivate := ⟨0, Links.single, fun _ => .normal, fun _ => .idle⟩

@[simps -fullyApplied]
def setPc (s : SharedMutexPrivate) (c : Nat) (p : RwPc) : SharedMutexPrivate :=
  { s with pc := update s.pc c p }

/-- `Wait(wList, wtType)` from loop `g`: the caller's node takes the loop's `wtType` and is
pushed on its list, and the caller blocks. -/
@[simps -fullyApplied]
def wait (s : SharedMutexPrivate) (c : Nat) (g : Gate) : SharedMutexPrivate :=
  { s with pc := update s.pc c (.blocked g), wtType := update s.wtType c g.waitType,
           links := s.links.insertBefore (.head g.list) (.waiter c) }

/-- `notify_one` or `CoWake`: a caller blocked in `Wait` is woken; one that is not waiting
misses it. -/
def notify (s : SharedMutexPrivate) (d : Nat) : SharedMutexPrivate :=
  match s.pc d with
  | .blocked g => s.setPc d (.woken g)
  | _ => s

/-- `wList.Front(&WaitEntry::node)`: nothing when the list is empty. -/
def front (s : SharedMutexPrivate) (l : WList) : Option RwNode :=
  if s.links.next (.head l) = .head l then none else some (s.links.next (.head l))

/-- `NotifyOne(wList)`: `PopFront`, and the popped waiter woken. -/
def notifyOne (s : SharedMutexPrivate) (l : WList) : SharedMutexPrivate :=
  match s.links.removeNext (.head l) with
  | some (.waiter d, L) => { s with links := L }.notify d
  | some (.head _, L) => { s with links := L }
  | none => s

/-- Whether `NotifyAll` returns after waking `d`: `d` waited as a writer, or as a reader with a
writer now first on the list. -/
def stopsAfter (s : SharedMutexPrivate) (d : Nat) : Bool :=
  match s.wtType d with
  | .write => true
  | .read =>
      match s.front .wList1 with
      | some (.waiter e) => s.wtType e == .write
      | _ => false
  | .normal => false

/-- One turn of `NotifyAll(wList1)` by caller `c`: `PopFront`; an empty list ends the call;
otherwise the popped waiter is woken, and the call returns or goes on. -/
def notifyAllTurn (s : SharedMutexPrivate) (c : Nat) : SharedMutexPrivate :=
  match s.links.removeNext (.head .wList1) with
  | some (.waiter d, L) =>
      let t := { s with links := L }.notify d
      t.setPc c (if t.stopsAfter d then .idle else .notifying)
  | some (.head _, L) => { s.setPc c .idle with links := L }
  | none => s.setPc c .idle

/-- `Lock`'s second loop: wait on `wList2` while readers remain. -/
def drainLoop (s : SharedMutexPrivate) (c : Nat) : SharedMutexPrivate :=
  if s.state &&& readersMax ≠ 0 then s.wait c .drain else s.setPc c .writing

/-- `Lock`'s first loop: wait on `wList1` while another writer has entered; then
`state |= writeEntered` and the second loop. -/
def writeLoop (s : SharedMutexPrivate) (c : Nat) : SharedMutexPrivate :=
  if s.state &&& writeEntered ≠ 0 then s.wait c .write
  else { s with state := s.state ||| writeEntered }.drainLoop c

/-- `LockShared`'s loop: wait on `wList1` while `state >= readersMax`; then `++state`. -/
def readLoop (s : SharedMutexPrivate) (c : Nat) : SharedMutexPrivate :=
  if readersMax ≤ s.state then s.wait c .read
  else { s.setPc c .reading with state := s.state + 1 }

/-- Caller `c` runs loop `g`, `mut` held. -/
def loop (s : SharedMutexPrivate) (c : Nat) : Gate → SharedMutexPrivate
  | .write => s.writeLoop c
  | .drain => s.drainLoop c
  | .read => s.readLoop c

/-- `Lock`: `lock_guard lg(mut)`, then its first loop. -/
def lock (s : SharedMutexPrivate) (c : Nat) : SharedMutexPrivate := s.loop c .write

def tryLock (s : SharedMutexPrivate) (c : Nat) : SharedMutexPrivate :=
  if s.state = 0 then { s.setPc c .writing with state := writeEntered } else s

/-- `LockShared`: `lock_guard lg(mut)`, then its loop. -/
def lockShared (s : SharedMutexPrivate) (c : Nat) : SharedMutexPrivate := s.loop c .read

def tryLockShared (s : SharedMutexPrivate) (c : Nat) : SharedMutexPrivate :=
  if s.state < readersMax then { s.setPc c .reading with state := s.state + 1 } else s

/-- `Unlock` after `--state`: the writer on `wList2` when the last reader left, one waiter of
`wList1` when the readers were at their bound, all of `wList1` otherwise. -/
def afterDecrement (t : SharedMutexPrivate) (c : Nat) : SharedMutexPrivate :=
  if t.state &&& writeEntered ≠ 0 then
    if t.state = writeEntered then t.notifyOne .wList2 else t
  else if t.state = readersMax - 1 then t.notifyOne .wList1
  else if t.links.next (.head .wList1) ≠ .head .wList1 then t.notifyAllTurn c
  else t

/-- `Unlock` by caller `c`. -/
def unlock (s : SharedMutexPrivate) (c : Nat) : SharedMutexPrivate :=
  let t := s.setPc c .idle
  if s.state = writeEntered then { t with state := 0 }.notifyAllTurn c
  else if 0 < s.state then { t with state := s.state - 1 }.afterDecrement c
  else t

/-- A woken waiter takes `mut` and runs the loop it waited in again. -/
def resume (s : SharedMutexPrivate) (c : Nat) : SharedMutexPrivate :=
  match s.pc c with
  | .woken g => s.loop c g
  | _ => s

def exec (s : SharedMutexPrivate) : SharedMutexAction → SharedMutexPrivate
  | .lock c => s.lock c
  | .tryLock c => s.tryLock c
  | .lockShared c => s.lockShared c
  | .tryLockShared c => s.tryLockShared c
  | .unlock c => s.unlock c
  | .notifyAll c => s.notifyAllTurn c
  -- back in its loop as if notified, with its node still on the list
  | .spurious c => s.notify c
  | .resume c => s.resume c

/-- Nobody holds `mut` between two turns of `NotifyAll`. -/
def MutFree (C : Callers) (s : SharedMutexPrivate) : Prop := ∀ c, c < C.n → s.pc c ≠ .notifying

instance (C : Callers) (s : SharedMutexPrivate) : Decidable (MutFree C s) :=
  inferInstanceAs (Decidable (∀ c, c < C.n → _))

/-- The action's caller is one of the callers and is where the action runs, a spurious wake-up
is a thread's, and `mut` is free when the action takes it. -/
def Enabled (C : Callers) (s : SharedMutexPrivate) (a : SharedMutexAction) : Prop :=
  a.caller < C.n ∧ a.site (s.pc a.caller) = true ∧
    (a.isSpurious = true → C.isThread a.caller = true) ∧ (a.needsMut = true → s.MutFree C)

instance (C : Callers) (s : SharedMutexPrivate) (a : SharedMutexAction) :
    Decidable (Enabled C s a) :=
  inferInstanceAs (Decidable (_ ∧ _ ∧ _ ∧ _))

def step (C : Callers) (s : SharedMutexPrivate) (a : SharedMutexAction) :
    Option SharedMutexPrivate :=
  if Enabled C s a then some (s.exec a) else none

/-- How many of the callers are at a place `q` picks. -/
def countAt (C : Callers) (pc : Nat → RwPc) (q : RwPc → Bool) : Nat :=
  (List.range C.n).countP fun c => q (pc c)

/-- The callers that hold the lock shared. -/
def readers (C : Callers) (pc : Nat → RwPc) : Nat := countAt C pc RwPc.isReading

/-- The writers that have passed `Lock`'s first loop. -/
def entered (C : Callers) (pc : Nat → RwPc) : Nat := countAt C pc RwPc.entered

/-- The callers whose nodes `next` visits from the head of `l`, at most `n + 1` of them. -/
def entries (C : Callers) (s : SharedMutexPrivate) (l : WList) : List Nat :=
  (s.links.walk (.head l) (C.n + 1) (.head l)).filterMap RwNode.caller?

/-- Nobody is stranded on `wList1`: while it is not empty, some caller holds the lock shared,
some writer has entered, or some woken waiter has still to take `mut`. -/
def NoStrand (C : Callers) (s : SharedMutexPrivate) : Prop :=
  s.links.next (.head .wList1) ≠ .head .wList1 → ∃ c, c < C.n ∧ (s.pc c).covers = true

instance (C : Callers) (s : SharedMutexPrivate) : Decidable (NoStrand C s) :=
  inferInstanceAs (Decidable (_ → _))

end SharedMutexPrivate

end Ffrt.Sync
